import FfTest.DecodeLoop.Pipeline
import Mathlib.Algebra.BigOperators.Group.List.Basic
import Mathlib.Algebra.Order.Ring.Int
import Mathlib.Data.BitVec

/-! # The timer of the receive loop

`decode` reads `t1` anew for every call of `avcodec_receive_frame`, but reads `t2` and adds to
`m_time_usage[2]` only once, behind the loop: the timer shows the last round alone.
`timerCovers_iff` says when that is still as much as all the calls took. -/

namespace FfTest

/-! ## Times -/

/-- The time in microseconds. -/
def Timeval.us (t : Timeval) : ℤ := t.tvSec * 1000000 + t.tvUsec

/-- `util_diff_time_us` is the time from one reading to the other, as a `uint32_t`. -/
theorem utilDiffTimeUs_eq (t1 t2 : Timeval) :
    utilDiffTimeUs t1 t2 = BitVec.ofInt 32 (t2.us - t1.us) := by
  have hus : (t2.tvSec - t1.tvSec) * 1000000 + t2.tvUsec - t1.tvUsec = t2.us - t1.us := by
    unfold Timeval.us
    omega
  rw [utilDiffTimeUs, hus]

/-- The clock does not run backwards. -/
def NonDecreasing (clock : ℕ → Timeval) : Prop := ∀ j k, j ≤ k → (clock j).us ≤ (clock k).us

/-- The time from moment `j` to moment `k`. -/
def timeBetween (clock : ℕ → Timeval) (j k : ℕ) : ℤ := (clock k).us - (clock j).us

namespace Codec

variable {P F : Type*} {C : Codec P F}

/-- How many frames can be received in a row. -/
def ready (C : Codec P F) (s : C.State) : ℕ :=
  match _h : C.receive s with
  | (.frame _, s') => ready C s' + 1
  | _ => 0
termination_by C.backlog s
decreasing_by exact C.backlog_lt _h

/-- One frame more. -/
theorem ready_of_frame {s s' : C.State} {f : F} (h : C.receive s = (.frame f, s')) :
    C.ready s = C.ready s' + 1 := by
  rw [ready]
  split <;> simp_all

/-- Those are the frames that are taken. -/
theorem Takes.ready_eq {s s' : C.State} {fs : List F} {r : RecvRet F} (h : C.Takes s fs r s') :
    C.ready s = fs.length := by
  induction h with
  | stop receive last =>
    rw [ready]
    split
    · rename_i heq
      rw [receive] at heq
      cases heq
      exact absurd rfl (last _)
    · rfl
  | frame receive rest ih =>
    rw [ready_of_frame receive, ih, List.length_cons]

end Codec

namespace DecoderImpl

variable {B F : Type*} {C : Codec (AVPacket B) F}

/-- The state in which `decode` comes to the receive loop, when the codec has taken the packet. -/
def atLoop (d : DecoderImpl C) : DecoderImpl C :=
  (d.sent .ok (C.send d.codecCtx d.toSend).2).call (.frameAlloc true)

/-! ## The calls of the loop -/

/-- How long the calls of `avcodec_receive_frame` in the loop take, first call first. A call begins
at the moment behind the one at which `t1` is read for it. -/
def receiveTimes (clock : ℕ → Timeval) (d : DecoderImpl C) : List ℤ :=
  timeBetween clock (d.moment + 1) (d.moment + 2) ::
    match _h : C.receive d.codecCtx with
    | (.frame f, s) => receiveTimes clock ((d.tick.received (.frame f) s).deliver f)
    | _ => []
termination_by C.backlog d.codecCtx
decreasing_by exact C.backlog_lt _h

/-- How long the call of the round that begins at moment `m` takes. -/
def callTime (clock : ℕ → Timeval) (m : ℕ) : ℤ := timeBetween clock (m + 1) (m + 2)

/-- There is a round of three moments for every frame, and one more. -/
theorem receiveTimes_eq {clock : ℕ → Timeval} {s s' : C.State} {fs : List F} {r : RecvRet F}
    (takes : C.Takes s fs r s') :
    ∀ {d : DecoderImpl C}, d.codecCtx = s → d.receiveTimes clock =
      (List.range (fs.length + 1)).map fun k => callTime clock (d.moment + 3 * k) := by
  -- along the frames; each round begins three moments after the one before
  induction takes with
  | stop receive last =>
    rintro d rfl
    rw [receiveTimes]
    split
    · rename_i heq
      rw [receive] at heq
      cases heq
      exact absurd rfl (last _)
    · rfl
  | @frame s₀ s₁ s₂ f fs r receive rest ih =>
    rintro d rfl
    have hnext := ih (d := (d.tick.received (.frame f) s₁).deliver f) rfl
    rw [receiveTimes]
    split
    · rename_i heq
      rw [receive] at heq
      cases heq
      rw [hnext, List.length_cons, List.range_succ_eq_map (n := fs.length + 1), List.map_cons,
        List.map_map]
      refine congrArg (_ :: ·) (List.map_congr_left fun k _ => ?_)
      show callTime clock (d.moment + 1 + 2 + 3 * k) = callTime clock (d.moment + 3 * (k + 1))
      congr 1
      omega
    · rename_i hother
      exact absurd receive (hother _ _)

/-- They are the calls on record. -/
theorem length_receiveTimes (clock : ℕ → Timeval) {d : DecoderImpl C} {fs : List F}
    {r : RecvRet F} {s : C.State} (takes : C.Takes d.codecCtx fs r s) :
    (d.receiveTimes clock).length =
      (codecCalls (loopCalls fs r : List (LibCall B F))).length := by
  rw [receiveTimes_eq takes rfl, codecCalls_loopCalls, List.length_map, List.length_range,
    List.length_replicate]

/-! ## What `decode` adds to the timer -/

/-- The time is added to the entry. -/
theorem timeUsage_addTime (d : DecoderImpl C) (i : Fin 10) (t1 t2 : Timeval) :
    (d.addTime i t1 t2).timeUsage i = d.timeUsage i + utilDiffTimeUs t1 t2 :=
  Function.update_self ..

/-- A call of `decode` leaves its receive loop by `break`. -/
def LeavesLoop (clock : ℕ → Timeval) (d : DecoderImpl C) (frameAlloc : Bool) : Prop :=
  (C.send d.codecCtx d.toSend).1 = .ok ∧ frameAlloc = true ∧
    ∃ t1, (d.atLoop.receiveLoop clock).1 = .breaks t1

/-- The moment at which `t2` is read behind the loop. -/
def loopEnd (clock : ℕ → Timeval) (d : DecoderImpl C) : ℕ := (d.atLoop.receiveLoop clock).2.moment

/-- The receive loop, where the frames `fs` are taken before the codec asks for input. -/
theorem receiveLoop_of_takes (clock : ℕ → Timeval) {d : DecoderImpl C} {fs : List F} {s : C.State}
    (takes : C.Takes d.codecCtx fs .again s) :
    d.receiveLoop clock =
      (.breaks (clock (d.moment + 3 * fs.length)), d.looped fs .again s) := by
  have hloop := receiveLoop_effect clock d
  generalize d.receiveLoop clock = out at hloop ⊢
  obtain ⟨exit, d'⟩ := out
  cases hloop with
  | breaks takes' =>
    obtain ⟨rfl, -, rfl⟩ := takes.unique takes'
    rfl
  | eof takes' => cases (takes.unique takes').2.1
  | error takes' => cases (takes.unique takes').2.1

/-- The loop is left by `break` where the codec asks for input in the end. -/
theorem leavesLoop_iff {clock : ℕ → Timeval} {d : DecoderImpl C} {frameAlloc : Bool} :
    d.LeavesLoop clock frameAlloc ↔
      (C.send d.codecCtx d.toSend).1 = .ok ∧ frameAlloc = true ∧
        ∃ fs s, C.Takes d.atLoop.codecCtx fs .again s := by
  refine and_congr_right fun _ => and_congr_right fun _ => ?_
  constructor
  · rintro ⟨t1, hexit⟩
    have hloop := receiveLoop_effect clock d.atLoop
    generalize d.atLoop.receiveLoop clock = out at hloop hexit
    obtain ⟨exit, d'⟩ := out
    cases hloop with
    | breaks takes => exact ⟨_, _, takes⟩
    | eof _ => cases hexit
    | error _ => cases hexit
  · rintro ⟨fs, s, takes⟩
    exact ⟨_, congrArg Prod.fst (receiveLoop_of_takes clock takes)⟩

/-- There are three moments to each round of the loop. -/
theorem loopEnd_eq (clock : ℕ → Timeval) {d : DecoderImpl C} {fs : List F} {s : C.State}
    (takes : C.Takes d.atLoop.codecCtx fs .again s) :
    d.loopEnd clock = d.atLoop.moment + 3 * fs.length + 3 := by
  rw [loopEnd, receiveLoop_of_takes clock takes]
  rfl

/-- **The last round is measured.** `decode` adds the time from the last reading of `t1` to the
reading of `t2`. -/
theorem LeavesLoop.timeUsage {clock : ℕ → Timeval} {d : DecoderImpl C} {frameAlloc : Bool}
    (h : d.LeavesLoop clock frameAlloc) {fs : List F} {s : C.State}
    (takes : C.Takes d.atLoop.codecCtx fs .again s) :
    (d.decode clock frameAlloc).2.timeUsage 2 = d.timeUsage 2 +
      utilDiffTimeUs (clock (d.atLoop.moment + 3 * fs.length)) (clock (d.loopEnd clock)) := by
  obtain ⟨hok, rfl, -⟩ := h
  have send : C.send d.codecCtx d.toSend = (.ok, (C.send d.codecCtx d.toSend).2) :=
    Prod.ext hok rfl
  have hloop : ((d.sent .ok (C.send d.codecCtx d.toSend).2).call
      (.frameAlloc true)).receiveLoop clock = _ := receiveLoop_of_takes clock takes
  rw [decode_eq_afterSend send, afterSend, loopEnd, receiveLoop_of_takes clock takes]
  simp only [Bool.true_eq_false, if_false]
  rw [hloop]
  exact timeUsage_addTime ..

/-! ## What the timer shows -/

/-- By how much `m_time_usage[i]` grows in a call of `decode`. -/
def timeGrown (clock : ℕ → Timeval) (d : DecoderImpl C) (frameAlloc : Bool) (i : Fin 10) : ℕ :=
  ((d.decode clock frameAlloc).2.timeUsage i - d.timeUsage i).toNat

/-- The timer `m_time_usage[i]` covers the calls: it grows by no less than they take together, and
by no more than the time from the reading before the first of them to the reading behind the
loop. -/
def TimerCovers (clock : ℕ → Timeval) (d : DecoderImpl C) (frameAlloc : Bool) (i : Fin 10) : Prop :=
  (d.atLoop.receiveTimes clock).sum ≤ d.timeGrown clock frameAlloc i ∧
    d.timeGrown clock frameAlloc i ≤ timeBetween clock d.atLoop.moment (d.loopEnd clock)

/-- The time around the last call: from the reading of `t1` to its beginning, and from its end to
the reading of `t2`. -/
def aroundLastCall (clock : ℕ → Timeval) (d : DecoderImpl C) : ℤ :=
  let m := d.moment + 3 * C.ready d.codecCtx
  timeBetween clock m (m + 1) + timeBetween clock (m + 2) (m + 3)

/-- The calls before the last one take no longer than passes around the last one. -/
def EarlierCallsFit (clock : ℕ → Timeval) (d : DecoderImpl C) : Prop :=
  (d.receiveTimes clock).dropLast.sum ≤ d.aroundLastCall clock

/-- Where no frame is received there are no calls before the last one. -/
theorem earlierCallsFit_of_again {clock : ℕ → Timeval} (hclock : NonDecreasing clock)
    {d : DecoderImpl C} {s : C.State} (h : C.receive d.codecCtx = (.again, s)) :
    d.EarlierCallsFit clock := by
  have takes : C.Takes d.codecCtx [] .again s := .stop h fun _ hr => by cases hr
  have hbefore : (clock d.moment).us ≤ (clock (d.moment + 1)).us := hclock _ _ (Nat.le_succ _)
  have hafter : (clock (d.moment + 2)).us ≤ (clock (d.moment + 3)).us := hclock _ _ (Nat.le_succ _)
  rw [EarlierCallsFit, aroundLastCall, takes.ready_eq, receiveTimes_eq takes rfl]
  show 0 ≤ timeBetween clock d.moment (d.moment + 1) +
    timeBetween clock (d.moment + 2) (d.moment + 3)
  unfold timeBetween
  omega

/-- With the frames `fs` in the loop, the calls before the last one are as many as the frames. -/
theorem receiveTimes_dropLast {clock : ℕ → Timeval} {d : DecoderImpl C} {fs : List F}
    {r : RecvRet F} {s : C.State} (takes : C.Takes d.codecCtx fs r s) :
    d.receiveTimes clock =
      (d.receiveTimes clock).dropLast ++ [callTime clock (d.moment + 3 * fs.length)] := by
  rw [receiveTimes_eq takes rfl, List.range_succ, List.map_append, List.map_singleton,
    List.dropLast_concat]

/-- The timer grows by the time of the last round. -/
theorem LeavesLoop.timeGrown_eq {clock : ℕ → Timeval} (hclock : NonDecreasing clock)
    {d : DecoderImpl C} {frameAlloc : Bool} (h : d.LeavesLoop clock frameAlloc)
    (helapsed : timeBetween clock d.atLoop.moment (d.loopEnd clock) < 2 ^ 32) {fs : List F}
    {s : C.State} (takes : C.Takes d.atLoop.codecCtx fs .again s) :
    (d.timeGrown clock frameAlloc 2 : ℤ) =
      timeBetween clock (d.atLoop.moment + 3 * fs.length) (d.loopEnd clock) := by
  have hend := loopEnd_eq clock takes
  have hfirst : (clock d.atLoop.moment).us ≤ (clock (d.atLoop.moment + 3 * fs.length)).us :=
    hclock _ _ (Nat.le_add_right ..)
  have hlast : (clock (d.atLoop.moment + 3 * fs.length)).us ≤ (clock (d.loopEnd clock)).us :=
    hclock _ _ (by omega)
  rw [timeGrown, h.timeUsage takes, BitVec.add_comm, BitVec.add_sub_cancel, utilDiffTimeUs_eq,
    BitVec.toNat_ofInt]
  unfold timeBetween at helapsed ⊢
  omega

/-- **When the timer covers the calls.** For every clock that does not run backwards, and every call
of `decode` that leaves its receive loop within less than 2 ^ 32 microseconds: `m_time_usage[2]`
covers the calls iff those before the last one take no longer than passes around the last one. -/
theorem timerCovers_iff {clock : ℕ → Timeval} (hclock : NonDecreasing clock)
    {d : DecoderImpl C} {frameAlloc : Bool} (hleaves : d.LeavesLoop clock frameAlloc)
    (helapsed : timeBetween clock d.atLoop.moment (d.loopEnd clock) < 2 ^ 32) :
    d.TimerCovers clock frameAlloc 2 ↔ d.atLoop.EarlierCallsFit clock := by
  obtain ⟨-, -, fs, s, takes⟩ := leavesLoop_iff.mp hleaves
  have hfirst : (clock d.atLoop.moment).us ≤ (clock (d.atLoop.moment + 3 * fs.length)).us :=
    hclock _ _ (Nat.le_add_right ..)
  have hsum : (d.atLoop.receiveTimes clock).sum = (d.atLoop.receiveTimes clock).dropLast.sum +
      callTime clock (d.atLoop.moment + 3 * fs.length) := by
    conv_lhs => rw [receiveTimes_dropLast takes]
    rw [List.sum_append, List.sum_singleton]
  rw [TimerCovers, hleaves.timeGrown_eq hclock helapsed takes, hsum, EarlierCallsFit,
    aroundLastCall, takes.ready_eq, loopEnd_eq clock takes]
  simp only [callTime, timeBetween]
  constructor
  · rintro ⟨hlower, -⟩
    omega
  · intro hfit
    exact ⟨by omega, by omega⟩

end DecoderImpl

/-- A decoder whose codec holds two frames back, which the packet brings out. -/
def holdingDecoder : DecoderImpl delay.codec :=
  { delayDecoder with pkt := delayPacket [], codecCtx := ⟨[.frame 1, .frame 2], [], false⟩ }

/-- The two frames are taken. -/
theorem holdingDecoder_takes :
    delay.codec.Takes holdingDecoder.atLoop.codecCtx [1, 2] .again ⟨[], [], false⟩ :=
  .frame rfl (.frame rfl (.stop rfl nofun))

/-- The loop is left by `break`. -/
theorem holdingDecoder_leavesLoop (clock : ℕ → Timeval) : holdingDecoder.LeavesLoop clock true :=
  DecoderImpl.leavesLoop_iff.mpr ⟨rfl, rfl, _, _, holdingDecoder_takes⟩

/-- Where the clock goes on by a microsecond each moment, the time around the last call is just
enough for two more calls. -/
theorem timerCovers_steadyClock : holdingDecoder.TimerCovers (fun k => ⟨0, k⟩) true 2 := by
  have hclock : NonDecreasing fun k => ⟨0, k⟩ := by
    intro j k hjk
    simp only [Timeval.us]
    omega
  refine (DecoderImpl.timerCovers_iff hclock (holdingDecoder_leavesLoop _) ?_).mpr ?_
  · rw [DecoderImpl.loopEnd_eq _ holdingDecoder_takes]
    decide
  · rw [DecoderImpl.EarlierCallsFit, DecoderImpl.receiveTimes_eq holdingDecoder_takes rfl,
      DecoderImpl.aroundLastCall, holdingDecoder_takes.ready_eq]
    decide

/-- A clock on which only the first call in the loop takes time. -/
def firstCallClock (k : ℕ) : Timeval := ⟨0, if k ≤ 2 then 0 else 1000⟩

/-- It does not run backwards. -/
theorem firstCallClock_nonDecreasing : NonDecreasing firstCallClock := by
  intro j k hjk
  simp only [Timeval.us, firstCallClock]
  split <;> split <;> omega

/-- No more than that time passes. -/
theorem timeBetween_firstCallClock_lt (j k : ℕ) : timeBetween firstCallClock j k < 2 ^ 32 := by
  simp only [timeBetween, Timeval.us, firstCallClock]
  split <;> split <;> omega

/-- The timer does not show the time of the first call where it is not the last one. -/
theorem not_timerCovers :
    ¬ ∀ (C : Codec.{0, 0, 0} (AVPacket (List (Outcome ℕ))) ℕ) (clock : ℕ → Timeval)
      (d : DecoderImpl C) (frameAlloc : Bool), NonDecreasing clock →
        d.LeavesLoop clock frameAlloc →
          timeBetween clock d.moment (d.loopEnd clock) < 2 ^ 32 →
            d.TimerCovers clock frameAlloc 2 := by
  intro hall
  have hleaves := holdingDecoder_leavesLoop firstCallClock
  have hcovers := (hall _ _ holdingDecoder true firstCallClock_nonDecreasing hleaves
    (timeBetween_firstCallClock_lt ..)).1
  rw [hleaves.timeGrown_eq firstCallClock_nonDecreasing (timeBetween_firstCallClock_lt ..)
      holdingDecoder_takes,
    DecoderImpl.receiveTimes_eq holdingDecoder_takes rfl,
    DecoderImpl.loopEnd_eq _ holdingDecoder_takes] at hcovers
  revert hcovers
  decide

end FfTest
