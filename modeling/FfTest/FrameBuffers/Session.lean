import FfTest.FrameBuffers.FramePool
import FfTest.Foundations.EventMachine

/-! # Calls of `lavc_GetFrame` over the life of a decoder

A `FrameSession` is a `DecoderImpl` with its codec context, the frames handed out and not released,
and the calls of the system allocator. Its events are calls of `lavc_GetFrame`, releases of frames,
and the replacement of the codec context by a new one, whose pool is zeroed. `PlanesEffect` says
once which ways the loop over the planes can end. -/

namespace FfTest

variable {κ : Type*}

/-- One call of `lavc_GetFrame`. -/
structure GetFrameCall where
  /-- `pix_fmt` of the codec context. -/
  pixFmt : ℤ
  /-- `format` of the frame. -/
  format : ℤ
  /-- `width` of the frame. -/
  width : ℤ
  /-- `height` of the frame. -/
  height : ℤ
  /-- What `memalign` and `av_buffer_create` answer. -/
  answers : PlaneAnswers

/-- What can happen to a decoder's frames. -/
inductive FrameEvent (κ : Type*)
  /-- The codec asks for a frame. -/
  | getFrame (call : GetFrameCall)
  /-- The `k`-th of the frames that are out is released. -/
  | release (k : ℕ)
  /-- The codec context is closed, and one for `codec` is opened. -/
  | reopen (codec : κ) (isVideo : Bool)

/-- A decoder with its frames. -/
structure FrameSession (κ : Type*) where
  /-- The codec of the context. -/
  codec : κ
  /-- Whether it is a video codec. -/
  isVideo : Bool
  /-- `DecoderImpl::size` and the pool of the context. -/
  cache : FrameCache
  /-- The calls of the system allocator, newest first. -/
  calls : List SysCall
  /-- The frames handed out and not released. -/
  frames : List AVFrame
  /-- What the latest event has returned, if it is a call of `lavc_GetFrame`. -/
  last : Option GetFrameResult

namespace FrameSession

/-- A decoder with its first codec context; `DecoderImpl::size` is not initialised. -/
def start (codec : κ) (isVideo : Bool) (size : ℕ → ℤ) : FrameSession κ :=
  ⟨codec, isVideo, ⟨size, .zero⟩, [], [], none⟩

variable (L : ImageLib κ)

/-- The call of `lavc_GetFrame` on the session's context. -/
def getFrame (s : FrameSession κ) (call : GetFrameCall) : Option GetFrameResult :=
  lavcGetFrame L ⟨s.codec, s.isVideo, call.pixFmt⟩
    (.blank call.format call.width call.height) call.answers s.cache s.calls

/-- The session after a call of `lavc_GetFrame` that has returned `r`. -/
def returned (s : FrameSession κ) (r : GetFrameResult) : FrameSession κ :=
  { s with
    cache := r.cache
    calls := r.calls
    frames := if r.ret < 0 then s.frames else r.frame :: s.frames
    last := some r }

/-- The session after one event. -/
def step (s : FrameSession κ) : FrameEvent κ → FrameSession κ
  | .getFrame call => (s.getFrame L call).elim { s with last := none } s.returned
  | .release k =>
    match s.frames[k]? with
    | none => { s with last := none }
    | some frame =>
      { s with
        calls := (unrefBelow avNumDataPointers frame s.calls).2
        frames := s.frames.eraseIdx k
        last := none }
  | .reopen codec isVideo =>
    { s with codec, isVideo, cache := { s.cache with pool := .zero }, last := none }

/-- `memalign` hands out addresses that are not `NULL` and not out already. -/
def FreshAnswers (s : FrameSession κ) (ans : PlaneAnswers) : Prop :=
  ∀ i ptr, ans.memalign i = some ptr →
    ptr ≠ 0 ∧ ptr ∉ held s.calls ∧ ∀ j < i, ans.memalign j ≠ some ptr

/-- Calls of `lavc_GetFrame` return, and `memalign` keeps its contract; released are frames that are
out. -/
def Admits (s : FrameSession κ) : FrameEvent κ → Prop
  | .getFrame call => (s.getFrame L call).isSome ∧ s.FreshAnswers call.answers
  | .release k => k < s.frames.length
  | .reopen _ _ => True

end FrameSession

/-- The session after a call of `lavc_GetFrame` that returns. -/
theorem FrameSession.step_getFrame {L : ImageLib κ} {s : FrameSession κ} {call : GetFrameCall}
    {r : GetFrameResult} (hr : s.getFrame L call = some r) :
    s.step L (.getFrame call) = s.returned r := by
  show (s.getFrame L call).elim _ _ = _
  rw [hr]
  rfl

/-- The session after the release of a frame. -/
theorem FrameSession.step_release (L : ImageLib κ) {s : FrameSession κ} {k : ℕ}
    (hk : k < s.frames.length) :
    s.step L (.release k) =
      { s with
        calls := (unrefBelow avNumDataPointers s.frames[k] s.calls).2
        frames := s.frames.eraseIdx k
        last := none } := by
  have hget : s.frames[k]? = some s.frames[k] := List.getElem?_eq_getElem hk
  simp only [FrameSession.step, hget]

/-- The sessions as a machine. -/
def frameMachine (L : ImageLib κ) : Machine (FrameSession κ) (FrameEvent κ) where
  step := FrameSession.step L
  guard := FrameSession.Admits L

/-! ## The loop over the planes -/

section

variable (c : FrameCache) (ans : PlaneAnswers)

/-- The loop has passed the planes below `n`: they are present, and have got their buffers. -/
def Passed (n : ℕ) : Prop :=
  n ≤ 4 ∧ ∀ j < n, c.size j ≠ 0 ∧ (ans.memalign j).isSome ∧ ans.bufferCreate j = true

/-- The frame once the planes below `n` have got their buffers. -/
def filled (n : ℕ) (frame : AVFrame) : AVFrame :=
  { frame with
    data := fun j => if j < n then (ans.memalign j).getD 0 else frame.data j
    linesize := fun j => if j < n then c.pool.linesize j else frame.linesize j
    buf := fun j => if j < n then (ans.memalign j).map (⟨·, c.size j⟩) else frame.buf j }

/-- The calls once the planes below `n` have been allocated. -/
def allocCalls : ℕ → List SysCall → List SysCall
  | 0, calls => calls
  | n + 1, calls => .alloc (ans.memalign n) :: allocCalls n calls

/-- The frame once `memalign` has answered for the plane `n`. -/
def answered (n : ℕ) (frame : AVFrame) : AVFrame :=
  { frame with
    data := Function.update frame.data n ((ans.memalign n).getD 0)
    linesize := Function.update frame.linesize n (c.pool.linesize n) }

/-- The ways the loop over the planes of a blank frame can end. -/
inductive PlanesEffect (frame : AVFrame) (calls : List SysCall) :
    Bool × AVFrame × List SysCall → Prop
  /-- All planes have got their buffers. -/
  | done {n : ℕ} (passed : Passed c ans n) (stop : n = 4 ∨ c.size n = 0) :
      PlanesEffect frame calls
        (true, clearFrom n (filled c ans n frame), allocCalls ans n calls)
  /-- `memalign` fails for the plane `n`; the buffers before it are dropped. -/
  | noMemory {n : ℕ} (passed : Passed c ans n) (present : n < 4 ∧ c.size n ≠ 0)
      (memalign : ans.memalign n = none) :
      PlanesEffect frame calls
        (false, unrefBelow n (answered c ans n (filled c ans n frame))
          (allocCalls ans (n + 1) calls))
  /-- `av_buffer_create` fails for the plane `n`; the buffers before it are dropped. -/
  | noBuffer {n : ℕ} (passed : Passed c ans n) (present : n < 4 ∧ c.size n ≠ 0)
      (memalign : (ans.memalign n).isSome) (create : ans.bufferCreate n = false) :
      PlanesEffect frame calls
        (false, unrefBelow n (answered c ans n (filled c ans n frame))
          (allocCalls ans (n + 1) calls))

variable {c ans}

/-- The loop that has reached its end has passed all planes. -/
theorem PlanesEffect.of_true {frame frame' : AVFrame} {calls calls' : List SysCall}
    (h : PlanesEffect c ans frame calls (true, frame', calls')) :
    ∃ n, Passed c ans n ∧ (n = 4 ∨ c.size n = 0) ∧ frame' = clearFrom n (filled c ans n frame) ∧
      calls' = allocCalls ans n calls := by
  cases h with
  | done passed stop => exact ⟨_, passed, stop, rfl, rfl⟩

/-- The loop that goes to `error` has failed for a plane that is present. -/
theorem PlanesEffect.of_false {frame frame' : AVFrame} {calls calls' : List SysCall}
    (h : PlanesEffect c ans frame calls (false, frame', calls')) :
    ∃ n, Passed c ans n ∧ (n < 4 ∧ c.size n ≠ 0) ∧
      (ans.memalign n = none ∨ ((ans.memalign n).isSome ∧ ans.bufferCreate n = false)) ∧
      (frame', calls') = unrefBelow n (answered c ans n (filled c ans n frame))
        (allocCalls ans (n + 1) calls) := by
  generalize hout : (false, frame', calls') = out at h
  cases h with
  | done passed stop => cases hout
  | noMemory passed present memalign =>
    exact ⟨_, passed, present, .inl memalign, (Prod.mk.inj hout).2⟩
  | noBuffer passed present memalign create =>
    exact ⟨_, passed, present, .inr ⟨memalign, create⟩, (Prod.mk.inj hout).2⟩

/-- Setting the next entry of an array that is set below `n`. -/
theorem update_ite_lt {α : Type*} (f g : ℕ → α) (n : ℕ) :
    Function.update (fun j => if j < n then f j else g j) n (f n)
      = fun j => if j < n + 1 then f j else g j := by
  funext j
  by_cases hj : j = n
  · subst hj
    rw [Function.update_self, if_pos (Nat.lt_succ_self _)]
  · rw [Function.update_of_ne hj]
    by_cases hlt : j < n
    · rw [if_pos hlt, if_pos (Nat.lt_succ_of_lt hlt)]
    · rw [if_neg hlt, if_neg (by omega)]

/-- One plane more. -/
theorem filled_succ {n ptr : ℕ} (memalign : ans.memalign n = some ptr) (frame : AVFrame) :
    { answered c ans n (filled c ans n frame) with
      buf := Function.update (filled c ans n frame).buf n (some ⟨ptr, c.size n⟩) }
      = filled c ans (n + 1) frame := by
  refine AVFrame.ext rfl rfl rfl ?_ ?_ ?_
  · exact update_ite_lt _ _ n
  · exact update_ite_lt _ _ n
  · have hbuf : some ⟨ptr, c.size n⟩ = (ans.memalign n).map (⟨·, c.size n⟩ : ℕ → AVBufferRef) := by
      rw [memalign]
      rfl
    rw [hbuf]
    exact update_ite_lt _ _ n

/-- The plane `n` of a blank frame has no buffer before its turn. -/
theorem update_buf_none {frame : AVFrame} (blank : ∀ j, frame.buf j = none) (n : ℕ) :
    { answered c ans n (filled c ans n frame) with
      buf := Function.update (filled c ans n frame).buf n none }
      = answered c ans n (filled c ans n frame) := by
  refine AVFrame.ext rfl rfl rfl rfl rfl ?_
  show Function.update (filled c ans n frame).buf n none = (filled c ans n frame).buf
  apply Function.update_eq_self_iff.mpr
  show none = if n < n then _ else frame.buf n
  rw [if_neg (Nat.lt_irrefl n), blank]

/-- The loop at a plane that is present. -/
theorem getPlanes_present {n : ℕ} (present : n < 4 ∧ c.size n ≠ 0) (frame : AVFrame)
    (calls : List SysCall) :
    getPlanes c ans n frame calls =
      match ans.memalign n with
      | none => (false, unrefBelow n (answered c ans n frame) (.alloc (ans.memalign n) :: calls))
      | some ptr =>
        if ans.bufferCreate n then
          getPlanes c ans (n + 1)
            { answered c ans n frame with
              buf := Function.update frame.buf n (some ⟨ptr, c.size n⟩) }
            (.alloc (ans.memalign n) :: calls)
        else
          (false, unrefBelow n
            { answered c ans n frame with buf := Function.update frame.buf n none }
            (.alloc (ans.memalign n) :: calls)) := by
  rw [getPlanes, if_pos present]
  rfl

/-- The loop from the plane `n` on. -/
theorem getPlanes_effect_from {frame : AVFrame} (blank : ∀ j, frame.buf j = none)
    (calls : List SysCall) (n : ℕ) (passed : Passed c ans n) :
    PlanesEffect c ans frame calls
      (getPlanes c ans n (filled c ans n frame) (allocCalls ans n calls)) := by
  obtain ⟨k, hk⟩ : ∃ k, 4 - n = k := ⟨_, rfl⟩
  -- on the planes that are left
  induction k using Nat.strongRecOn generalizing n with
  | ind k ih =>
    by_cases hpresent : n < 4 ∧ c.size n ≠ 0
    · rw [getPlanes_present hpresent]
      split
      · next hmem => exact .noMemory passed hpresent hmem
      · next ptr hmem =>
        by_cases hcreate : ans.bufferCreate n = true
        · rw [if_pos hcreate, filled_succ hmem]
          refine ih (4 - (n + 1)) (by omega) (n + 1) ⟨hpresent.1, ?_⟩ rfl
          intro j hj
          rcases Nat.lt_succ_iff_lt_or_eq.mp hj with hj | rfl
          · exact passed.2 j hj
          · exact ⟨hpresent.2, by rw [hmem]; rfl, hcreate⟩
        · rw [if_neg hcreate, update_buf_none blank]
          exact .noBuffer passed hpresent (by rw [hmem]; rfl) (Bool.not_eq_true _ ▸ hcreate)
    · -- the loop is left at the first plane that is absent
      rw [getPlanes, if_neg hpresent]
      refine .done passed ?_
      have hle := passed.1
      by_cases hn : n = 4
      · exact .inl hn
      · right
        by_contra hsize
        exact hpresent ⟨by omega, hsize⟩

/-- **The loop over the planes** of a blank frame. -/
theorem getPlanes_effect {frame : AVFrame} (blank : ∀ j, frame.buf j = none)
    (calls : List SysCall) : PlanesEffect c ans frame calls (getPlanes c ans 0 frame calls) :=
  getPlanes_effect_from blank calls 0 ⟨by omega, fun j hj => absurd hj (Nat.not_lt_zero j)⟩

end

/-! ## `lavc_GetFrame` -/

/-- Dropping buffers leaves the rest of the frame alone. -/
theorem unrefBelow_frame (n : ℕ) (frame : AVFrame) (calls : List SysCall) :
    (unrefBelow n frame calls).1
      = { frame with buf := fun j => if j < n then none else frame.buf j } := by
  induction n generalizing frame calls with
  | zero => rfl
  | succ n ih =>
    have hsame : (unrefBelow (n + 1) frame calls).1
        = (unrefBelow n (avBufferUnref n frame calls).1 (avBufferUnref n frame calls).2).1 := rfl
    rw [hsame, ih]
    unfold avBufferUnref
    cases hbuf : frame.buf n with
    | none =>
      refine AVFrame.ext rfl rfl rfl rfl rfl ?_
      funext j
      show (if j < n then none else frame.buf j) = if j < n + 1 then none else frame.buf j
      by_cases hj : j = n
      · rw [hj, hbuf, ite_self, ite_self]
      · have hlt : j < n + 1 ↔ j < n := by omega
        simp only [hlt]
    | some ref =>
      refine AVFrame.ext rfl rfl rfl rfl rfl ?_
      funext j
      show (if j < n then none else Function.update frame.buf n none j)
        = if j < n + 1 then none else frame.buf j
      by_cases hj : j = n
      · rw [hj, Function.update_self, ite_self, if_pos (Nat.lt_succ_self n)]
      · have hlt : j < n + 1 ↔ j < n := by omega
        rw [Function.update_of_ne hj]
        simp only [hlt]

/-- **`lavc_GetFrame`** on a blank frame: `update_frame_pool` fails, or the loop over the planes
ends. -/
theorem lavcGetFrame_cases {L : ImageLib κ} {ctx : AVCodecContext κ} {format width height : ℤ}
    {ans : PlaneAnswers} {c : FrameCache} {calls : List SysCall} {r : GetFrameResult}
    (h : lavcGetFrame L ctx (.blank format width height) ans c calls = some r) :
    ∃ ret, updateFramePool L ctx (.blank format width height) c = some (ret, r.cache) ∧
      ((ret < 0 ∧ r.ret = ret ∧ r.frame = .blank format width height ∧ r.calls = calls) ∨
        (0 ≤ ret ∧ ∃ ok, PlanesEffect r.cache ans (.blank format width height) calls
          (ok, r.frame, r.calls) ∧ r.ret = if ok then 0 else -1)) := by
  unfold lavcGetFrame at h
  cases hpool : updateFramePool L ctx (.blank format width height) c with
  | none =>
    rw [hpool] at h
    cases h
  | some out =>
    obtain ⟨ret, c'⟩ := out
    rw [hpool] at h
    dsimp only at h
    by_cases hret : ret < 0
    · rw [if_pos hret] at h
      cases h
      exact ⟨ret, rfl, .inl ⟨hret, rfl, rfl, rfl⟩⟩
    · rw [if_neg hret] at h
      have heffect : PlanesEffect c' ans (.blank format width height) calls
          (getPlanes c' ans 0 (.blank format width height) calls) :=
        getPlanes_effect (fun _ => rfl) calls
      have hblank : ({ AVFrame.blank format width height with data := fun _ => 0 } : AVFrame)
          = .blank format width height := rfl
      rw [hblank] at h
      generalize getPlanes c' ans 0 (.blank format width height) calls = out at heffect h
      obtain ⟨ok, frame, calls'⟩ := out
      cases ok with
      | false =>
        cases h
        exact ⟨ret, rfl, .inr ⟨by omega, false, heffect, rfl⟩⟩
      | true =>
        cases h
        exact ⟨ret, rfl, .inr ⟨by omega, true, heffect, rfl⟩⟩

/-- **A call that returns 0** has got the layout, and buffers for all planes that are present. -/
theorem lavcGetFrame_done {L : ImageLib κ} {ctx : AVCodecContext κ} {format width height : ℤ}
    {ans : PlaneAnswers} {c : FrameCache} {calls : List SysCall} {r : GetFrameResult}
    (h : lavcGetFrame L ctx (.blank format width height) ans c calls = some r) (hret : r.ret = 0) :
    ∃ ret n, updateFramePool L ctx (.blank format width height) c = some (ret, r.cache) ∧ 0 ≤ ret ∧
      Passed r.cache ans n ∧ (n = 4 ∨ r.cache.size n = 0) ∧
      r.frame = clearFrom n (filled r.cache ans n (.blank format width height)) := by
  obtain ⟨ret, hpool, hcases⟩ := lavcGetFrame_cases h
  rcases hcases with ⟨hneg, hqret, -⟩ | ⟨hnonneg, ok, heffect, hqret⟩
  · omega
  cases ok with
  | false =>
    rw [if_neg Bool.false_ne_true] at hqret
    omega
  | true =>
    obtain ⟨n, passed, stop, hframe, -⟩ := heffect.of_true
    exact ⟨ret, n, hpool, hnonneg, passed, stop, hframe⟩

end FfTest
