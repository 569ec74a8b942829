import FfTest.DecodeLoop.Pipeline
import FfTest.Foundations.Ledger

/-! # References to packets and frames

What the library calls of `demux`, `decode` and `release` mean for references: `av_read_frame` puts
one into `m_pkt`, `av_frame_alloc` makes an `AVFrame`, `avcodec_receive_frame` puts a reference to a
picture into it, and the calls that unreference and free drop them. `Refs` replays the calls and
keeps a ledger; a call that overwrites a reference loses it.

`Careful` says which calls lose nothing and drop no picture before it has been passed to
`m_cb_recv_frame`. Every call of `demux`, `decode` and `release` is made of careful calls
(`careful_demux`, `careful_decode`), so that the references are conserved in every run
(`references_conserved`). -/

namespace FfTest

variable {B F : Type*}

/-! ## Replaying the calls -/

/-- What a reference is to. -/
inductive RefKind
  /-- A packet, held in `m_pkt`. -/
  | packet
  /-- The `AVFrame` of `decode`. -/
  | frame
  /-- A picture, held in the `AVFrame`. -/
  | picture
  deriving DecidableEq, Repr

/-- A reference, told apart by its number. -/
structure Ref where
  /-- What it is to. -/
  kind : RefKind
  /-- How many references were obtained before it. -/
  num : ℕ
  deriving DecidableEq, Repr

/-- Who holds which reference. -/
structure Refs where
  /-- The reference in `m_pkt`. -/
  pkt : Option ℕ
  /-- The `AVFrame` of `decode`. -/
  frame : Option ℕ
  /-- The reference in the `AVFrame`. -/
  picture : Option ℕ
  /-- Whether that has been passed to `m_cb_recv_frame`. -/
  shown : Bool
  /-- How many references have been obtained. -/
  next : ℕ
  /-- What was obtained and dropped, newest first. -/
  ledger : List (LedgerEntry Ref)
  /-- Whether a picture was dropped that had not been passed to `m_cb_recv_frame`. -/
  early : Bool

namespace Refs

/-- Nothing has been obtained; `av_packet_alloc` leaves `m_pkt` blank. -/
def start : Refs := ⟨none, none, none, false, 0, [], false⟩

/-- What is held. -/
def held (r : Refs) : List Ref :=
  r.pkt.toList.map (⟨.packet, ·⟩) ++ (r.frame.toList.map (⟨.frame, ·⟩) ++
    r.picture.toList.map (⟨.picture, ·⟩))

/-- A reference is obtained. -/
def obtain (r : Refs) (kind : RefKind) : Refs :=
  { r with next := r.next + 1, ledger := .acquire ⟨kind, r.next⟩ :: r.ledger }

/-- The packet is unreferenced. -/
def dropPacket (r : Refs) : Refs :=
  match r.pkt with
  | none => r
  | some n => { r with pkt := none, ledger := .release ⟨.packet, n⟩ :: r.ledger }

/-- The `AVFrame` is unreferenced. -/
def dropPicture (r : Refs) : Refs :=
  match r.picture with
  | none => r
  | some n =>
    { r with
      picture := none
      ledger := .release ⟨.picture, n⟩ :: r.ledger
      early := r.early || !r.shown }

/-- The `AVFrame` is freed. -/
def dropFrame (r : Refs) : Refs :=
  match r.frame with
  | none => r
  | some n => { r with frame := none, ledger := .release ⟨.frame, n⟩ :: r.ledger }

/-- What a call of the library means for the references. -/
def after (r : Refs) : LibCall B F → Refs
  | .packetUnref _ => r.dropPacket
  -- what `m_pkt` held is overwritten
  | .readFrame (.packet _) => { r.obtain .packet with pkt := some r.next }
  | .readFrame _ => { r with pkt := none }
  -- the codec takes a reference of its own
  | .sendPacket _ _ => r
  | .frameAlloc true => { r.obtain .frame with frame := some r.next }
  | .frameAlloc false => { r with frame := none }
  -- `avcodec_receive_frame` unreferences the `AVFrame` first
  | .receiveFrame (.frame _) =>
    let r := r.dropPicture
    { r.obtain .picture with picture := some r.next, shown := false }
  | .receiveFrame _ => r.dropPicture
  | .cbRecvFrame _ => { r with shown := true }
  | .frameUnref => r.dropPicture
  | .frameFree => r.dropPicture.dropFrame
  | .flushBuffers => r

/-- A call that overwrites no reference, and drops no picture that has not been shown. -/
def Careful (r : Refs) : LibCall B F → Prop
  | .readFrame _ => r.pkt = none
  | .frameAlloc _ => r.frame = none
  | .receiveFrame _ | .frameUnref | .frameFree => r.picture ≠ none → r.shown = true
  | .packetUnref _ | .sendPacket _ _ | .cbRecvFrame _ | .flushBuffers => True

/-- The replay as a machine; its runs are those of careful calls. -/
def machine (B F : Type*) : Machine Refs (LibCall B F) := ⟨after, Careful⟩

/-- The replay of the calls `cs`. -/
abbrev of (cs : List (LibCall B F)) : Refs := (machine B F).run .start cs

/-- Nothing but `m_pkt` holds a reference. -/
def Idle (r : Refs) : Prop := r.frame = none ∧ r.picture = none

/-! ## Careful calls lose nothing -/

/-- The ledger is good, what is held is all that was not dropped, and no picture was dropped too
early. -/
structure Good (r : Refs) : Prop where
  /-- What is held is outstanding, and nothing is dropped that is not. -/
  custody : Custody r.ledger r.held
  /-- What is not held has been dropped. -/
  accounted : AccountedFor (fun _ => True) r.ledger r.held
  /-- The numbers to come are not taken. -/
  named : ∀ i : Ref, r.next ≤ i.num → timesAcquired i r.ledger = 0
  /-- No picture was dropped before it was shown. -/
  shown : r.early = false

theorem good_start : start.Good :=
  ⟨.empty, fun _ _ hacq => absurd hacq (Nat.lt_irrefl 0), fun _ _ => rfl, rfl⟩

namespace Good

variable {r : Refs}

/-- Changes of what is held that hold the same. -/
theorem congr (h : r.Good) {r' : Refs} (hheld : r'.held = r.held) (hledger : r'.ledger = r.ledger)
    (hnext : r'.next = r.next) (hearly : r'.early = r.early) : r'.Good := by
  refine ⟨?_, ?_, ?_, hearly.trans h.shown⟩
  · rw [hheld, hledger]
    exact h.custody
  · rw [hheld, hledger]
    exact h.accounted
  · rw [hnext, hledger]
    exact h.named

/-- A reference is obtained, and held from then on. -/
theorem obtain (h : r.Good) (kind : RefKind) {r' : Refs}
    (hheld : r'.held.Perm (⟨kind, r.next⟩ :: r.held))
    (hledger : r'.ledger = .acquire ⟨kind, r.next⟩ :: r.ledger) (hnext : r'.next = r.next + 1)
    (hearly : r'.early = r.early) : r'.Good := by
  refine ⟨?_, ?_, ?_, hearly.trans h.shown⟩
  · rw [hledger]
    exact (h.custody.acquire (h.named _ le_rfl)).lose hheld.subperm
  · rw [hledger]
    exact (h.accounted.acquire _).mono fun i hi => hheld.mem_iff.mpr hi
  · intro i hi
    rw [hnext] at hi
    have hne : (⟨kind, r.next⟩ : Ref) ≠ i := by
      rintro rfl
      exact absurd hi (Nat.not_succ_le_self _)
    rw [hledger, timesAcquired_acquire, if_neg hne]
    exact h.named i (Nat.le_of_succ_le hi)

/-- A reference that is held is dropped. -/
theorem drop (h : r.Good) {i : Ref} {r' : Refs} (hheld : r.held.Perm (i :: r'.held))
    (hledger : r'.ledger = .release i :: r.ledger) (hnext : r'.next = r.next)
    (hearly : r'.early = false) : r'.Good := by
  refine ⟨?_, ?_, ?_, hearly⟩
  · rw [hledger]
    exact (h.custody.lose hheld.symm.subperm).release
  · rw [hledger]
    exact (h.accounted.mono fun j hj => hheld.mem_iff.mp hj).release
  · rw [hnext, hledger]
    exact h.named

theorem dropPacket (h : r.Good) : r.dropPacket.Good := by
  unfold Refs.dropPacket
  split
  · exact h
  · next n hpkt =>
    refine h.drop (i := ⟨.packet, n⟩) ?_ rfl rfl h.shown
    simp [held, hpkt]

theorem dropPicture (h : r.Good) (hshown : r.picture ≠ none → r.shown = true) :
    r.dropPicture.Good := by
  unfold Refs.dropPicture
  split
  · exact h
  · next n hpicture =>
    refine h.drop (i := ⟨.picture, n⟩) ?_ rfl rfl ?_
    · simp only [held, hpicture, Option.toList_some, List.map_cons, List.map_nil,
        Option.toList_none, List.append_nil]
      rw [← List.append_assoc]
      exact List.perm_append_singleton _ _
    · simp [h.shown, hshown (by simp [hpicture])]

theorem dropFrame (h : r.Good) : r.dropFrame.Good := by
  unfold Refs.dropFrame
  split
  · exact h
  · next n hframe =>
    refine h.drop (i := ⟨.frame, n⟩) ?_ rfl rfl h.shown
    simp only [held, hframe, Option.toList_some, List.map_cons, List.map_nil,
      Option.toList_none, List.nil_append, List.singleton_append]
    exact List.perm_middle

end Good

@[simp] theorem dropPacket_pkt (r : Refs) : r.dropPacket.pkt = none := by
  unfold dropPacket
  split
  · assumption
  · rfl

@[simp] theorem dropPacket_frame (r : Refs) : r.dropPacket.frame = r.frame := by
  unfold dropPacket
  split <;> rfl

@[simp] theorem dropPacket_picture (r : Refs) : r.dropPacket.picture = r.picture := by
  unfold dropPacket
  split <;> rfl

@[simp] theorem dropPicture_picture (r : Refs) : r.dropPicture.picture = none := by
  unfold dropPicture
  split
  · assumption
  · rfl

@[simp] theorem dropFrame_frame (r : Refs) : r.dropFrame.frame = none := by
  unfold dropFrame
  split
  · assumption
  · rfl

@[simp] theorem dropFrame_picture (r : Refs) : r.dropFrame.picture = r.picture := by
  unfold dropFrame
  split <;> rfl

/-- **One call.** A careful call loses nothing. -/
theorem Good.after {r : Refs} (h : r.Good) {c : LibCall B F} (hc : r.Careful c) :
    (r.after c).Good := by
  cases c with
  | packetUnref pkt => exact h.dropPacket
  | readFrame ret =>
    have hpkt : r.pkt = none := hc
    cases ret with
    | packet p => exact h.obtain .packet (by simp [held, Refs.after, hpkt, Refs.obtain]) rfl rfl rfl
    | _ => exact h.congr (by simp [held, Refs.after, hpkt]) rfl rfl rfl
  | sendPacket pkt ret => exact h
  | frameAlloc ok =>
    have hframe : r.frame = none := hc
    cases ok with
    | false => exact h.congr (by simp [held, Refs.after, hframe]) rfl rfl rfl
    | true =>
      refine h.obtain .frame ?_ rfl rfl rfl
      simp only [held, Refs.after, hframe, Refs.obtain, Option.toList_some, List.map_cons,
        List.map_nil, Option.toList_none, List.nil_append, List.singleton_append]
      exact List.perm_middle
  | receiveFrame ret =>
    have hdrop := h.dropPicture hc
    cases ret with
    | frame f =>
      refine hdrop.obtain .picture ?_ rfl rfl rfl
      simp only [held, Refs.after, Refs.obtain, dropPicture_picture, Option.toList_some,
        List.map_cons, List.map_nil, Option.toList_none, List.append_nil]
      rw [← List.append_assoc]
      exact List.perm_append_singleton _ _
    | _ => exact hdrop
  | cbRecvFrame f => exact h.congr rfl rfl rfl rfl
  | frameUnref => exact h.dropPicture hc
  | frameFree => exact (h.dropPicture hc).dropFrame
  | flushBuffers => exact h

/-! ## The calls of `demux` and `decode` are careful -/

variable {C : Codec (AVPacket B) F}

/-- The calls of `demux` when `av_read_frame` answers `read`. -/
def demuxCalls (d : DecoderImpl C) (read : ReadRet B) : List (LibCall B F) :=
  [.packetUnref d.pkt, .readFrame read] ++
    match read with
    | .packet p => if p.streamIndex ≠ d.streamIdx then [.packetUnref p] else []
    | _ => []

/-- `demux` makes these calls. -/
theorem demux_calls (clock : ℕ → Timeval) (d : DecoderImpl C) (read : ReadRet B) :
    (d.demux clock read).2.calls = d.calls ++ demuxCalls d read := by
  cases read with
  | packet p =>
    unfold DecoderImpl.demux demuxCalls
    by_cases hidx : p.streamIndex ≠ d.streamIdx
    · simp [hidx, DecoderImpl.packetUnref, DecoderImpl.readFrame, DecoderImpl.call,
        DecoderImpl.tick, DecoderImpl.addTime]
    · simp [hidx, DecoderImpl.packetUnref, DecoderImpl.readFrame, DecoderImpl.call,
        DecoderImpl.tick, DecoderImpl.addTime]
  | _ =>
    simp [DecoderImpl.demux, demuxCalls, DecoderImpl.packetUnref, DecoderImpl.readFrame,
      DecoderImpl.call, DecoderImpl.tick, DecoderImpl.addTime]

/-- The calls are careful from `r` on, and leave nothing but `m_pkt` with a reference. -/
def CarefulCalls (r : Refs) (cs : List (LibCall B F)) : Prop :=
  (machine B F).Legal r cs ∧ ((machine B F).run r cs).Idle

/-- The calls of `demux` are careful: `m_pkt` is unreferenced before it is read into. -/
theorem careful_demux {r : Refs} (h : r.Idle) (d : DecoderImpl C) (read : ReadRet B) :
    r.CarefulCalls (demuxCalls d read) := by
  obtain ⟨hframe, hpicture⟩ := h
  cases read with
  | packet p =>
    by_cases hidx : p.streamIndex ≠ d.streamIdx
    · simp [demuxCalls, hidx, CarefulCalls, machine, Careful, after, obtain, Idle, hframe, hpicture]
    · simp [demuxCalls, hidx, CarefulCalls, machine, Careful, after, obtain, Idle, hframe, hpicture]
  | _ => simp [demuxCalls, CarefulCalls, machine, Careful, after, Idle, hframe, hpicture]

/-- The calls of the receive loop are careful: every picture is shown and dropped before the next
one is received. -/
theorem careful_loop {r : Refs} (h : r.picture = none) (fs : List F) {ret : RecvRet F}
    (hlast : ∀ f, ret ≠ .frame f) :
    (machine B F).Legal r (loopCalls fs ret) ∧
      ((machine B F).run r (loopCalls fs ret)).picture = none := by
  induction fs generalizing r with
  | nil =>
    cases ret with
    | frame f => exact absurd rfl (hlast f)
    | _ => simp [loopCalls, machine, Careful, after, h]
  | cons f fs ih =>
    rw [loopCalls_cons, Machine.legal_append, Machine.run_append]
    have hround : (machine B F).Legal r (frameCalls f) ∧
        ((machine B F).run r (frameCalls f)).picture = none := by
      simp [frameCalls, machine, Careful, after, h]
    exact ⟨⟨hround.1, (ih hround.2).1⟩, (ih hround.2).2⟩

/-- The calls of `decode` with a frame are careful, whatever the loop ends with. -/
theorem careful_decodeCalls {r : Refs} (h : r.Idle) (p : Option (AVPacket B)) (fs : List F)
    {ret : RecvRet F} (hlast : ∀ f, ret ≠ .frame f) : r.CarefulCalls (decodeCalls p fs ret) := by
  obtain ⟨hframe, hpicture⟩ := h
  have hhead : (machine B F).Legal r [.sendPacket p .ok, .frameAlloc true] ∧
      ((machine B F).run r [.sendPacket p .ok, .frameAlloc true]).picture = none := by
    simp [machine, Careful, after, obtain, hframe, hpicture]
  obtain ⟨hlegal, hdropped⟩ := careful_loop (B := B) hhead.2 fs hlast
  rw [decodeCalls, CarefulCalls, Machine.legal_append, Machine.run_append, Machine.legal_append,
    Machine.run_append]
  generalize (machine B F).run ((machine B F).run r [.sendPacket p .ok, .frameAlloc true])
    (loopCalls fs ret) = r' at hdropped ⊢
  refine ⟨⟨⟨hhead.1, hlegal⟩, ?_⟩, ?_⟩
  · simp [machine, Careful, hdropped]
  · simp [machine, after, Idle]

/-- The calls of `decode` are careful, on each of its ways out. -/
theorem careful_decode {r : Refs} (h : r.Idle) {s s' : C.State} {p : Option (AVPacket B)}
    {alloc : Bool} {ret : DecRet} {cs : List (LibCall B F)}
    (heffect : DecoderImpl.DecodeEffect C s p alloc ret cs s') : r.CarefulCalls cs := by
  have hframe := h.1
  have hpicture := h.2
  cases heffect with
  | refusedEof send => exact ⟨⟨trivial, trivial⟩, h⟩
  | refused send => simp [CarefulCalls, machine, Careful, after, Idle, hframe, hpicture]
  | rejected send => exact ⟨⟨trivial, trivial⟩, h⟩
  | noFrame send fails => simp [CarefulCalls, machine, Careful, after, Idle, hframe, hpicture]
  | emptied send takes alloced => exact careful_decodeCalls h p _ (by simp)
  | @drained s₁ s₂ fs send takes alloced =>
    have hcalls : r.CarefulCalls (decodeCalls p fs .eof : List (LibCall B F)) :=
      careful_decodeCalls h p fs (by simp)
    refine ⟨(Machine.legal_snoc _ _ _ _).mpr ⟨hcalls.1, trivial⟩, ?_⟩
    rw [Machine.run_snoc]
    exact hcalls.2
  | failed send takes alloced => exact careful_decodeCalls h p _ (by simp)

end Refs

/-! ## Runs of `demux`, `decode` and `release` -/

/-- A call of the user of the decoder, with the library's answers. -/
inductive PlaybackCall (B : Type*)
  /-- `Decoder::demux`, where `av_read_frame` answers `read`. -/
  | demux (read : ReadRet B)
  /-- `Decoder::decode`, where `av_frame_alloc` succeeds iff `frameAlloc`. -/
  | decode (frameAlloc : Bool)
  /-- `Decoder::release`. -/
  | release

/-- The decoder, and whether it has been released. -/
structure Playback (C : Codec (AVPacket B) F) where
  /-- The decoder. -/
  impl : DecoderImpl C
  /-- Whether `release` has been called. -/
  released : Bool

variable {C : Codec (AVPacket B) F}

/-- One call. Of `release`, only `av_packet_free` concerns the packet: it unreferences `m_pkt`
before it frees the structure. -/
def Playback.step (clock : ℕ → Timeval) (s : Playback C) : PlaybackCall B → Playback C
  | .demux read => { s with impl := (s.impl.demux clock read).2 }
  | .decode frameAlloc => { s with impl := (s.impl.decode clock frameAlloc).2 }
  | .release => ⟨s.impl.packetUnref, true⟩

/-- The decoder in use: nothing is called after `release`. -/
def playbackMachine (C : Codec (AVPacket B) F) (clock : ℕ → Timeval) :
    Machine (Playback C) (PlaybackCall B) where
  step := Playback.step clock
  guard s _ := s.released = false

instance (clock : ℕ → Timeval) (s : Playback C) (e : PlaybackCall B) :
    Decidable ((playbackMachine C clock).guard s e) :=
  inferInstanceAs (Decidable (s.released = false))

namespace Playback

open Refs (CarefulCalls)

/-- The decoder after `init` and `open`. -/
def start (d : DecoderImpl C) : Playback C := ⟨d, false⟩

/-- The references after the calls so far. -/
def refs (s : Playback C) : Refs := .of s.impl.calls

/-- All calls so far were careful, and after `release` no packet is held. -/
structure Tidy (s : Playback C) : Prop where
  /-- The calls were careful, and hold at most a packet. -/
  careful : Refs.start.CarefulCalls s.impl.calls
  /-- `release` has dropped the packet. -/
  settled : s.released = true → s.refs.pkt = none

/-- A call that adds careful calls to the record keeps it careful. -/
theorem Tidy.extend {s : Playback C} (h : s.Tidy) {d : DecoderImpl C} {cs : List (LibCall B F)}
    (hcs : s.refs.CarefulCalls cs) (hcalls : d.calls = s.impl.calls ++ cs) :
    Refs.start.CarefulCalls d.calls := by
  rw [CarefulCalls, hcalls, Machine.legal_append, Machine.run_append]
  exact ⟨⟨h.careful.1, hcs.1⟩, hcs.2⟩

/-- **One call.** `demux`, `decode` and `release` are careful. -/
theorem Tidy.step {clock : ℕ → Timeval} {s : Playback C} (h : s.Tidy) {e : PlaybackCall B}
    (he : (playbackMachine C clock).guard s e) : (s.step clock e).Tidy := by
  have hused : s.released = false := he
  have hidle : s.refs.Idle := h.careful.2
  cases e with
  | demux read =>
    refine ⟨h.extend (Refs.careful_demux hidle s.impl read) (Refs.demux_calls clock s.impl read),
      fun hreleased => ?_⟩
    exact absurd hreleased (by simp [Playback.step, hused])
  | decode frameAlloc =>
    obtain ⟨cs, heffect, hextends, -⟩ := DecoderImpl.decode_effect clock s.impl frameAlloc
    refine ⟨h.extend (Refs.careful_decode hidle heffect) hextends.calls, fun hreleased => ?_⟩
    exact absurd hreleased (by simp [Playback.step, hused])
  | release =>
    have hcs : s.refs.CarefulCalls ([.packetUnref s.impl.pkt] : List (LibCall B F)) := by
      obtain ⟨hframe, hpicture⟩ := hidle
      simp [CarefulCalls, Refs.machine, Refs.Careful, Refs.after, Refs.Idle, hframe, hpicture]
    refine ⟨h.extend hcs rfl, fun _ => ?_⟩
    show (Refs.of (s.impl.calls ++ [.packetUnref s.impl.pkt])).pkt = none
    rw [Refs.of, Machine.run_snoc]
    exact Refs.dropPacket_pkt _

end Playback

/-- The references `r` are conserved; `released` tells whether `release` has been called. -/
structure Refs.Conserved (r : Refs) (released : Bool) : Prop where
  /-- Nothing is dropped more often than it was obtained, which is once. -/
  once : ∀ i, timesReleased i r.ledger ≤ timesAcquired i r.ledger ∧ timesAcquired i r.ledger ≤ 1
  /-- A packet is dropped, or it is the one that `m_pkt` holds. -/
  packets : ∀ n, timesAcquired ⟨.packet, n⟩ r.ledger
    = timesReleased ⟨.packet, n⟩ r.ledger + if r.pkt = some n then 1 else 0
  /-- Every `AVFrame` has been freed. -/
  frames : ∀ n, timesReleased ⟨.frame, n⟩ r.ledger = timesAcquired ⟨.frame, n⟩ r.ledger
  /-- Every picture has been dropped. -/
  pictures : ∀ n, timesReleased ⟨.picture, n⟩ r.ledger = timesAcquired ⟨.picture, n⟩ r.ledger
  /-- No picture was dropped before it had been passed to `m_cb_recv_frame`. -/
  shown : r.early = false
  /-- After `release` no packet is held. -/
  settled : released = true → r.pkt = none

/-- Good references of which at most `m_pkt` holds one are conserved. -/
theorem Refs.Good.conserved {r : Refs} (h : r.Good) (hidle : r.Idle) {released : Bool}
    (hsettled : released = true → r.pkt = none) : r.Conserved released := by
  obtain ⟨hframe, hpicture⟩ := hidle
  have hheld : r.held = r.pkt.toList.map (⟨.packet, ·⟩) := by
    simp [held, hframe, hpicture]
  have hle : ∀ i, timesReleased i r.ledger ≤ timesAcquired i r.ledger := fun i =>
    Nat.le.intro (h.custody.wellReleased.timesAcquired_eq i).symm
  have hone : ∀ i, timesAcquired i r.ledger ≤ 1 := h.custody.freshlyNamed.timesAcquired_le
  -- what is not held has been dropped as often as it was obtained
  have hdropped : ∀ i, i ∉ r.held → timesReleased i r.ledger = timesAcquired i r.ledger := by
    intro i hi
    have hacc := h.accounted i trivial
    have := hle i
    have := hone i
    by_cases hzero : timesAcquired i r.ledger = 0
    · omega
    · have hrel := (hacc (Nat.pos_of_ne_zero hzero)).resolve_right hi
      omega
  refine ⟨fun i => ⟨hle i, hone i⟩, fun n => ?_, fun n => ?_, fun n => ?_, h.shown, hsettled⟩
  · by_cases hpkt : r.pkt = some n
    · have hmem : (⟨.packet, n⟩ : Ref) ∈ r.held := by simp [hheld, hpkt]
      have hzero := h.custody.timesReleased_eq_zero hmem
      have hpos := timesAcquired_pos_of_mem_outstanding (h.custody.held _ hmem)
      have hn := hone ⟨.packet, n⟩
      rw [if_pos hpkt, hzero]
      omega
    · have hmem : (⟨.packet, n⟩ : Ref) ∉ r.held := by simpa [hheld] using hpkt
      rw [if_neg hpkt, hdropped _ hmem]
      rfl
  · exact hdropped _ (by simp [hheld])
  · exact hdropped _ (by simp [hheld])

/-- **References are conserved.** Whatever the library answers, in every run of `demux`, `decode`
and finally `release`: at most `m_pkt` holds a packet between the calls, every packet is
unreferenced exactly once, every `AVFrame` is freed exactly once before `decode` returns, and every
picture is dropped exactly once, after its callback. -/
theorem references_conserved (C : Codec (AVPacket B) F) (clock : ℕ → Timeval) (d : DecoderImpl C)
    (h0 : d.calls = []) {es : List (PlaybackCall B)}
    (h : (playbackMachine C clock).Legal (.start d) es) :
    ((playbackMachine C clock).run (.start d) es).refs.Conserved
      ((playbackMachine C clock).run (.start d) es).released := by
  have hstart : (Playback.start d).Tidy := by
    refine ⟨?_, fun hreleased => absurd hreleased (by simp [Playback.start])⟩
    rw [Playback.start, h0]
    exact ⟨trivial, rfl, rfl⟩
  have htidy := h.invariant Playback.Tidy (fun s e hs he => hs.step he) hstart
  have hgood := htidy.careful.1.invariant Refs.Good (fun r c hr hc => hr.after hc) Refs.good_start
  exact hgood.conserved htidy.careful.2 htidy.settled

/-- Two packets, one of them of another stream, then a pause and the end of the file. -/
def playedThrough : List (PlaybackCall (List (Outcome ℕ))) :=
  [.demux (.packet (delayPacket [.frame 1, .frame 2])), .decode true,
    .demux (.packet ⟨some [], 1, 7⟩), .demux .again, .demux .eof, .decode true, .release]

/-- In `playedThrough` two packets, two frames and two pictures come and go. -/
theorem references_conserved_playedThrough :
    ((playbackMachine delay.codec fun _ => ⟨0, 0⟩).run (.start delayDecoder)
      playedThrough).refs.Conserved true :=
  references_conserved delay.codec (fun _ => ⟨0, 0⟩) delayDecoder rfl (by decide +kernel)

end FfTest
