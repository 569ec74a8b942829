import FfTest.DecodeLoop.DecoderImpl

/-! # What one call of `demux` and of `decode` does

`LoopEffect`, `DecodeEffect` and `DemuxEffect` say once which ways out the receive loop, `decode`
and `demux` have, what each returns, which calls it makes and in which state it leaves the codec.
All later results are read off these. -/

namespace FfTest

variable {B F : Type*}

/-! ## Reading the record of calls -/

/-- A packet offered to the codec (`none` for `NULL`), with the codec's answer. -/
def LibCall.send? : LibCall B F → Option (Option (AVPacket B) × SendRet)
  | .sendPacket pkt ret => some (pkt, ret)
  | _ => none

/-- A call that changes the codec. -/
def LibCall.codecCall? : LibCall B F → Option (Codec.Call (AVPacket B))
  | .sendPacket pkt _ => some (.send pkt)
  | .receiveFrame _ => some .receive
  | .flushBuffers => some .flush
  | _ => none

/-- An outcome received from the codec. -/
def LibCall.outcome? : LibCall B F → Option (Outcome F)
  | .receiveFrame ret => ret.outcome
  | _ => none

/-- A frame passed to `m_cb_recv_frame`. -/
def LibCall.delivered? : LibCall B F → Option F
  | .cbRecvFrame f => some f
  | _ => none

/-- The packets offered to the codec, with its answers. -/
def sends (cs : List (LibCall B F)) : List (Option (AVPacket B) × SendRet) :=
  cs.filterMap LibCall.send?

/-- The calls that change the codec. -/
def codecCalls (cs : List (LibCall B F)) : List (Codec.Call (AVPacket B)) :=
  cs.filterMap LibCall.codecCall?

/-- The outcomes received from the codec. -/
def outcomes (cs : List (LibCall B F)) : List (Outcome F) := cs.filterMap LibCall.outcome?

/-- The frames passed to `m_cb_recv_frame`. -/
def delivered (cs : List (LibCall B F)) : List F := cs.filterMap LibCall.delivered?

@[simp] theorem sends_append (cs ds : List (LibCall B F)) :
    sends (cs ++ ds) = sends cs ++ sends ds := List.filterMap_append

@[simp] theorem codecCalls_append (cs ds : List (LibCall B F)) :
    codecCalls (cs ++ ds) = codecCalls cs ++ codecCalls ds := List.filterMap_append

@[simp] theorem outcomes_append (cs ds : List (LibCall B F)) :
    outcomes (cs ++ ds) = outcomes cs ++ outcomes ds := List.filterMap_append

@[simp] theorem delivered_append (cs ds : List (LibCall B F)) :
    delivered (cs ++ ds) = delivered cs ++ delivered ds := List.filterMap_append

/-- The packet of the selected stream that `av_read_frame` has answered, if any. -/
def ReadRet.selected (idx : ℤ) : ReadRet B → Option (AVPacket B)
  | .packet p => if p.streamIndex ≠ idx then none else some p
  | _ => none

/-- The calls of one round of the receive loop that gets the frame `f`. -/
def frameCalls (f : F) : List (LibCall B F) :=
  [.receiveFrame (.frame f), .cbRecvFrame f, .frameUnref]

/-- The calls of the receive loop that gets the frames `fs` and then the answer `r`. -/
def loopCalls (fs : List F) (r : RecvRet F) : List (LibCall B F) :=
  fs.flatMap frameCalls ++ [.receiveFrame r]

theorem loopCalls_cons (f : F) (fs : List F) (r : RecvRet F) :
    (loopCalls (f :: fs) r : List (LibCall B F)) = frameCalls f ++ loopCalls fs r := by
  rw [loopCalls, loopCalls, List.flatMap_cons, List.append_assoc]

@[simp] theorem sends_loopCalls (fs : List F) (r : RecvRet F) :
    sends (loopCalls fs r : List (LibCall B F)) = [] := by
  induction fs with
  | nil => rfl
  | cons f fs ih =>
    rw [loopCalls_cons, sends_append, ih]
    rfl

@[simp] theorem codecCalls_loopCalls (fs : List F) (r : RecvRet F) :
    codecCalls (loopCalls fs r : List (LibCall B F)) = List.replicate (fs.length + 1) .receive := by
  induction fs with
  | nil => rfl
  | cons f fs ih =>
    rw [loopCalls_cons, codecCalls_append, ih]
    rfl

@[simp] theorem outcomes_loopCalls (fs : List F) (r : RecvRet F) :
    outcomes (loopCalls fs r : List (LibCall B F)) = fs.map .frame ++ r.outcome.toList := by
  induction fs with
  | nil => cases r <;> rfl
  | cons f fs ih =>
    rw [loopCalls_cons, outcomes_append, ih]
    rfl

@[simp] theorem delivered_loopCalls (fs : List F) (r : RecvRet F) :
    delivered (loopCalls fs r : List (LibCall B F)) = fs := by
  induction fs with
  | nil => rfl
  | cons f fs ih =>
    rw [loopCalls_cons, delivered_append, ih]
    rfl

/-- The calls of `decode` when the packet `p` is accepted and the receive loop gets the frames `fs`
and then the answer `r`. -/
def decodeCalls (p : Option (AVPacket B)) (fs : List F) (r : RecvRet F) : List (LibCall B F) :=
  [.sendPacket p .ok, .frameAlloc true] ++ loopCalls fs r ++ [.frameFree]

@[simp] theorem sends_decodeCalls (p : Option (AVPacket B)) (fs : List F) (r : RecvRet F) :
    sends (decodeCalls p fs r) = [(p, .ok)] := by
  rw [decodeCalls, sends_append, sends_append, sends_loopCalls]
  rfl

@[simp] theorem codecCalls_decodeCalls (p : Option (AVPacket B)) (fs : List F) (r : RecvRet F) :
    codecCalls (decodeCalls p fs r) = .send p :: List.replicate (fs.length + 1) .receive := by
  rw [decodeCalls, codecCalls_append, codecCalls_append, codecCalls_loopCalls]
  exact List.append_nil _

@[simp] theorem outcomes_decodeCalls (p : Option (AVPacket B)) (fs : List F) (r : RecvRet F) :
    outcomes (decodeCalls p fs r) = fs.map .frame ++ r.outcome.toList := by
  rw [decodeCalls, outcomes_append, outcomes_append, outcomes_loopCalls]
  exact List.append_nil _

@[simp] theorem delivered_decodeCalls (p : Option (AVPacket B)) (fs : List F) (r : RecvRet F) :
    delivered (decodeCalls p fs r) = fs := by
  rw [decodeCalls, delivered_append, delivered_append, delivered_loopCalls]
  exact List.append_nil _

namespace DecoderImpl

variable {C : Codec (AVPacket B) F}

/-! ## The receive loop -/

/-- The state after the loop has received the frames `fs` and then the answer `r`, which leaves the
codec in `s`. -/
def looped (d : DecoderImpl C) (fs : List F) (r : RecvRet F) (s : C.State) : DecoderImpl C :=
  { d with
    codecCtx := s
    decodeCnt := d.decodeCnt + BitVec.ofNat 32 fs.length
    moment := d.moment + 3 * (fs.length + 1)
    calls := d.calls ++ loopCalls fs r }

/-- The ways out of the receive loop. -/
inductive LoopEffect (clock : ℕ → Timeval) (d : DecoderImpl C) : LoopExit → DecoderImpl C → Prop
  /-- The codec asks for input. -/
  | breaks {fs : List F} {s : C.State} (takes : C.Takes d.codecCtx fs .again s) :
      LoopEffect clock d (.breaks (clock (d.moment + 3 * fs.length))) (d.looped fs .again s)
  /-- The codec has drained and is flushed. -/
  | eof {fs : List F} {s : C.State} (takes : C.Takes d.codecCtx fs .eof s) :
      LoopEffect clock d (.returns .eof) ((d.looped fs .eof s).call .frameFree).flushBuffers
  /-- The codec reports an error. -/
  | error {fs : List F} {c : ℤ} {s : C.State} (takes : C.Takes d.codecCtx fs (.error c) s) :
      LoopEffect clock d (.returns .error) ((d.looped fs (.error c) s).call .frameFree)

/-- No frame before the answer. -/
theorem looped_nil (d : DecoderImpl C) (r : RecvRet F) (s : C.State) :
    d.looped [] r s = d.tick.received r s := by
  simp [looped, received, tick, call, loopCalls]

/-- One frame more before the answer. -/
theorem looped_cons (d : DecoderImpl C) (f : F) (s₁ : C.State) (fs : List F) (r : RecvRet F)
    (s : C.State) :
    ((d.tick.received (.frame f) s₁).deliver f).looped fs r s = d.looped (f :: fs) r s := by
  have hcnt : d.decodeCnt + 1 + BitVec.ofNat 32 fs.length
      = d.decodeCnt + BitVec.ofNat 32 (fs.length + 1) := by
    rw [BitVec.add_assoc, Nat.add_comm, BitVec.ofNat_add]
    rfl
  have hmoment : d.moment + 1 + 2 + 3 * (fs.length + 1)
      = d.moment + 3 * (fs.length + 1 + 1) := by omega
  simp only [looped, received, tick, deliver, call, List.length_cons, loopCalls_cons, frameCalls,
    List.append_assoc, List.cons_append, List.nil_append]
  rw [hcnt, hmoment]

/-- A frame heads what the rest of the loop takes. -/
theorem LoopEffect.frame {clock : ℕ → Timeval} {d d' : DecoderImpl C} {f : F} {s : C.State}
    {exit : LoopExit} (h : C.receive d.codecCtx = (.frame f, s))
    (rest : LoopEffect clock ((d.tick.received (.frame f) s).deliver f) exit d') :
    LoopEffect clock d exit d' := by
  cases rest with
  | @breaks fs s' takes =>
    have hmoment : d.moment + 1 + 2 + 3 * fs.length = d.moment + 3 * (fs.length + 1) := by omega
    rw [looped_cons]
    show LoopEffect clock d (.breaks (clock (d.moment + 1 + 2 + 3 * fs.length))) _
    rw [hmoment]
    exact .breaks (.frame h takes)
  | eof takes =>
    rw [looped_cons]
    exact .eof (.frame h takes)
  | error takes =>
    rw [looped_cons]
    exact .error (.frame h takes)

/-- **The receive loop.** It takes all frames up to the first other answer. -/
theorem receiveLoop_effect (clock : ℕ → Timeval) (d : DecoderImpl C) :
    LoopEffect clock d (d.receiveLoop clock).1 (d.receiveLoop clock).2 := by
  -- along the frames that `receive` hands over, of which the codec bounds the number
  fun_induction receiveLoop clock d with
  | case1 d d' f s h ih => exact ih.frame h
  | case2 d t1 d' s h =>
    rw [← looped_nil]
    exact .breaks (.stop h nofun)
  | case3 d d' s h =>
    rw [← looped_nil]
    exact .eof (.stop h nofun)
  | case4 d d' c s h =>
    rw [← looped_nil]
    exact .error (.stop h nofun)

/-! ## `decode` -/

/-- The ways out of `decode`: with the codec in `s`, the packet `p` to send and the answer `alloc`
of `av_frame_alloc`, what is returned, which calls are made, and the codec afterwards. -/
inductive DecodeEffect (C : Codec (AVPacket B) F) (s : C.State) (p : Option (AVPacket B))
    (alloc : Bool) : DecRet → List (LibCall B F) → C.State → Prop
  /-- The codec drains already. -/
  | refusedEof {s₁ : C.State} (send : C.send s p = (.eof, s₁)) :
      DecodeEffect C s p alloc .eof [.sendPacket p .eof] s₁
  /-- The codec pushes the packet back, and `m_pkt` is released. -/
  | refused {s₁ : C.State} {pkt : AVPacket B} (send : C.send s p = (.again, s₁)) :
      DecodeEffect C s p alloc .again [.sendPacket p .again, .packetUnref pkt] s₁
  /-- The codec rejects the packet. -/
  | rejected {s₁ : C.State} {c : ℤ} (send : C.send s p = (.error c, s₁)) :
      DecodeEffect C s p alloc .error [.sendPacket p (.error c)] s₁
  /-- There is no frame to receive into. -/
  | noFrame {s₁ : C.State} (send : C.send s p = (.ok, s₁)) (fails : alloc = false) :
      DecodeEffect C s p alloc .fail [.sendPacket p .ok, .frameAlloc false] s₁
  /-- All frames are taken until the codec asks for input. -/
  | emptied {s₁ s₂ : C.State} {fs : List F} (send : C.send s p = (.ok, s₁))
      (takes : C.Takes s₁ fs .again s₂) (alloced : alloc = true) :
      DecodeEffect C s p alloc (if p.isNone then .eof else .ok)
        (decodeCalls p fs .again) s₂
  /-- All frames are taken until the codec has drained, and it is flushed. -/
  | drained {s₁ s₂ : C.State} {fs : List F} (send : C.send s p = (.ok, s₁))
      (takes : C.Takes s₁ fs .eof s₂) (alloced : alloc = true) :
      DecodeEffect C s p alloc .eof (decodeCalls p fs .eof ++ [.flushBuffers]) (C.flush s₂)
  /-- The frames before an error are taken. -/
  | failed {s₁ s₂ : C.State} {fs : List F} {c : ℤ} (send : C.send s p = (.ok, s₁))
      (takes : C.Takes s₁ fs (.error c) s₂) (alloced : alloc = true) :
      DecodeEffect C s p alloc .error (decodeCalls p fs (.error c)) s₂

/-- What every call of `demux` or `decode` leaves alone, or changes along with the record of calls,
to which it adds `cs`. -/
structure Extends (d d' : DecoderImpl C) (cs : List (LibCall B F)) : Prop where
  /-- The calls are added to the record. -/
  calls : d'.calls = d.calls ++ cs
  /-- The selected stream stays. -/
  streamIdx : d'.streamIdx = d.streamIdx
  /-- `decode_cnt` counts the frames passed to `m_cb_recv_frame`. -/
  decodeCnt : d'.decodeCnt = d.decodeCnt + BitVec.ofNat 32 (delivered cs).length

/-- `NULL` is sent exactly for an empty packet. -/
theorem isNone_toSend (d : DecoderImpl C) : d.toSend.isNone = d.pkt.isEmpty := by
  unfold toSend
  cases d.pkt.isEmpty <;> rfl

/-- `decode` is `afterSend` where the codec has answered. -/
theorem decode_eq_afterSend {clock : ℕ → Timeval} {d : DecoderImpl C} {alloc : Bool}
    {ret : SendRet} {s : C.State} (send : C.send d.codecCtx d.toSend = (ret, s)) :
    d.decode clock alloc = d.afterSend clock alloc s ret := by
  have hpair : d.tick.sendPacket d.toSend = (ret, d.sent ret s) := by
    unfold sendPacket sent
    simp only [tick, send]
  unfold decode
  rw [hpair]
  cases ret with
  | ok =>
    unfold afterSend
    rw [isNone_toSend]
  | _ => rfl

/-- **`decode`.** -/
theorem decode_effect (clock : ℕ → Timeval) (d : DecoderImpl C) (alloc : Bool) :
    ∃ cs, DecodeEffect C d.codecCtx d.toSend alloc (d.decode clock alloc).1 cs
        (d.decode clock alloc).2.codecCtx ∧
      d.Extends (d.decode clock alloc).2 cs ∧
      (d.decode clock alloc).2.decodedFrameCnt = d.decodedFrameCnt := by
  obtain ⟨⟨ret, s⟩, send⟩ : ∃ q, C.send d.codecCtx d.toSend = q := ⟨_, rfl⟩
  rw [decode_eq_afterSend send]
  -- the three early returns, and the way on to the receive loop
  cases ret with
  | eof => exact ⟨_, .refusedEof send, ⟨rfl, rfl, (BitVec.add_zero _).symm⟩, rfl⟩
  | again =>
    refine ⟨[_, .packetUnref d.pkt], .refused send, ⟨?_, rfl, (BitVec.add_zero _).symm⟩, rfl⟩
    exact List.append_assoc _ _ _
  | error c => exact ⟨_, .rejected send, ⟨rfl, rfl, (BitVec.add_zero _).symm⟩, rfl⟩
  | ok =>
    cases alloc with
    | false =>
      refine ⟨_, .noFrame send rfl, ⟨?_, rfl, (BitVec.add_zero _).symm⟩, rfl⟩
      exact List.append_assoc _ _ _
    | true =>
      have hloop := receiveLoop_effect clock ((d.sent .ok s).call (.frameAlloc true))
      unfold afterSend
      simp only [Bool.true_eq_false, if_false]
      generalize receiveLoop clock ((d.sent .ok s).call (.frameAlloc true)) = out at hloop ⊢
      obtain ⟨exit, d₂⟩ := out
      -- one case for each way out of the loop
      cases hloop with
      | breaks takes =>
        refine ⟨_, .emptied send takes rfl, ⟨?_, rfl, ?_⟩, rfl⟩
        · simp [addTime, tick, call, sent, decodeCalls]
        · rw [delivered_decodeCalls]
          rfl
      | eof takes =>
        refine ⟨_, .drained send takes rfl, ⟨?_, rfl, ?_⟩, rfl⟩
        · simp [call, looped, sent, tick, decodeCalls]
        · rw [delivered_append, delivered_decodeCalls]
          show _ = _ + BitVec.ofNat 32 (_ ++ []).length
          rw [List.append_nil]
          rfl
      | error takes =>
        refine ⟨_, .failed send takes rfl, ⟨?_, rfl, ?_⟩, rfl⟩
        · simp [call, looped, sent, tick, decodeCalls]
        · rw [delivered_decodeCalls]
          rfl

/-! ## `demux` -/

/-- The ways out of `demux` when `av_read_frame` answers `read`: what is returned, the packet left
in `m_pkt`, and by how much `m_decoded_frame_cnt` grows. -/
inductive DemuxEffect (idx : ℤ) (read : ReadRet B) : DecRet → AVPacket B → BitVec 32 → Prop
  /-- A packet of the selected stream. -/
  | ok {p : AVPacket B} (selected : read.selected idx = some p) : DemuxEffect idx read .ok p 1
  /-- A packet of another stream, released at once, or none yet. -/
  | again {p : AVPacket B} (selected : read.selected idx = none) (going : read ≠ .eof)
      (fine : ∀ c, read ≠ .error c) : DemuxEffect idx read .again p 0
  /-- The end of the file, signalled through an empty `m_pkt`. -/
  | eof {p : AVPacket B} (read_eq : read = .eof) (empty : p.isEmpty = true) :
      DemuxEffect idx read .eof p 0
  /-- An error. -/
  | error {p : AVPacket B} {c : ℤ} (read_eq : read = .error c) : DemuxEffect idx read .error p 0

/-- A call that neither concerns the codec nor delivers a frame. -/
def Silent (c : LibCall B F) : Prop :=
  (∃ p, c = .packetUnref p) ∨ ∃ r, c = .readFrame r

/-- Silent calls show in none of the views of the record. -/
theorem views_of_silent {cs : List (LibCall B F)} (h : ∀ c ∈ cs, Silent c) :
    sends cs = [] ∧ codecCalls cs = [] ∧ outcomes cs = [] ∧ delivered cs = [] := by
  refine ⟨?_, ?_, ?_, ?_⟩ <;>
  · apply List.filterMap_eq_nil_iff.mpr
    intro c hc
    rcases h c hc with ⟨p, rfl⟩ | ⟨r, rfl⟩ <;> rfl

/-- Silent calls leave `decode_cnt` alone. -/
theorem Extends.silent {d d' : DecoderImpl C} {cs : List (LibCall B F)} (h : ∀ c ∈ cs, Silent c)
    (calls : d'.calls = d.calls ++ cs) (streamIdx : d'.streamIdx = d.streamIdx)
    (decodeCnt : d'.decodeCnt = d.decodeCnt) : d.Extends d' cs := by
  refine ⟨calls, streamIdx, ?_⟩
  rw [(views_of_silent h).2.2.2, decodeCnt]
  exact (BitVec.add_zero _).symm

/-- **`demux`.** -/
theorem demux_effect (clock : ℕ → Timeval) (d : DecoderImpl C) (read : ReadRet B) :
    ∃ cs n, DemuxEffect d.streamIdx read (d.demux clock read).1 (d.demux clock read).2.pkt n ∧
      d.Extends (d.demux clock read).2 cs ∧ (∀ c ∈ cs, Silent c) ∧
      (d.demux clock read).2.codecCtx = d.codecCtx ∧
      (d.demux clock read).2.decodedFrameCnt = d.decodedFrameCnt + n := by
  have hread : ∀ c ∈ ([.packetUnref d.pkt, .readFrame read] : List (LibCall B F)), Silent c := by
    simp [Silent]
  have hcalls : d.calls ++ [.packetUnref d.pkt] ++ [.readFrame read]
      = d.calls ++ [.packetUnref d.pkt, .readFrame read] := List.append_assoc _ _ _
  have hzero : d.decodedFrameCnt = d.decodedFrameCnt + 0 := (BitVec.add_zero _).symm
  cases read with
  | again => exact ⟨_, 0, .again rfl nofun nofun, .silent hread hcalls rfl rfl, hread, rfl, hzero⟩
  | eof => exact ⟨_, 0, .eof rfl rfl, .silent hread hcalls rfl rfl, hread, rfl, hzero⟩
  | error c => exact ⟨_, 0, .error rfl, .silent hread hcalls rfl rfl, hread, rfl, hzero⟩
  | packet p =>
    by_cases hidx : p.streamIndex ≠ d.streamIdx
    · -- a packet of another stream is released at once
      have hdemux : d.demux clock (.packet p) = (.again,
          (((d.tick.packetUnref.readFrame (.packet p)).tick.addTime 0 (clock d.moment)
            (clock (d.moment + 1))).packetUnref)) := if_pos hidx
      have hsilent : ∀ c ∈ ([.packetUnref d.pkt, .readFrame (.packet p), .packetUnref p] :
          List (LibCall B F)), Silent c := by simp [Silent]
      rw [hdemux]
      refine ⟨_, 0, .again (if_pos hidx) nofun nofun, .silent hsilent ?_ rfl rfl, hsilent, rfl,
        hzero⟩
      show d.calls ++ [.packetUnref d.pkt] ++ [.readFrame (.packet p)] ++ [.packetUnref p] = _
      rw [hcalls, List.append_assoc]
      rfl
    · have hdemux : d.demux clock (.packet p) = (.ok,
          { ((d.tick.packetUnref.readFrame (.packet p)).tick.addTime 0 (clock d.moment)
            (clock (d.moment + 1))) with decodedFrameCnt := d.decodedFrameCnt + 1 }) :=
        if_neg hidx
      rw [hdemux]
      exact ⟨_, 1, .ok (if_neg hidx), .silent hread hcalls rfl rfl, hread, rfl, rfl⟩

end DecoderImpl

end FfTest
