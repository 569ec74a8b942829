import FfTest.DecodeLoop.Effects
import FfTest.Foundations.EventMachine

/-! # The driver loop of `decode_routine`

The loop calls `demux`, then `decode` on `DEC_OK` and `DEC_EOF`, goes on after `DEC_AGAIN` and after
every error of `decode`, and is left when `decode` returns `DEC_EOF` or `demux` an error. Since
`m_bExit` may end it before any turn, every list of turns that the guard admits is a run. -/

namespace FfTest

open DecoderImpl (DecodeEffect)

variable {B F : Type*} {C : Codec (AVPacket B) F}

/-- What the library answers in one turn of the loop. -/
structure TurnInput (B : Type*) where
  /-- The answer of `av_read_frame`. -/
  read : ReadRet B
  /-- Whether `av_frame_alloc` succeeds. -/
  frameAlloc : Bool

/-- What the two calls of one turn return. -/
structure TurnRet where
  /-- The result of `demux`. -/
  demux : DecRet
  /-- The result of `decode`, if it is called. -/
  decode : Option DecRet
  deriving DecidableEq, Repr

/-- Whether the loop goes on after the turn. -/
def TurnRet.goesOn (t : TurnRet) : Bool := t.demux ≠ .error ∧ t.decode ≠ some .eof

/-- The driver loop. -/
structure Routine (C : Codec (AVPacket B) F) where
  /-- The decoder. -/
  impl : DecoderImpl C
  /-- The results of the turns so far. -/
  rets : List TurnRet
  /-- Whether the loop has not been left. -/
  running : Bool

/-- The loop before its first turn. -/
def Routine.start (d : DecoderImpl C) : Routine C := ⟨d, [], true⟩

/-- One turn of the loop. -/
def Routine.turn (clock : ℕ → Timeval) (r : Routine C) (i : TurnInput B) : Routine C :=
  let (ret, d) := r.impl.demux clock i.read
  if ret = .ok ∨ ret = .eof then
    let (ret', d) := d.decode clock i.frameAlloc
    -- `DEC_EOF` leaves the loop, `DEC_ERROR` and the other results do not
    ⟨d, r.rets ++ [⟨ret, some ret'⟩], ret' ≠ .eof⟩
  else if ret = .again then ⟨d, r.rets ++ [⟨ret, none⟩], true⟩
  else ⟨d, r.rets ++ [⟨ret, none⟩], false⟩

/-- The loop as a machine: a turn happens while it has not been left. -/
def routineMachine (C : Codec (AVPacket B) F) (clock : ℕ → Timeval) :
    Machine (Routine C) (TurnInput B) where
  step := Routine.turn clock
  guard r _ := r.running = true

/-- The loop on the decoder `d` after the turns `es`. -/
def Routine.after (clock : ℕ → Timeval) (d : DecoderImpl C) (es : List (TurnInput B)) : Routine C :=
  (routineMachine C clock).run (.start d) es

/-- The turns `es` are a run of the loop on the decoder `d`. -/
def Routine.Run (clock : ℕ → Timeval) (d : DecoderImpl C) (es : List (TurnInput B)) : Prop :=
  (routineMachine C clock).Legal (.start d) es

instance (clock : ℕ → Timeval) (r : Routine C) (i : TurnInput B) :
    Decidable ((routineMachine C clock).guard r i) :=
  inferInstanceAs (Decidable (r.running = true))

instance (clock : ℕ → Timeval) (d : DecoderImpl C) (es : List (TurnInput B)) :
    Decidable (Routine.Run clock d es) := Machine.decidableLegal _ _ es

/-- One turn more. -/
theorem Routine.after_snoc (clock : ℕ → Timeval) (d : DecoderImpl C) (es : List (TurnInput B))
    (i : TurnInput B) : after clock d (es ++ [i]) = (after clock d es).turn clock i :=
  (routineMachine C clock).run_append (.start d) es [i]

/-- A run goes on by one turn where the loop has not been left. -/
theorem Routine.run_snoc (clock : ℕ → Timeval) (d : DecoderImpl C) (es : List (TurnInput B))
    (i : TurnInput B) : Run clock d (es ++ [i]) ↔
      Run clock d es ∧ (after clock d es).running = true :=
  (routineMachine C clock).legal_snoc (.start d) es i

/-- A decoder as `init` and `open` leave it, with a codec that obeys the contract `K`. -/
structure DecoderImpl.Opened (K : C.Contract) (d : DecoderImpl C) : Prop where
  /-- Nothing has been recorded. -/
  calls : d.calls = []
  /-- The codec takes packets and has nothing to give. -/
  idle : K.Idle d.codecCtx
  /-- No frame has been counted. -/
  decodeCnt : d.decodeCnt = 0
  /-- No packet has been counted. -/
  decodedFrameCnt : d.decodedFrameCnt = 0

/-- What one turn does to the codec: the ways through `demux` and `decode`. -/
inductive TurnEffect (C : Codec (AVPacket B) F) (idx : ℤ) (s : C.State) (i : TurnInput B) :
    TurnRet → List (LibCall B F) → C.State → Prop
  /-- There is no packet of the selected stream yet. -/
  | passed (selected : i.read.selected idx = none) (going : i.read ≠ .eof)
      (fine : ∀ c, i.read ≠ .error c) : TurnEffect C idx s i ⟨.again, none⟩ [] s
  /-- The demuxer fails. -/
  | stopped {c : ℤ} (read : i.read = .error c) : TurnEffect C idx s i ⟨.error, none⟩ [] s
  /-- A packet of the selected stream is decoded. -/
  | packet {p : AVPacket B} {ret : DecRet} {cs : List (LibCall B F)} {s' : C.State}
      (selected : i.read.selected idx = some p)
      (effect : DecodeEffect C s (if p.isEmpty then none else some p) i.frameAlloc ret cs s') :
      TurnEffect C idx s i ⟨.ok, some ret⟩ cs s'
  /-- The end of the file is decoded. -/
  | ended {ret : DecRet} {cs : List (LibCall B F)} {s' : C.State} (read : i.read = .eof)
      (effect : DecodeEffect C s none i.frameAlloc ret cs s') :
      TurnEffect C idx s i ⟨.eof, some ret⟩ cs s'

/-- What one turn does: `t` is returned, and `cs` are the calls that concern the codec. -/
structure Turned (r : Routine C) (i : TurnInput B) (r' : Routine C) (t : TurnRet)
    (cs : List (LibCall B F)) : Prop where
  /-- The effect on the codec. -/
  effect : TurnEffect C r.impl.streamIdx r.impl.codecCtx i t cs r'.impl.codecCtx
  /-- The results are recorded. -/
  rets : r'.rets = r.rets ++ [t]
  /-- The loop goes on or is left. -/
  running : r'.running = t.goesOn
  /-- The selected stream stays. -/
  streamIdx : r'.impl.streamIdx = r.impl.streamIdx
  /-- The offers to the codec are recorded. -/
  sends : sends r'.impl.calls = sends r.impl.calls ++ sends cs
  /-- The calls that change the codec are recorded. -/
  codecCalls : codecCalls r'.impl.calls = codecCalls r.impl.calls ++ codecCalls cs
  /-- The outcomes are recorded. -/
  outcomes : outcomes r'.impl.calls = outcomes r.impl.calls ++ outcomes cs
  /-- The deliveries are recorded. -/
  delivered : delivered r'.impl.calls = delivered r.impl.calls ++ delivered cs
  /-- `decode_cnt` counts the frames. -/
  decodeCnt : r'.impl.decodeCnt = r.impl.decodeCnt + BitVec.ofNat 32 (FfTest.delivered cs).length
  /-- `m_decoded_frame_cnt` counts the packets of the selected stream. -/
  decodedFrameCnt : r'.impl.decodedFrameCnt = r.impl.decodedFrameCnt
    + BitVec.ofNat 32 (i.read.selected r.impl.streamIdx).toList.length

/-- A turn is made of the silent calls `ds` of `demux` and the calls `cs` of `decode`. -/
theorem turned_of_extends {r : Routine C} {i : TurnInput B} {d d' : DecoderImpl C} {t : TurnRet}
    {ds cs : List (LibCall B F)} (hds : ∀ c ∈ ds, DecoderImpl.Silent c)
    (hdemux : r.impl.Extends d ds) (hdecode : d.Extends d' cs)
    (hcnt : d'.decodedFrameCnt = r.impl.decodedFrameCnt
      + BitVec.ofNat 32 (i.read.selected r.impl.streamIdx).toList.length)
    (effect : TurnEffect C r.impl.streamIdx r.impl.codecCtx i t cs d'.codecCtx) :
    Turned r i ⟨d', r.rets ++ [t], t.goesOn⟩ t cs := by
  obtain ⟨hsends, hcodec, houtcomes, hdelivered⟩ := DecoderImpl.views_of_silent hds
  have hcalls : d'.calls = r.impl.calls ++ ds ++ cs := by rw [hdecode.calls, hdemux.calls]
  refine ⟨effect, rfl, rfl, hdecode.streamIdx.trans hdemux.streamIdx, ?_, ?_, ?_, ?_, ?_, hcnt⟩
  · show sends d'.calls = _
    rw [hcalls, sends_append, sends_append, hsends, List.append_nil]
  · show codecCalls d'.calls = _
    rw [hcalls, codecCalls_append, codecCalls_append, hcodec, List.append_nil]
  · show outcomes d'.calls = _
    rw [hcalls, outcomes_append, outcomes_append, houtcomes, List.append_nil]
  · show delivered d'.calls = _
    rw [hcalls, delivered_append, delivered_append, hdelivered, List.append_nil]
  · show d'.decodeCnt = _
    rw [hdecode.decodeCnt, hdemux.decodeCnt, hdelivered]
    simp

/-- **One turn.** -/
theorem Routine.turn_effect (clock : ℕ → Timeval) (r : Routine C) (i : TurnInput B) :
    ∃ t cs, Turned r i (r.turn clock i) t cs := by
  obtain ⟨ds, n, heffect, hdemux, hds, hctx, hcnt⟩ := r.impl.demux_effect clock i.read
  unfold turn
  generalize r.impl.demux clock i.read = out at heffect hdemux hctx hcnt ⊢
  obtain ⟨ret, d⟩ := out
  obtain ⟨p, hp⟩ : ∃ p, d.pkt = p := ⟨_, rfl⟩
  have hsend : d.toSend = if p.isEmpty then none else some p := by rw [← hp]; rfl
  have hidle : d.Extends d [] := ⟨(List.append_nil _).symm, rfl, (BitVec.add_zero _).symm⟩
  simp only at heffect hdemux hctx hcnt
  rw [hp] at heffect
  -- what `demux` returns decides whether `decode` is called
  cases heffect with
  | again selected going fine =>
    refine ⟨⟨.again, none⟩, [], turned_of_extends hds hdemux hidle ?_ ?_⟩
    · rw [selected, hcnt]
      rfl
    · rw [hctx]
      exact .passed selected going fine
  | error read =>
    refine ⟨⟨.error, none⟩, [], turned_of_extends hds hdemux hidle ?_ ?_⟩
    · rw [read, hcnt]
      rfl
    · rw [hctx]
      exact .stopped read
  | ok selected =>
    obtain ⟨cs, hdecode, hext, hsame⟩ := d.decode_effect clock i.frameAlloc
    rw [hctx, hsend] at hdecode
    refine ⟨⟨.ok, some (d.decode clock i.frameAlloc).1⟩, cs, ?_⟩
    have hturned := turned_of_extends hds hdemux hext ?_ (.packet selected hdecode)
    · simpa [TurnRet.goesOn] using hturned
    · rw [selected, hsame, hcnt]
      rfl
  | eof read empty =>
    -- the empty packet that `demux` leaves makes `decode` send `NULL`
    obtain ⟨cs, hdecode, hext, hsame⟩ := d.decode_effect clock i.frameAlloc
    rw [hctx, hsend, if_pos empty] at hdecode
    refine ⟨⟨.eof, some (d.decode clock i.frameAlloc).1⟩, cs, ?_⟩
    have hturned := turned_of_extends hds hdemux hext ?_ (.ended read hdecode)
    · simpa [TurnRet.goesOn] using hturned
    · rw [read, hsame, hcnt]
      rfl

/-- The selected stream stays through a run. -/
theorem Routine.streamIdx_after (clock : ℕ → Timeval) (d : DecoderImpl C)
    (es : List (TurnInput B)) : (after clock d es).impl.streamIdx = d.streamIdx := by
  induction es using List.reverseRecOn with
  | nil => rfl
  | append_singleton es i ih =>
    obtain ⟨t, cs, hturned⟩ := (after clock d es).turn_effect clock i
    rw [after_snoc, hturned.streamIdx, ih]

/-- **History rule of the loop.** What holds of no turns and the start, and what every turn carries
on, holds of the turns so far and the loop after them. -/
theorem Routine.history (clock : ℕ → Timeval) {d : DecoderImpl C}
    (Hist : List (TurnInput B) → Routine C → Prop) (nil : Hist [] (.start d))
    (snoc : ∀ es i r r' t cs, r.impl.streamIdx = d.streamIdx → Turned r i r' t cs → Hist es r →
      Hist (es ++ [i]) r') (es : List (TurnInput B)) : Hist es (after clock d es) := by
  induction es using List.reverseRecOn with
  | nil => exact nil
  | append_singleton es i ih =>
    obtain ⟨t, cs, hturned⟩ := (after clock d es).turn_effect clock i
    rw [after_snoc]
    exact snoc es i _ _ t cs (streamIdx_after clock d es) hturned ih

/-- The packets of the selected stream that the turns read. -/
def packets (idx : ℤ) (es : List (TurnInput B)) : List (AVPacket B) :=
  es.filterMap (·.read.selected idx)

/-- One turn more reads its packet of the selected stream, if any. -/
theorem packets_snoc (idx : ℤ) (es : List (TurnInput B)) (i : TurnInput B) :
    packets idx (es ++ [i]) = packets idx es ++ (i.read.selected idx).toList := by
  rw [packets, packets, List.filterMap_append]
  cases h : i.read.selected idx <;> simp [h]

end FfTest
