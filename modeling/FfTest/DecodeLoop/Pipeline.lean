import FfTest.DecodeLoop.Routine

/-! # The driver loop refines the reference pipeline

On a demuxer output of packets and pauses that ends with the end of the file, and with a codec that
reports no error, the loop feeds every packet of the selected stream and then drains the codec
(`decode_refines_pipeline`). What carries the proof is that the codec is idle after every turn, so
that it never pushes a packet back. -/

namespace FfTest

open DecoderImpl (DecodeEffect)

variable {B F : Type*} {C : Codec (AVPacket B) F}

/-- No error of the codec is among the calls. -/
def Clean (cs : List (LibCall B F)) : Prop :=
  (∀ x ∈ sends cs, ∀ c, x.2 ≠ .error c) ∧ ∀ c, .error c ∉ outcomes cs

/-- An answer of the demuxer before the end of the file: none yet, or a packet, which is not empty
if it is one of the stream `idx`. -/
def ReadRet.Supplied (idx : ℤ) (read : ReadRet B) : Prop :=
  read ≠ .eof ∧ (∀ c, read ≠ .error c) ∧ ∀ p ∈ read.selected idx, p.isEmpty = false

/-- The turns in which the demuxer answers `reads`, and a frame can always be allocated. -/
def turns (reads : List (ReadRet B)) : List (TurnInput B) := reads.map fun read => ⟨read, true⟩

/-- The loop stands where the reference pipeline has fed the packets `ps` to the codec in `s`. -/
structure Fed (K : C.Contract) (s : C.State) (ps : List (AVPacket B)) (r : Routine C) : Prop where
  /-- The loop has not been left. -/
  running : r.running = true
  /-- Everything receivable has been received. -/
  idle : K.Idle r.impl.codecCtx
  /-- The packets have been sent, and accepted. -/
  sends : sends r.impl.calls = ps.map fun p => (some p, .ok)
  /-- What the pipeline emits is what has been delivered, and what it emits from here. -/
  emits : ∀ qs fs, C.Emits r.impl.codecCtx qs fs →
    C.Emits s (ps ++ qs) (delivered r.impl.calls ++ fs)
  /-- The frames have been counted. -/
  decodeCnt : r.impl.decodeCnt = BitVec.ofNat 32 (delivered r.impl.calls).length
  /-- The packets have been counted. -/
  decodedFrameCnt : r.impl.decodedFrameCnt = BitVec.ofNat 32 ps.length

/-- The loop has been left with `DEC_EOF`, where the reference pipeline has fed the packets `ps` to
the codec in `s` and drained it. -/
structure Drained (s : C.State) (ps : List (AVPacket B)) (r : Routine C) : Prop where
  /-- The loop has been left. -/
  running : r.running = false
  /-- The last `decode` has returned `DEC_EOF` at the end of the file. -/
  last : r.rets.getLast? = some ⟨.eof, some .eof⟩
  /-- Every packet has been sent once and in order, then the end of the stream; all were accepted.
  -/
  sends : sends r.impl.calls = (ps.map fun p => (some p, .ok)) ++ [(none, .ok)]
  /-- Exactly what the pipeline emits has been delivered, in order. -/
  emits : ∀ fs, C.Emits s ps fs ↔ delivered r.impl.calls = fs
  /-- `decode_cnt` is the number of frames. -/
  decodeCnt : r.impl.decodeCnt.toNat = (delivered r.impl.calls).length % 2 ^ 32
  /-- `m_decoded_frame_cnt` is the number of packets. -/
  decodedFrameCnt : r.impl.decodedFrameCnt.toNat = ps.length % 2 ^ 32

/-- An idle codec accepts a packet and gives its frames, unless it reports an error. -/
theorem DecoderImpl.DecodeEffect.accepted (K : C.Contract) {s s' : C.State}
    {p : Option (AVPacket B)} {ret : DecRet} {cs : List (LibCall B F)} (hidle : K.Idle s)
    (hclean : Clean cs) (h : DecodeEffect C s p true ret cs s') :
    (∃ s₁ fs, C.send s p = (.ok, s₁) ∧ C.Takes s₁ fs .again s' ∧ cs = decodeCalls p fs .again ∧
      ret = (if p.isNone then .eof else .ok) ∧ p.isSome) ∨
    (∃ s₁ s₂ fs, C.send s p = (.ok, s₁) ∧ C.Takes s₁ fs .eof s₂ ∧ ret = .eof ∧
      cs = decodeCalls p fs .eof ++ [.flushBuffers] ∧ p.isNone) := by
  cases h with
  | refusedEof send =>
    -- an idle codec neither drains nor has a reason to push a packet back
    have hdraining := (K.send_eof_iff s p).mp (by rw [send])
    rw [hidle.1] at hdraining
    cases hdraining
  | refused send => exact absurd hidle.2 (K.pending_of_send_again s p (by rw [send]))
  | rejected send => exact absurd rfl (hclean.1 _ (List.mem_singleton_self _) _)
  | noFrame send fails => cases fails
  | @emptied s₁ _ fs send takes alloced =>
    -- an accepted `NULL` would have started the draining
    exact .inl ⟨s₁, fs, send, takes, rfl, rfl, K.isSome_of_takes send takes⟩
  | @drained s₁ s₂ fs send takes alloced =>
    refine .inr ⟨s₁, s₂, fs, send, takes, rfl, rfl, ?_⟩
    have hdraining : K.draining s₁ = true := by
      rw [← K.draining_takes takes, (K.exhausted_of_takes takes).1]
    rw [K.draining_send s p hidle.1 (by rw [send]; exact hdraining)]
    rfl
  | @failed s₁ s₂ fs c send takes alloced =>
    refine absurd ?_ (hclean.2 c)
    rw [outcomes_decodeCalls]
    exact List.mem_append_right _ (List.mem_singleton_self _)

/-- A clean record is made of a clean earlier record and clean calls. -/
theorem Turned.clean {r r' : Routine C} {i : TurnInput B} {t : TurnRet} {cs : List (LibCall B F)}
    (h : Turned r i r' t cs) (hclean : Clean r'.impl.calls) : Clean r.impl.calls ∧ Clean cs := by
  obtain ⟨hsends, houtcomes⟩ := hclean
  rw [h.sends] at hsends
  rw [h.outcomes] at houtcomes
  refine ⟨⟨fun x hx => hsends x (List.mem_append_left _ hx), ?_⟩,
    ⟨fun x hx => hsends x (List.mem_append_right _ hx), ?_⟩⟩
  · intro c hc
    exact houtcomes c (List.mem_append_left _ hc)
  · intro c hc
    exact houtcomes c (List.mem_append_right _ hc)

/-- **One turn before the end of the file** feeds the packet of the selected stream, if one is
read. -/
theorem Fed.turn {K : C.Contract} {s : C.State} {ps : List (AVPacket B)} {r : Routine C}
    (h : Fed K s ps r) {clock : ℕ → Timeval} {read : ReadRet B}
    (hread : read.Supplied r.impl.streamIdx)
    (hclean : Clean (r.turn clock ⟨read, true⟩).impl.calls) :
    Fed K s (ps ++ (read.selected r.impl.streamIdx).toList) (r.turn clock ⟨read, true⟩) := by
  obtain ⟨t, cs, hturned⟩ := r.turn_effect clock ⟨read, true⟩
  generalize r.turn clock ⟨read, true⟩ = r' at hturned hclean ⊢
  have hcs := (hturned.clean hclean).2
  have hdelivered := hturned.delivered
  have hcount := hturned.decodeCnt
  have hpackets : r'.impl.decodedFrameCnt
      = BitVec.ofNat 32 (ps ++ (read.selected r.impl.streamIdx).toList).length := by
    rw [hturned.decodedFrameCnt, h.decodedFrameCnt, List.length_append, BitVec.ofNat_add]
  have hframes : r'.impl.decodeCnt = BitVec.ofNat 32 (delivered r'.impl.calls).length := by
    rw [hcount, h.decodeCnt, hdelivered, List.length_append, BitVec.ofNat_add]
  have hsends := hturned.sends
  have hrunning := hturned.running
  have heffect := hturned.effect
  obtain ⟨s', hs'⟩ : ∃ s', r'.impl.codecCtx = s' := ⟨_, rfl⟩
  rw [hs'] at heffect
  cases heffect with
  | passed selected going fine =>
    -- nothing was read that is fed
    refine ⟨hrunning, hs' ▸ h.idle, ?_, ?_, hframes, hpackets⟩
    · rw [hsends, h.sends, selected, Option.toList_none, List.append_nil]
      exact List.append_nil _
    · rw [hs', hdelivered, selected, Option.toList_none, List.append_nil]
      show ∀ qs fs, _ → C.Emits s (ps ++ qs) (delivered r.impl.calls ++ [] ++ fs)
      rw [List.append_nil]
      exact h.emits
  | stopped read_eq => exact absurd read_eq (hread.2.1 _)
  | @packet p ret cs s' selected effect =>
    rw [hread.2.2 p selected] at effect
    rcases effect.accepted K h.idle hcs with
      ⟨s₁, fs, send, takes, rfl, rfl, -⟩ | ⟨-, -, -, -, -, -, -, hnone⟩
    · refine ⟨hrunning, hs' ▸ K.idle_of_takes takes, ?_, ?_, hframes, hpackets⟩
      · rw [hsends, h.sends, sends_decodeCalls, selected, Option.toList_some, List.map_append]
        rfl
      · -- the pipeline may go on from here with any packets
        intro qs gs hemits
        rw [hs'] at hemits
        rw [hdelivered, delivered_decodeCalls, selected, List.append_assoc, List.append_assoc]
        exact h.emits (p :: qs) (fs ++ gs) (.feed send takes hemits)
    · cases hnone
  | ended read_eq effect => exact absurd read_eq hread.1

/-- **The turn at the end of the file** drains the codec. -/
theorem Fed.finish {K : C.Contract} {s : C.State} {ps : List (AVPacket B)} {r : Routine C}
    (h : Fed K s ps r) {clock : ℕ → Timeval}
    (hclean : Clean (r.turn clock ⟨.eof, true⟩).impl.calls) :
    Drained s ps (r.turn clock ⟨.eof, true⟩) := by
  obtain ⟨t, cs, hturned⟩ := r.turn_effect clock ⟨.eof, true⟩
  generalize r.turn clock ⟨.eof, true⟩ = r' at hturned hclean ⊢
  have hcs := (hturned.clean hclean).2
  have hdelivered := hturned.delivered
  have hsends := hturned.sends
  have hrunning := hturned.running
  have hrets := hturned.rets
  have hframes : r'.impl.decodeCnt = BitVec.ofNat 32 (delivered r'.impl.calls).length := by
    rw [hturned.decodeCnt, h.decodeCnt, hdelivered, List.length_append, BitVec.ofNat_add]
  have hpackets : r'.impl.decodedFrameCnt = BitVec.ofNat 32 ps.length := by
    rw [hturned.decodedFrameCnt, h.decodedFrameCnt]
    exact BitVec.add_zero _
  have heffect := hturned.effect
  obtain ⟨s', hs'⟩ : ∃ s', r'.impl.codecCtx = s' := ⟨_, rfl⟩
  rw [hs'] at heffect
  cases heffect with
  | passed selected going fine => exact absurd rfl going
  | stopped read_eq => cases read_eq
  | packet selected effect => cases selected
  | @ended ret cs s' read_eq effect =>
    rcases effect.accepted K h.idle hcs with
      ⟨-, -, -, -, -, -, hsome⟩ | ⟨s₁, s₂, fs, send, takes, rfl, rfl, -⟩
    · cases hsome
    -- what was delivered, and what is drained now, is all that the pipeline emits
    · have hemits : C.Emits s ps (delivered r'.impl.calls) := by
        rw [hdelivered, delivered_append, delivered_decodeCalls]
        have hdrain := h.emits [] fs (.drain send takes)
        rw [List.append_nil] at hdrain
        show C.Emits s ps (delivered r.impl.calls ++ (fs ++ []))
        rwa [List.append_nil]
      refine ⟨hrunning, ?_, ?_, ?_, ?_, ?_⟩
      · rw [hrets, List.getLast?_concat]
      · rw [hsends, h.sends, sends_append, sends_decodeCalls]
        rfl
      · intro gs
        constructor
        · exact hemits.unique
        · rintro rfl
          exact hemits
      · rw [hframes, BitVec.toNat_ofNat]
      · rw [hpackets, BitVec.toNat_ofNat]

/-- The loop feeds the packets of the selected stream, turn by turn. -/
theorem fed_run {K : C.Contract} {clock : ℕ → Timeval} {d : DecoderImpl C} (hd : d.Opened K)
    {reads : List (ReadRet B)} (hreads : ∀ read ∈ reads, read.Supplied d.streamIdx)
    (hclean : Clean (Routine.after clock d (turns reads)).impl.calls) :
    Routine.Run clock d (turns reads) ∧
      Fed K d.codecCtx (packets d.streamIdx (turns reads))
        (Routine.after clock d (turns reads)) := by
  -- on the answers from the end: the invariant is `Fed`, which one turn carries on
  induction reads using List.reverseRecOn with
  | nil =>
    refine ⟨trivial, rfl, hd.idle, ?_, ?_, ?_, hd.decodedFrameCnt⟩
    · show sends d.calls = []
      rw [hd.calls]
      rfl
    · intro qs fs hemits
      show C.Emits _ ([] ++ qs) (delivered d.calls ++ fs)
      rw [hd.calls]
      exact hemits
    · show d.decodeCnt = BitVec.ofNat 32 (delivered d.calls).length
      rw [hd.calls, hd.decodeCnt]
      rfl
  | append_singleton reads read ih =>
    have hturns : turns (reads ++ [read]) = turns reads ++ [⟨read, true⟩] := List.map_append
    rw [hturns, Routine.after_snoc] at hclean
    obtain ⟨t, cs, hturned⟩ := (Routine.after clock d (turns reads)).turn_effect clock ⟨read, true⟩
    obtain ⟨hrun, hfed⟩ := ih (fun q hq => hreads q (List.mem_append_left _ hq))
      (hturned.clean hclean).1
    have hread := hreads read (List.mem_append_right _ (List.mem_singleton_self _))
    have hidx := Routine.streamIdx_after clock d (turns reads)
    rw [← hidx] at hread
    have hfed' := hfed.turn hread hclean
    rw [hidx] at hfed'
    rw [hturns, Routine.run_snoc, Routine.after_snoc, packets_snoc]
    exact ⟨⟨hrun, hfed.running⟩, hfed'⟩

/-- **The loop refines the reference pipeline.** On every list of answers of the demuxer before the
end of the file, and with no error of the codec, the loop goes on to the end of the file and is left
there with `DEC_EOF`; no packet has been pushed back, every packet of the selected stream has been
sent once and in order, and exactly the frames that the reference pipeline emits have been
delivered. -/
theorem decode_refines_pipeline (K : C.Contract) (clock : ℕ → Timeval) {d : DecoderImpl C}
    (hd : d.Opened K) {reads : List (ReadRet B)}
    (hreads : ∀ read ∈ reads, read.Supplied d.streamIdx)
    (hclean : Clean (Routine.after clock d (turns (reads ++ [.eof]))).impl.calls) :
    Routine.Run clock d (turns (reads ++ [.eof])) ∧
      Drained d.codecCtx (packets d.streamIdx (turns reads))
        (Routine.after clock d (turns (reads ++ [.eof]))) := by
  have hturns : turns (reads ++ [.eof]) = turns reads ++ [⟨.eof, true⟩] := List.map_append
  rw [hturns, Routine.after_snoc] at hclean
  obtain ⟨t, cs, hturned⟩ := (Routine.after clock d (turns reads)).turn_effect clock ⟨.eof, true⟩
  obtain ⟨hrun, hfed⟩ := fed_run hd hreads (hturned.clean hclean).1
  rw [hturns, Routine.run_snoc, Routine.after_snoc]
  exact ⟨⟨hrun, hfed.running⟩, hfed.finish hclean⟩

/-- A transducer on packets whose buffer is what they decode to; it holds the outcomes of each
packet back until the next one. -/
def delay : Transducer (AVPacket (List (Outcome ℕ))) ℕ (List (Outcome ℕ)) where
  start := []
  step held p := (held, p.data.getD [])
  finish held := held

/-- A decoder for stream 0 with the codec of `delay`, as opened. -/
def delayDecoder : DecoderImpl delay.codec where
  pkt := .blank
  codecCtx := ⟨[], [], false⟩
  streamIdx := 0
  decodedFrameCnt := 0
  decodeCnt := 0
  timeUsage _ := 0
  moment := 0
  calls := []

theorem delayDecoder_opened : delayDecoder.Opened delay.contract := ⟨rfl, ⟨rfl, rfl⟩, rfl, rfl⟩

/-- A packet of stream 0 with these outcomes. -/
def delayPacket (os : List (Outcome ℕ)) : AVPacket (List (Outcome ℕ)) := ⟨some os, 1, 0⟩

/-- A pause, a packet with two frames, one of another stream, and one with one frame. -/
def threeFrames : List (ReadRet (List (Outcome ℕ))) :=
  [.again, .packet (delayPacket [.frame 1, .frame 2]), .packet ⟨none, 0, 1⟩,
    .packet (delayPacket [.frame 3])]

/-- The packets of `threeFrames` go through the pipeline. -/
theorem decode_refines_pipeline_threeFrames :
    Drained (C := delay.codec) ⟨[], [], false⟩
      [delayPacket [.frame 1, .frame 2], delayPacket [.frame 3]]
      (Routine.after (fun _ => ⟨0, 0⟩) delayDecoder (turns (threeFrames ++ [.eof]))) := by
  have hreads : ∀ read ∈ threeFrames, read.Supplied delayDecoder.streamIdx := by
    intro read hread
    rcases List.mem_cons.mp hread with rfl | hread
    · exact ⟨nofun, nofun, nofun⟩
    rcases List.mem_cons.mp hread with rfl | hread
    · refine ⟨nofun, nofun, ?_⟩
      rintro p ⟨⟩
      rfl
    rcases List.mem_cons.mp hread with rfl | hread
    · exact ⟨nofun, nofun, nofun⟩
    obtain rfl := List.mem_singleton.mp hread
    refine ⟨nofun, nofun, ?_⟩
    rintro p ⟨⟩
    rfl
  have hclean : Clean (Routine.after (fun _ => ⟨0, 0⟩) delayDecoder
      (turns (threeFrames ++ [.eof]))).impl.calls := by
    have hsends : sends (Routine.after (fun _ => ⟨0, 0⟩) delayDecoder
        (turns (threeFrames ++ [.eof]))).impl.calls =
      [(some (delayPacket [.frame 1, .frame 2]), .ok), (some (delayPacket [.frame 3]), .ok),
        (none, .ok)] := by decide +kernel
    have houtcomes : outcomes (Routine.after (fun _ => ⟨0, 0⟩) delayDecoder
        (turns (threeFrames ++ [.eof]))).impl.calls = [.frame 1, .frame 2, .frame 3] := by
      decide +kernel
    unfold Clean
    rw [hsends, houtcomes]
    simp
  exact (decode_refines_pipeline delay.contract _ delayDecoder_opened hreads hclean).2

end FfTest
