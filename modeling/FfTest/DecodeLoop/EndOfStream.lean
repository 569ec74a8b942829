import FfTest.DecodeLoop.Pipeline

/-! # Reaching the end of the stream

`decode` takes an empty `m_pkt` for the end of the stream, which `demux` signals by emptying it. So
`DEC_EOF` and the end-of-stream packet follow `demux` exactly in the runs that read no empty packet
of the selected stream (`eofAtEnd_iff`). -/

namespace FfTest

open DecoderImpl (DecodeEffect)

variable {B F : Type*} {C : Codec (AVPacket B) F}

/-- `DEC_EOF` and the end-of-stream packet come from the demuxer alone, and every other packet read
is offered to the codec. -/
structure EofAtEnd (ps : List (AVPacket B)) (r : Routine C) : Prop where
  /-- `decode` has returned `DEC_EOF` only if `demux` has. -/
  reported : (∃ t ∈ r.rets, t.decode = some .eof) → ∃ t ∈ r.rets, t.demux = .eof
  /-- `NULL` has been sent as often as `demux` has returned `DEC_EOF`. -/
  signalled : (sends r.impl.calls).countP (·.1.isNone) = r.rets.countP (·.demux == .eof)
  /-- Of the packets read, those that are not empty have been offered, once each and in order. -/
  offered : (sends r.impl.calls).filterMap Prod.fst = ps.filter fun p => !p.isEmpty

/-- `decode` offers one packet, or `NULL`. -/
theorem DecoderImpl.DecodeEffect.sends_eq {s s' : C.State} {p : Option (AVPacket B)} {alloc : Bool}
    {ret : DecRet} {cs : List (LibCall B F)} (h : DecodeEffect C s p alloc ret cs s') :
    sends cs = [(p, (C.send s p).1)] := by
  cases h with
  | refusedEof send => rw [send]; rfl
  | refused send => rw [send]; rfl
  | rejected send => rw [send]; rfl
  | noFrame send => rw [send]; rfl
  | emptied send => rw [send, sends_decodeCalls]
  | drained send =>
    rw [send, sends_append, sends_decodeCalls]
    rfl
  | failed send => rw [send, sends_decodeCalls]

/-- Given a packet, `decode` returns `DEC_EOF` only when the codec drains, and does not make it
drain. -/
theorem DecoderImpl.DecodeEffect.packet_eof (K : C.Contract) {s s' : C.State} {p : AVPacket B}
    {alloc : Bool} {ret : DecRet} {cs : List (LibCall B F)}
    (h : DecodeEffect C s (some p) alloc ret cs s') :
    (ret = .eof → K.draining s = true) ∧ (K.draining s' = true → K.draining s = true) := by
  -- whatever the codec answers, it drains afterwards only if it did before
  have hstep : K.draining (C.send s (some p)).2 = true → K.draining s = true := by
    intro hdraining
    by_cases hs : K.draining s = true
    · exact hs
    · have hnone := K.draining_send s (some p) (Bool.not_eq_true _ ▸ hs) hdraining
      cases hnone
  cases h with
  | refusedEof send =>
    rw [send] at hstep
    exact ⟨fun _ => (K.send_eof_iff s (some p)).mp (by rw [send]), hstep⟩
  | refused send =>
    rw [send] at hstep
    exact ⟨nofun, hstep⟩
  | rejected send =>
    rw [send] at hstep
    exact ⟨nofun, hstep⟩
  | noFrame send =>
    rw [send] at hstep
    exact ⟨nofun, hstep⟩
  | emptied send takes =>
    rw [send] at hstep
    exact ⟨nofun, fun h => hstep (by rwa [← K.draining_takes takes])⟩
  | drained send takes =>
    rw [send] at hstep
    refine ⟨fun _ => hstep ?_, fun h => absurd ((K.draining_flush _).symm.trans h) nofun⟩
    show K.draining _ = true
    rw [← K.draining_takes takes]
    exact (K.exhausted_of_takes takes).1
  | failed send takes =>
    rw [send] at hstep
    exact ⟨nofun, fun h => hstep (by rwa [← K.draining_takes takes])⟩

/-- What a turn offers: nothing, `NULL` at the end of the file, or the packet it reads, with `NULL`
for an empty one. -/
theorem offers_turn {r r' : Routine C} {i : TurnInput B} {t : TurnRet} {cs : List (LibCall B F)}
    (h : Turned r i r' t cs) :
    (i.read.selected r.impl.streamIdx = none ∧ (t.demux == .eof) = false ∧ sends cs = []) ∨
    (i.read.selected r.impl.streamIdx = none ∧ (t.demux == .eof) = true ∧
      ∃ ret, sends cs = [(none, ret)]) ∨
    ∃ p ret, i.read.selected r.impl.streamIdx = some p ∧ (t.demux == .eof) = false ∧
      sends cs = [(if p.isEmpty then none else some p, ret)] := by
  have heffect := h.effect
  generalize r'.impl.codecCtx = s' at heffect
  cases heffect with
  | passed selected going fine => exact .inl ⟨selected, rfl, rfl⟩
  | stopped read => exact .inl ⟨by rw [read]; rfl, rfl, rfl⟩
  | ended read effect => exact .inr (.inl ⟨by rw [read]; rfl, rfl, _, effect.sends_eq⟩)
  | packet selected effect => exact .inr (.inr ⟨_, _, selected, rfl, effect.sends_eq⟩)

/-- The number of end-of-stream packets of a turn: one where `demux` reports the end, and one for an
empty packet of the selected stream. -/
theorem count_none_turn {r r' : Routine C} {i : TurnInput B} {t : TurnRet}
    {cs : List (LibCall B F)} (h : Turned r i r' t cs) :
    (sends cs).countP (·.1.isNone) = [t].countP (·.demux == .eof) +
      (i.read.selected r.impl.streamIdx).toList.countP (·.isEmpty) := by
  rcases offers_turn h with ⟨selected, hret, hsends⟩ | ⟨selected, hret, ret, hsends⟩ |
    ⟨p, ret, selected, hret, hsends⟩
  · simp [selected, hret, hsends]
  · simp [selected, hret, hsends]
  · cases hempty : p.isEmpty <;> simp [selected, hret, hsends, hempty]

/-- The end-of-stream packets of a run. -/
theorem count_none_after (clock : ℕ → Timeval) {d : DecoderImpl C} (hd : d.calls = [])
    (es : List (TurnInput B)) :
    (sends (Routine.after clock d es).impl.calls).countP (·.1.isNone)
      = (Routine.after clock d es).rets.countP (·.demux == .eof)
        + (packets d.streamIdx es).countP (·.isEmpty) := by
  refine Routine.history clock (fun es r => (sends r.impl.calls).countP (·.1.isNone)
    = r.rets.countP (·.demux == .eof) + (packets d.streamIdx es).countP (·.isEmpty))
    ?_ (fun es i r r' t cs hidx hturned ih => ?_) es
  · show (sends d.calls).countP _ = 0
    rw [hd]
    rfl
  · have hcs := count_none_turn hturned
    rw [hidx] at hcs
    rw [hturned.sends, hturned.rets, packets_snoc, List.countP_append,
      List.countP_append, List.countP_append, ih, hcs]
    omega

/-- The packets offered by a turn: the one it reads, unless it is empty. -/
theorem offered_turn {r r' : Routine C} {i : TurnInput B} {t : TurnRet}
    {cs : List (LibCall B F)} (h : Turned r i r' t cs) :
    (sends cs).filterMap Prod.fst
      = (i.read.selected r.impl.streamIdx).toList.filter fun p => !p.isEmpty := by
  rcases offers_turn h with ⟨selected, -, hsends⟩ | ⟨selected, -, ret, hsends⟩ |
    ⟨p, ret, selected, -, hsends⟩
  · simp [selected, hsends]
  · simp [selected, hsends]
  · cases hempty : p.isEmpty <;> simp [selected, hsends, hempty]

/-- The packets offered in a run are those it reads that are not empty. -/
theorem offered_after (clock : ℕ → Timeval) {d : DecoderImpl C} (hd : d.calls = [])
    (es : List (TurnInput B)) :
    (sends (Routine.after clock d es).impl.calls).filterMap Prod.fst
      = (packets d.streamIdx es).filter fun p => !p.isEmpty := by
  refine Routine.history clock (fun es r => (sends r.impl.calls).filterMap Prod.fst
    = (packets d.streamIdx es).filter fun p => !p.isEmpty)
    ?_ (fun es i r r' t cs hidx hturned ih => ?_) es
  · show (sends d.calls).filterMap _ = []
    rw [hd]
    rfl
  · have hcs := offered_turn hturned
    rw [hidx] at hcs
    rw [hturned.sends, packets_snoc, List.filterMap_append, List.filter_append, ih, hcs]

/-- **One turn** that reads no empty packet: where the codec drains, or `decode` returns `DEC_EOF`,
`demux` has reported the end. -/
theorem reported_turn (K : C.Contract) {r r' : Routine C} {i : TurnInput B} {t : TurnRet}
    {cs : List (LibCall B F)} (h : Turned r i r' t cs)
    (hpacket : ∀ p ∈ i.read.selected r.impl.streamIdx, p.isEmpty = false)
    (hr : K.draining r.impl.codecCtx = true → ∃ t ∈ r.rets, t.demux = .eof) :
    (t.decode = some .eof → ∃ t ∈ r'.rets, t.demux = .eof) ∧
      (K.draining r'.impl.codecCtx = true → ∃ t ∈ r'.rets, t.demux = .eof) := by
  have hmono : (∃ t ∈ r.rets, t.demux = .eof) → ∃ t ∈ r'.rets, t.demux = .eof := by
    rintro ⟨u, hu, heof⟩
    rw [h.rets]
    exact ⟨u, List.mem_append_left _ hu, heof⟩
  have hlast : t.demux = .eof → ∃ t ∈ r'.rets, t.demux = .eof := by
    intro heof
    rw [h.rets]
    exact ⟨t, List.mem_append_right _ (List.mem_singleton_self _), heof⟩
  have heffect := h.effect
  obtain ⟨s', hs'⟩ : ∃ s', r'.impl.codecCtx = s' := ⟨_, rfl⟩
  rw [hs'] at heffect ⊢
  cases heffect with
  | passed selected going fine => exact ⟨nofun, fun hd => hmono (hr hd)⟩
  | stopped read => exact ⟨nofun, fun hd => hmono (hr hd)⟩
  | ended read effect => exact ⟨fun _ => hlast rfl, fun _ => hlast rfl⟩
  | @packet p ret cs s' selected effect =>
    -- a packet that is not empty starts no draining, so it was there before
    rw [hpacket p selected] at effect
    obtain ⟨heof, hdraining⟩ := effect.packet_eof K
    exact ⟨fun hret => hmono (hr (heof (Option.some.inj hret))),
      fun hd => hmono (hr (hdraining hd))⟩

/-- In a run that reads no empty packet, `demux` has reported the end where the codec drains and
where `decode` has returned `DEC_EOF`. -/
theorem reported_after (clock : ℕ → Timeval) {K : C.Contract} {d : DecoderImpl C}
    (hd : d.Opened K) {es : List (TurnInput B)}
    (hes : ∀ p ∈ packets d.streamIdx es, p.isEmpty = false) :
    ((∃ t ∈ (Routine.after clock d es).rets, t.decode = some .eof) →
      ∃ t ∈ (Routine.after clock d es).rets, t.demux = .eof) ∧
    (K.draining (Routine.after clock d es).impl.codecCtx = true →
      ∃ t ∈ (Routine.after clock d es).rets, t.demux = .eof) := by
  refine Routine.history clock (fun es r => (∀ p ∈ packets d.streamIdx es, p.isEmpty = false) →
    ((∃ t ∈ r.rets, t.decode = some .eof) → ∃ t ∈ r.rets, t.demux = .eof) ∧
    (K.draining r.impl.codecCtx = true → ∃ t ∈ r.rets, t.demux = .eof))
    (fun _ => ⟨?_, ?_⟩) (fun es i r r' t cs hidx hturned ih hes => ?_) es hes
  · rintro ⟨t, ht, -⟩
    cases ht
  · intro hdraining
    exact absurd (hd.idle.1.symm.trans hdraining) nofun
  · rw [packets_snoc] at hes
    obtain ⟨hreported, hdraining⟩ := ih fun p hp => hes p (List.mem_append_left _ hp)
    have hpacket : ∀ p ∈ i.read.selected r.impl.streamIdx, p.isEmpty = false := by
      rw [hidx]
      intro p hp
      exact hes p (List.mem_append_right _ (Option.mem_toList.mpr hp))
    obtain ⟨hret, hdraining'⟩ := reported_turn K hturned hpacket hdraining
    refine ⟨?_, hdraining'⟩
    rintro ⟨u, hu, heof⟩
    rw [hturned.rets] at hu
    rcases List.mem_append.mp hu with hu | hu
    · obtain ⟨v, hv, hveof⟩ := hreported ⟨u, hu, heof⟩
      rw [hturned.rets]
      exact ⟨v, List.mem_append_left _ hv, hveof⟩
    · obtain rfl := List.mem_singleton.mp hu
      exact hret heof

/-- **When the end of the stream is the end of the file.** At every moment of the loop `DEC_EOF` and
the end-of-stream packet have come from the demuxer alone, and every other packet has been offered,
iff no empty packet of the selected stream is read. -/
theorem eofAtEnd_iff {clock : ℕ → Timeval} {K : C.Contract} {d : DecoderImpl C}
    (hd : d.Opened K) (es : List (TurnInput B)) :
    (∀ pre, pre <+: es →
      EofAtEnd (packets d.streamIdx pre) (Routine.after clock d pre)) ↔
      ∀ p ∈ packets d.streamIdx es, p.isEmpty = false := by
  constructor
  · intro hall p hp
    -- every `NULL` that `demux` has not signalled stands for an empty packet
    have hcount := count_none_after clock hd.calls es
    rw [(hall es List.prefix_rfl).signalled] at hcount
    have hzero : (packets d.streamIdx es).countP (·.isEmpty) = 0 := by omega
    exact Bool.eq_false_iff.mpr (List.countP_eq_zero.mp hzero p hp)
  · rintro hes pre ⟨rest, rfl⟩
    have hpre : ∀ p ∈ packets d.streamIdx pre, p.isEmpty = false := by
      intro p hp
      refine hes p ?_
      rw [packets, List.filterMap_append]
      exact List.mem_append_left _ hp
    refine ⟨(reported_after clock hd hpre).1, ?_, offered_after clock hd.calls pre⟩
    rw [count_none_after clock hd.calls pre]
    have hzero : (packets d.streamIdx pre).countP (·.isEmpty) = 0 :=
      List.countP_eq_zero.mpr fun p hp => Bool.eq_false_iff.mp (hpre p hp)
    rw [hzero]
    rfl

/-- No packet of `threeFrames` is empty, and the end of the stream is that of the file. -/
theorem eofAtEnd_iff_threeFrames :
    (∀ p ∈ packets delayDecoder.streamIdx (turns (threeFrames ++ [.eof])), p.isEmpty = false) ∧
      ∀ pre, pre <+: turns (threeFrames ++ [.eof]) →
        EofAtEnd (packets delayDecoder.streamIdx pre)
          (Routine.after (fun _ => ⟨0, 0⟩) delayDecoder pre) := by
  have hempty : ∀ p ∈ packets delayDecoder.streamIdx (turns (threeFrames ++ [.eof])),
      p.isEmpty = false := by
    decide
  exact ⟨hempty, (eofAtEnd_iff delayDecoder_opened _).mpr hempty⟩

/-- An empty packet of the selected stream, before the end of the file. -/
def emptyPacket : List (TurnInput (List (Outcome ℕ))) := turns [.packet ⟨none, 0, 0⟩]

/-- On `emptyPacket`, `decode` drains the codec and returns `DEC_EOF`, though `demux` has not. -/
theorem not_reported :
    ¬ ∀ (C : Codec.{0, 0, 0} (AVPacket (List (Outcome ℕ))) ℕ) (K : C.Contract)
      (clock : ℕ → Timeval) (d : DecoderImpl C) (es : List (TurnInput (List (Outcome ℕ)))),
      d.Opened K → Routine.Run clock d es →
        (∃ t ∈ (Routine.after clock d es).rets, t.decode = some .eof) →
          ∃ t ∈ (Routine.after clock d es).rets, t.demux = .eof := by
  intro hall
  have hrun : Routine.Run (fun _ => ⟨0, 0⟩) delayDecoder emptyPacket := by decide +kernel
  have hreported := hall delay.codec delay.contract (fun _ => ⟨0, 0⟩) delayDecoder emptyPacket
    delayDecoder_opened hrun
  revert hreported
  decide +kernel

end FfTest
