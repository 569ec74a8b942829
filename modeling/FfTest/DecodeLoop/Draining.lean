import FfTest.DecodeLoop.Pipeline

/-! # Delivering everything before the end of the stream

What the codec has produced is received, and what is received is delivered or reported, in every run
of the loop (`booked_after`, `errorCount_after`). `DEC_EOF` is the exception: when an error has
ended the `decode` that drained the codec, the next `decode` finds it draining, returns `DEC_EOF` at
once and leaves the rest behind. So `DEC_EOF` means that everything was delivered exactly in the
runs whose `decode` calls never begin with a codec that drains already (`owesNothing_at_eof_iff`).
-/

namespace FfTest

open DecoderImpl (DecodeEffect)

variable {B F : Type*} {C : Codec (AVPacket B) F}

/-! ## The book on the codec -/

/-- The book on a codec that the calls `cs` lead from `s` to `s'`. -/
structure Booked (K : C.Contract) (s : C.State) (cs : List (LibCall B F)) (s' : C.State) :
    Prop where
  /-- The calls lead there. -/
  after : C.after s (codecCalls cs) = s'
  /-- No flush has dropped an outcome. -/
  lossless : K.Lossless s (codecCalls cs)
  /-- What the calls have taken is recorded. -/
  taken : C.taken s (codecCalls cs) = outcomes cs
  /-- Every frame taken has been delivered, in order. -/
  delivered : delivered cs = (outcomes cs).filterMap Outcome.frame?

/-- No call. -/
theorem booked_nil (K : C.Contract) (s : C.State) : Booked K s ([] : List (LibCall B F)) s :=
  ⟨rfl, trivial, rfl, rfl⟩

/-- The frames among what a loop takes. -/
theorem filterMap_frame_loop (fs : List F) (r : RecvRet F) (hr : ∀ f, r ≠ .frame f) :
    (fs.map Outcome.frame ++ r.outcome.toList).filterMap Outcome.frame? = fs := by
  have hlast : r.outcome.toList.filterMap Outcome.frame? = [] := by
    cases r with
    | frame f => exact absurd rfl (hr f)
    | _ => rfl
  rw [List.filterMap_append, hlast, List.append_nil, List.filterMap_map]
  exact List.filterMap_some

/-- The calls of a `decode` whose packet is accepted. -/
theorem booked_decodeCalls (K : C.Contract) {s s₁ s₂ : C.State} {p : Option (AVPacket B)}
    {fs : List F} {r : RecvRet F} (send : C.send s p = (.ok, s₁)) (takes : C.Takes s₁ fs r s₂) :
    Booked K s (decodeCalls p fs r) s₂ := by
  obtain ⟨hafter, htaken⟩ := takes.history
  refine ⟨?_, ?_, ?_, ?_⟩
  · rw [codecCalls_decodeCalls]
    show C.after (C.send s p).2 _ = _
    rw [send, hafter]
  · rw [codecCalls_decodeCalls]
    exact K.lossless_receive _ _
  · rw [codecCalls_decodeCalls, outcomes_decodeCalls]
    show C.taken (C.send s p).2 _ = _
    rw [send, htaken]
  · rw [delivered_decodeCalls, outcomes_decodeCalls, filterMap_frame_loop fs r takes.ne_frame]

/-- The calls of `decode`. -/
theorem DecoderImpl.DecodeEffect.booked (K : C.Contract) {s s' : C.State} {p : Option (AVPacket B)}
    {alloc : Bool} {ret : DecRet} {cs : List (LibCall B F)}
    (h : DecodeEffect C s p alloc ret cs s') : Booked K s cs s' := by
  cases h with
  | refusedEof send => exact ⟨congrArg Prod.snd send, trivial, rfl, rfl⟩
  | refused send => exact ⟨congrArg Prod.snd send, trivial, rfl, rfl⟩
  | rejected send => exact ⟨congrArg Prod.snd send, trivial, rfl, rfl⟩
  | noFrame send fails => exact ⟨congrArg Prod.snd send, trivial, rfl, rfl⟩
  | emptied send takes => exact booked_decodeCalls K send takes
  | failed send takes => exact booked_decodeCalls K send takes
  | @drained s₁ s₂ fs send takes =>
    have hbooked := booked_decodeCalls K send takes
    -- the flush finds nothing queued
    refine ⟨?_, ?_, ?_, ?_⟩
    · rw [codecCalls_append, Codec.after_append, hbooked.after]
      rfl
    · rw [codecCalls_append, K.lossless_append, hbooked.after]
      exact ⟨hbooked.lossless, (K.exhausted_of_takes takes).2, trivial⟩
    · rw [codecCalls_append, Codec.taken_append, hbooked.taken, outcomes_append]
      rfl
    · rw [delivered_append, outcomes_append, List.filterMap_append, hbooked.delivered]
      rfl

/-- The book over a run. -/
theorem booked_after (K : C.Contract) (clock : ℕ → Timeval) {d : DecoderImpl C} (hd : d.calls = [])
    (es : List (TurnInput B)) :
    Booked K d.codecCtx (Routine.after clock d es).impl.calls
      (Routine.after clock d es).impl.codecCtx := by
  refine Routine.history clock (fun _ r => Booked K d.codecCtx r.impl.calls r.impl.codecCtx)
    ?_ (fun _ _ r r' _ cs _ hturned ih => ?_) es
  · show Booked K d.codecCtx d.calls d.codecCtx
    rw [hd]
    exact booked_nil K _
  · have hcs : Booked K r.impl.codecCtx cs r'.impl.codecCtx := by
      have heffect := hturned.effect
      generalize r'.impl.codecCtx = s' at heffect ⊢
      cases heffect with
      | passed selected going fine => exact booked_nil K _
      | stopped read => exact booked_nil K _
      | packet selected effect => exact effect.booked K
      | ended read effect => exact effect.booked K
    refine ⟨?_, ?_, ?_, ?_⟩
    · rw [hturned.codecCalls, Codec.after_append, ih.after, hcs.after]
    · rw [hturned.codecCalls, K.lossless_append, ih.after]
      exact ⟨ih.lossless, hcs.lossless⟩
    · rw [hturned.codecCalls, Codec.taken_append, ih.after, ih.taken, hcs.taken,
        hturned.outcomes]
    · rw [hturned.delivered, hturned.outcomes, List.filterMap_append, ih.delivered,
        hcs.delivered]

/-! ## The errors reported -/

/-- How many errors the codec has answered, to a packet or in the place of a frame. -/
def errorCount (cs : List (LibCall B F)) : ℕ :=
  (sends cs).countP (·.2.isError) + (outcomes cs).countP Outcome.isError

theorem errorCount_append (cs ds : List (LibCall B F)) :
    errorCount (cs ++ ds) = errorCount cs + errorCount ds := by
  unfold errorCount
  rw [sends_append, outcomes_append, List.countP_append, List.countP_append]
  omega

/-- The frames before an answer are no errors. -/
theorem errorCount_decodeCalls (p : Option (AVPacket B)) (fs : List F) (r : RecvRet F) :
    errorCount (decodeCalls p fs r) = r.outcome.toList.countP Outcome.isError := by
  have hframes : (fs.map Outcome.frame).countP Outcome.isError = 0 := by
    rw [List.countP_eq_zero]
    intro o ho
    obtain ⟨f, -, rfl⟩ := List.mem_map.mp ho
    exact nofun
  unfold errorCount
  rw [sends_decodeCalls, outcomes_decodeCalls, List.countP_append, hframes, Nat.zero_add]
  exact Nat.zero_add _

/-- `decode` returns `DEC_ERROR` exactly for an error of the codec, of which it meets one at most.
-/
theorem DecoderImpl.DecodeEffect.errorCount_eq {s s' : C.State} {p : Option (AVPacket B)}
    {alloc : Bool} {ret : DecRet} {cs : List (LibCall B F)}
    (h : DecodeEffect C s p alloc ret cs s') :
    errorCount cs = if ret = .error then 1 else 0 := by
  cases h with
  | refusedEof send => rfl
  | refused send => rfl
  | rejected send => rfl
  | noFrame send fails => rfl
  | emptied send takes =>
    rw [errorCount_decodeCalls]
    cases p <;> rfl
  | drained send takes =>
    rw [errorCount_append, errorCount_decodeCalls]
    rfl
  | failed send takes =>
    rw [errorCount_decodeCalls]
    rfl

/-- Over a run, `decode` has returned `DEC_ERROR` once for every error of the codec. -/
theorem errorCount_after (clock : ℕ → Timeval) {d : DecoderImpl C} (hd : d.calls = [])
    (es : List (TurnInput B)) :
    (Routine.after clock d es).rets.countP (·.decode == some .error)
      = errorCount (Routine.after clock d es).impl.calls := by
  refine Routine.history clock (fun _ r => r.rets.countP (·.decode == some .error)
    = errorCount r.impl.calls) ?_ (fun _ _ r r' t cs _ hturned ih => ?_) es
  · show 0 = errorCount d.calls
    rw [hd]
    rfl
  · have hcs : [t].countP (·.decode == some .error) = errorCount cs := by
      have heffect := hturned.effect
      generalize r'.impl.codecCtx = s' at heffect
      cases heffect with
      | passed selected going fine => rfl
      | stopped read => rfl
      | packet selected effect =>
        rw [effect.errorCount_eq]
        simp
      | ended read effect =>
        rw [effect.errorCount_eq]
        simp
    have hsum : errorCount r'.impl.calls = errorCount r.impl.calls + errorCount cs := by
      unfold errorCount
      rw [hturned.sends, hturned.outcomes, List.countP_append, List.countP_append]
      omega
    rw [hturned.rets, List.countP_append, ih, hcs, hsum]

/-! ## `DEC_EOF` -/

/-- The codec owes nothing: it was flushed when it had drained and everything had been received,
what it has produced has been received, and what has been received has been delivered or reported.
-/
structure OwesNothing (K : C.Contract) (s : C.State) (r : Routine C) : Prop where
  /-- The codec was flushed when it had nothing left to give. -/
  exhausted : ∃ s', K.Exhausted s' ∧ r.impl.codecCtx = C.flush s'
  /-- Its draining mode has been reset. -/
  reset : K.draining r.impl.codecCtx = false
  /-- Everything it has produced has been received. -/
  received : K.produced s (codecCalls r.impl.calls) = outcomes r.impl.calls
  /-- Every frame received has been delivered, in order. -/
  delivered : delivered r.impl.calls = (outcomes r.impl.calls).filterMap Outcome.frame?
  /-- Every error has been reported by a `DEC_ERROR`. -/
  reported : r.rets.countP (·.decode == some .error) = errorCount r.impl.calls

/-- If the turn calls `decode`, the codec does not drain yet. -/
def OpensDecode (K : C.Contract) (r : Routine C) (i : TurnInput B) : Prop :=
  i.read.selected r.impl.streamIdx ≠ none ∨ i.read = .eof → K.draining r.impl.codecCtx = false

/-- On a codec that does not drain yet, `decode` returns `DEC_EOF` once everything has been
received. -/
theorem DecoderImpl.DecodeEffect.exhausted_of_eof (K : C.Contract) {s s' : C.State}
    {p : Option (AVPacket B)} {alloc : Bool} {ret : DecRet} {cs : List (LibCall B F)}
    (h : DecodeEffect C s p alloc ret cs s') (hs : K.draining s = false) (hret : ret = .eof) :
    ∃ s₂, K.Exhausted s₂ ∧ s' = C.flush s₂ := by
  cases h with
  | refusedEof send =>
    have hdraining := (K.send_eof_iff s p).mp (by rw [send])
    rw [hs] at hdraining
    cases hdraining
  | refused send => cases hret
  | rejected send => cases hret
  | noFrame send fails => cases hret
  | failed send takes => cases hret
  | @drained s₁ s₂ fs send takes => exact ⟨s₂, K.exhausted_of_takes takes, rfl⟩
  | emptied send takes =>
    -- the `eof` branch behind the loop: a codec that has accepted `NULL` asks for no input
    have hsome := K.isSome_of_takes send takes
    cases p with
    | some p => cases hret
    | none => cases hsome

/-- On a codec that drains, `decode` returns `DEC_EOF` at once, and the codec still drains. -/
theorem DecoderImpl.DecodeEffect.eof_of_draining (K : C.Contract) {s s' : C.State}
    {p : Option (AVPacket B)} {alloc : Bool} {ret : DecRet} {cs : List (LibCall B F)}
    (h : DecodeEffect C s p alloc ret cs s') (hs : K.draining s = true) :
    ret = .eof ∧ K.draining s' = true := by
  have heof := (K.send_eof_iff s p).mpr hs
  have hdraining := (K.send_draining s p hs).2
  cases h with
  | refusedEof send =>
    rw [send] at hdraining
    exact ⟨rfl, hdraining⟩
  | refused send => rw [send] at heof; cases heof
  | rejected send => rw [send] at heof; cases heof
  | noFrame send fails => rw [send] at heof; cases heof
  | emptied send takes => rw [send] at heof; cases heof
  | drained send takes => rw [send] at heof; cases heof
  | failed send takes => rw [send] at heof; cases heof

/-- On a codec that does not drain yet, `DEC_EOF` means that everything has been received; on one
that drains, `decode` returns `DEC_EOF`, and the codec still drains. -/
theorem DecoderImpl.DecodeEffect.eof_cases (K : C.Contract) {s s' : C.State}
    {p : Option (AVPacket B)} {alloc : Bool} {ret : DecRet} {cs : List (LibCall B F)}
    (h : DecodeEffect C s p alloc ret cs s') :
    (K.draining s = false ∧ (ret = .eof → ∃ s₂, K.Exhausted s₂ ∧ s' = C.flush s₂)) ∨
    (K.draining s = true ∧ ret = .eof ∧ K.draining s' = true) := by
  cases hs : K.draining s with
  | false => exact .inl ⟨rfl, h.exhausted_of_eof K hs⟩
  | true => exact .inr ⟨rfl, h.eof_of_draining K hs⟩

/-- **One turn.** On a codec that does not drain when `decode` is called, `DEC_EOF` means that it
was flushed with nothing left; otherwise `DEC_EOF` is returned while it still drains. -/
theorem eof_turn (K : C.Contract) {r r' : Routine C} {i : TurnInput B} {t : TurnRet}
    {cs : List (LibCall B F)} (h : Turned r i r' t cs) :
    (OpensDecode K r i ∧ (t.decode = some .eof →
      ∃ s, K.Exhausted s ∧ r'.impl.codecCtx = C.flush s)) ∨
    (¬ OpensDecode K r i ∧ t.decode = some .eof ∧ K.draining r'.impl.codecCtx = true) := by
  have heffect := h.effect
  generalize r'.impl.codecCtx = s' at heffect ⊢
  -- the two turns that call `decode` go the same way
  have hdecode : ∀ {p : Option (AVPacket B)} {ret : DecRet},
      i.read.selected r.impl.streamIdx ≠ none ∨ i.read = .eof →
      DecodeEffect C r.impl.codecCtx p i.frameAlloc ret cs s' →
      (OpensDecode K r i ∧ (some ret = some .eof → ∃ s, K.Exhausted s ∧ s' = C.flush s)) ∨
      (¬ OpensDecode K r i ∧ some ret = some .eof ∧ K.draining s' = true) := by
    intro p ret hcalled effect
    rcases effect.eof_cases K with ⟨hdraining, heof⟩ | ⟨hdraining, heof, hs'⟩
    · exact .inl ⟨fun _ => hdraining, fun hret => heof (Option.some.inj hret)⟩
    · refine .inr ⟨fun hopens => ?_, congrArg some heof, hs'⟩
      rw [hopens hcalled] at hdraining
      cases hdraining
  cases heffect with
  | passed selected going fine =>
    refine .inl ⟨?_, nofun⟩
    rintro (hselected | heof)
    · exact absurd selected hselected
    · exact absurd heof going
  | stopped read =>
    refine .inl ⟨?_, nofun⟩
    unfold OpensDecode
    rw [read]
    rintro (hselected | heof)
    · exact absurd rfl hselected
    · cases heof
  | packet selected effect => exact hdecode (.inl (by rw [selected]; exact nofun)) effect
  | ended read effect => exact hdecode (.inr read) effect

/-- A codec that was flushed with nothing left owes nothing, whatever the run. -/
theorem owesNothing_of_exhausted {K : C.Contract} {clock : ℕ → Timeval} {d : DecoderImpl C}
    (hd : d.Opened K) {es : List (TurnInput B)}
    (h : ∃ s, K.Exhausted s ∧ (Routine.after clock d es).impl.codecCtx = C.flush s) :
    OwesNothing K d.codecCtx (Routine.after clock d es) := by
  have hbooked := booked_after K clock hd.calls es
  obtain ⟨s, hs, hflush⟩ := h
  refine ⟨⟨s, hs, hflush⟩, ?_, ?_, hbooked.delivered, errorCount_after clock hd.calls es⟩
  · rw [hflush, K.draining_flush]
  · have hconserved := K.conserved hbooked.lossless
    rwa [hd.idle.2, hbooked.after, hflush, K.pending_flush, hbooked.taken, List.append_nil]
      at hconserved

/-- **When the end of the stream means that everything was delivered.** At every moment of a run
where `decode` has just returned `DEC_EOF` the codec owes nothing, iff no `decode` of the run begins
with a codec that drains already. -/
theorem owesNothing_at_eof_iff {K : C.Contract} {clock : ℕ → Timeval} {d : DecoderImpl C}
    (hd : d.Opened K) {es : List (TurnInput B)} (h : Routine.Run clock d es) :
    (∀ pre t, pre <+: es → (Routine.after clock d pre).rets.getLast? = some t →
      t.decode = some .eof → OwesNothing K d.codecCtx (Routine.after clock d pre)) ↔
      ((routineMachine C clock).restrict (OpensDecode K)).Legal (.start d) es := by
  -- the moments where `decode` has just returned are the ends of turns
  have hevents : (∀ pre t, pre <+: es → (Routine.after clock d pre).rets.getLast? = some t →
      t.decode = some .eof → OwesNothing K d.codecCtx (Routine.after clock d pre)) ↔
      ∀ fs i, fs ++ [i] <+: es → ∀ t, (Routine.after clock d (fs ++ [i])).rets.getLast? = some t →
        t.decode = some .eof → OwesNothing K d.codecCtx (Routine.after clock d (fs ++ [i])) := by
    constructor
    · exact fun hall fs i hfs t => hall (fs ++ [i]) t hfs
    · intro hall pre t hpre
      exact forall_prefix_iff (P := fun pre => ∀ t,
        (Routine.after clock d pre).rets.getLast? = some t → t.decode = some .eof →
          OwesNothing K d.codecCtx (Routine.after clock d pre)).mpr ⟨nofun, hall⟩ pre hpre t
  rw [hevents]
  refine Machine.Legal.restrict_iff h fun fs i _ hrunning _ => ?_
  obtain ⟨t, cs, hturned⟩ := (Routine.after clock d fs).turn_effect clock i
  have hlast : (Routine.after clock d (fs ++ [i])).rets.getLast? = some t := by
    rw [Routine.after_snoc, hturned.rets, List.getLast?_concat]
  rw [← Routine.after_snoc] at hturned
  constructor
  · intro hall
    rcases eof_turn K hturned with ⟨hopens, -⟩ | ⟨-, heof, hdraining⟩
    · exact hopens
    · -- `DEC_EOF` without the reset
      have hreset := (hall t hlast heof).reset
      rw [hdraining] at hreset
      cases hreset
  · intro hopens u hu heof
    rw [hlast] at hu
    obtain rfl := Option.some.inj hu
    rcases eof_turn K hturned with ⟨-, hexhausted⟩ | ⟨hdraining, -⟩
    · exact owesNothing_of_exhausted hd (hexhausted heof)
    · exact absurd hopens hdraining

instance [DecidableEq B] (K : C.Contract) (r : Routine C) (i : TurnInput B) :
    Decidable (OpensDecode K r i) :=
  have : Decidable (i.read = .eof) :=
    match i.read with
    | .eof => isTrue rfl
    | .packet _ | .again | .error _ => isFalse nofun
  inferInstanceAs (Decidable (_ → _))

/-- In `threeFrames` no error interrupts the draining, and everything is delivered. -/
theorem owesNothing_at_eof_iff_threeFrames :
    ((routineMachine delay.codec fun _ => ⟨0, 0⟩).restrict (OpensDecode delay.contract)).Legal
        (.start delayDecoder) (turns (threeFrames ++ [.eof])) ∧
      ∀ pre t, pre <+: turns (threeFrames ++ [.eof]) →
        (Routine.after (fun _ => ⟨0, 0⟩) delayDecoder pre).rets.getLast? = some t →
          t.decode = some .eof →
            OwesNothing delay.contract delayDecoder.codecCtx
              (Routine.after (fun _ => ⟨0, 0⟩) delayDecoder pre) := by
  have hrun : Routine.Run (fun _ => ⟨0, 0⟩) delayDecoder (turns (threeFrames ++ [.eof])) := by
    decide +kernel
  have hlegal : ((routineMachine delay.codec fun _ => ⟨0, 0⟩).restrict
      (OpensDecode delay.contract)).Legal (.start delayDecoder)
        (turns (threeFrames ++ [.eof])) := by
    decide +kernel
  exact ⟨hlegal, (owesNothing_at_eof_iff delayDecoder_opened hrun).mpr hlegal⟩

/-- A packet with an error before a frame, and the end of the file, read twice. -/
def interruptedDrain : List (TurnInput (List (Outcome ℕ))) :=
  turns [.packet (delayPacket [.error 5, .frame 1]), .eof, .eof]

/-- In `interruptedDrain` the error ends the `decode` that drains the codec, and the next one
returns `DEC_EOF` with the frame still there: `DEC_EOF` does not mean that everything was delivered.
-/
theorem not_owesNothing_at_eof :
    ¬ ∀ (C : Codec.{0, 0, 0} (AVPacket (List (Outcome ℕ))) ℕ) (K : C.Contract)
      (clock : ℕ → Timeval) (d : DecoderImpl C) (es : List (TurnInput (List (Outcome ℕ)))),
      d.Opened K → Routine.Run clock d es →
        (∀ p ∈ packets d.streamIdx es, p.isEmpty = false) →
          ∀ t, (Routine.after clock d es).rets.getLast? = some t → t.decode = some .eof →
            OwesNothing K d.codecCtx (Routine.after clock d es) := by
  intro hall
  have hrun : Routine.Run (fun _ => ⟨0, 0⟩) delayDecoder interruptedDrain := by decide +kernel
  have howes := hall delay.codec delay.contract (fun _ => ⟨0, 0⟩) delayDecoder interruptedDrain
    delayDecoder_opened hrun (by decide) ⟨.eof, some .eof⟩ (by decide +kernel) rfl
  have hreset := howes.reset
  revert hreset
  decide +kernel

end FfTest
