import FfTest.DecodeLoop.Pipeline

/-! # Packets that the codec pushes back

When `avcodec_send_packet` answers `AVERROR(EAGAIN)`, `decode` releases `m_pkt` and returns
`DEC_AGAIN`, and the loop reads the next packet: the packet is lost. A `decode` that has returned
before everything was received can leave the codec in a state where this happens. So every packet is
settled exactly in the runs that never meet a push back (`settled_eq_packets_iff`). -/

namespace FfTest

open DecoderImpl (DecodeEffect)

variable {B F : Type*} {C : Codec (AVPacket B) F}

/-- The packets that the codec has accepted, or rejected with an error other than `EAGAIN`. -/
def settled (cs : List (LibCall B F)) : List (AVPacket B) :=
  (sends cs).filterMap fun x => if x.2 = .again then none else x.1

/-- The packet that the turn reads, if it is one of the selected stream, is not empty and is not
pushed back by the codec as it stands. -/
def Settles (r : Routine C) (i : TurnInput B) : Prop :=
  ∀ p ∈ i.read.selected r.impl.streamIdx,
    p.isEmpty = false ∧ (C.send r.impl.codecCtx (some p)).1 ≠ .again

/-- `decode` offers its packet once; it is settled unless it is pushed back. -/
theorem DecoderImpl.DecodeEffect.settled_eq {s s' : C.State} {p : Option (AVPacket B)}
    {alloc : Bool} {ret : DecRet} {cs : List (LibCall B F)}
    (h : DecodeEffect C s p alloc ret cs s') :
    settled cs = if (C.send s p).1 = .again then [] else p.toList := by
  unfold settled
  cases h with
  | refusedEof send =>
    rw [send]
    cases p <;> rfl
  | refused send =>
    rw [send]
    rfl
  | rejected send =>
    rw [send]
    cases p <;> rfl
  | noFrame send =>
    rw [send]
    cases p <;> rfl
  | emptied send =>
    rw [send, sends_decodeCalls]
    cases p <;> rfl
  | drained send =>
    rw [send, sends_append, sends_decodeCalls]
    cases p <;> rfl
  | failed send =>
    rw [send, sends_decodeCalls]
    cases p <;> rfl

/-- **One turn.** The packet it reads is settled if the turn `Settles`, and otherwise nothing is,
though a packet has been read. -/
theorem Turned.settled {r r' : Routine C} {i : TurnInput B} {t : TurnRet}
    {cs : List (LibCall B F)} (h : Turned r i r' t cs) :
    (Settles r i ∧ settled cs = (i.read.selected r.impl.streamIdx).toList) ∨
    (¬ Settles r i ∧ settled cs = [] ∧ ∃ p, i.read.selected r.impl.streamIdx = some p) := by
  have heffect := h.effect
  generalize r'.impl.codecCtx = s' at heffect
  cases heffect with
  | passed selected going fine =>
    refine .inl ⟨?_, ?_⟩
    · rw [Settles, selected]
      exact nofun
    · rw [selected]
      rfl
  | stopped read =>
    refine .inl ⟨?_, ?_⟩
    · rw [Settles, read]
      exact nofun
    · rw [read]
      rfl
  | ended read effect =>
    refine .inl ⟨?_, ?_⟩
    · rw [Settles, read]
      exact nofun
    · rw [effect.settled_eq, read]
      exact ite_self _
  | @packet p ret cs s' selected effect =>
    rw [effect.settled_eq, Settles, selected]
    cases hempty : p.isEmpty with
    | true =>
      -- `NULL` is sent in the place of an empty packet
      refine .inr ⟨fun hsettles => ?_, ite_self _, p, rfl⟩
      rw [(hsettles p rfl).1] at hempty
      cases hempty
    | false =>
      by_cases hagain : (C.send r.impl.codecCtx (some p)).1 = .again
      · exact .inr ⟨fun hsettles => (hsettles p rfl).2 hagain, if_pos hagain, p, rfl⟩
      · refine .inl ⟨?_, if_neg hagain⟩
        rintro q ⟨⟩
        exact ⟨hempty, hagain⟩

/-- One turn more settles what its calls settle. -/
theorem settled_snoc {r r' : Routine C} {i : TurnInput B} {t : TurnRet}
    {cs : List (LibCall B F)} (h : Turned r i r' t cs) :
    settled r'.impl.calls = settled r.impl.calls ++ settled cs := by
  unfold settled
  rw [h.sends, List.filterMap_append]

/-- No more packets are settled than have been read. -/
theorem length_settled_le (clock : ℕ → Timeval) {d : DecoderImpl C} (hd : d.calls = [])
    (es : List (TurnInput B)) :
    (settled (Routine.after clock d es).impl.calls).length ≤ (packets d.streamIdx es).length := by
  refine Routine.history clock (fun es r => (settled r.impl.calls).length
    ≤ (packets d.streamIdx es).length) ?_ (fun es i r r' t cs hidx hturned ih => ?_) es
  · show (settled d.calls).length ≤ 0
    rw [hd]
    exact Nat.le_refl 0
  · rw [settled_snoc hturned, packets_snoc, List.length_append, List.length_append]
    rcases hturned.settled with ⟨-, hcs⟩ | ⟨-, hcs, -⟩
    · rw [hcs, hidx]
      exact Nat.add_le_add_right ih _
    · rw [hcs]
      exact Nat.le_add_right_of_le ih

/-- **When no packet is lost.** Every packet of the selected stream is settled exactly once and in
order, over a whole run, iff every turn of the run meets a packet that is not empty and that the
codec does not push back. -/
theorem settled_eq_packets_iff {clock : ℕ → Timeval} {K : C.Contract} {d : DecoderImpl C}
    (hd : d.Opened K) {es : List (TurnInput B)} (h : Routine.Run clock d es) :
    settled (Routine.after clock d es).impl.calls = packets d.streamIdx es ↔
      ((routineMachine C clock).restrict Settles).Legal (.start d) es := by
  induction es using List.reverseRecOn with
  | nil =>
    refine iff_of_true ?_ trivial
    show settled d.calls = []
    rw [hd.calls]
    rfl
  | append_singleton es i ih =>
    obtain ⟨hes, hrunning⟩ := (Routine.run_snoc clock d es i).mp h
    obtain ⟨t, cs, hturned⟩ := (Routine.after clock d es).turn_effect clock i
    have hle := length_settled_le clock hd.calls es
    rw [Machine.legal_snoc, ← ih hes, Routine.after_snoc, settled_snoc hturned, packets_snoc]
    show _ ↔ _ ∧ (Routine.after clock d es).running = true ∧ Settles (Routine.after clock d es) i
    -- a packet once lost stays lost: no later turn settles more than it reads
    rcases hturned.settled with ⟨hsettles, hcs⟩ | ⟨hsettles, hcs, p, hp⟩
    · rw [hcs, Routine.streamIdx_after]
      constructor
      · intro heq
        exact ⟨List.append_cancel_right heq, hrunning, hsettles⟩
      · rintro ⟨heq, -, -⟩
        rw [heq]
    · rw [Routine.streamIdx_after] at hp
      refine iff_of_false ?_ fun hall => hsettles hall.2.2
      -- the settled packets are too few
      intro heq
      have hlength := congrArg List.length heq
      rw [hcs, hp, List.length_append, List.length_append] at hlength
      simp only [List.length_nil, Option.toList_some, List.length_singleton] at hlength
      omega

/-- Two packets that decode to one frame each. -/
def twoPackets : List (TurnInput (List (Outcome ℕ))) :=
  turns [.packet (delayPacket [.frame 1]), .packet (delayPacket [.frame 2])]

/-- In `twoPackets` nothing is pushed back, so no packet is lost. -/
theorem settled_eq_packets_iff_twoPackets :
    ((routineMachine delay.codec fun _ => ⟨0, 0⟩).restrict Settles).Legal (.start delayDecoder)
      twoPackets := by
  have hrun : Routine.Run (fun _ => ⟨0, 0⟩) delayDecoder twoPackets := by
    decide +kernel
  exact (settled_eq_packets_iff delayDecoder_opened hrun).mp (by decide +kernel)

/-- A packet with an error and a frame, an empty-handed one that brings them out, and a third. -/
def lostPacket : List (TurnInput (List (Outcome ℕ))) :=
  turns [.packet (delayPacket [.error 5, .frame 1]), .packet (delayPacket []),
    .packet (delayPacket [.frame 2])]

/-- After the error in `lostPacket` the codec still holds a frame, pushes the third packet back, and
the packet is lost: not every packet is settled in every run. -/
theorem not_settled_eq_packets :
    ¬ ∀ (C : Codec.{0, 0, 0} (AVPacket (List (Outcome ℕ))) ℕ) (K : C.Contract)
      (clock : ℕ → Timeval) (d : DecoderImpl C) (es : List (TurnInput (List (Outcome ℕ)))),
      d.Opened K → Routine.Run clock d es →
        settled (Routine.after clock d es).impl.calls = packets d.streamIdx es := by
  intro hall
  have hrun : Routine.Run (fun _ => ⟨0, 0⟩) delayDecoder lostPacket := by
    decide +kernel
  have hsettled := hall delay.codec delay.contract (fun _ => ⟨0, 0⟩) delayDecoder lostPacket
    delayDecoder_opened hrun
  revert hsettled
  decide +kernel

end FfTest
