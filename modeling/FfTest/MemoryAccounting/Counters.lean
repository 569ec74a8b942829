import FfTest.MemoryAccounting.Accounting

/-! # The counter `m_mem_used` over whole runs

Two readings of the law of the counters. With one decoder current throughout, `m_mem_used` is the
total size of the live payloads, modulo `2 ^ 32` (`memUsed_eq_liveTotal`). With contexts that differ
from call to call it is off by what was orphaned and stolen, and exact as long as every payload is
released under the context it was charged to (`memUsed_of_contexts`). -/

namespace FfTest

variable {D : Type*} {w : ℕ}

/-- If everything was charged to one decoder and released under it, the releases match. -/
theorem Client.matched_of_sole {d : D} {c : Client D}
    (h : ∀ r ∈ c.released, r.charged = some d ∧ r.current = some d) : c.Matched :=
  fun r hr => (h r hr).1.trans (h r hr).2.symm

variable [DecidableEq D]

/-- The run of the wrappers and their client from no calls. -/
abbrev runJut (m : Memory) (dec : D → Decoder) (es : List (Event D w)) : Config D :=
  (jutMachine D w).run (Config.start m dec) es

/-- The runs whose system allocations all succeed and whose live total stays below `2 ^ 32`, under
any contexts. -/
def roomyMachine (D : Type*) [DecidableEq D] (w : ℕ) : Machine (Config D) (Event D w) :=
  (jutMachine D w).restrict fun cfg e =>
    e.op.AllocSucceeds ∧ (jutStep 4 cfg e).client.liveTotal < 2 ^ 32

/-- A counter that starts at 0 starts in balance. -/
theorem balanced_start (m : Memory) {dec : D → Decoder} {d : D} (h0 : (dec d).memUsed = 0) :
    Balanced d ((Config.start m dec).jut.dec d).memUsed (Config.start m dec).client := by
  simp [Balanced, Config.start, Client.start, Client.stolen, Client.liveCharged, Client.orphaned,
    h0]

/-- **The law of the counters.** Every run whose `realloc` calls succeed keeps the balance of every
decoder whose counter starts at 0. -/
theorem balanced_run {m : Memory} {dec : D → Decoder} {d : D} (h0 : (dec d).memUsed = 0)
    {es : List (Event D w)}
    (h : ((jutMachine D w).restrict fun _ e => e.op.ReallocSucceeds).Legal
      (Config.start m dec) es) :
    Balanced d ((runJut m dec es).jut.dec d).memUsed (runJut m dec es).client := by
  have hinv : (runJut m dec es).Ok ∧
      Balanced d ((runJut m dec es).jut.dec d).memUsed (runJut m dec es).client := by
    refine h.invariant
      (fun cfg => cfg.Ok ∧ Balanced d (cfg.jut.dec d).memUsed cfg.client) ?_ ?_
    · intro cfg e hcfg he
      exact ⟨hcfg.1.step he.1, (hcfg.1.effect he.1).balanced he.2 hcfg.2⟩
    · exact ⟨Config.ok_start m dec, balanced_start m h0⟩
  exact hinv.2

/-! ## One decoder -/

/-- Everything was charged to `d` and released under it. -/
structure Client.Sole (d : D) (c : Client D) : Prop where
  /-- The owners of the live payloads. -/
  owners : ∀ p ∈ c.live, p.owner = some d
  /-- The releases. -/
  releases : ∀ r ∈ c.released, r.charged = some d ∧ r.current = some d

/-- If everything was charged to `d`, what is live is charged to `d`. -/
theorem Client.Sole.liveCharged_eq {d : D} {c : Client D} (h : c.Sole d) :
    c.liveCharged d = c.liveTotal := by
  rw [liveCharged, liveTotal]
  refine congrArg _ (List.map_congr_left fun p hp => ?_)
  rw [if_pos (h.owners p hp)]

/-- An event under `d` leaves everything charged to `d` and released under it. -/
theorem Effect.sole {dec dec' : D → Decoder} {c c' : Client D} {d : D} {op : Op w}
    (he : Effect dec c (some d) op dec' c') (h : c.Sole d) : c'.Sole d := by
  have hadd : ∀ (c : Client D) (p : Payload D), c.Sole d → p.owner = some d →
      (c.add p).Sole d := by
    intro c p hc hp
    refine ⟨fun q hq => ?_, hc.releases⟩
    rcases List.mem_cons.mp hq with rfl | hq
    · exact hp
    · exact hc.owners q hq
  have hrelease : ∀ {ptr : ℕ} {b : Payload D}, c.find ptr = some b →
      (c.release (some d) ptr).Sole d := by
    intro ptr b hb
    rw [Client.release_of_find hb]
    refine ⟨fun q hq => h.owners q (Client.mem_of_mem_rest hq), fun r hr => ?_⟩
    rcases List.mem_cons.mp hr with rfl | hr
    · exact ⟨h.owners b (List.mem_of_find?_eq_some hb), rfl⟩
    · exact h.releases r hr
  cases he with
  | idle _ live owners released =>
    refine ⟨fun p hp => ?_, released ▸ h.releases⟩
    have hmem := List.mem_map_of_mem (f := (·.owner)) hp
    rw [owners] at hmem
    obtain ⟨q, hq, hpq⟩ := List.mem_map.mp hmem
    exact hpq.symm.trans (h.owners q hq)
  | malloc size g written => exact hadd c _ h rfl
  | reallocNull size g written => exact hadd c _ h rfl
  | realloc size g written find => exact hadd _ _ (hrelease find) rfl
  | refused size find => exact h
  | free m find => exact hrelease find

/-- In a run under one decoder everything is charged to it and released under it. -/
theorem sole_run {m : Memory} {dec : D → Decoder} {d : D} {es : List (Event D w)}
    (h : ((jutMachine D w).restrict fun _ e => e.ctx = some d).Legal (Config.start m dec) es) :
    (runJut m dec es).client.Sole d := by
  have hinv : (runJut m dec es).Ok ∧ (runJut m dec es).client.Sole d := by
    refine h.invariant (fun cfg => cfg.Ok ∧ cfg.client.Sole d) ?_ ?_
    · intro cfg e hcfg he
      have heffect := hcfg.1.effect he.1
      rw [he.2] at heffect
      exact ⟨hcfg.1.step he.1, heffect.sole hcfg.2⟩
    · exact ⟨Config.ok_start m dec, ⟨by simp [Config.start, Client.start],
        by simp [Config.start, Client.start]⟩⟩
  exact hinv.2

/-- **Accounting under one decoder.** Start with nothing live and the counter of `d` at 0, and let
`d` be current at every call. Whatever is allocated, resized, freed and written, with any `memalign`
failing and every `realloc` succeeding, the counter equals the total of the sizes last requested for
the live payloads, modulo `2 ^ 32`; when none is live it is back at 0. -/
theorem memUsed_eq_liveTotal {m : Memory} {dec : D → Decoder} {d : D} (h0 : (dec d).memUsed = 0)
    {es : List (Event D w)}
    (h : ((jutMachine D w).restrict fun _ e => e.ctx = some d ∧ e.op.ReallocSucceeds).Legal
      (Config.start m dec) es) :
    ((runJut m dec es).jut.dec d).memUsed.toNat = (runJut m dec es).client.liveTotal % 2 ^ 32 ∧
      ((runJut m dec es).client.live = [] → ((runJut m dec es).jut.dec d).memUsed = 0) := by
  -- with one decoder throughout nothing is orphaned or stolen, and all that lives is charged to it
  have hsole := sole_run (d := d) (h.mono fun _ _ he => ⟨he.1, he.2.1⟩)
  have hbal := balanced_run h0 (h.mono fun _ _ he => ⟨he.1, he.2.2⟩)
  have hmatched := Client.matched_of_sole hsole.releases
  rw [Balanced, hmatched.stolen_eq, hmatched.orphaned_eq, hsole.liveCharged_eq] at hbal
  have hused : ((runJut m dec es).jut.dec d).memUsed
      = BitVec.ofNat 32 (runJut m dec es).client.liveTotal := by simpa using hbal
  refine ⟨by rw [hused, BitVec.toNat_ofNat], fun hnil => ?_⟩
  rw [hused, Client.liveTotal, hnil]
  rfl

/-- Memory of zeros. -/
def zeroMem : Memory := fun _ => 0

/-- A decoder whose counters are 0. -/
def freshDecoder : Decoder := ⟨0, 0⟩

/-- A payload of 10 bytes at 128 is written to, and grown to 20 bytes in place. -/
def grownRun : List (Event Unit 64) :=
  [⟨some (), .malloc 10 (some ⟨64, zeroMem⟩)⟩,
    ⟨some (), .write 128 3 7⟩,
    ⟨some (), .realloc (some 128) 20 (some ⟨64, storeByte (store32 zeroMem 64 10) 131 7⟩)⟩]

/-- The run `grownRun` is legal, with one decoder current, every system allocation succeeding and a
live total below `2 ^ 32`. -/
theorem grownRun_legal :
    ((roomyMachine Unit 64).restrict fun _ e => e.ctx = some ()).Legal
      (Config.start zeroMem fun _ => freshDecoder) grownRun := by
  refine ⟨⟨⟨⟨by decide, ?_⟩, rfl, by decide⟩, rfl⟩,
    ⟨⟨⟨_, List.mem_singleton_self _, rfl, by decide⟩, trivial, by decide⟩, rfl⟩,
    ⟨⟨⟨?_, by decide, ?_⟩, Or.inl rfl, by decide⟩, rfl⟩, trivial⟩
  · exact SysHeap.allocOk_of_nil rfl (by decide)
  · rintro p ⟨⟩
    exact ⟨_, List.mem_singleton_self _, rfl⟩
  · exact SysHeap.reallocOk_in_place rfl _

/-- A system whose every allocation succeeds has every `realloc` succeeding. -/
theorem Op.AllocSucceeds.reallocSucceeds {op : Op w} (h : op.AllocSucceeds) :
    op.ReallocSucceeds := by
  cases op with
  | malloc size r => trivial
  | realloc ptr size r => exact h
  | free ptr m => trivial
  | write ptr off b => trivial

/-- After `grownRun` the counter stands at the 20 bytes last requested. -/
theorem memUsed_eq_liveTotal_grownRun :
    ((runJut zeroMem (fun _ => freshDecoder) grownRun).jut.dec ()).memUsed.toNat
        = (runJut zeroMem (fun _ => freshDecoder) grownRun).client.liveTotal % 2 ^ 32 ∧
      ((runJut zeroMem (fun _ => freshDecoder) grownRun).client.live = [] →
        ((runJut zeroMem (fun _ => freshDecoder) grownRun).jut.dec ()).memUsed = 0) :=
  memUsed_eq_liveTotal rfl
    (grownRun_legal.mono fun _ _ he => ⟨he.1.1, he.2, he.1.2.1.reallocSucceeds⟩)

/-! ## Contexts that differ from call to call -/

/-- The counter of every decoder is exactly what is live and charged to it. -/
def Config.ChargesExact (cfg : Config D) : Prop :=
  ∀ d, (cfg.jut.dec d).memUsed.toNat = cfg.client.liveCharged d

/-- In a roomy run the live total is below `2 ^ 32`. -/
theorem liveTotal_lt {m : Memory} {dec : D → Decoder} {es : List (Event D w)}
    (h : (roomyMachine D w).Legal (Config.start m dec) es) :
    (runJut m dec es).client.liveTotal < 2 ^ 32 := by
  refine h.invariant (fun cfg => cfg.client.liveTotal < 2 ^ 32) ?_ ?_
  · intro cfg e _ he
    exact he.2.2
  · simp [Config.start, Client.start, Client.liveTotal]

/-- A counter below `2 ^ 32` in balance is exact iff what was stolen and what was orphaned are equal
modulo `2 ^ 32`. -/
theorem Balanced.exact_iff {d : D} {used : BitVec 32} {c : Client D} (h : Balanced d used c)
    (hlt : c.liveCharged d < 2 ^ 32) :
    used.toNat = c.liveCharged d ↔ c.stolen d % 2 ^ 32 = c.orphaned d % 2 ^ 32 := by
  have hused : used.toNat = c.liveCharged d ↔ used = BitVec.ofNat 32 (c.liveCharged d) := by
    constructor
    · intro heq
      rw [← heq, BitVec.ofNat_toNat, BitVec.setWidth_eq]
    · intro heq
      rw [heq, BitVec.toNat_ofNat, Nat.mod_eq_of_lt hlt]
  -- cancel what is common to both sides of the balance
  rw [Balanced, BitVec.ofNat_add] at h
  rw [hused, ← BitVec.toNat_ofNat, ← BitVec.toNat_ofNat, BitVec.toNat_inj]
  constructor
  · intro heq
    rw [heq] at h
    exact add_left_cancel h
  · intro heq
    rw [heq] at h
    exact add_right_cancel h

/-- **Accounting under any contexts.** Start with nothing live and every counter at 0, and let the
current context be any decoder or none at each call. The counter of every decoder, plus what was
stolen from it, is what is live and charged to it plus what was orphaned, modulo `2 ^ 32`; it is
exact iff these two agree modulo `2 ^ 32`; and every counter is exact, so no release has made one
wrap, if each payload was released under the context it was charged to. -/
theorem memUsed_of_contexts {m : Memory} {dec : D → Decoder} (h0 : ∀ d, (dec d).memUsed = 0)
    {es : List (Event D w)} (h : (roomyMachine D w).Legal (Config.start m dec) es) :
    (∀ d, Balanced d ((runJut m dec es).jut.dec d).memUsed (runJut m dec es).client) ∧
      (∀ d, ((runJut m dec es).jut.dec d).memUsed.toNat = (runJut m dec es).client.liveCharged d ↔
        (runJut m dec es).client.stolen d % 2 ^ 32
          = (runJut m dec es).client.orphaned d % 2 ^ 32) ∧
      ((runJut m dec es).client.Matched → (runJut m dec es).ChargesExact) := by
  have hbal : ∀ d, Balanced d ((runJut m dec es).jut.dec d).memUsed (runJut m dec es).client :=
    fun d => balanced_run (h0 d) (h.mono fun _ _ he => ⟨he.1, he.2.1.reallocSucceeds⟩)
  have hexact := fun d => (hbal d).exact_iff
    (Nat.lt_of_le_of_lt (Client.liveCharged_le d _) (liveTotal_lt h))
  refine ⟨hbal, hexact, fun hmatched d => (hexact d).mpr ?_⟩
  rw [hmatched.stolen_eq, hmatched.orphaned_eq]

/-- Two decoders, `false` and `true`: a payload of 10 bytes is charged to the first and freed under
the second, then one of 20 bytes is charged to the second. -/
def handedOverRun : List (Event Bool 64) :=
  [⟨some false, .malloc 10 (some ⟨64, zeroMem⟩)⟩, ⟨some true, .free (some 128) zeroMem⟩,
    ⟨some true, .malloc 20 (some ⟨64, zeroMem⟩)⟩]

/-- In `handedOverRun` each counter, with what was stolen, is what is charged, with what was
orphaned; neither is exact, as 10 bytes are orphaned by the first decoder and stolen from the
second. In `grownRun` every release is matched, and the counter is exact. -/
theorem memUsed_of_contexts_handedOverRun :
    let cfg := runJut zeroMem (fun _ => freshDecoder) handedOverRun
    (∀ d, Balanced d (cfg.jut.dec d).memUsed cfg.client) ∧
    (∀ d, (cfg.jut.dec d).memUsed.toNat = cfg.client.liveCharged d ↔
      cfg.client.stolen d % 2 ^ 32 = cfg.client.orphaned d % 2 ^ 32) ∧
    (cfg.jut.dec false).memUsed = 10 ∧ cfg.client.liveCharged false = 0 ∧
    cfg.client.orphaned false = 10 ∧
    (cfg.jut.dec true).memUsed = 10 ∧ cfg.client.liveCharged true = 20 ∧
    cfg.client.stolen true = 10 ∧
    (runJut zeroMem (fun _ => freshDecoder) grownRun).ChargesExact := by
  intro cfg
  have hlegal : (roomyMachine Bool 64).Legal (Config.start zeroMem fun _ => freshDecoder)
      handedOverRun := by
    refine ⟨⟨⟨by decide, ?_⟩, rfl, by decide⟩, ⟨⟨?_, ?_⟩, trivial, by decide⟩,
      ⟨⟨by decide, ?_⟩, rfl, by decide⟩, trivial⟩
    · exact SysHeap.allocOk_of_nil rfl (by decide)
    · rintro p ⟨⟩
      exact ⟨_, List.mem_singleton_self _, rfl⟩
    · rintro p ⟨⟩ b ⟨⟩
    · exact SysHeap.allocOk_of_nil rfl (by decide)
  obtain ⟨hbalanced, hexact, -⟩ := memUsed_of_contexts (fun _ => rfl) hlegal
  have hmatched : (runJut zeroMem (fun _ => freshDecoder) grownRun).client.Matched := by
    rintro r hr
    obtain rfl := List.mem_singleton.mp hr
    rfl
  exact ⟨hbalanced, hexact, by decide, by decide, by decide, by decide, by decide, by decide,
    (memUsed_of_contexts (fun _ => rfl) grownRun_legal.of_restrict).2.2 hmatched⟩

/-- A payload of 10 bytes is allocated with no decoder current and freed under one. -/
def foreignFreeRun : List (Event Unit 64) :=
  [⟨none, .malloc 10 (some ⟨64, zeroMem⟩)⟩, ⟨some (), .free (some 128) zeroMem⟩]

/-- A payload charged to nobody is taken off the decoder that frees it, whose counter wraps: the
counters are not exact in every run. -/
theorem not_chargesExact_of_contexts :
    ¬ ∀ es : List (Event Unit 64),
      (roomyMachine Unit 64).Legal (Config.start zeroMem fun _ => freshDecoder) es →
        (runJut zeroMem (fun _ => freshDecoder) es).ChargesExact := by
  intro hall
  have hlegal : (roomyMachine Unit 64).Legal (Config.start zeroMem fun _ => freshDecoder)
      foreignFreeRun := by
    refine ⟨⟨⟨by decide, ?_⟩, rfl, by decide⟩, ⟨⟨?_, ?_⟩, trivial, by decide⟩, trivial⟩
    · exact SysHeap.allocOk_of_nil rfl (by decide)
    · rintro p ⟨⟩
      exact ⟨_, List.mem_singleton_self _, rfl⟩
    · rintro p ⟨⟩ b ⟨⟩
  have hexact := hall foreignFreeRun hlegal ()
  revert hexact
  decide

end FfTest
