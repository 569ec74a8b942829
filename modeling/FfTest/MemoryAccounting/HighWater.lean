import FfTest.MemoryAccounting.Counters

/-! # The recorded maximum `memused_max`

`jut_malloc` raises `memused_max` when the counter passes it; `jut_realloc` raises the counter and
leaves the maximum alone. So the recorded maximum is the true high-water mark of a run exactly when
no `jut_realloc` takes the live total past it (`memusedMax_eq_peak_iff`). -/

namespace FfTest

variable {D : Type*} [DecidableEq D] {w : ℕ}

/-- The largest value the counter of `d` has had, at the start and after each event so far. -/
def peak (d : D) (cfg : Config D) : List (Event D w) → ℕ
  | [] => (cfg.jut.dec d).memUsed.toNat
  | e :: es => max (cfg.jut.dec d).memUsed.toNat (peak d (jutStep 4 cfg e) es)

/-- One more event: the counter after it joins the maximum. -/
theorem peak_snoc (d : D) (cfg : Config D) (es : List (Event D w)) (e : Event D w) :
    peak d cfg (es ++ [e]) = max (peak d cfg es)
      ((((jutMachine D w).run cfg (es ++ [e])).jut.dec d).memUsed.toNat) := by
  induction es generalizing cfg with
  | nil => rfl
  | cons f es ih =>
    rw [List.cons_append, peak, ih, peak, ← max_assoc]
    rfl

/-- The counter never exceeds the largest value it has had. -/
theorem memUsed_le_peak (d : D) (cfg : Config D) (es : List (Event D w)) :
    (((jutMachine D w).run cfg es).jut.dec d).memUsed.toNat ≤ peak d cfg es := by
  induction es using List.reverseRecOn with
  | nil => exact le_rfl
  | append_singleton es e _ =>
    rw [peak_snoc]
    exact le_max_right _ _

/-- The live total after a successful `jut_realloc(ptr, size)`. -/
def Client.totalAfterRealloc (c : Client D) (ptr : Option ℕ) (size : ℕ) : ℕ :=
  c.liveTotal - ((ptr.bind c.find).elim 0 (·.size)) + size

/-- A `jut_realloc` does not take the live total past the recorded maximum. -/
def BelowMax (d : D) (cfg : Config D) (e : Event D w) : Prop :=
  match e.op with
  | .realloc ptr size _ =>
    cfg.client.totalAfterRealloc ptr size.toNat ≤ (cfg.jut.dec d).memusedMax.toNat
  | _ => True

/-- The runs with one decoder current throughout, every system allocation succeeding, and a live
total that stays below `2 ^ 32`. -/
def soleMachine (d : D) (w : ℕ) : Machine (Config D) (Event D w) :=
  (roomyMachine D w).restrict fun _ e => e.ctx = some d

/-- In such a run the counter is the live total. -/
theorem memUsed_eq_of_sole {m : Memory} {dec : D → Decoder} {d : D} (h0 : (dec d).memUsed = 0)
    {es : List (Event D w)} (h : (soleMachine d w).Legal (Config.start m dec) es) :
    ((runJut m dec es).jut.dec d).memUsed.toNat = (runJut m dec es).client.liveTotal := by
  have htotal := (memUsed_eq_liveTotal h0
    (h.mono fun _ _ he => ⟨he.1.1, he.2, he.1.2.1.reallocSucceeds⟩)).1
  rwa [Nat.mod_eq_of_lt (liveTotal_lt h.of_restrict)] at htotal

/-- Raising the counter of a decoder raises its recorded maximum to it if need be. -/
theorem Decoder.toNat_memusedMax_grow (x : Decoder) (n : BitVec 32) :
    (x.grow n).memusedMax.toNat = max x.memusedMax.toNat (x.grow n).memUsed.toNat := by
  by_cases h : x.memusedMax < x.memUsed + n
  · have hmax : (x.grow n).memusedMax = (x.grow n).memUsed := if_pos h
    rw [hmax, max_eq_right]
    exact Nat.le_of_lt h
  · have hmax : (x.grow n).memusedMax = x.memusedMax := if_neg h
    rw [hmax, max_eq_left]
    exact Nat.le_of_not_lt h

/-- What one event does to the recorded maximum of the current decoder and to the live total. -/
inductive MaxEffect (d : D) (dec : D → Decoder) (c : Client D) (op : Op w) (dec' : D → Decoder)
    (c' : Client D) : Prop
  /-- The maximum is raised to the counter if need be. -/
  | raise (other : ∀ ptr size r, op ≠ .realloc ptr size r)
      (max : (dec' d).memusedMax.toNat = max (dec d).memusedMax.toNat (dec' d).memUsed.toNat)
  /-- A `jut_realloc` changes the live total and leaves the maximum alone. -/
  | resize {ptr : Option ℕ} {size : BitVec w} {r : Option Grant} (op : op = .realloc ptr size r)
      (max : (dec' d).memusedMax = (dec d).memusedMax)
      (total : c'.liveTotal = c.totalAfterRealloc ptr size.toNat)
  /-- The maximum is left alone, and the live total does not grow. -/
  | shrink (other : ∀ ptr size r, op ≠ .realloc ptr size r)
      (max : (dec' d).memusedMax = (dec d).memusedMax) (total : c'.liveTotal ≤ c.liveTotal)

/-- Only `jut_malloc` raises the recorded maximum. -/
theorem Effect.maxEffect {dec dec' : D → Decoder} {c c' : Client D} {d : D} {op : Op w}
    (he : Effect dec c (some d) op dec' c') (hop : op.AllocSucceeds) :
    MaxEffect d dec c op dec' c' := by
  cases he with
  | idle quiet live owners released =>
    have htotal : c'.liveTotal = c.liveTotal := congrArg List.sum live
    -- a `jut_realloc` that is quiet has been asked for nothing, since the system does not fail
    cases op with
    | malloc size r => exact .shrink (by simp) rfl htotal.le
    | realloc ptr size r =>
      obtain ⟨rfl, hquiet⟩ := quiet
      have hzero : size = 0 := by
        rcases hquiet with hzero | rfl
        · exact hzero
        · simpa [Op.AllocSucceeds, Op.ReallocSucceeds] using hop
      subst hzero
      exact .resize rfl rfl (by simpa [Client.totalAfterRealloc] using htotal)
    | free ptr m => exact .shrink (by simp) rfl htotal.le
    | write ptr off b => exact .shrink (by simp) rfl htotal.le
  | malloc size g written =>
    refine .raise (by simp) ?_
    simp only [onCurrent, if_true]
    exact Decoder.toNat_memusedMax_grow _ _
  | reallocNull size g written =>
    refine .resize rfl ?_ ?_
    · simp only [onCurrent, if_true]
      rfl
    · rw [Client.liveTotal_add]
      simp [Client.totalAfterRealloc, Nat.add_comm]
  | @realloc ptr b size g written find =>
    refine .resize rfl ?_ ?_
    · simp only [onCurrent, if_true]
      rfl
    · have hrelease := Client.liveTotal_release find (some d)
      rw [Client.liveTotal_add, Client.totalAfterRealloc]
      simp only [Option.bind_some, find, Option.elim_some]
      omega
  | refused size find => simp [Op.AllocSucceeds, Op.ReallocSucceeds] at hop
  | @free ptr b m find =>
    refine .shrink (by simp) ?_ ?_
    · simp only [onCurrent, if_true]
      rfl
    · have hrelease := Client.liveTotal_release find (some d)
      omega

/-- **One event.** Where the recorded maximum has been exact, it stays so after one more event iff
that event is no `jut_realloc` past it. -/
theorem memusedMax_eq_peak_snoc {m : Memory} {dec : D → Decoder} {d : D}
    (h0 : (dec d).memUsed = 0) {es : List (Event D w)} {e : Event D w}
    (h : (soleMachine d w).Legal (Config.start m dec) (es ++ [e]))
    (hes : ((runJut m dec es).jut.dec d).memusedMax.toNat = peak d (Config.start m dec) es) :
    ((runJut m dec (es ++ [e])).jut.dec d).memusedMax.toNat
        = peak d (Config.start m dec) (es ++ [e]) ↔ BelowMax d (runJut m dec es) e := by
  have hused := memUsed_eq_of_sole h0 h.of_append
  have hused' := memUsed_eq_of_sole h0 h
  have hle := memUsed_le_peak d (Config.start m dec) es
  have hlegal := ((Machine.legal_snoc _ _ _ _).mp h).2
  have hok : (runJut m dec es).Ok := Config.ok_run h.of_append.of_restrict.of_restrict
  have heffect := (hok.effect hlegal.1.1)
  rw [hlegal.2] at heffect
  have hmax := heffect.maxEffect hlegal.1.2.1
  have hstep : jutStep 4 (runJut m dec es) e = runJut m dec (es ++ [e]) :=
    ((jutMachine D w).run_append (Config.start m dec) es [e]).symm
  rw [hstep] at hmax
  rw [peak_snoc, ← hes]
  change _ = max _ ((runJut m dec (es ++ [e])).jut.dec d).memUsed.toNat ↔ _
  obtain ⟨ctx, op⟩ := e
  -- only where the maximum is left behind a growing total is there something to decide
  cases hmax with
  | raise other max =>
    refine iff_of_true max ?_
    cases op with
    | realloc ptr size r => exact absurd rfl (other ptr size r)
    | _ => trivial
  | resize hop max total =>
    obtain rfl : op = _ := hop
    rw [max, hused', total, eq_comm, max_eq_left_iff]
    rfl
  | shrink other max total =>
    refine iff_of_true ?_ ?_
    · rw [max, hused', eq_comm, max_eq_left_iff]
      change ((runJut m dec es).jut.dec d).memUsed.toNat ≤ _ at hle
      omega
    · cases op with
      | realloc ptr size r => exact absurd rfl (other ptr size r)
      | _ => trivial

/-- **When the recorded maximum is the high-water mark.** In the runs with one decoder current, the
recorded maximum equals the largest value the counter has had at every moment of the run iff no
`jut_realloc` of the run takes the live total past it. -/
theorem memusedMax_eq_peak_iff {m : Memory} {dec : D → Decoder} {d : D}
    (h0 : dec d = freshDecoder) {es : List (Event D w)}
    (h : (soleMachine d w).Legal (Config.start m dec) es) :
    (∀ pre, pre <+: es → ((runJut m dec pre).jut.dec d).memusedMax.toNat
        = peak d (Config.start m dec) pre) ↔
      ((soleMachine d w).restrict (BelowMax d)).Legal (Config.start m dec) es := by
  have hstart : ((runJut m dec ([] : List (Event D w))).jut.dec d).memusedMax.toNat
      = peak d (Config.start m dec) ([] : List (Event D w)) := by
    simp [peak, Config.start, h0, freshDecoder]
  rw [forall_prefix_iff, and_iff_right hstart]
  refine h.restrict_iff fun fs e hfs he hearlier => ?_
  have hlegal : (soleMachine d w).Legal (Config.start m dec) (fs ++ [e]) :=
    (Machine.legal_snoc _ _ _ _).mpr ⟨hfs.of_restrict, he⟩
  have hexact := (forall_prefix_iff (P := fun pre => ((runJut m dec pre).jut.dec d).memusedMax.toNat
    = peak d (Config.start m dec) pre)).mpr ⟨hstart, hearlier⟩ fs List.prefix_rfl
  exact memusedMax_eq_peak_snoc (by rw [h0]; rfl) hlegal hexact

/-- A payload of 20 bytes at 128 is shrunk to 10 bytes in place. -/
def shrunkRun : List (Event Unit 64) :=
  [⟨some (), .malloc 20 (some ⟨64, zeroMem⟩)⟩,
    ⟨some (), .realloc (some 128) 10 (some ⟨64, store32 zeroMem 64 20⟩)⟩]

/-- In `shrunkRun` no `jut_realloc` passes the maximum, so it is the high-water mark throughout. -/
theorem memusedMax_eq_peak_shrunkRun :
    ((soleMachine () 64).restrict (BelowMax ())).Legal
        (Config.start zeroMem fun _ => freshDecoder) shrunkRun ∧
      ∀ pre, pre <+: shrunkRun →
        ((runJut zeroMem (fun _ => freshDecoder) pre).jut.dec ()).memusedMax.toNat
          = peak () (Config.start zeroMem fun _ => freshDecoder) pre := by
  have hlegal : ((soleMachine () 64).restrict (BelowMax ())).Legal
      (Config.start zeroMem fun _ => freshDecoder) shrunkRun := by
    refine ⟨⟨⟨⟨⟨by decide, ?_⟩, rfl, by decide⟩, rfl⟩, trivial⟩,
      ⟨⟨⟨⟨?_, by decide, ?_⟩, Or.inl rfl, by decide⟩, rfl⟩, ?_⟩, trivial⟩
    · exact SysHeap.allocOk_of_nil rfl (by decide)
    · rintro p ⟨⟩
      exact ⟨_, List.mem_singleton_self _, rfl⟩
    · exact SysHeap.reallocOk_in_place rfl _
    · show Client.totalAfterRealloc _ _ _ ≤ _
      decide
  exact ⟨hlegal, (memusedMax_eq_peak_iff (d := ()) rfl hlegal.of_restrict).mpr hlegal⟩

/-- In `grownRun` a `jut_realloc` takes the counter from 10 to 20 and leaves the maximum at 10: the
recorded maximum is not the high-water mark of every run. -/
theorem not_memusedMax_eq_peak :
    ¬ ∀ es : List (Event Unit 64),
      (soleMachine () 64).Legal (Config.start zeroMem fun _ => freshDecoder) es →
        ((runJut zeroMem (fun _ => freshDecoder) es).jut.dec ()).memusedMax.toNat
          = peak () (Config.start zeroMem fun _ => freshDecoder) es := by
  intro hall
  have hmax := hall grownRun grownRun_legal
  revert hmax
  decide

end FfTest
