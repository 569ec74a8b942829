import Mathlib.Data.List.Count
import Mathlib.Data.List.Perm.Subperm

/-! # Ledgers of what is acquired and released

A ledger lists, newest first, what a program has acquired and released: blocks, handles, threads,
descriptors. `outstanding` replays it. Two rules make a good ledger: `WellReleased` (only what is
outstanding is released) and `FreshlyNamed` (nothing is acquired under a name used before).
Together they bound everything by one acquisition and one release.

Two views of a holder follow. `Custody es os` says that the holder of `os` may release each of them
once more without breaking a rule; `AccountedFor p es os` says that of the things named by `p`
nothing is lost: what the holder does not have has been released. -/

namespace FfTest

universe u

/-- One entry of a ledger. -/
inductive LedgerEntry (ι : Type u)
  /-- `i` is acquired. -/
  | acquire (i : ι)
  /-- `i` is released. -/
  | release (i : ι)
  deriving DecidableEq, Repr

variable {ι : Type u} [DecidableEq ι]

/-- How often `i` was acquired. -/
def timesAcquired (i : ι) : List (LedgerEntry ι) → ℕ
  | [] => 0
  | .acquire j :: es => timesAcquired i es + if j = i then 1 else 0
  | .release _ :: es => timesAcquired i es

/-- How often `i` was released. -/
def timesReleased (i : ι) : List (LedgerEntry ι) → ℕ
  | [] => 0
  | .acquire _ :: es => timesReleased i es
  | .release j :: es => timesReleased i es + if j = i then 1 else 0

/-- What was acquired and not released since, newest first. -/
def outstanding : List (LedgerEntry ι) → List ι
  | [] => []
  | .acquire i :: es => i :: outstanding es
  | .release i :: es => (outstanding es).erase i

/-- Only what is outstanding is released. -/
def WellReleased : List (LedgerEntry ι) → Prop
  | [] => True
  | .acquire _ :: es => WellReleased es
  | .release i :: es => i ∈ outstanding es ∧ WellReleased es

/-- Nothing is acquired under a name that was acquired before. -/
def FreshlyNamed : List (LedgerEntry ι) → Prop
  | [] => True
  | .acquire i :: es => timesAcquired i es = 0 ∧ FreshlyNamed es
  | .release _ :: es => FreshlyNamed es

@[simp] theorem timesAcquired_nil (i : ι) : timesAcquired i [] = 0 := rfl

@[simp] theorem timesAcquired_acquire (i j : ι) (es : List (LedgerEntry ι)) :
    timesAcquired i (.acquire j :: es) = timesAcquired i es + if j = i then 1 else 0 := rfl

@[simp] theorem timesAcquired_release (i j : ι) (es : List (LedgerEntry ι)) :
    timesAcquired i (.release j :: es) = timesAcquired i es := rfl

@[simp] theorem timesReleased_nil (i : ι) : timesReleased i [] = 0 := rfl

@[simp] theorem timesReleased_acquire (i j : ι) (es : List (LedgerEntry ι)) :
    timesReleased i (.acquire j :: es) = timesReleased i es := rfl

@[simp] theorem timesReleased_release (i j : ι) (es : List (LedgerEntry ι)) :
    timesReleased i (.release j :: es) = timesReleased i es + if j = i then 1 else 0 := rfl

@[simp] theorem outstanding_nil : outstanding ([] : List (LedgerEntry ι)) = [] := rfl

@[simp] theorem outstanding_acquire (i : ι) (es : List (LedgerEntry ι)) :
    outstanding (.acquire i :: es) = i :: outstanding es := rfl

@[simp] theorem outstanding_release (i : ι) (es : List (LedgerEntry ι)) :
    outstanding (.release i :: es) = (outstanding es).erase i := rfl

@[simp] theorem wellReleased_acquire (i : ι) (es : List (LedgerEntry ι)) :
    WellReleased (.acquire i :: es) ↔ WellReleased es := Iff.rfl

@[simp] theorem wellReleased_release (i : ι) (es : List (LedgerEntry ι)) :
    WellReleased (.release i :: es) ↔ i ∈ outstanding es ∧ WellReleased es := Iff.rfl

@[simp] theorem freshlyNamed_acquire (i : ι) (es : List (LedgerEntry ι)) :
    FreshlyNamed (.acquire i :: es) ↔ timesAcquired i es = 0 ∧ FreshlyNamed es := Iff.rfl

@[simp] theorem freshlyNamed_release (i : ι) (es : List (LedgerEntry ι)) :
    FreshlyNamed (.release i :: es) ↔ FreshlyNamed es := Iff.rfl

/-! ## Conservation -/

/-- Taking a member out of a list lowers its own count by one and no other. -/
private theorem count_erase_of_mem {j : ι} {l : List ι} (h : j ∈ l) (i : ι) :
    (l.erase j).count i + (if j = i then 1 else 0) = l.count i := by
  have hperm := List.perm_cons_erase h
  rw [hperm.count_eq, List.count_cons]
  simp

/-- **Conservation.** What was acquired has been released or is outstanding. -/
theorem WellReleased.timesAcquired_eq {es : List (LedgerEntry ι)} (h : WellReleased es) (i : ι) :
    timesAcquired i es = timesReleased i es + (outstanding es).count i := by
  induction es with
  | nil => rfl
  | cons e es ih =>
    cases e with
    | acquire j =>
      have := ih h
      simp only [timesAcquired_acquire, timesReleased_acquire, outstanding_acquire,
        List.count_cons, beq_iff_eq]
      omega
    | release j =>
      have := ih h.2
      have hcount := count_erase_of_mem h.1 i
      simp only [timesAcquired_release, timesReleased_release, outstanding_release]
      omega

/-- What is outstanding was acquired. -/
theorem timesAcquired_pos_of_mem_outstanding {es : List (LedgerEntry ι)} {i : ι}
    (h : i ∈ outstanding es) : 0 < timesAcquired i es := by
  induction es with
  | nil => simp at h
  | cons e es ih =>
    cases e with
    | acquire j =>
      rcases List.mem_cons.mp h with rfl | h
      · simp
      · exact Nat.lt_of_lt_of_le (ih h) (Nat.le_add_right _ _)
    | release j => exact ih (List.mem_of_mem_erase h)

/-- Releasing one thing leaves the others outstanding. -/
theorem mem_outstanding_release_of_ne {es : List (LedgerEntry ι)} {i j : ι} (h : i ≠ j) :
    i ∈ outstanding (.release j :: es) ↔ i ∈ outstanding es := List.mem_erase_of_ne h

/-! ## Names used once -/

/-- A fresh name is acquired at most once. -/
theorem FreshlyNamed.timesAcquired_le {es : List (LedgerEntry ι)} (h : FreshlyNamed es) (i : ι) :
    timesAcquired i es ≤ 1 := by
  induction es with
  | nil => exact Nat.zero_le 1
  | cons e es ih =>
    cases e with
    | acquire j =>
      rw [timesAcquired_acquire]
      by_cases hji : j = i
      · subst hji
        simp [h.1]
      · simpa [hji] using ih h.2
    | release j => exact ih h

/-- Under both rules nothing is released twice. -/
theorem WellReleased.timesReleased_le_one {es : List (LedgerEntry ι)} (h : WellReleased es)
    (hfresh : FreshlyNamed es) (i : ι) : timesReleased i es ≤ 1 := by
  have heq := h.timesAcquired_eq i
  have hle := hfresh.timesAcquired_le i
  omega

/-- Under both rules nothing is outstanding twice. -/
theorem WellReleased.outstanding_nodup {es : List (LedgerEntry ι)} (h : WellReleased es)
    (hfresh : FreshlyNamed es) : (outstanding es).Nodup := by
  rw [List.nodup_iff_count]
  intro i
  have heq := h.timesAcquired_eq i
  have hle := hfresh.timesAcquired_le i
  omega

/-- Under both rules, what has just been released is not outstanding. -/
theorem WellReleased.not_mem_outstanding_release {es : List (LedgerEntry ι)} {i : ι}
    (h : WellReleased es) (hfresh : FreshlyNamed es) : i ∉ outstanding (.release i :: es) :=
  (h.outstanding_nodup hfresh).not_mem_erase

/-- Under both rules, what is outstanding has never been released. -/
theorem WellReleased.timesReleased_eq_zero {es : List (LedgerEntry ι)} (h : WellReleased es)
    (hfresh : FreshlyNamed es) {i : ι} (hout : i ∈ outstanding es) : timesReleased i es = 0 := by
  have heq := h.timesAcquired_eq i
  have hle := hfresh.timesAcquired_le i
  have hcount := List.count_pos_iff.mpr hout
  omega

/-! ## Holders -/

/-- The ledger is good, and its holder has the things `os`, each once and each outstanding. -/
structure Custody (es : List (LedgerEntry ι)) (os : List ι) : Prop where
  /-- Only what was outstanding has been released. -/
  wellReleased : WellReleased es
  /-- No name has been used twice. -/
  freshlyNamed : FreshlyNamed es
  /-- Nothing is held twice. -/
  nodup : os.Nodup
  /-- What is held is outstanding. -/
  held : ∀ i ∈ os, i ∈ outstanding es

namespace Custody

variable {es : List (LedgerEntry ι)} {os : List ι}

/-- Nothing is held of an empty ledger. -/
theorem empty : Custody ([] : List (LedgerEntry ι)) [] :=
  ⟨trivial, trivial, List.nodup_nil, fun _ hi => absurd hi List.not_mem_nil⟩

/-- A thing acquired under a fresh name is in the holder's custody. -/
theorem acquire (h : Custody es os) {i : ι} (hi : timesAcquired i es = 0) :
    Custody (.acquire i :: es) (i :: os) where
  wellReleased := h.wellReleased
  freshlyNamed := ⟨hi, h.freshlyNamed⟩
  nodup := by
    refine List.nodup_cons.mpr ⟨fun hmem => ?_, h.nodup⟩
    have hpos := timesAcquired_pos_of_mem_outstanding (h.held i hmem)
    omega
  held j hj := by
    rcases List.mem_cons.mp hj with rfl | hj
    · exact List.mem_cons_self
    · exact List.mem_cons_of_mem _ (h.held j hj)

/-- The first of the things held can be released. -/
theorem release {i : ι} (h : Custody es (i :: os)) : Custody (.release i :: es) os where
  wellReleased := ⟨h.held i List.mem_cons_self, h.wellReleased⟩
  freshlyNamed := h.freshlyNamed
  nodup := h.nodup.of_cons
  held j hj := by
    have hne : j ≠ i := by
      rintro rfl
      exact (List.nodup_cons.mp h.nodup).1 hj
    exact (mem_outstanding_release_of_ne hne).mpr (h.held j (List.mem_cons_of_mem _ hj))

/-- A holder may lose things. -/
theorem lose {os' : List ι} (h : Custody es os) (hsub : os'.Subperm os) : Custody es os' where
  wellReleased := h.wellReleased
  freshlyNamed := h.freshlyNamed
  nodup := by
    obtain ⟨l, hperm, hl⟩ := hsub
    exact hperm.nodup_iff.mp (h.nodup.sublist hl)
  held i hi := h.held i (hsub.subset hi)

/-- What is held has not been released. -/
theorem timesReleased_eq_zero (h : Custody es os) {i : ι} (hi : i ∈ os) :
    timesReleased i es = 0 :=
  h.wellReleased.timesReleased_eq_zero h.freshlyNamed (h.held i hi)

end Custody

/-- Of the things named by `p`, all that were acquired have been released or are in `os`. -/
def AccountedFor (p : ι → Prop) (es : List (LedgerEntry ι)) (os : List ι) : Prop :=
  ∀ i, p i → 0 < timesAcquired i es → 0 < timesReleased i es ∨ i ∈ os

namespace AccountedFor

variable {p : ι → Prop} {es : List (LedgerEntry ι)} {os os' : List ι}

/-- What is acquired is accounted for by holding it. -/
theorem acquire (h : AccountedFor p es os) (i : ι) :
    AccountedFor p (.acquire i :: es) (i :: os) := by
  intro j hj hacq
  by_cases hij : i = j
  · exact Or.inr (List.mem_cons.mpr (Or.inl hij.symm))
  · rw [timesAcquired_acquire, if_neg hij] at hacq
    exact (h j hj hacq).imp_right (List.mem_cons_of_mem _)

/-- What is released need not be held any longer. -/
theorem release {i : ι} (h : AccountedFor p es (i :: os)) :
    AccountedFor p (.release i :: es) os := by
  intro j hj hacq
  rcases h j hj hacq with hrel | hmem
  · exact Or.inl (Nat.lt_of_lt_of_le hrel (Nat.le_add_right _ _))
  · rcases List.mem_cons.mp hmem with rfl | hmem
    · exact Or.inl (by simp)
    · exact Or.inr hmem

/-- A further release, of whatever thing, loses nothing. -/
theorem release_any (h : AccountedFor p es os) (i : ι) : AccountedFor p (.release i :: es) os :=
  fun j hj hacq => (h j hj hacq).imp_left fun hrel => Nat.lt_of_lt_of_le hrel (Nat.le_add_right _ _)

/-- Holding more accounts for as much. -/
theorem mono (h : AccountedFor p es os) (hsub : ∀ i ∈ os, i ∈ os') : AccountedFor p es os' :=
  fun j hj hacq => (h j hj hacq).imp_right (hsub j)

end AccountedFor

end FfTest
