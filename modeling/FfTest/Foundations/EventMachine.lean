import Mathlib.Data.List.Induction

/-! # Event-driven machines and their runs

A machine takes a recorded event in every state, so that all nondeterminism of its surroundings sits
in the events. A *guard* says which events may happen in which state; a run is legal when every one
of its events is admitted by the guard in the state it meets. This file gives runs, legality and the
rules that all safety arguments go through:

* `Machine.Legal.induction`: a property of event lists that survives one more admitted event;
* `Machine.Legal.history`: the same for a property of the events and of the state they lead to;
* `Machine.Legal.invariant`: a property of states that survives every admitted step;
* `Machine.Legal.restrict_iff`: all events are good iff the run is legal under a further guard. -/

namespace FfTest

universe u v

/-- A deterministic machine on states `σ` with events `ε`, and the guard on its events. -/
structure Machine (σ : Type u) (ε : Type v) where
  /-- The state after one event. -/
  step : σ → ε → σ
  /-- Whether an event may happen in a state. -/
  guard : σ → ε → Prop

namespace Machine

variable {σ : Type u} {ε : Type v} (M : Machine σ ε)

/-- The state after the events `es`, oldest first. -/
def run (s : σ) (es : List ε) : σ := es.foldl M.step s

/-- Every event of the list is admitted by the guard in the state it meets. -/
def Legal : σ → List ε → Prop
  | _, [] => True
  | s, e :: es => M.guard s e ∧ Legal (M.step s e) es

/-- Legality can be decided where the guard can. -/
instance decidableLegal [∀ s e, Decidable (M.guard s e)] : ∀ s es, Decidable (M.Legal s es)
  | _, [] => isTrue trivial
  | s, e :: es =>
    have := decidableLegal (M.step s e) es
    inferInstanceAs (Decidable (M.guard s e ∧ M.Legal (M.step s e) es))

/-- The machine with the further guard `extra`. -/
def restrict (extra : σ → ε → Prop) : Machine σ ε where
  step := M.step
  guard s e := M.guard s e ∧ extra s e

/-- A further guard can be decided with the first one. -/
instance (extra : σ → ε → Prop) (s : σ) (e : ε) [Decidable (M.guard s e)]
    [Decidable (extra s e)] : Decidable ((M.restrict extra).guard s e) :=
  inferInstanceAs (Decidable (M.guard s e ∧ extra s e))

@[simp] theorem run_nil (s : σ) : M.run s [] = s := rfl

@[simp] theorem run_cons (s : σ) (e : ε) (es : List ε) :
    M.run s (e :: es) = M.run (M.step s e) es := rfl

@[simp] theorem run_append (s : σ) (es fs : List ε) :
    M.run s (es ++ fs) = M.run (M.run s es) fs := List.foldl_append

/-- One more event is one more step from where the run ends. -/
theorem run_snoc (s : σ) (es : List ε) (e : ε) : M.run s (es ++ [e]) = M.step (M.run s es) e :=
  M.run_append s es [e]

@[simp] theorem legal_nil (s : σ) : M.Legal s [] := trivial

@[simp] theorem legal_cons (s : σ) (e : ε) (es : List ε) :
    M.Legal s (e :: es) ↔ M.guard s e ∧ M.Legal (M.step s e) es := Iff.rfl

@[simp] theorem restrict_step (extra : σ → ε → Prop) : (M.restrict extra).step = M.step := rfl

@[simp] theorem restrict_run (extra : σ → ε → Prop) : (M.restrict extra).run = M.run := rfl

/-- A run is legal iff its first part is, and its second part is from where the first one ends. -/
theorem legal_append (s : σ) (es fs : List ε) :
    M.Legal s (es ++ fs) ↔ M.Legal s es ∧ M.Legal (M.run s es) fs := by
  induction es generalizing s with
  | nil => simp
  | cons e es ih => simp only [List.cons_append, legal_cons, run_cons, ih, and_assoc]

/-- One more event keeps a run legal iff the guard admits it where the run ends. -/
theorem legal_snoc (s : σ) (es : List ε) (e : ε) :
    M.Legal s (es ++ [e]) ↔ M.Legal s es ∧ M.guard (M.run s es) e := by
  rw [legal_append, legal_cons]
  simp

variable {M}

/-- What a legal run has done at an earlier moment was a legal run too. -/
theorem Legal.of_append {s : σ} {es fs : List ε} (h : M.Legal s (es ++ fs)) : M.Legal s es :=
  ((M.legal_append s es fs).mp h).1

/-- A run stays legal under a weaker guard on the same steps. -/
theorem Legal.mono {guard : σ → ε → Prop} {s : σ} {es : List ε} (h : M.Legal s es)
    (weaker : ∀ s e, M.guard s e → guard s e) : Legal ⟨M.step, guard⟩ s es := by
  induction es generalizing s with
  | nil => trivial
  | cons e es ih => exact ⟨weaker s e h.1, ih h.2⟩

/-- A run that is legal under the further guard is legal. -/
theorem Legal.of_restrict {extra : σ → ε → Prop} {s : σ} {es : List ε}
    (h : (M.restrict extra).Legal s es) : M.Legal s es := h.mono fun _ _ he => he.1

/-- **Run induction.** A property of the events so far that holds of no events, and survives one
more admitted event, holds of every legal run. -/
theorem Legal.induction {s : σ} {motive : List ε → Prop} (nil : motive [])
    (snoc : ∀ es e, M.Legal s es → M.guard (M.run s es) e → motive es → motive (es ++ [e]))
    {es : List ε} (h : M.Legal s es) : motive es := by
  induction es using List.reverseRecOn with
  | nil => exact nil
  | append_singleton es e ih =>
    obtain ⟨hes, he⟩ := (M.legal_snoc s es e).mp h
    exact snoc es e hes he (ih hes)

/-- **History rule.** What holds of no events and the start, and what every admitted step carries
on, holds of the events of every legal run and the state where it ends. -/
theorem Legal.history (Hist : List ε → σ → Prop) {s : σ} (nil : Hist [] s)
    (snoc : ∀ es e, M.Legal s es → M.guard (M.run s es) e → Hist es (M.run s es) →
      Hist (es ++ [e]) (M.step (M.run s es) e))
    {es : List ε} (h : M.Legal s es) : Hist es (M.run s es) := by
  refine h.induction (motive := fun es => Hist es (M.run s es)) nil fun es e hes he ih => ?_
  rw [run_snoc]
  exact snoc es e hes he ih

/-- **Invariant rule.** A property of states that every admitted step preserves holds wherever a
legal run ends, if it holds where the run starts. -/
theorem Legal.invariant (Inv : σ → Prop)
    (step : ∀ s e, Inv s → M.guard s e → Inv (M.step s e))
    {s : σ} {es : List ε} (h : M.Legal s es) (start : Inv s) : Inv (M.run s es) := by
  induction es generalizing s with
  | nil => exact start
  | cons e es ih => exact ih h.2 (step s e start h.1)

/-- **Restriction rule.** Let an event that is admitted after good events, all within a further
guard, be good iff it is within that guard itself. Then all events of a legal run are good iff the
run is legal under the further guard. -/
theorem Legal.restrict_iff {extra : σ → ε → Prop} {Good : List ε → ε → Prop} {s : σ} {es : List ε}
    (h : M.Legal s es)
    (step : ∀ fs e, (M.restrict extra).Legal s fs → M.guard (M.run s fs) e →
      (∀ gs e', gs ++ [e'] <+: fs → Good gs e') → (Good fs e ↔ extra (M.run s fs) e)) :
    (∀ fs e, fs ++ [e] <+: es → Good fs e) ↔ (M.restrict extra).Legal s es := by
  refine h.induction (motive := fun es => (∀ fs e, fs ++ [e] <+: es → Good fs e) ↔
    (M.restrict extra).Legal s es) ?_ fun es e _ he ih => ?_
  · exact iff_of_true (fun fs e hfs => by simp at hfs) trivial
  rw [legal_snoc]
  constructor
  · intro hall
    have hearlier : ∀ fs e', fs ++ [e'] <+: es → Good fs e' := fun fs e' hfs =>
      hall fs e' (hfs.trans (List.prefix_append es [e]))
    have hes := ih.mp hearlier
    exact ⟨hes, he, (step es e hes he hearlier).mp (hall es e (List.prefix_refl _))⟩
  · rintro ⟨hes, -, hextra⟩ fs e' hfs
    have hearlier := ih.mpr hes
    rcases List.prefix_concat_iff.mp hfs with hlast | hfs
    · obtain ⟨rfl, hsame⟩ := List.append_inj' hlast rfl
      obtain rfl := (List.cons.inj hsame).1
      exact (step fs e' hes he hearlier).mpr hextra
    · exact hearlier fs e' hfs

end Machine

/-- What holds of all first parts of a list holds of the empty one and of each longer one. -/
theorem forall_prefix_iff {ε : Type v} {P : List ε → Prop} {es : List ε} :
    (∀ fs, fs <+: es → P fs) ↔ P [] ∧ ∀ fs e, fs ++ [e] <+: es → P (fs ++ [e]) := by
  refine ⟨fun h => ⟨h [] List.nil_prefix, fun fs e hfs => h _ hfs⟩, fun h fs hfs => ?_⟩
  induction fs using List.reverseRecOn with
  | nil => exact h.1
  | append_singleton fs e => exact h.2 fs e hfs

end FfTest
