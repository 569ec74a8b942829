import FfTest.Foundations.EventMachine
import Mathlib.Data.Nat.Init
import Mathlib.Tactic.Push

/-! # Progress of event-driven machines

Some events of a machine are *idle*: they may happen again and again, as a turn of a loop that only
waits. A `Ranking` is a measure that no idle event raises and that every other event lowers, so that
a run has no more events that are not idle than the rank it starts with (`Ranking.busyCount_le`).
`Progress` says besides that some event that is not idle is admitted until the machine has finished,
and that idle events take no such event back. Then no run goes on for ever in which every thread
that can always go on does so now and then (`Progress.not_fair`). -/

namespace FfTest.Machine

universe u v w

variable {σ : Type u} {ε : Type v} {τ : Type w} (M : Machine σ ε) (Idle : σ → ε → Prop)

/-- How many of the events are not idle, each in the state it meets. -/
def busyCount [∀ s e, Decidable (Idle s e)] : σ → List ε → ℕ
  | _, [] => 0
  | s, e :: es => (if Idle s e then 0 else 1) + busyCount (M.step s e) es

/-- The states that an infinite sequence of events goes through. -/
def trace (s : σ) (e : ℕ → ε) : ℕ → σ
  | 0 => s
  | n + 1 => M.step (trace s e n) (e n)

/-- All events of an infinite sequence are admitted. -/
def Forever (s : σ) (e : ℕ → ε) : Prop := ∀ n, M.guard (M.trace s e n) (e n)

/-- Every thread that can go on from some moment on for ever does so at some moment after it; a
thread is what its events are owned by. -/
def Fair (owner : ε → τ) (s : σ) (e : ℕ → ε) : Prop :=
  ∀ t N, (∀ n ≥ N, ∃ f, owner f = t ∧ M.guard (M.trace s e n) f) → ∃ n ≥ N, owner (e n) = t

/-- A measure that events do not raise, and that those that are not idle lower. -/
structure Ranking where
  /-- The states it is about. -/
  Inv : σ → Prop
  /-- The measure. -/
  rank : σ → ℕ
  /-- The machine stays in these states. -/
  inv_step : ∀ s e, Inv s → M.guard s e → Inv (M.step s e)
  /-- Idle events do not raise the measure. -/
  idle_le : ∀ s e, Inv s → M.guard s e → Idle s e → rank (M.step s e) ≤ rank s
  /-- All others lower it. -/
  busy_lt : ∀ s e, Inv s → M.guard s e → ¬ Idle s e → rank (M.step s e) < rank s

/-- A ranking of a machine that does not get stuck before it has finished. -/
structure Progress (owner : ε → τ) extends Ranking M Idle where
  /-- Where the machine has finished. -/
  Finished : σ → Prop
  /-- Until then something can happen that is not idle. -/
  busy : ∀ s, Inv s → ¬ Finished s → ∃ e, M.guard s e ∧ ¬ Idle s e
  /-- Then nothing happens any more. -/
  ends : ∀ s e, Inv s → Finished s → ¬ M.guard s e
  /-- An idle event leaves the others as they are. -/
  keeps : ∀ s e f, Inv s → M.guard s e → Idle s e → M.guard s f → ¬ Idle s f →
    M.guard (M.step s e) f ∧ ¬ Idle (M.step s e) f
  /-- A thread that can do what is not idle does not idle. -/
  owned : ∀ s e f, Inv s → M.guard s e → M.guard s f → ¬ Idle s f → owner e = owner f → ¬ Idle s e

variable {M Idle}

namespace Ranking

variable (R : Ranking M Idle)

/-- No event raises the measure. -/
theorem step_le {s : σ} {e : ε} (hs : R.Inv s) (he : M.guard s e) :
    R.rank (M.step s e) ≤ R.rank s := by
  by_cases hidle : Idle s e
  · exact R.idle_le s e hs he hidle
  · exact Nat.le_of_lt (R.busy_lt s e hs he hidle)

/-- **Only so many events are not idle.** Each costs some of the rank that the run starts with. -/
theorem busyCount_le [∀ s e, Decidable (Idle s e)] {s : σ} {es : List ε} (hs : R.Inv s)
    (h : M.Legal s es) : M.busyCount Idle s es + R.rank (M.run s es) ≤ R.rank s := by
  induction es generalizing s with
  | nil => exact Nat.le_of_eq (Nat.zero_add _)
  | cons e es ih =>
    have hrest := ih (R.inv_step s e hs h.1) h.2
    rw [busyCount, run_cons]
    by_cases hidle : Idle s e
    · have hle := R.idle_le s e hs h.1 hidle
      rw [if_pos hidle]
      omega
    · have hlt := R.busy_lt s e hs h.1 hidle
      rw [if_neg hidle]
      omega

/-- Along an infinite run the invariant holds. -/
theorem inv_trace {s : σ} {e : ℕ → ε} (hs : R.Inv s) (h : M.Forever s e) (n : ℕ) :
    R.Inv (M.trace s e n) := by
  induction n with
  | zero => exact hs
  | succ n ih => exact R.inv_step _ _ ih (h n)

/-- Along an infinite run the rank does not rise. -/
theorem rank_trace {s : σ} {e : ℕ → ε} (hs : R.Inv s) (h : M.Forever s e) {m n : ℕ} (hmn : m ≤ n) :
    R.rank (M.trace s e n) ≤ R.rank (M.trace s e m) := by
  induction n, hmn using Nat.le_induction with
  | base => exact Nat.le_refl _
  | succ n _ ih => exact Nat.le_trans (R.step_le (R.inv_trace hs h n) (h n)) ih

/-- **From some moment on an infinite run only idles.** -/
theorem eventually_idle {s : σ} {e : ℕ → ε} (hs : R.Inv s) (h : M.Forever s e) :
    ∃ N, ∀ n ≥ N, Idle (M.trace s e n) (e n) := by
  -- from a moment with rank `r`, by induction on `r`: a later event that is not idle lowers it
  suffices hmain : ∀ r m, R.rank (M.trace s e m) ≤ r → ∃ N, ∀ n ≥ N, Idle (M.trace s e n) (e n)
    from hmain _ 0 (Nat.le_refl _)
  intro r
  induction r with
  | zero =>
    intro m hm
    refine ⟨m, fun n hn => ?_⟩
    by_contra hbusy
    have hlt := R.busy_lt _ _ (R.inv_trace hs h n) (h n) hbusy
    have hle := R.rank_trace hs h hn
    omega
  | succ r ih =>
    intro m hm
    by_cases hidle : ∀ n ≥ m, Idle (M.trace s e n) (e n)
    · exact ⟨m, hidle⟩
    · push Not at hidle
      obtain ⟨n, hn, hbusy⟩ := hidle
      have hlt := R.busy_lt _ _ (R.inv_trace hs h n) (h n) hbusy
      have hle := R.rank_trace hs h hn
      refine ih (n + 1) ?_
      show R.rank (M.step (M.trace s e n) (e n)) ≤ r
      omega

end Ranking

namespace Progress

variable {owner : ε → τ} (P : Progress M Idle owner)

/-- **A run that goes on for ever is unfair.** -/
theorem not_fair {s : σ} {e : ℕ → ε} (hs : P.Inv s) (h : M.Forever s e) : ¬ M.Fair owner s e := by
  obtain ⟨N, hidle⟩ := P.eventually_idle hs h
  have hinv := P.inv_trace hs h
  obtain ⟨f, hf, hbusy⟩ := P.busy _ (hinv N) fun hfinished => P.ends _ _ (hinv N) hfinished (h N)
  -- what can be done at that moment can be done from then on
  have hstays : ∀ n ≥ N, M.guard (M.trace s e n) f ∧ ¬ Idle (M.trace s e n) f := by
    intro n hn
    induction n, hn using Nat.le_induction with
    | base => exact ⟨hf, hbusy⟩
    | succ n hn ih => exact P.keeps _ _ _ (hinv n) (h n) (hidle n hn) ih.1 ih.2
  intro hfair
  obtain ⟨n, hn, howner⟩ := hfair (owner f) N fun n hn => ⟨f, rfl, (hstays n hn).1⟩
  exact P.owned _ _ _ (hinv n) (h n) (hstays n hn).1 (hstays n hn).2 howner (hidle n hn)

end Progress

end FfTest.Machine
