import FfTest.TaskPool.Effects

/-! # Shutting the pool down

`Task::release` sets `m_bExit` and joins the thread. A thread looks at `m_bExit` only behind its
`sem_wait`, and only `Task::start` posts that semaphore: a thread that was never started is joined
in vain. Threads that are past their semaphore, or can get past it, cause no such deadlock. -/

namespace FfTest.TaskPool

namespace State

/-- The thread of task `j` waits at its semaphore, which is 0. -/
def Blocked (s : State) (j : ℕ) : Prop :=
  (s.task j).thread = some .waiting ∧ (s.task j).sem = 0

instance (s : State) (j : ℕ) : Decidable (s.Blocked j) := inferInstanceAs (Decidable (_ ∧ _))

/-- The controlling thread waits in `pthread_join` for a thread that is blocked. -/
def Stuck (s : State) : Prop :=
  ∃ j, s.todo.head? = some (.join j) ∧ (s.task j).tid ≠ 0 ∧ s.Blocked ((s.task j).tid - 1)

/-- The pool is not cleared or destroyed while a thread of it is blocked. -/
def ClearsStarted (s : State) : Event → Prop
  | .call .clear | .call .destroy => ∀ j ∈ s.lstTask, ¬ s.Blocked j
  | _ => True

instance (s : State) (e : Event) : Decidable (s.ClearsStarted e) := by
  unfold ClearsStarted
  split <;> infer_instance

/-- Some thread is still to be joined by the present call. -/
def Joining (s : State) : Prop := ∃ j, .join j ∈ s.todo

end State

/-- While threads are being joined, no task is to be made. -/
def JoinsOnly (s : State) : Prop := s.Joining → ∀ core, .create core ∉ s.todo

/-- While threads are being joined, none is blocked. -/
def NoneBlocked (s : State) : Prop := s.Joining → ∀ j, ¬ s.Blocked j

/-- Every step keeps calls that join apart from calls that make tasks. -/
theorem JoinsOnly.step {s s' : State} {e : Event} (h : JoinsOnly s) (he : Effect s e s') :
    JoinsOnly s' := by
  rintro ⟨j, hj⟩ core hcore
  rcases he.todo_sublist with ⟨c, -, rfl⟩ | hsub
  · exact create_not_mem_acts (not_join_mem_acts hj) core hcore
  · exact h ⟨j, hsub _ hj⟩ core (hsub _ hcore)

/-- Only a task that is made can come to be blocked. -/
theorem Effect.blocked {s s' : State} {e : Event} (he : Effect s e s') {j : ℕ}
    (hj : s'.Blocked j) : s.Blocked j ∨ ∃ core, .create core ∈ s.todo := by
  cases he with
  | call => exact Or.inl hj
  | created hd | refused hd => exact Or.inr ⟨_, hd ▸ List.mem_cons_self⟩
  | started | stopped | joined | skipped | deleted | forgotten | woken | moved | notified =>
    grind [State.Blocked]

/-- **Step lemma.** Where the pool is cleared only when no thread is blocked, none is blocked while
threads are being joined. -/
theorem NoneBlocked.step {s s' : State} {e : Event} (h : NoneBlocked s) (hs : Sound s)
    (honly : JoinsOnly s) (he : Effect s e s') (hstarted : s.ClearsStarted e) :
    NoneBlocked s' := by
  rintro ⟨i, hi⟩ j hj
  rcases he.todo_sublist with ⟨c, rfl, rfl⟩ | hsub
  · -- a call that joins begins where nobody is blocked
    have hnone : ∀ k ∈ s.lstTask, ¬ s.Blocked k := by
      rcases not_join_mem_acts hi with rfl | rfl
      · exact hstarted
      · exact hstarted
    cases he with
    | call _ alive =>
      refine hnone j ?_ hj
      rw [hs.listed alive, List.mem_range]
      by_contra hge
      exact absurd ((hs.fresh j (Nat.not_lt.mp hge)).symm.trans hj.1) (by simp)
  · rcases he.blocked hj with hj | ⟨core, hcore⟩
    · exact h ⟨i, hsub _ hi⟩ j hj
    · exact honly ⟨i, hsub _ hi⟩ core hcore

/-- **Shutdown does not deadlock when all threads were started.** In every run in which the pool is
cleared or destroyed only when none of its threads is blocked, the controlling thread never waits
for a blocked thread. -/
theorem not_stuck {seclive : ℤ} {es : List Event}
    (h : ((poolMachine seclive).restrict State.ClearsStarted).Legal .start es) :
    ¬ ((poolMachine seclive).run .start es).Stuck := by
  have hinv := Machine.Legal.invariant (M := (poolMachine seclive).restrict State.ClearsStarted)
    (fun s => Sound s ∧ JoinsOnly s ∧ NoneBlocked s)
    (fun s e hs hguard =>
      have heffect := step_effect hguard.1
      ⟨hs.1.step heffect, hs.2.1.step heffect, hs.2.2.step hs.1 hs.2.1 heffect hguard.2⟩)
    h ⟨sound_start, fun ⟨_, hj⟩ => absurd hj List.not_mem_nil,
      fun ⟨_, hj⟩ => absurd hj List.not_mem_nil⟩
  rintro ⟨j, hhead, -, hblocked⟩
  obtain ⟨-, -, hnone⟩ := hinv
  simp only [Machine.restrict_run] at hnone
  exact hnone ⟨j, List.mem_of_mem_head? hhead⟩ _ hblocked

/-- A task is started and the pool cleared at once: its thread can be joined. -/
theorem not_stuck_started :
    ¬ ((poolMachine 0).run .start [.call (.init [0]), .create 0 0, .call .start, .control,
      .call .clear, .control, .control]).Stuck :=
  not_stuck (by decide)

/-- A task is not started, and the pool is cleared: its thread is joined in vain. -/
theorem cleared_unstarted_stuck :
    ¬ ∀ (seclive : ℤ) (es : List Event), (poolMachine seclive).Legal .start es →
      ¬ ((poolMachine seclive).run .start es).Stuck := by
  intro hall
  exact hall 0 [.call (.init [0]), .create 0 0, .call .clear, .control, .control]
    (by decide) ⟨0, by decide, by decide, by decide⟩

end FfTest.TaskPool
