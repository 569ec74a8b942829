import FfTest.TaskPool.Effects
import Mathlib.Data.List.Infix

/-! # Completion of the pool

`TaskPool::is_stop` compares the semaphore of the pool with the number of configured cores. When
`TaskPool::init` is called once, this tells whether as many tasks as configured have left their work
loop and said so; once they have, it stays so. Whether it comes to that depends on
`pthread_create`: a task whose thread was refused is counted as configured and never posts. -/

namespace FfTest.TaskPool

/-- `m_vecCore`, if the event is a call of `TaskPool::init`. -/
def Event.initCores : Event → Option (List ℤ)
  | .call (.init cores) => some cores
  | _ => none

/-- The calls of `TaskPool::init`, each with its `m_vecCore`. -/
def initCalls (es : List Event) : List (List ℤ) := es.filterMap Event.initCores

/-- Whether the act makes a task. -/
def Act.isCreate : Act → Bool
  | .create _ => true
  | .start _ | .stop _ | .join _ | .delete _ | .forget => false

/-- Every thread that was created has come to its end. -/
def State.AllEnded (s : State) : Prop :=
  ∀ j < s.next, (s.task j).thread = none ∨ (s.task j).thread = some .done

instance (s : State) : Decidable s.AllEnded := inferInstanceAs (Decidable (∀ j < s.next, _))

theorem initCalls_snoc (es : List Event) (e : Event) :
    initCalls (es ++ [e]) = initCalls es ++ e.initCores.toList := by
  simp only [initCalls, List.filterMap_append, List.filterMap_cons, List.filterMap_nil]
  cases e.initCores <;> rfl

/-! ## How many tasks there are -/

/-- Only `TaskPool::init` makes tasks, one for each core. -/
theorem countP_isCreate_acts (lstTask : List ℕ) (c : Call) :
    (c.acts lstTask).countP Act.isCreate
      = (Event.initCores (.call c)).toList.flatten.length := by
  cases c with
  | init cores =>
    have hall : cores.countP (Act.isCreate ∘ .create) = cores.length :=
      List.countP_eq_length.mpr fun _ _ => rfl
    simp [Call.acts, Event.initCores, List.countP_map, hall]
  | start | stop => simp [Call.acts, Event.initCores, Act.isCreate, List.countP_eq_zero]
  | clear | destroy =>
    simp only [Event.initCores, Option.toList_none, List.flatten_nil, List.length_nil,
      List.countP_eq_zero]
    grind [Call.acts, clearActs, releaseActs, deleteActs, Act.isCreate]

/-- A task is made or still to be made for each core an `init` was called with. -/
theorem Effect.next_add_creates {s s' : State} {e : Event} (he : Effect s e s') :
    s'.next + s'.todo.countP Act.isCreate
      = s.next + s.todo.countP Act.isCreate + e.initCores.toList.flatten.length := by
  cases he with
  | @call c idle =>
    have hacts := countP_isCreate_acts s.lstTask c
    simp [State.call, idle, hacts]
  | created hd | refused hd =>
    simp only [hd, List.countP_cons, Act.isCreate, Event.initCores]
    simp
    omega
  | started hd | stopped hd | joined hd | deleted hd | forgotten hd =>
    simp [hd, Act.isCreate, Event.initCores]
  | skipped ha hd => rcases ha with rfl | rfl <;> simp [hd, Act.isCreate, Event.initCores]
  | woken | moved | notified => simp [Event.initCores]

/-- In every run: a task has been made or is still to be made for each core configured. -/
theorem next_add_creates {seclive : ℤ} {es : List Event}
    (h : (poolMachine seclive).Legal .start es) :
    ((poolMachine seclive).run .start es).next
        + ((poolMachine seclive).run .start es).todo.countP Act.isCreate
      = (initCalls es).flatten.length := by
  refine h.history (fun es s => s.next + s.todo.countP Act.isCreate
    = (initCalls es).flatten.length) rfl fun es e _ hguard ih => ?_
  have heffect := (step_effect hguard).next_add_creates
  rw [heffect, ih, initCalls_snoc, List.flatten_append, List.length_append]

/-- After at most one `init` there are no more tasks than cores. -/
theorem next_le {seclive : ℤ} {cores : List ℤ} {es : List Event}
    (h : (poolMachine seclive).Legal .start es) (hinit : initCalls es <+: [cores]) :
    ((poolMachine seclive).run .start es).next ≤ cores.length := by
  have hnext := next_add_creates h
  rcases List.prefix_cons_iff.mp hinit with hnil | ⟨l, hl, hprefix⟩
  · simp only [hnil, List.flatten_nil, List.length_nil] at hnext
    omega
  · obtain rfl := List.prefix_nil.mp hprefix
    simp only [hl, List.flatten_singleton] at hnext
    omega

/-! ## Threads that have ended -/

/-- The number of ended threads is the number of tasks iff all have ended. -/
theorem State.doneCount_eq_next_iff (s : State) :
    s.doneCount = s.next ↔ ∀ j < s.next, (s.task j).thread = some .done := by
  have hlength := List.countP_eq_length
    (l := List.range s.next) (p := fun j => decide ((s.task j).thread = some .done))
  rw [List.length_range] at hlength
  unfold State.doneCount
  rw [hlength]
  simp

/-- No more threads have ended than there are tasks. -/
theorem State.doneCount_le_next (s : State) : s.doneCount ≤ s.next := by
  have hle := List.countP_le_length
    (l := List.range s.next) (p := fun j => decide ((s.task j).thread = some .done))
  rwa [List.length_range] at hle

/-- A thread that has ended stays so. -/
theorem Effect.done_of_done {s s' : State} {e : Event} (he : Effect s e s') (hs : Sound s) {j : ℕ}
    (hj : (s.task j).thread = some .done) : (s'.task j).thread = some .done := by
  have hfresh := hs.fresh j
  cases he with
  | call => exact hj
  | created | refused | started | stopped | skipped | joined | deleted | forgotten | woken | moved
  | notified => grind

/-- From a sound state on, ended threads stay ended, and tasks are only added. -/
theorem done_of_legal {seclive : ℤ} {s : State} {es : List Event} (hs : Sound s)
    (h : (poolMachine seclive).Legal s es) :
    let s' := (poolMachine seclive).run s es
    s.next ≤ s'.next ∧ ∀ j, (s.task j).thread = some .done → (s'.task j).thread = some .done := by
  refine (h.invariant (fun s' => Sound s' ∧ s.next ≤ s'.next ∧
    ∀ j, (s.task j).thread = some .done → (s'.task j).thread = some .done) ?_
    ⟨hs, Nat.le_refl _, fun _ hj => hj⟩).2
  rintro s' e ⟨hs', hle, hdone⟩ hguard
  have heffect := step_effect hguard
  exact ⟨hs'.step heffect, Nat.le_trans hle heffect.next_le,
    fun j hj => heffect.done_of_done hs' (hdone j hj)⟩

/-- After at most one `init`, the pool counts as stopped iff a task has been made for each core and
the threads of all have ended. -/
theorem isStop_iff {seclive : ℤ} {cores : List ℤ} {es : List Event}
    (h : (poolMachine seclive).Legal .start es) (hinit : initCalls es <+: [cores]) :
    ((poolMachine seclive).run .start es).isStop cores = true ↔
      ((poolMachine seclive).run .start es).next = cores.length ∧
      ∀ j < ((poolMachine seclive).run .start es).next,
        (((poolMachine seclive).run .start es).task j).thread = some .done := by
  generalize hs : (poolMachine seclive).run .start es = s
  have hsem : s.sem = s.doneCount := hs ▸ (sound_run h).sem_eq
  have hnext : s.next ≤ cores.length := hs ▸ next_le h hinit
  have hle := s.doneCount_le_next
  rw [State.isStop, beq_iff_eq, hsem, ← State.doneCount_eq_next_iff]
  omega

/-- **Completion detection.** Let `TaskPool::init` be called at most once, with the cores `cores`.
At every moment of every run each thread has posted the semaphore of the pool at most once, and
those that have stand behind their loop and stay there; the semaphore counts them and does not
exceed the number of cores; `is_stop` holds exactly when a task has been made for every core and
all have done so; and once it holds it keeps holding. -/
theorem completion_detected {seclive : ℤ} {cores : List ℤ} {es fs : List Event}
    (h : (poolMachine seclive).Legal .start (es ++ fs))
    (hinit : initCalls (es ++ fs) <+: [cores]) :
    let s := (poolMachine seclive).run .start es
    let s' := (poolMachine seclive).run .start (es ++ fs)
    (∀ j, s.log.count (.notified j) ≤ 1) ∧
    (∀ j, .notified j ∈ s.log ↔ (s.task j).thread = some .done) ∧
    (∀ j, (s.task j).thread = some .done → (s'.task j).thread = some .done) ∧
    s.sem = s.doneCount ∧ s.sem ≤ cores.length ∧
    (s.isStop cores = true ↔
      s.next = cores.length ∧ ∀ j < cores.length, (s.task j).thread = some .done) ∧
    (s.isStop cores = true → s'.isStop cores = true) := by
  intro s s'
  have hes := h.of_append
  have hinites : initCalls es <+: [cores] := by
    refine List.IsPrefix.trans ?_ hinit
    simp [initCalls, List.filterMap_append]
  have hsound : Sound s := sound_run hes
  have hmono := done_of_legal hsound ((Machine.legal_append _ _ _ _).mp h).2
  have hrun : (poolMachine seclive).run s fs = s' := (Machine.run_append _ _ _ _).symm
  rw [hrun] at hmono
  have hstop : s.isStop cores = true ↔ _ := isStop_iff hes hinites
  refine ⟨fun j => ?_, fun j => ?_, hmono.2, hsound.sem_eq, ?_, ?_, fun hs => ?_⟩
  · rw [hsound.count_notified j]
    split <;> omega
  · rw [← List.count_pos_iff, hsound.count_notified j]
    split <;> simp_all
  · have hnext : s.next ≤ cores.length := next_le hes hinites
    rw [hsound.sem_eq]
    exact Nat.le_trans s.doneCount_le_next hnext
  · rw [hstop]
    exact and_congr_right fun hnext => by rw [hnext]
  -- no further task is made, and threads that have ended stay so
  · obtain ⟨hnext, hdone⟩ := hstop.mp hs
    have hnext' : s'.next = cores.length :=
      Nat.le_antisymm (next_le h hinit) (hnext ▸ hmono.1)
    refine (isStop_iff h hinit).mpr ⟨hnext', fun j hj => hmono.2 j (hdone j ?_)⟩
    exact hnext ▸ hnext' ▸ hj

/-- Two tasks, one loop each: while only the first has ended the pool has not stopped, and when the
second has ended too it has. -/
theorem completion_detected_two :
    let es : List Event := [.call (.init [0, 1]), .create 0 0, .create 0 0, .call .start, .control,
      .svc 0, .control, .svc 1, .svc 0, .svc 0, .svc 0]
    let fs : List Event := [.svc 1, .svc 1, .svc 1]
    let s := (poolMachine 0).run .start es
    let s' := (poolMachine 0).run .start (es ++ fs)
    (s.task 0).thread = some .done ∧ (s'.task 0).thread = some .done ∧
    (s.task 1).thread = some .testing ∧ s.sem = s.doneCount ∧ s.sem = 1 ∧
    (s.isStop [0, 1] = true ↔ s.next = 2 ∧ ∀ j < 2, (s.task j).thread = some .done) ∧
    s.isStop [0, 1] = false ∧ s'.isStop [0, 1] = true := by
  intro es fs s s'
  have hlegal : (poolMachine 0).Legal .start (es ++ fs) := by decide
  have hinit : initCalls (es ++ fs) <+: [[0, 1]] := by decide
  obtain ⟨-, -, hstays, hsem, -, hstop, -⟩ := completion_detected hlegal hinit
  exact ⟨by decide, hstays 0 (by decide), by decide, hsem, by decide, hstop, by decide, by decide⟩

/-! ## Refused threads -/

/-- A step gives no task a thread and takes none away, other than that of the task it makes. -/
theorem Effect.thread_eq_none_iff {s s' : State} {e : Event} (he : Effect s e s') {j : ℕ}
    (hj : j < s.next) : (s'.task j).thread = none ↔ (s.task j).thread = none := by
  cases he with
  | call => exact Iff.rfl
  | created | refused | started | stopped | skipped | joined | deleted | forgotten | woken | moved
  | notified => grind

/-- A step leaves all tasks with a thread iff they had one and none was refused. -/
theorem Effect.all_threads_iff {s s' : State} {e : Event} (he : Effect s e s') :
    (∀ j < s'.next, (s'.task j).thread ≠ none) ↔
      (∀ j < s.next, (s.task j).thread ≠ none) ∧ ∀ ret tid, e = .create ret tid → ret = 0 := by
  have hsame : ∀ j < s.next, (s'.task j).thread ≠ none ↔ (s.task j).thread ≠ none :=
    fun j hj => not_congr (he.thread_eq_none_iff hj)
  cases he with
  | created hd =>
    constructor
    · refine fun h => ⟨fun j hj => (hsame j hj).mp (h j (Nat.lt_succ_of_lt hj)), ?_⟩
      rintro ret tid ⟨⟩
      rfl
    · rintro ⟨h, -⟩ j hj
      rcases Nat.lt_succ_iff_lt_or_eq.mp hj with hj | rfl
      · exact (hsame j hj).mpr (h j hj)
      · simp
  | refused hd hret =>
    constructor
    · intro h
      exact absurd (by simp) (h s.next (Nat.lt_succ_self _))
    · rintro ⟨-, h⟩
      exact absurd (h _ _ rfl) (by omega)
  | call | started | stopped | skipped | joined | deleted | forgotten | woken | moved
  | notified =>
    constructor
    · exact fun h => ⟨fun j hj => (hsame j hj).mp (h j hj), by simp⟩
    · exact fun h j hj => (hsame j hj).mpr (h.1 j hj)

/-- In every run: all tasks have a thread iff none was refused. -/
theorem all_threads_iff {seclive : ℤ} {es : List Event}
    (h : (poolMachine seclive).Legal .start es) :
    (∀ j < ((poolMachine seclive).run .start es).next,
      (((poolMachine seclive).run .start es).task j).thread ≠ none) ↔ AllCreated es := by
  refine h.history (fun es s => (∀ j < s.next, (s.task j).thread ≠ none) ↔ AllCreated es)
    ?_ fun es e _ hguard ih => ?_
  · exact ⟨fun _ _ _ hmem => absurd hmem List.not_mem_nil,
      fun _ _ hj => absurd hj (Nat.not_lt_zero _)⟩
  · rw [(step_effect hguard).all_threads_iff, ih, allCreated_snoc]

/-- **Completion is detected iff no thread was refused.** When `TaskPool::init` was called once and
has returned, and all threads there are have ended, `is_stop` holds iff `pthread_create` returned 0
every time. -/
theorem isStop_iff_allCreated {seclive : ℤ} {cores : List ℤ} {es : List Event}
    (h : (poolMachine seclive).Legal .start es) (hinit : initCalls es = [cores])
    (hreturned : ((poolMachine seclive).run .start es).todo = [])
    (hended : ((poolMachine seclive).run .start es).AllEnded) :
    ((poolMachine seclive).run .start es).isStop cores = true ↔ AllCreated es := by
  have hnext := next_add_creates h
  have hstop := isStop_iff h (by rw [hinit])
  have hthreads := all_threads_iff h
  simp only [hreturned, hinit, List.countP_nil, List.flatten_singleton, Nat.add_zero] at hnext
  rw [hstop, ← hthreads, and_iff_right hnext]
  refine forall₂_congr fun j hj => ?_
  -- a thread that has come to its end is there, and one that is there has come to its end
  rcases hended j hj with hnone | hdone
  · simp [hnone]
  · simp [hdone]

/-- Both sides hold of a pool of one task that has done its loop. -/
theorem isStop_iff_allCreated_one :
    let es : List Event := [.call (.init [0]), .create 0 0, .call .start, .control,
      .svc 0, .svc 0, .svc 0, .svc 0]
    ((poolMachine 0).run .start es).isStop [0] = true ↔ AllCreated es := by
  exact isStop_iff_allCreated (by decide) rfl rfl (by decide)

/-- `pthread_create` reports a positive error number, which `Task::init` takes for success: the only
task has no thread, `init` and `start` have returned, and the pool never counts as stopped. -/
theorem refused_thread_not_stopped :
    ¬ ∀ (seclive : ℤ) (cores : List ℤ) (es : List Event),
      (poolMachine seclive).Legal .start es → initCalls es = [cores] → .call .start ∈ es →
      ((poolMachine seclive).run .start es).todo = [] →
      ((poolMachine seclive).run .start es).AllEnded →
      ((poolMachine seclive).run .start es).isStop cores = true := by
  intro hall
  have hstop := hall 0 [0] [.call (.init [0]), .create 11 5, .call .start, .control]
    (by decide) rfl (by decide) rfl (by decide)
  exact absurd hstop (by decide)

end FfTest.TaskPool
