import FfTest.TaskPool.Threads

/-! # What a step of the pool or of a thread does

`Effect` lists all that one admitted step can do. From it comes the invariant `Sound`, which ties
the value of each semaphore, the thread identifiers and the records to the places of the threads;
it holds in every state that can be reached. -/

namespace FfTest.TaskPool

namespace Task

variable (t : Task) (p : Phase)

@[simp, grind =] theorem stop_sem : t.stop.sem = t.sem := rfl

@[simp, grind =] theorem stop_tid : t.stop.tid = t.tid := rfl

@[simp, grind =] theorem stop_thread : t.stop.thread = t.thread := rfl

@[simp, grind =] theorem joined_sem : t.joined.sem = t.sem := rfl

@[simp, grind =] theorem joined_tid : t.joined.tid = 0 := rfl

@[simp, grind =] theorem joined_thread : t.joined.thread = t.thread := rfl

@[simp, grind =] theorem goTo_sem : (t.goTo p).sem = t.sem := rfl

@[simp, grind =] theorem goTo_tid : (t.goTo p).tid = t.tid := rfl

@[simp, grind =] theorem goTo_thread : (t.goTo p).thread = some p := rfl

end Task

namespace State

variable (s : State) (j : ℕ) (t : Task)

@[grind =] theorem update_task (i : ℕ) : (s.update j t).task i = if i = j then t else s.task i :=
  Function.update_apply ..

@[simp] theorem update_task_self : (s.update j t).task j = t := Function.update_self ..

@[simp] theorem update_task_of_ne {i : ℕ} (h : i ≠ j) : (s.update j t).task i = s.task i :=
  Function.update_of_ne h ..

@[simp] theorem update_self : s.update j (s.task j) = s := by
  simp [update]

@[simp, grind =] theorem update_sem : (s.update j t).sem = s.sem := rfl

@[simp, grind =] theorem update_next : (s.update j t).next = s.next := rfl

@[simp, grind =] theorem update_lstTask : (s.update j t).lstTask = s.lstTask := rfl

@[simp, grind =] theorem update_todo : (s.update j t).todo = s.todo := rfl

@[simp, grind =] theorem update_alive : (s.update j t).alive = s.alive := rfl

@[simp, grind =] theorem update_log : (s.update j t).log = s.log := rfl

end State

/-! ## The effect of a step -/

/-- All that an admitted step can do. -/
inductive Effect (s : State) : Event → State → Prop
  /-- A call begins. -/
  | call {c : Call} (idle : s.todo = []) (alive : s.alive = true) :
    Effect s (.call c) (s.call c)
  /-- A task is made with its thread. -/
  | created {core : ℤ} {todo : List Act} {tid : ℕ} (hd : s.todo = .create core :: todo) :
    Effect s (.create 0 tid)
      { s.update s.next ⟨0, s.next + 1, false, BitVec.ofInt 8 core, some .waiting⟩ with
        next := s.next + 1
        lstTask := s.lstTask ++ [s.next]
        todo
        log := .created s.next :: .made s.next :: s.log }
  /-- A task is made, and its thread is refused. -/
  | refused {core : ℤ} {todo : List Act} {ret : ℤ} {tid : ℕ} (hd : s.todo = .create core :: todo)
    (hret : 0 < ret) :
    Effect s (.create ret tid)
      { s.update s.next ⟨0, tid, false, BitVec.ofInt 8 core, none⟩ with
        next := s.next + 1
        lstTask := s.lstTask ++ [s.next]
        todo
        log := .made s.next :: s.log }
  /-- A task is started. -/
  | started {j : ℕ} {todo : List Act} (hd : s.todo = .start j :: todo) (htid : (s.task j).tid ≠ 0) :
    Effect s .control { s.update j { s.task j with sem := (s.task j).sem + 1 } with
      todo, log := .posted j :: s.log }
  /-- A task is told to stop. -/
  | stopped {j : ℕ} {todo : List Act} (hd : s.todo = .stop j :: todo) :
    Effect s .control { s.update j (s.task j).stop with todo }
  /-- A thread has been joined. -/
  | joined {j : ℕ} {todo : List Act} (hd : s.todo = .join j :: todo) (htid : (s.task j).tid ≠ 0)
    (hreturns : (s.task ((s.task j).tid - 1)).thread = none ∨
      (s.task ((s.task j).tid - 1)).thread = some .done) :
    Effect s .control { s.update j (s.task j).joined with
      todo, log := .joined ((s.task j).tid - 1) :: s.log }
  /-- There is no thread to start or to join. -/
  | skipped {j : ℕ} {a : Act} {todo : List Act} (ha : a = .start j ∨ a = .join j)
    (hd : s.todo = a :: todo) (htid : (s.task j).tid = 0) : Effect s .control { s with todo }
  /-- A task is deleted. -/
  | deleted {j : ℕ} {todo : List Act} (hd : s.todo = .delete j :: todo) :
    Effect s .control { s with todo, log := .deleted j :: s.log }
  /-- The list is cleared. -/
  | forgotten {todo : List Act} (hd : s.todo = .forget :: todo) :
    Effect s .control { s with todo, lstTask := [] }
  /-- A thread gets through its semaphore. -/
  | woken {j : ℕ} (hphase : (s.task j).thread = some .waiting) (hsem : 0 < (s.task j).sem) :
    Effect s (.svc j)
      (s.update j { s.task j with sem := (s.task j).sem - 1, thread := some .testing })
  /-- A thread goes on in its loop, or leaves it. -/
  | moved {j : ℕ} {p q : Phase} (hphase : (s.task j).thread = some p)
    (hp : p = .testing ∨ p = .working) (hq : q = .testing ∨ q = .working ∨ q = .notifying) :
    Effect s (.svc j) (s.update j ((s.task j).goTo q))
  /-- A thread posts the semaphore of the pool and ends. -/
  | notified {j : ℕ} (hphase : (s.task j).thread = some .notifying) :
    Effect s (.svc j) { s.update j ((s.task j).goTo .done) with
      sem := s.sem + 1, log := .notified j :: s.log }

/-- Every admitted step has one of these effects. -/
theorem step_effect {seclive : ℤ} {s : State} {e : Event} (h : (poolMachine seclive).guard s e) :
    Effect s e ((poolMachine seclive).step s e) := by
  cases e with
  | call c => exact .call h.1 h.2
  | create ret tid =>
    obtain ⟨hcan, hret⟩ := h
    cases hd : s.todo with
    | nil => simp [State.CanCreate, hd] at hcan
    | cons a todo =>
      cases a with
      | create core =>
        -- `ret < 0` is the test of the source; a refusal is a positive number
        by_cases hzero : ret = 0
        · subst hzero
          have heffect : Effect s (.create 0 tid) _ := .created hd
          simpa [poolMachine, State.step, State.create, hd, Task.init, Task.setAffinity,
            Task.construct] using heffect
        · have hpos : 0 < ret := by omega
          have heffect : Effect s (.create ret tid) _ := .refused hd hpos
          simpa [poolMachine, State.step, State.create, hd, Task.init, Task.setAffinity,
            Task.construct, hzero, Int.not_lt.mpr hret] using heffect
      | start | stop | join | delete | forget => simp [State.CanCreate, hd] at hcan
  | control =>
    show Effect s .control s.control
    have hcan : s.CanControl := h
    unfold State.CanControl at hcan
    unfold State.control
    cases hd : s.todo with
    | nil => simp [hd] at hcan
    | cons a todo =>
      rw [hd] at hcan
      cases a with
      | create core => exact hcan.elim
      | start j =>
        by_cases htid : (s.task j).tid = 0
        · simpa [Task.start, htid] using Effect.skipped (Or.inl rfl) hd htid
        · simpa [Task.start, htid] using Effect.started hd htid
      | stop j => exact .stopped hd
      | join j =>
        by_cases htid : (s.task j).tid = 0
        · simpa [htid] using Effect.skipped (Or.inr rfl) hd htid
        · simpa [htid] using Effect.joined hd htid (hcan.resolve_left htid)
      | delete j => exact .deleted hd
      | forget => exact .forgotten hd
  | svc j =>
    show Effect s (.svc j) (s.svc seclive j)
    have hcan : s.CanRun j := h
    unfold State.CanRun at hcan
    simp only [State.svc]
    cases hphase : (s.task j).thread with
    | none => simp [hphase] at hcan
    | some p =>
      rw [hphase] at hcan
      cases p with
      | waiting => exact .woken hphase hcan
      | testing =>
        refine .moved hphase (Or.inl rfl) ?_
        split <;> simp
      | working =>
        refine .moved hphase (Or.inr rfl) ?_
        split <;> simp
      | notifying => exact .notified hphase
      | done => exact hcan.elim

/-! ## The acts of a call -/

/-- Joins come only from `clear` and from the destructor. -/
theorem not_join_mem_acts {lstTask : List ℕ} {c : Call} {j : ℕ} (hj : .join j ∈ c.acts lstTask) :
    c = .clear ∨ c = .destroy := by
  cases c with
  | init | start | stop => simp [Call.acts] at hj
  | clear => exact Or.inl rfl
  | destroy => exact Or.inr rfl

/-- `clear` and the destructor make no task. -/
theorem create_not_mem_acts {lstTask : List ℕ} {c : Call} (hc : c = .clear ∨ c = .destroy)
    (core : ℤ) : .create core ∉ c.acts lstTask := by
  rcases hc with rfl | rfl
  · simp [Call.acts, clearActs, releaseActs]
  · simp [Call.acts, clearActs, releaseActs, deleteActs]

/-- A step other than a call leaves a rest of the acts. -/
theorem Effect.todo_sublist {s s' : State} {e : Event} (he : Effect s e s') :
    (∃ c, e = .call c ∧ s' = s.call c) ∨ ∀ a ∈ s'.todo, a ∈ s.todo := by
  cases he with
  | @call c => exact Or.inl ⟨c, rfl, rfl⟩
  | created hd | refused hd | started hd | stopped hd | joined hd | skipped _ hd | deleted hd
  | forgotten hd => exact Or.inr fun a ha => hd ▸ List.mem_cons_of_mem _ ha
  | woken | moved | notified => exact Or.inr fun a ha => ha

/-- No task is ever taken back. -/
theorem Effect.next_le {s s' : State} {e : Event} (he : Effect s e s') : s.next ≤ s'.next := by
  cases he with
  | created | refused => exact Nat.le_succ _
  | call | started | stopped | skipped | joined | deleted | forgotten | woken | moved
  | notified => exact Nat.le_refl _

/-! ## The invariant -/

/-- The task an act is about, if any. -/
def Act.target : Act → Option ℕ
  | .start j | .stop j | .join j | .delete j => some j
  | .create _ | .forget => none

/-- How many threads have ended. -/
def State.doneCount (s : State) : ℕ :=
  (List.range s.next).countP fun j => (s.task j).thread = some .done

/-- What holds in every state that can be reached. -/
structure Sound (s : State) : Prop where
  /-- The semaphore of the pool counts the threads that have ended. -/
  sem_eq : s.sem = s.doneCount
  /-- Numbers not given yet have no thread. -/
  fresh : ∀ j, s.next ≤ j → (s.task j).thread = none
  /-- The list has all tasks, until the pool is destroyed. -/
  listed : s.alive = true → s.lstTask = List.range s.next
  /-- Only the destructor clears the list. -/
  forget_dead : .forget ∈ s.todo → s.alive = false
  /-- The acts left are about tasks that have been made. -/
  target_lt : ∀ a ∈ s.todo, ∀ j ∈ a.target, j < s.next
  /-- A thread has posted the semaphore of the pool once if it has ended, and never before. -/
  count_notified : ∀ j,
    s.log.count (.notified j) = if (s.task j).thread = some .done then 1 else 0
  /-- A thread that has not ended has not been joined. -/
  tid_eq : ∀ j p, (s.task j).thread = some p → p ≠ .done → (s.task j).tid = j + 1

/-- One more index satisfies the second predicate. -/
theorem countP_range_eq_succ {p q : ℕ → Bool} {j : ℕ} (hp : p j = false) (hq : q j = true)
    (hrest : ∀ i, i ≠ j → p i = q i) {n : ℕ} (hj : j < n) :
    (List.range n).countP q = (List.range n).countP p + 1 := by
  induction n with
  | zero => exact absurd hj (Nat.not_lt_zero j)
  | succ n ih =>
    simp only [List.range_succ, List.countP_append, List.countP_singleton]
    by_cases hjn : j = n
    · subst hjn
      have hsame : (List.range j).countP q = (List.range j).countP p :=
        List.countP_congr fun i hi => by rw [hrest i (Nat.ne_of_lt (List.mem_range.mp hi))]
      simp [hsame, hp, hq]
    · rw [ih (by omega), hrest n (Ne.symm hjn)]
      omega

/-- The count depends only on which threads have ended. -/
theorem doneCount_congr {s s' : State} (hnext : s'.next = s.next)
    (hdone : ∀ i, (s'.task i).thread = some .done ↔ (s.task i).thread = some .done) :
    s'.doneCount = s.doneCount := by
  unfold State.doneCount
  rw [hnext]
  exact List.countP_congr fun i _ => by simp [hdone i]

/-- A task whose thread has not ended does not count. -/
theorem doneCount_made {s : State} {t : Task} (ht : t.thread ≠ some .done) (lstTask : List ℕ)
    (todo : List Act) (log : List Record) :
    State.doneCount { s.update s.next t with next := s.next + 1, lstTask, todo, log }
      = s.doneCount := by
  have hbelow : (List.range s.next).countP
        (fun i => decide (((s.update s.next t).task i).thread = some .done))
      = s.doneCount := by
    refine List.countP_congr fun i hi => ?_
    rw [State.update_task_of_ne _ _ _ (Nat.ne_of_lt (List.mem_range.mp hi))]
  simp only [State.doneCount, List.range_succ, List.countP_append,
    List.countP_singleton] at hbelow ⊢
  rw [hbelow]
  simp [ht]

/-- The semaphore of the pool keeps counting the threads that have ended. -/
theorem Sound.sem_eq_step {s s' : State} {e : Event} (h : Sound s) (he : Effect s e s') :
    s'.sem = s'.doneCount := by
  have hsem := h.sem_eq
  cases he with
  | call => exact hsem
  | created => exact hsem.trans (doneCount_made (by simp) _ _ _).symm
  | refused => exact hsem.trans (doneCount_made (by simp) _ _ _).symm
  | skipped | deleted | forgotten => exact hsem
  | started | stopped | joined | woken | moved =>
    refine hsem.trans (Eq.symm (doneCount_congr ?_ fun i => ?_))
    · rfl
    · grind
  | notified hphase =>
    rename_i j
    have hj : j < s.next := by
      by_contra hge
      simp [h.fresh j (Nat.not_lt.mp hge)] at hphase
    have hcount : State.doneCount (s.update j ((s.task j).goTo .done)) = s.doneCount + 1 :=
      countP_range_eq_succ (by simp [hphase]) (by simp) (fun i hi => by simp [hi]) hj
    exact (congrArg (· + 1) hsem).trans hcount.symm

/-- A thread that has not ended stays unjoined. -/
theorem Sound.tid_eq_step {s s' : State} {e : Event} (h : Sound s) (he : Effect s e s') :
    ∀ j p, (s'.task j).thread = some p → p ≠ .done → (s'.task j).tid = j + 1 := by
  have htid := h.tid_eq
  cases he with
  | call => exact htid
  | created | refused | started | stopped | skipped | deleted | forgotten | woken | moved
  | notified => grind
  | joined hd hne hreturns =>
    -- the thread joined is the task's own, unless that has ended
    grind

/-- The records of notification keep up with the threads. -/
theorem Sound.count_notified_step {s s' : State} {e : Event} (h : Sound s) (he : Effect s e s') :
    ∀ j, s'.log.count (.notified j) = if (s'.task j).thread = some .done then 1 else 0 := by
  intro i
  have hcount := h.count_notified i
  have hfresh := h.fresh i
  cases he with
  | call => exact hcount
  | created | refused | started | stopped | skipped | joined | deleted | forgotten | woken | moved
  | notified => grind

/-- Numbers not given yet keep having no thread. -/
theorem Sound.fresh_step {s s' : State} {e : Event} (h : Sound s) (he : Effect s e s') :
    ∀ j, s'.next ≤ j → (s'.task j).thread = none := by
  intro i hi
  have hfresh := h.fresh i
  cases he with
  | call => exact hfresh hi
  | created | refused | started | stopped | skipped | joined | deleted | forgotten | woken | moved
  | notified => grind

/-- The acts of a call are about tasks of the list. -/
theorem mem_of_mem_acts {lstTask : List ℕ} {c : Call} {a : Act} {j : ℕ}
    (ha : a ∈ c.acts lstTask) (hj : j ∈ a.target) : j ∈ lstTask := by
  cases c with
  | init cores =>
    obtain ⟨core, -, rfl⟩ := List.mem_map.mp ha
    simp [Act.target] at hj
  | start | stop =>
    obtain ⟨i, hi, rfl⟩ := List.mem_map.mp ha
    simp only [Act.target, Option.mem_some_iff] at hj
    exact hj ▸ hi
  | clear | destroy =>
    simp only [Call.acts, clearActs, releaseActs, deleteActs, List.mem_append, List.mem_map,
      List.mem_flatMap, List.mem_cons, List.not_mem_nil, or_false] at ha
    grind [Act.target]

/-- The acts left stay about tasks that have been made. -/
theorem Sound.target_lt_step {s s' : State} {e : Event} (h : Sound s) (he : Effect s e s') :
    ∀ a ∈ s'.todo, ∀ j ∈ a.target, j < s'.next := by
  intro a ha j hj
  have htarget := h.target_lt a
  cases he with
  | call _ alive =>
    have hmem := mem_of_mem_acts ha hj
    rw [h.listed alive] at hmem
    exact List.mem_range.mp hmem
  | created | refused | started | stopped | skipped | joined | deleted | forgotten | woken | moved
  | notified => grind

/-- The list keeps having all tasks. -/
theorem Sound.listed_step {s s' : State} {e : Event} (h : Sound s) (he : Effect s e s') :
    s'.alive = true → s'.lstTask = List.range s'.next := by
  have hlisted := h.listed
  have hforget := h.forget_dead
  cases he with
  | call idle alive => exact fun _ => hlisted alive
  | created | refused =>
    intro halive
    simp only [hlisted halive, List.range_succ]
  | started | stopped | skipped | joined | deleted | woken | moved | notified => grind
  | forgotten hd =>
    intro halive
    simp [hforget (hd ▸ List.mem_cons_self)] at halive

/-- Only the destructor is going to clear the list. -/
theorem Sound.forget_dead_step {s s' : State} {e : Event} (h : Sound s) (he : Effect s e s') :
    .forget ∈ s'.todo → s'.alive = false := by
  have hforget := h.forget_dead
  cases he with
  | @call c =>
    intro hmem
    cases c with
    | init cores => simp [State.call, Call.acts] at hmem
    | start | stop => simp [State.call, Call.acts] at hmem
    | clear => simp [State.call, Call.acts, clearActs, releaseActs] at hmem
    | destroy => simp [State.call]
  | created | refused | started | stopped | skipped | joined | deleted | forgotten | woken | moved
  | notified => grind

/-- **Step lemma.** Every admitted step keeps the invariant. -/
theorem Sound.step {s s' : State} {e : Event} (h : Sound s) (he : Effect s e s') : Sound s' where
  sem_eq := h.sem_eq_step he
  fresh := h.fresh_step he
  listed := h.listed_step he
  forget_dead := h.forget_dead_step he
  target_lt := h.target_lt_step he
  count_notified := h.count_notified_step he
  tid_eq := h.tid_eq_step he

/-- The constructed pool satisfies the invariant. -/
theorem sound_start : Sound .start where
  sem_eq := rfl
  fresh _ _ := rfl
  listed _ := rfl
  forget_dead h := absurd h List.not_mem_nil
  target_lt _ ha := absurd ha List.not_mem_nil
  count_notified _ := rfl
  tid_eq _ _ h := by simp [State.start, Task.construct] at h

/-- **Run lemma.** The invariant holds wherever a run ends. -/
theorem sound_run {seclive : ℤ} {es : List Event} (h : (poolMachine seclive).Legal .start es) :
    Sound ((poolMachine seclive).run .start es) :=
  h.invariant Sound (fun _ _ hs he => hs.step (step_effect he)) sound_start

/-! ## Runs without refused threads -/

/-- `pthread_create` has always returned 0. -/
def AllCreated (es : List Event) : Prop := ∀ ret tid, .create ret tid ∈ es → ret = 0

theorem allCreated_snoc (es : List Event) (e : Event) :
    AllCreated (es ++ [e]) ↔ AllCreated es ∧ ∀ ret tid, e = .create ret tid → ret = 0 := by
  constructor
  · intro h
    refine ⟨fun ret tid hmem => h ret tid (List.mem_append_left _ hmem), ?_⟩
    rintro ret tid rfl
    exact h ret tid (List.mem_append_right _ List.mem_cons_self)
  · rintro ⟨hes, he⟩ ret tid hmem
    rcases List.mem_append.mp hmem with hmem | hmem
    · exact hes ret tid hmem
    · exact he ret tid (List.mem_singleton.mp hmem).symm

end FfTest.TaskPool
