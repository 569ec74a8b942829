import FfTest.TaskPool.Effects

/-! # Joining the threads and deleting the tasks

`clear` leaves the tasks it has released in the list, so that later calls meet them again; what
keeps them from being joined or posted twice is `m_tid`, which `Task::release` sets to 0. When all
threads are created, each is joined exactly once, by the first call that clears the pool, and each
task is deleted exactly once, by the destructor, after its thread has been joined. -/

namespace FfTest.TaskPool

/-- What may be newer in the log than what: a thread that has been joined is neither posted nor
joined again, and neither is the thread of a task that has been deleted. -/
def Record.Follows (later earlier : Record) : Prop :=
  ∀ j, earlier = .joined j ∨ earlier = .deleted j → later ≠ .posted j ∧ later ≠ .joined j

/-- What holds in every run in which all threads are created. -/
structure Kept (s : State) : Prop where
  /-- Every task was made once. -/
  made : ∀ j, s.log.count (.made j) = if j < s.next then 1 else 0
  /-- Its thread was created once. -/
  created : ∀ j, s.log.count (.created j) = if j < s.next then 1 else 0
  /-- A task keeps its thread until that is joined. -/
  tid_eq : ∀ j, (s.task j).tid = 0 ∨ (s.task j).tid = j + 1
  /-- The thread of a task has been joined once if `m_tid` is 0, and else never. -/
  joined : ∀ j,
    s.log.count (.joined j) = if j < s.next ∧ (s.task j).tid = 0 then 1 else 0
  /-- Nothing is done to threads that have been joined. -/
  follows : s.log.Pairwise Record.Follows
  /-- Nothing is made once the destructor has been called. -/
  create_alive : ∀ core, .create core ∈ s.todo → s.alive = true
  /-- The destructor has deleted each task or is going to, once. -/
  deleted : ∀ j, s.todo.count (.delete j) + s.log.count (.deleted j)
    = if s.alive = false ∧ j < s.next then 1 else 0
  /-- No task is going to be deleted before its thread is joined. -/
  delete_late : ∀ pre j post, s.todo = pre ++ .delete j :: post →
    (s.task j).tid = 0 ∨ .join j ∈ pre
  /-- A task that has been deleted had its thread joined before. -/
  deleted_joined : ∀ j, .deleted j ∈ s.log → [.deleted j, .joined j].Sublist s.log

variable {s s' : State} {e : Event}

/-! ## One step -/

/-- Each new task is made once. -/
theorem Kept.made_step (h : Kept s) (he : Effect s e s') :
    ∀ j, s'.log.count (.made j) = if j < s'.next then 1 else 0 := by
  intro i
  have hmade := h.made i
  cases he with
  | call => exact hmade
  | created | refused | started | stopped | skipped | joined | deleted | forgotten | woken | moved
  | notified => grind

/-- Each new task gets its thread once. -/
theorem Kept.created_step (h : Kept s) (he : Effect s e s')
    (hcreated : ∀ ret tid, e = .create ret tid → ret = 0) :
    ∀ j, s'.log.count (.created j) = if j < s'.next then 1 else 0 := by
  intro i
  have hcount := h.created i
  cases he with
  | call => exact hcount
  | refused _ hret => exact absurd (hcreated _ _ rfl) (by omega)
  | created | started | stopped | skipped | joined | deleted | forgotten | woken | moved
  | notified => grind

/-- Tasks keep their threads. -/
theorem Kept.tid_eq_step (h : Kept s) (he : Effect s e s')
    (hcreated : ∀ ret tid, e = .create ret tid → ret = 0) :
    ∀ j, (s'.task j).tid = 0 ∨ (s'.task j).tid = j + 1 := by
  intro i
  have htid := h.tid_eq i
  cases he with
  | call => exact htid
  | refused _ hret => exact absurd (hcreated _ _ rfl) (by omega)
  | created | started | stopped | skipped | joined | deleted | forgotten | woken | moved
  | notified => grind

/-- A task about to be joined has been made, and its thread not been joined. -/
theorem Kept.joined_step (h : Kept s) (hs : Sound s) (he : Effect s e s')
    (hcreated : ∀ ret tid, e = .create ret tid → ret = 0) :
    ∀ j, s'.log.count (.joined j) = if j < s'.next ∧ (s'.task j).tid = 0 then 1 else 0 := by
  intro i
  have hjoined := h.joined i
  cases he with
  | call => exact hjoined
  | refused _ hret => exact absurd (hcreated _ _ rfl) (by omega)
  | @joined j todo hd htid =>
    have hlt : j < s.next := hs.target_lt _ (hd ▸ List.mem_cons_self) j rfl
    have htid := (h.tid_eq j).resolve_left htid
    grind
  | created | started | stopped | skipped | deleted | forgotten | woken | moved | notified => grind

/-- What is counted once where `p` holds, and else never, is there only if `p` holds. -/
theorem of_mem_of_count_eq_ite {l : List Record} {r : Record} {p : Prop} [Decidable p]
    (hcount : l.count r = if p then 1 else 0) (hr : r ∈ l) : p := by
  by_contra hp
  rw [if_neg hp] at hcount
  exact List.count_eq_zero.mp hcount hr

/-- Tasks that have been recorded have been made. -/
theorem Kept.lt_next_of_made (h : Kept s) {j : ℕ} (hj : .made j ∈ s.log) : j < s.next :=
  of_mem_of_count_eq_ite (h.made j) hj

/-- Threads that have been created belong to tasks. -/
theorem Kept.lt_next_of_created (h : Kept s) {j : ℕ} (hj : .created j ∈ s.log) : j < s.next :=
  of_mem_of_count_eq_ite (h.created j) hj

/-- What has been joined or deleted has `m_tid` 0. -/
theorem Kept.tid_eq_zero (h : Kept s) {r : Record} (hr : r ∈ s.log) {j : ℕ}
    (hj : r = .joined j ∨ r = .deleted j) : (s.task j).tid = 0 := by
  have hmem : .joined j ∈ s.log := by
    rcases hj with rfl | rfl
    · exact hr
    · exact (h.deleted_joined j hr).subset (by simp)
  exact (of_mem_of_count_eq_ite (h.joined j) hmem).2

/-- Nothing is posted or joined that was joined before. -/
theorem Kept.follows_step (h : Kept s) (he : Effect s e s') : s'.log.Pairwise Record.Follows := by
  have hfollows := h.follows
  cases he with
  | call | stopped | skipped | forgotten | woken | moved => exact hfollows
  | created => simp [Record.Follows, hfollows]
  | refused | deleted | notified => simp [Record.Follows, hfollows]
  | started hd htid =>
    refine List.pairwise_cons.mpr ⟨fun r hr i hi => ⟨?_, by simp⟩, hfollows⟩
    rintro ⟨⟩
    exact htid (h.tid_eq_zero hr hi)
  | @joined j todo hd htid =>
    rw [(h.tid_eq j).resolve_left htid]
    refine List.pairwise_cons.mpr ⟨fun r hr i hi => ⟨by simp, ?_⟩, hfollows⟩
    rintro ⟨⟩
    exact htid (h.tid_eq_zero hr hi)

/-- Nothing gets made after the destructor. -/
theorem Kept.create_alive_step (h : Kept s) (he : Effect s e s') :
    ∀ core, .create core ∈ s'.todo → s'.alive = true := by
  intro core hcore
  have halive := h.create_alive core
  cases he with
  | @call c _ alive =>
    by_cases hc : c = .destroy
    · exact absurd hcore (create_not_mem_acts (Or.inr hc) core)
    · simp [State.call, alive, hc]
  | created | refused | started | stopped | skipped | joined | deleted | forgotten | woken | moved
  | notified => grind

/-- The destructor deletes each task of the list once; other calls delete nothing. -/
theorem count_delete_acts (lstTask : List ℕ) (c : Call) (j : ℕ) :
    (c.acts lstTask).count (.delete j) = if c = .destroy then lstTask.count j else 0 := by
  have hclear : (clearActs lstTask).count (.delete j) = 0 := by
    simp [clearActs, releaseActs, List.count_eq_zero]
  cases c with
  | init cores => simp [Call.acts, List.count_eq_zero]
  | start | stop => simp [Call.acts, List.count_eq_zero]
  | clear => simpa [Call.acts] using hclear
  | destroy =>
    have hdelete : (lstTask.flatMap deleteActs).count (.delete j) = lstTask.count j := by
      clear hclear
      induction lstTask with
      | nil => rfl
      | cons i lstTask ih =>
        simp only [List.flatMap_cons, List.count_append, ih]
        simp [deleteActs, releaseActs, List.count_cons]
        omega
    simp [Call.acts, hclear, hdelete]

/-- Tasks are deleted once. -/
theorem Kept.deleted_step (h : Kept s) (hs : Sound s) (he : Effect s e s') :
    ∀ j, s'.todo.count (.delete j) + s'.log.count (.deleted j)
      = if s'.alive = false ∧ j < s'.next then 1 else 0 := by
  intro i
  have hdeleted := h.deleted i
  have halive := h.create_alive
  cases he with
  | @call c idle alive =>
    have hacts := count_delete_acts s.lstTask c i
    rw [hs.listed alive, List.count_range] at hacts
    simp only [idle, alive, List.count_nil, Nat.zero_add] at hdeleted
    simp only [State.call, hs.listed alive, hacts, alive, Bool.true_and]
    grind
  | created | refused | started | stopped | skipped | joined | deleted | forgotten | woken | moved
  | notified => grind

/-- In the destructor, all joins come before the first task is deleted. -/
theorem join_mem_of_destroy {lstTask : List ℕ} {pre post : List Act} {j : ℕ}
    (hj : j ∈ lstTask) (hacts : Call.acts lstTask .destroy = pre ++ .delete j :: post) :
    .join j ∈ pre := by
  have hclear : .join j ∈ clearActs lstTask :=
    List.mem_append_right _ (List.mem_flatMap.mpr ⟨j, hj, by simp [releaseActs]⟩)
  have hnot : .delete j ∉ clearActs lstTask := by
    simp [clearActs, releaseActs]
  rcases List.append_eq_append_iff.mp hacts with ⟨mid, rfl, -⟩ | ⟨mid, heq, hmid⟩
  · exact List.mem_append_left _ hclear
  · cases mid with
    | nil => simpa [heq] using hclear
    | cons a mid =>
      obtain ⟨rfl, -⟩ := List.cons.inj hmid
      exact absurd (heq ▸ List.mem_append_right _ List.mem_cons_self) hnot

/-- Every act that is done brings no deletion before its join. -/
theorem delete_late_of_tail {pre post todo : List Act} {a : Act} {j : ℕ} (h : Kept s)
    (hd : s.todo = a :: todo) (htodo : todo = pre ++ .delete j :: post) :
    (s.task j).tid = 0 ∨ a = .join j ∨ .join j ∈ pre := by
  have hlate := h.delete_late (a :: pre) j post (by rw [hd, htodo]; rfl)
  rcases hlate with htid | hmem
  · exact Or.inl htid
  · rcases List.mem_cons.mp hmem with heq | hmem
    · exact Or.inr (Or.inl heq.symm)
    · exact Or.inr (Or.inr hmem)

/-- Tasks keep being deleted after their threads are joined. -/
theorem Kept.delete_late_step (h : Kept s) (hs : Sound s) (he : Effect s e s') :
    ∀ pre j post, s'.todo = pre ++ .delete j :: post → (s'.task j).tid = 0 ∨ .join j ∈ pre := by
  intro pre i post htodo
  have hlate := h.delete_late pre i post
  cases he with
  | @call c idle alive =>
    have hmem : .delete i ∈ c.acts s.lstTask := by
      rw [show c.acts s.lstTask = _ from htodo]
      simp
    have hc : c = .destroy := by
      by_contra hne
      have hcount := count_delete_acts s.lstTask c i
      rw [if_neg hne] at hcount
      exact List.count_eq_zero.mp hcount hmem
    subst hc
    exact Or.inr (join_mem_of_destroy (mem_of_mem_acts hmem rfl) htodo)
  | created hd | refused hd =>
    have htail := delete_late_of_tail h hd htodo
    have hlt : i < s.next := hs.target_lt (.delete i) (by grind) i rfl
    grind
  | started hd | stopped hd | skipped _ hd | joined hd | deleted hd | forgotten hd =>
    have htail := delete_late_of_tail h hd htodo
    grind
  | woken | moved | notified => grind

/-- Tasks have been deleted after their threads were joined. -/
theorem Kept.deleted_joined_step (h : Kept s) (hs : Sound s) (he : Effect s e s') :
    ∀ j, .deleted j ∈ s'.log → [.deleted j, .joined j].Sublist s'.log := by
  intro i hi
  have hsub := h.deleted_joined i
  cases he with
  | call | stopped | skipped | forgotten | woken | moved => exact hsub hi
  | created =>
    have hi : .deleted i ∈ s.log := by simpa using hi
    exact ((hsub hi).cons _).cons _
  | refused | started | joined | notified =>
    have hi : .deleted i ∈ s.log := by simpa using hi
    exact (hsub hi).cons _
  | @deleted j todo hd =>
    rcases List.mem_cons.mp hi with heq | hi
    · obtain rfl := Record.deleted.inj heq
      have hlt : i < s.next := hs.target_lt _ (hd ▸ List.mem_cons_self) i rfl
      have htid : (s.task i).tid = 0 := by simpa using h.delete_late [] i todo hd
      have hcount := h.joined i
      rw [if_pos ⟨hlt, htid⟩] at hcount
      have hmem : .joined i ∈ s.log := List.count_pos_iff.mp (by omega)
      exact (List.singleton_sublist.mpr hmem).cons_cons _
    · exact (hsub hi).cons _

/-- **Step lemma.** Every step that refuses no thread keeps the invariant. -/
theorem Kept.step (h : Kept s) (hs : Sound s) (he : Effect s e s')
    (hcreated : ∀ ret tid, e = .create ret tid → ret = 0) : Kept s' where
  made := h.made_step he
  created := h.created_step he hcreated
  tid_eq := h.tid_eq_step he hcreated
  joined := h.joined_step hs he hcreated
  follows := h.follows_step he
  create_alive := h.create_alive_step he
  deleted := h.deleted_step hs he
  delete_late := h.delete_late_step hs he
  deleted_joined := h.deleted_joined_step hs he

/-- The constructed pool satisfies the invariant. -/
theorem kept_start : Kept .start where
  made _ := rfl
  created _ := rfl
  tid_eq _ := Or.inl rfl
  joined _ := rfl
  follows := List.Pairwise.nil
  create_alive _ h := absurd h List.not_mem_nil
  deleted _ := rfl
  delete_late pre j post h := by simp [State.start] at h
  deleted_joined _ h := absurd h List.not_mem_nil

/-! ## Whole runs -/

/-- **Run lemma.** The invariant holds wherever a run ends in which no thread was refused. -/
theorem kept_run {seclive : ℤ} {es : List Event} (h : (poolMachine seclive).Legal .start es)
    (hcreated : AllCreated es) : Kept ((poolMachine seclive).run .start es) := by
  refine h.history (fun es s => AllCreated es → Kept s)
    (fun _ => kept_start) (fun es e hes hguard ih hcreated => ?_) hcreated
  rw [allCreated_snoc] at hcreated
  exact (ih hcreated.1).step (sound_run hes) (step_effect hguard) hcreated.2

/-- The pool is alive as long as the destructor has not been called. -/
theorem alive_run {seclive : ℤ} {es : List Event} (h : (poolMachine seclive).Legal .start es) :
    ((poolMachine seclive).run .start es).alive = true ↔ .call .destroy ∉ es := by
  refine h.history (fun es s => s.alive = true ↔ .call .destroy ∉ es)
    (by simp [State.start]) fun es e hes hguard ih => ?_
  simp only [List.mem_append, List.mem_singleton, not_or, ← ih]
  have heffect := step_effect hguard
  generalize (poolMachine seclive).run .start es = s at heffect ⊢
  generalize (poolMachine seclive).step s e = s' at heffect ⊢
  cases heffect with
  | @call c =>
    have hdestroy : Event.call .destroy = .call c ↔ c = .destroy :=
      ⟨fun heq => (Event.call.inj heq).symm, fun heq => heq ▸ rfl⟩
    simp [State.call, hdestroy]
  | created | refused | started | stopped | skipped | joined | deleted | forgotten | woken | moved
  | notified => simp

/-- The first `n` tasks have been joined or are going to be. -/
def JoinsBelow (n : ℕ) (s : State) : Prop := ∀ j < n, (s.task j).tid = 0 ∨ .join j ∈ s.todo

/-- Each step brings the joins nearer. -/
theorem JoinsBelow.step {n : ℕ} (h : JoinsBelow n s) (hn : n ≤ s.next)
    (he : Effect s e s') : JoinsBelow n s' := by
  intro i hi
  have hjoins := h i hi
  cases he with
  | call idle => exact Or.inl (hjoins.resolve_right (by simp [idle]))
  | created | refused | started | stopped | skipped | joined | deleted | forgotten | woken | moved
  | notified => grind

/-- When a call that clears the pool has returned, all tasks it found have `m_tid` 0. -/
theorem tid_eq_zero_of_cleared {seclive : ℤ} {fs gs : List Event} {c : Call}
    (h : (poolMachine seclive).Legal .start (fs ++ .call c :: gs)) (hc : c = .clear ∨ c = .destroy)
    (hreturned : ((poolMachine seclive).run .start (fs ++ .call c :: gs)).todo = []) :
    ∀ j < ((poolMachine seclive).run .start fs).next,
      j < ((poolMachine seclive).run .start (fs ++ .call c :: gs)).next ∧
      (((poolMachine seclive).run .start (fs ++ .call c :: gs)).task j).tid = 0 := by
  obtain ⟨hfs, hguard, hgs⟩ := (Machine.legal_append _ _ _ _).mp h
  simp only [Machine.run_append, Machine.run_cons] at hreturned ⊢
  generalize hs : (poolMachine seclive).run .start fs = s at *
  have hlisted : s.lstTask = List.range s.next := by
    rw [← hs] at hguard ⊢
    exact (sound_run hfs).listed hguard.2
  have hstart : JoinsBelow s.next (s.call c) := by
    intro j hj
    have hmem : .join j ∈ clearActs s.lstTask := by
      refine List.mem_append_right _ (List.mem_flatMap.mpr ⟨j, ?_, by simp [releaseActs]⟩)
      rwa [hlisted, List.mem_range]
    rcases hc with rfl | rfl
    · exact Or.inr hmem
    · exact Or.inr (List.mem_append_left _ hmem)
  have hend := hgs.invariant (fun s' => JoinsBelow s.next s' ∧ s.next ≤ s'.next)
    (fun s' e hs' hguard' => ⟨hs'.1.step hs'.2 (step_effect hguard'),
      Nat.le_trans hs'.2 (step_effect hguard').next_le⟩) ⟨hstart, Nat.le_refl _⟩
  intro j hj
  refine ⟨Nat.lt_of_lt_of_le hj hend.2, (hend.1 j hj).resolve_right fun hmem => ?_⟩
  rw [show _ = [] from hreturned] at hmem
  exact absurd hmem List.not_mem_nil

/-- **Every thread is joined exactly once.** In a run in which no thread is refused, nothing is done
to a thread that has been joined. Once a call of `clear` or the destructor has returned, each thread
created before that call has been joined exactly once. Once the destructor has returned, each thread
ever created has been joined exactly once, and each task ever made deleted exactly once, after its
thread was joined. -/
theorem joined_once {seclive : ℤ} {es : List Event} (h : (poolMachine seclive).Legal .start es)
    (hcreated : AllCreated es) :
    ((poolMachine seclive).run .start es).log.Pairwise Record.Follows ∧
    (∀ fs c gs, es = fs ++ .call c :: gs → c = .clear ∨ c = .destroy →
      ((poolMachine seclive).run .start es).todo = [] →
      ∀ j, .created j ∈ ((poolMachine seclive).run .start fs).log →
        ((poolMachine seclive).run .start es).log.count (.joined j) = 1) ∧
    (.call .destroy ∈ es → ((poolMachine seclive).run .start es).todo = [] →
      ∀ j, .made j ∈ ((poolMachine seclive).run .start es).log →
        ((poolMachine seclive).run .start es).log.count (.created j) = 1 ∧
        ((poolMachine seclive).run .start es).log.count (.joined j) = 1 ∧
        ((poolMachine seclive).run .start es).log.count (.deleted j) = 1 ∧
        [.deleted j, .joined j].Sublist ((poolMachine seclive).run .start es).log) := by
  have hkept := kept_run h hcreated
  refine ⟨hkept.follows, ?_, fun hdestroy hreturned j hj => ?_⟩
  · rintro fs c gs rfl hc hreturned j hj
    have hfs := kept_run h.of_append fun ret tid hmem =>
      hcreated ret tid (List.mem_append_left _ hmem)
    obtain ⟨hlt, htid⟩ := tid_eq_zero_of_cleared h hc hreturned j (hfs.lt_next_of_created hj)
    rw [hkept.joined j, if_pos ⟨hlt, htid⟩]
  · have hlt := hkept.lt_next_of_made hj
    -- the destructor was called and has returned, so every task made was deleted
    have hdead : ((poolMachine seclive).run .start es).alive = false :=
      Bool.eq_false_iff.mpr fun halive => (alive_run h).mp halive hdestroy
    have hdeleted := hkept.deleted j
    rw [hreturned, List.count_nil, Nat.zero_add, if_pos ⟨hdead, hlt⟩] at hdeleted
    have hmem := List.count_pos_iff.mp (hdeleted ▸ Nat.one_pos)
    have htid := hkept.tid_eq_zero hmem (Or.inr rfl)
    refine ⟨?_, ?_, hdeleted, hkept.deleted_joined j hmem⟩
    · rw [hkept.created j, if_pos hlt]
    · rw [hkept.joined j, if_pos ⟨hlt, htid⟩]

/-- Two rounds of the pool: a task cleared twice and one that was never cleared are joined once. -/
theorem joined_once_two :
    let es : List Event := [.call (.init [0]), .create 0 0, .call .start, .control,
      .svc 0, .svc 0, .svc 0, .svc 0, .call .clear, .control, .control, .control,
      .call (.init [1]), .create 0 0, .call .start, .control, .control,
      .svc 1, .svc 1, .svc 1, .svc 1, .call .destroy,
      .control, .control, .control, .control, .control, .control,
      .control, .control, .control, .control, .control, .control, .control]
    let s := (poolMachine 0).run .start es
    s.log.Pairwise Record.Follows ∧ s.log.count (.joined 0) = 1 ∧ s.log.count (.deleted 1) = 1 := by
  intro es s
  have hlegal : (poolMachine 0).Legal .start es := by decide
  have hcreated : AllCreated es := by simp [AllCreated, es]
  have hall := joined_once hlegal hcreated
  have hdestroyed := hall.2.2 (by decide) (by decide)
  exact ⟨hall.1, (hdestroyed 0 (by decide)).2.1, (hdestroyed 1 (by decide)).2.2.1⟩

end FfTest.TaskPool
