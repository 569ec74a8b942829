import FfTest.Foundations.Progress
import FfTest.TaskPool.MainProgram
import Mathlib.Algebra.BigOperators.Intervals
import Mathlib.Algebra.Order.BigOperators.Group.Finset

/-! # The program comes to its end

A thread of the pool goes round in its loop until it is told to stop, and `main` may go round in
its loop until the pool has stopped; all other steps bring the program nearer to its end. Where no
thread is refused, only so many such steps are taken in any run, and one of them is possible until
the program has finished (`program_returns`); so a run goes on for ever only if one of the threads
is never given a turn again (`fair_run_returns`). In one-loop mode a single refused thread makes
`main` poll the pool for ever (`refused_polls_forever`). -/

namespace FfTest.TaskPool

/-! ## The rank -/

/-- The event is a turn of a loop that only waits. -/
def Program.Idle (cfg : Config) (p : Program) : MainEvent → Prop
  | .main => p.point = .pause ∨ p.point = .poll ∧ p.pool.isStop cfg.vecCore = false
  | .pool (.svc j) => cfg.seclive ≠ 0 ∧ (p.pool.task j).bExit = false ∧
    ((p.pool.task j).thread = some .testing ∨ (p.pool.task j).thread = some .working)
  | .pool _ => False

instance (cfg : Config) (p : Program) : ∀ e, Decidable (p.Idle cfg e)
  | .main => inferInstanceAs (Decidable (_ ∨ _ ∧ _))
  | .pool (.svc _) => inferInstanceAs (Decidable (_ ∧ _ ∧ (_ ∨ _)))
  | .pool (.call _) => inferInstanceAs (Decidable False)
  | .pool (.create _ _) => inferInstanceAs (Decidable False)
  | .pool .control => inferInstanceAs (Decidable False)

/-- The thread an event is a step of: `none` for `main`. -/
def MainEvent.owner : MainEvent → Option ℕ
  | .pool (.svc j) => some j
  | _ => none

/-- How many steps a thread may be away from its end, without turns of a loop that only waits. -/
def Phase.rank (seclive : ℤ) (bExit : Bool) : Phase → ℕ
  | .waiting => 5
  | .testing => if seclive = 0 then 3 else if bExit then 2 else 4
  | .working => if seclive = 0 then 2 else if bExit then 3 else 4
  | .notifying => 1
  | .done => 0

/-- The same, for the thread of a task. -/
def Task.rank (seclive : ℤ) (t : Task) : ℕ := t.thread.elim 0 (Phase.rank seclive t.bExit)

/-- The steps that an act brings about, with those of the thread it makes. -/
def Act.weight : Act → ℕ
  | .create _ => 6
  | .start _ | .stop _ | .join _ | .delete _ | .forget => 1

/-- The steps of `main` that are left, with the acts of its calls on `cores` tasks. -/
def Point.rank (cores seclive : ℕ) : Point → ℕ
  | .init => 16 * cores + seclive + 7
  | .start => 10 * cores + seclive + 6
  | .waitJobDone => 9 * cores + seclive + 5
  | .pause | .poll => 9 * cores + 4
  | .countdown seconds => 9 * cores + seconds + 4
  | .clear => 9 * cores + 3
  | .leave => 6 * cores + 2
  | .left => 0

/-- What the threads have still to do. -/
def State.threadRank (seclive : ℤ) (s : State) : ℕ :=
  ∑ j ∈ Finset.range s.next, (s.task j).rank seclive

/-- What the present call has still to do. -/
def State.actRank (s : State) : ℕ := (s.todo.map Act.weight).sum

/-- How many steps the program may be away from its end. -/
def Program.rank (cfg : Config) (p : Program) : ℕ :=
  p.pool.actRank + p.pool.threadRank cfg.seclive
    + p.point.rank cfg.vecCore.length cfg.seclive.toNat

/-! ## The threads -/

/-- Tasks that are nearer to their end make a smaller rank. -/
theorem threadRank_le {seclive : ℤ} {s s' : State} (hnext : s'.next = s.next)
    (htask : ∀ j, (s'.task j).rank seclive ≤ (s.task j).rank seclive) :
    s'.threadRank seclive ≤ s.threadRank seclive := by
  unfold State.threadRank
  rw [hnext]
  exact Finset.sum_le_sum fun j _ => htask j

/-- So does one task that is nearer to its end. -/
theorem threadRank_update_le {seclive : ℤ} {s s' : State} {j : ℕ} {t : Task}
    (hnext : s'.next = s.next) (htask : s'.task = (s.update j t).task)
    (ht : t.rank seclive ≤ (s.task j).rank seclive) :
    s'.threadRank seclive ≤ s.threadRank seclive := by
  refine threadRank_le hnext fun i => ?_
  rw [htask]
  by_cases hi : i = j
  · rw [hi, State.update_task_self]
    exact ht
  · rw [State.update_task_of_ne _ _ _ hi]

/-- The rank of a task is that of its thread. -/
theorem rank_of_thread {t : Task} {phase : Phase} (seclive : ℤ) (h : t.thread = some phase) :
    t.rank seclive = phase.rank seclive t.bExit := by
  rw [Task.rank, h, Option.elim_some]

/-- A task that is told to stop is not farther from its end. -/
theorem rank_stop (seclive : ℤ) (t : Task) : t.stop.rank seclive ≤ t.rank seclive := by
  cases hthread : t.thread with
  | none =>
    rw [Task.rank, Task.stop_thread, hthread]
    exact Nat.zero_le _
  | some phase =>
    rw [rank_of_thread seclive hthread, rank_of_thread (t := t.stop) seclive hthread]
    show phase.rank seclive true ≤ phase.rank seclive t.bExit
    cases phase with
    | waiting | notifying | done => exact Nat.le_refl _
    | testing | working => cases t.bExit <;> simp only [Phase.rank] <;> split <;> simp

/-- A step of a thread brings it nearer to its end, or is a turn of its loop. -/
theorem rank_svc (cfg : Config) {p : Program} {j : ℕ} (h : p.pool.CanRun j) :
    ((p.pool.svc cfg.seclive j).task j).rank cfg.seclive ≤ (p.pool.task j).rank cfg.seclive ∧
    (¬ p.Idle cfg (.pool (.svc j)) →
      ((p.pool.svc cfg.seclive j).task j).rank cfg.seclive
        < (p.pool.task j).rank cfg.seclive) := by
  unfold State.CanRun at h
  cases hthread : (p.pool.task j).thread with
  | none =>
    rw [hthread] at h
    exact h.elim
  | some phase =>
    rw [hthread] at h
    rw [rank_of_thread _ hthread]
    generalize hexit : (p.pool.task j).bExit = bExit
    cases phase with
    | waiting =>
      have hnew : ((p.pool.svc cfg.seclive j).task j).rank cfg.seclive
          = Phase.rank cfg.seclive bExit .testing := by
        simp [State.svc, hthread, Task.rank, hexit]
      -- `sem_wait` has returned, and the thread comes to test its flag
      have hlt : Phase.rank cfg.seclive bExit .testing < 5 := by
        simp only [Phase.rank]
        split_ifs <;> simp
      rw [hnew]
      exact ⟨Nat.le_of_lt hlt, fun _ => hlt⟩
    | testing =>
      have hnew : ((p.pool.svc cfg.seclive j).task j).rank cfg.seclive
          = Phase.rank cfg.seclive bExit (if bExit then .notifying else .working) := by
        simp [State.svc, hthread, Task.rank, hexit, Task.goTo]
      rw [hnew]
      cases bExit with
      | true =>
        -- it has been told to stop, and leaves its loop
        have hlt : Phase.rank cfg.seclive true .notifying
            < Phase.rank cfg.seclive true .testing := by
          simp only [Phase.rank]
          split <;> simp
        exact ⟨Nat.le_of_lt hlt, fun _ => hlt⟩
      | false =>
        -- in one-loop mode there is one more round; otherwise this is a turn of the loop
        by_cases hzero : cfg.seclive = 0
        · have hlt : Phase.rank cfg.seclive false .working
              < Phase.rank cfg.seclive false .testing := by
            simp [Phase.rank, hzero]
          exact ⟨Nat.le_of_lt hlt, fun _ => hlt⟩
        · refine ⟨?_, fun hbusy => absurd ⟨hzero, hexit, Or.inl hthread⟩ hbusy⟩
          simp [Phase.rank, hzero]
    | working =>
      have hnew : ((p.pool.svc cfg.seclive j).task j).rank cfg.seclive
          = Phase.rank cfg.seclive bExit (if cfg.seclive = 0 then .notifying else .testing) := by
        simp [State.svc, hthread, Task.rank, hexit, Task.goTo]
      rw [hnew]
      -- in one-loop mode this was the round; otherwise it goes back to test its flag
      by_cases hzero : cfg.seclive = 0
      · simp [Phase.rank, hzero]
      · rw [if_neg hzero]
        cases bExit with
        | true => simp [Phase.rank, hzero]
        | false =>
          refine ⟨?_, fun hbusy => absurd ⟨hzero, hexit, Or.inr hthread⟩ hbusy⟩
          simp [Phase.rank, hzero]
    | notifying =>
      have hnew : ((p.pool.svc cfg.seclive j).task j).rank cfg.seclive = 0 := by
        simp [State.svc, hthread, Task.rank, Phase.rank]
      rw [hnew]
      exact ⟨Nat.zero_le _, fun _ => Nat.one_pos⟩
    | done => exact h.elim

/-- A step of a thread leaves the others as they are. -/
theorem svc_others (seclive : ℤ) (s : State) (j : ℕ) :
    (s.svc seclive j).next = s.next ∧ (s.svc seclive j).todo = s.todo ∧
      ∀ i, i ≠ j → (s.svc seclive j).task i = s.task i := by
  simp only [State.svc]
  cases (s.task j).thread with
  | none => exact ⟨rfl, rfl, fun _ _ => rfl⟩
  | some phase =>
    cases phase with
    | waiting | testing | working | notifying =>
      exact ⟨rfl, rfl, fun i hi => State.update_task_of_ne s j _ hi⟩
    | done => exact ⟨rfl, rfl, fun _ _ => rfl⟩

/-- A step of a thread lowers the rank of the pool, or is a turn of its loop. -/
theorem threadRank_svc (cfg : Config) {p : Program} {j : ℕ} (hj : j < p.pool.next)
    (h : p.pool.CanRun j) :
    (p.pool.svc cfg.seclive j).threadRank cfg.seclive ≤ p.pool.threadRank cfg.seclive ∧
    (¬ p.Idle cfg (.pool (.svc j)) →
      (p.pool.svc cfg.seclive j).threadRank cfg.seclive < p.pool.threadRank cfg.seclive) := by
  obtain ⟨hnext, -, hothers⟩ := svc_others cfg.seclive p.pool j
  obtain ⟨hle, hlt⟩ := rank_svc cfg h
  have htask : ∀ i, ((p.pool.svc cfg.seclive j).task i).rank cfg.seclive
      ≤ (p.pool.task i).rank cfg.seclive := by
    intro i
    by_cases hi : i = j
    · rw [hi]
      exact hle
    · rw [hothers i hi]
  refine ⟨threadRank_le hnext htask, fun hbusy => ?_⟩
  unfold State.threadRank
  rw [hnext]
  exact Finset.sum_lt_sum (fun i _ => htask i) ⟨j, Finset.mem_range.mpr hj, hlt hbusy⟩

/-! ## The acts -/

/-- Each act weighs something. -/
theorem weight_pos (a : Act) : 0 < a.weight := by
  cases a <;> simp [Act.weight]

/-- What a call weighs. -/
theorem weight_acts (lstTask : List ℕ) (c : Call) :
    ((c.acts lstTask).map Act.weight).sum = match c with
      | .init cores => 6 * cores.length
      | .start | .stop => lstTask.length
      | .clear => 3 * lstTask.length
      | .destroy => 6 * lstTask.length + 1 := by
  have hclear : ((clearActs lstTask).map Act.weight).sum = 3 * lstTask.length := by
    unfold clearActs
    induction lstTask with
    | nil => rfl
    | cons j lstTask ih =>
      simp only [List.map_append, List.sum_append] at ih
      simp only [List.map_cons, List.flatMap_cons, List.map_append, List.sum_append, List.sum_cons,
        releaseActs, Act.weight, List.length_cons, List.map_nil, List.sum_nil] at ih ⊢
      omega
  cases c with
  | init cores =>
    simp only [Call.acts, List.map_map]
    induction cores with
    | nil => rfl
    | cons core cores ih =>
      rw [List.map_cons, List.sum_cons, ih, List.length_cons]
      simp only [Function.comp_apply, Act.weight]
      omega
  | start | stop =>
    simp only [Call.acts, List.map_map]
    clear hclear
    induction lstTask with
    | nil => rfl
    | cons j lstTask ih =>
      rw [List.map_cons, List.sum_cons, ih, List.length_cons]
      simp only [Function.comp_apply, Act.weight]
      omega
  | clear => exact hclear
  | destroy =>
    have hdelete : ((lstTask.flatMap deleteActs).map Act.weight).sum = 3 * lstTask.length := by
      clear hclear
      induction lstTask with
      | nil => rfl
      | cons j lstTask ih =>
        rw [List.flatMap_cons, List.map_append, List.sum_append, ih, List.length_cons]
        simp only [deleteActs, releaseActs, List.cons_append, List.nil_append, List.map_cons,
          List.map_nil, List.sum_cons, List.sum_nil, Act.weight]
        omega
    simp only [Call.acts, List.map_append, List.sum_append, hclear, hdelete, List.map_cons,
      List.map_nil, List.sum_cons, List.sum_nil, Act.weight]
    omega

/-- An act of `main` lowers the rank of the pool, if it refuses no thread. -/
theorem Effect.rank_lt (seclive : ℤ) {s s' : State} {e : Event} (he : Effect s e s')
    (hcall : ∀ c, e ≠ .call c) (hsvc : ∀ j, e ≠ .svc j)
    (hcreated : ∀ ret tid, e = .create ret tid → ret = 0) :
    s'.actRank + s'.threadRank seclive < s.actRank + s.threadRank seclive := by
  have hact : ∀ (a : Act) (todo : List Act), s.todo = a :: todo →
      s.actRank = a.weight + (todo.map Act.weight).sum := by
    intro a todo hd
    rw [State.actRank, hd, List.map_cons, List.sum_cons]
  -- an act is done with, and no thread is further from its end
  have hlowers : ∀ {s' : State} {a : Act} {todo : List Act}, s.todo = a :: todo → s'.todo = todo →
      s'.threadRank seclive ≤ s.threadRank seclive →
      s'.actRank + s'.threadRank seclive < s.actRank + s.threadRank seclive := by
    intro s' a todo hd htodo hle
    refine Nat.add_lt_add_of_lt_of_le ?_ hle
    rw [hact a todo hd, State.actRank, htodo]
    exact Nat.lt_add_of_pos_left (weight_pos a)
  cases he with
  | @call c => exact absurd rfl (hcall c)
  | @created core todo tid hd =>
    -- the new thread brings 5 with it, and the act of creating it weighs 6
    have hthreads : ∀ t : Task, State.threadRank seclive
        { s.update s.next t with
          next := s.next + 1
          lstTask := s.lstTask ++ [s.next]
          todo
          log := .created s.next :: .made s.next :: s.log }
        = s.threadRank seclive + t.rank seclive := by
      intro t
      unfold State.threadRank
      rw [Finset.sum_range_succ, State.update_task_self]
      congr 1
      refine Finset.sum_congr rfl fun j hj => ?_
      rw [State.update_task_of_ne _ _ _ (Nat.ne_of_lt (Finset.mem_range.mp hj))]
    rw [hthreads, hact _ _ hd]
    show (todo.map Act.weight).sum + (s.threadRank seclive + 5) < _
    simp only [Act.weight]
    omega
  | refused _ hret => exact absurd (hcreated _ _ rfl) (by omega)
  | @started j todo hd htid =>
    exact hlowers hd rfl (threadRank_update_le (j := j) rfl rfl (Nat.le_refl _))
  | @stopped j todo hd =>
    exact hlowers hd rfl (threadRank_update_le (j := j) rfl rfl (rank_stop seclive _))
  | @joined j todo hd htid hreturns =>
    exact hlowers hd rfl (threadRank_update_le (j := j) rfl rfl (Nat.le_refl _))
  | skipped _ hd | deleted hd | forgotten hd => exact hlowers hd rfl (Nat.le_refl _)
  | @woken j | @moved j | @notified j => exact absurd rfl (hsvc j)

/-! ## The program -/

/-- A thread that can go on belongs to a task that has been made. -/
theorem lt_next_of_canRun {s : State} (hs : Sound s) {j : ℕ} (h : s.CanRun j) : j < s.next := by
  by_contra hge
  unfold State.CanRun at h
  rw [hs.fresh j (Nat.not_lt.mp hge)] at h
  exact h

/-- A step of `main` lowers the rank, or is a turn of a loop that only waits. -/
theorem MainEffect.rank {cfg : Config} {p p' : Program} (h : Inv cfg p) (idle : p.pool.todo = [])
    (he : MainEffect cfg p p') :
    p'.rank cfg ≤ p.rank cfg ∧ (¬ p.Idle cfg .main → p'.rank cfg < p.rank cfg) := by
  have hacts : p.pool.actRank = 0 := by rw [State.actRank, idle, List.map_nil, List.sum_nil]
  have hlength : p.point ≠ .left → p.pool.lstTask.length ≤ cfg.vecCore.length := by
    intro hp
    rw [h.sound.listed (h.alive hp), List.length_range]
    exact Nat.le_trans (Nat.le_add_right _ _) h.next_le
  have hcall : ∀ c, (p.pool.call c).actRank = ((c.acts p.pool.lstTask).map Act.weight).sum :=
    fun _ => rfl
  have hthreads : ∀ c,
      (p.pool.call c).threadRank cfg.seclive = p.pool.threadRank cfg.seclive := fun _ => rfl
  have hlt : ¬ p.Idle cfg .main → p'.rank cfg < p.rank cfg := by
    intro hbusy
    unfold Program.rank
    cases he with
    -- the acts of a call weigh less than the point that `main` leaves
    | init hp | start hp | clear hp | leave hp =>
      have hle := hlength (by simp [hp])
      rw [hcall, hthreads, weight_acts, hacts, hp]
      simp only [Point.rank]
      omega
    | paused hp => exact absurd (Or.inl hp) hbusy
    | polled hp hstop => exact absurd (Or.inr ⟨hp, hstop⟩) hbusy
    | forEver hp | untilStopped hp | forSeconds hp | stopped hp | counted hp | elapsed hp =>
      rw [hacts, hp]
      simp only [Point.rank]
      omega
  refine ⟨?_, hlt⟩
  by_cases hidle : p.Idle cfg .main
  · cases he with
    | paused | polled => exact Nat.le_refl _
    | init hp | start hp | forEver hp | untilStopped hp | forSeconds hp | counted hp | elapsed hp
    | clear hp | leave hp => simp [Program.Idle, hp] at hidle
    | stopped hp hstop => simp [Program.Idle, hp, hstop] at hidle
  · exact Nat.le_of_lt (hlt hidle)

/-- **Every step lowers the rank, or is a turn of a loop that only waits.** -/
theorem rank_step {cfg : Config} {p : Program} {e : MainEvent} (h : Inv cfg p)
    (hguard : (createdMachine cfg).guard p e) :
    ((createdMachine cfg).step p e).rank cfg ≤ p.rank cfg ∧
      (¬ p.Idle cfg e → ((createdMachine cfg).step p e).rank cfg < p.rank cfg) := by
  obtain ⟨hguard, hcreated⟩ := hguard
  rcases program_effect hguard with ⟨rfl, idle, he⟩ | ⟨e', rfl, hcall, he, -⟩
  · exact he.rank h idle
  · cases e' with
    | call c => exact absurd rfl (hcall c)
    | svc j =>
      have hcan : p.pool.CanRun j := hguard
      obtain ⟨hle, hlt⟩ := threadRank_svc cfg (lt_next_of_canRun h.sound hcan) hcan
      have hacts : (p.pool.svc cfg.seclive j).actRank = p.pool.actRank := by
        rw [State.actRank, (svc_others cfg.seclive p.pool j).2.1, State.actRank]
      show State.actRank (p.pool.svc cfg.seclive j) + State.threadRank cfg.seclive _ + _ ≤ _ ∧
        (_ → State.actRank (p.pool.svc cfg.seclive j) + State.threadRank cfg.seclive _ + _ < _)
      rw [hacts]
      exact ⟨Nat.add_le_add_right (Nat.add_le_add_left hle _) _,
        fun hbusy => Nat.add_lt_add_right (Nat.add_lt_add_left (hlt hbusy) _) _⟩
    | create ret tid =>
      have hlt := he.rank_lt cfg.seclive hcall nofun (by
        rintro ret tid ⟨⟩
        exact hcreated)
      have hlt' := Nat.add_lt_add_right hlt
        (p.point.rank cfg.vecCore.length cfg.seclive.toNat)
      exact ⟨Nat.le_of_lt hlt', fun _ => hlt'⟩
    | control =>
      have hlt := he.rank_lt cfg.seclive hcall nofun nofun
      have hlt' := Nat.add_lt_add_right hlt
        (p.point.rank cfg.vecCore.length cfg.seclive.toNat)
      exact ⟨Nat.le_of_lt hlt', fun _ => hlt'⟩

/-- The rank of the program where it begins. -/
theorem rank_begin (cfg : Config) (collected : ℤ) :
    (Program.begin collected).rank cfg ≤ 16 * cfg.vecCore.length + cfg.seclive.toNat + 7 := by
  unfold Program.rank Program.begin
  show 0 + 0 + Point.rank _ _ (if collected < 0 then .left else .init) ≤ _
  split
  · exact Nat.zero_le _
  · simp [Point.rank]

/-! ## Something can be done until the end -/

/-- A thread that has not ended can do what is not idle, where it need not wait, and either loops
once only or has been told to stop. -/
theorem busy_thread {cfg : Config} {p : Program} {j : ℕ} {phase : Phase}
    (hthread : (p.pool.task j).thread = some phase) (hdone : phase ≠ .done)
    (hsem : phase = .waiting → 0 < (p.pool.task j).sem)
    (hexit : cfg.seclive = 0 ∨ (p.pool.task j).bExit = true) :
    (createdMachine cfg).guard p (.pool (.svc j)) ∧ ¬ p.Idle cfg (.pool (.svc j)) := by
  refine ⟨⟨?_, trivial⟩, ?_⟩
  · show p.pool.CanRun j
    unfold State.CanRun
    rw [hthread]
    cases phase with
    | waiting => exact hsem rfl
    | testing | working | notifying => trivial
    | done => exact hdone rfl
  · rintro ⟨hseclive, hfalse, -⟩
    rcases hexit with hzero | htrue
    · exact hseclive hzero
    · rw [hfalse] at htrue
      cases htrue

/-- While the pool has not stopped, though all tasks have been made, some thread has not ended. -/
theorem exists_not_done {cores : List ℤ} {s : State} (hs : Sound s)
    (hnext : s.next = cores.length) (hthreads : ∀ j < s.next, (s.task j).thread ≠ none)
    (hstop : s.isStop cores = false) :
    ∃ j < s.next, ∃ phase, (s.task j).thread = some phase ∧ phase ≠ .done := by
  by_contra hall
  have hdone : ∀ j < s.next, (s.task j).thread = some .done := by
    intro j hj
    obtain ⟨phase, hphase⟩ := Option.ne_none_iff_exists'.mp (hthreads j hj)
    by_cases hp : phase = .done
    · rw [hphase, hp]
    · exact absurd ⟨j, hj, phase, hphase, hp⟩ hall
  rw [State.isStop, hs.sem_eq, s.doneCount_eq_next_iff.mpr hdone, hnext, beq_self_eq_true] at hstop
  cases hstop

/-- **Something can be done.** With an `m_seclive` that is not negative, until the program has
finished, some event is admitted that is not a turn of a loop that only waits. -/
theorem Inv.busy {cfg : Config} {p : Program} (h : Inv cfg p) (hseclive : 0 ≤ cfg.seclive)
    (hp : ¬ p.Finished) : ∃ e, (createdMachine cfg).guard p e ∧ ¬ p.Idle cfg e := by
  cases htodo : p.pool.todo with
  | nil =>
    have hleft : p.point ≠ .left := fun hleft => hp ⟨hleft, htodo⟩
    by_cases hidle : p.Idle cfg .main
    · -- `main` polls the pool, and has to wait for a thread
      rcases hidle with hpause | ⟨hpoll, hstop⟩
      · exact absurd (h.seclive_pause hpause) (Int.not_lt.mpr hseclive)
      · have hnext := h.next_eq (by simp [hpoll]) hleft
        rw [htodo, List.countP_nil, Nat.add_zero] at hnext
        obtain ⟨j, hj, phase, hphase, hdone⟩ := exists_not_done h.sound hnext h.threads hstop
        refine ⟨_, busy_thread hphase hdone ?_ (Or.inl (h.seclive_poll hpoll))⟩
        rintro rfl
        have hstarted := h.started j hphase
        rw [htodo, hpoll] at hstarted
        simpa using hstarted
    · exact ⟨.main, ⟨⟨htodo, hleft⟩, trivial⟩, hidle⟩
  | cons a todo =>
    have hcontrol : p.pool.CanControl → ∃ e, (createdMachine cfg).guard p e ∧ ¬ p.Idle cfg e :=
      fun hcan => ⟨.pool .control, ⟨hcan, trivial⟩, not_false⟩
    cases a with
    | create core =>
      refine ⟨.pool (.create 0 0), ⟨⟨?_, Int.le_refl _⟩, rfl⟩, not_false⟩
      show p.pool.CanCreate
      rw [State.CanCreate, htodo]
      trivial
    | start | stop | delete | forget =>
      refine hcontrol ?_
      rw [State.CanControl, htodo]
      trivial
    | join j =>
      by_cases hreturns : p.pool.JoinReturns j
      · refine hcontrol ?_
        rw [State.CanControl, htodo]
        exact hreturns
      · -- `main` waits for the thread of task `j`, which has been started and told to stop
        unfold State.JoinReturns at hreturns
        push Not at hreturns
        obtain ⟨htid, hnone, hdone⟩ := hreturns
        rw [(h.kept.tid_eq j).resolve_left htid, Nat.add_sub_cancel] at hnone hdone
        obtain ⟨phase, hphase⟩ := Option.ne_none_iff_exists'.mp hnone
        -- it has been told to stop, in this call of `clear` or before
        have hexit : (p.pool.task j).bExit = true := by
          simpa using h.told [] j todo htodo
        have hallows := h.acts (.join j) (htodo ▸ List.mem_cons_self)
        refine ⟨_, busy_thread hphase (fun hp => hdone (hp ▸ hphase)) ?_ (Or.inr hexit)⟩
        rintro rfl
        rcases h.started j hphase with hsem | hstart | hstart
        · exact hsem
        · have hallows' := h.acts _ hstart
          cases hpoint : p.point <;> simp [hpoint, Point.Allows] at hallows hallows'
        · rw [hstart] at hallows
          exact hallows.elim

/-- **Nothing happens after the end.** -/
theorem Inv.ended {cfg : Config} {p : Program} (h : Inv cfg p) (hp : p.Finished) :
    ∀ j < p.pool.next, (p.pool.task j).thread = some .done ∧ .deleted j ∈ p.pool.log := by
  intro j hj
  have halive := (h.gone hp.1).resolve_right (by omega)
  have hdeleted := h.kept.deleted j
  rw [hp.2, List.count_nil, Nat.zero_add, if_pos ⟨halive, hj⟩] at hdeleted
  have hmem : .deleted j ∈ p.pool.log := List.count_pos_iff.mp (hdeleted ▸ Nat.one_pos)
  refine ⟨?_, hmem⟩
  -- it was joined before it was deleted, so that its thread has ended
  have htid := h.kept.tid_eq_zero hmem (Or.inr rfl)
  obtain ⟨phase, hphase⟩ := Option.ne_none_iff_exists'.mp (h.threads j hj)
  by_cases hdone : phase = .done
  · rw [hphase, hdone]
  · have hne := h.sound.tid_eq j phase hphase hdone
    omega

/-- The program has no step after the end. -/
theorem not_guard_of_finished {cfg : Config} {p : Program} {e : MainEvent} (h : Inv cfg p)
    (hp : p.Finished) : ¬ (createdMachine cfg).guard p e := by
  rintro ⟨hguard, -⟩
  obtain ⟨hleft, htodo⟩ := hp
  cases e with
  | main => exact hguard.2 hleft
  | pool e =>
    cases e with
    | call c => exact hguard
    | create ret tid =>
      have hcan : p.pool.CanCreate := hguard.1
      rw [State.CanCreate, htodo] at hcan
      exact hcan
    | control =>
      have hcan : p.pool.CanControl := hguard
      rw [State.CanControl, htodo] at hcan
      exact hcan
    | svc j =>
      have hcan : p.pool.CanRun j := hguard
      have hdone := (h.ended ⟨hleft, htodo⟩ j (lt_next_of_canRun h.sound hcan)).1
      rw [State.CanRun, hdone] at hcan
      exact hcan

/-! ## Waiting changes nothing for the others -/

/-- `main` stays where it is while it waits. -/
theorem main_of_idle {cfg : Config} {p : Program} (h : p.Idle cfg .main) : p.main cfg = p := by
  unfold Program.main
  rcases h with hpause | ⟨hpoll, hstop⟩
  · rw [hpause]
  · simp only [hpoll, hstop, Bool.false_eq_true, if_false]

/-- A turn of the loop of a thread takes that thread from one place in the loop to the other. -/
theorem svc_of_idle {cfg : Config} {p : Program} {j : ℕ} (h : p.Idle cfg (.pool (.svc j))) :
    ∃ phase, p.pool.svc cfg.seclive j = p.pool.update j ((p.pool.task j).goTo phase) := by
  obtain ⟨hseclive, hexit, hthread | hthread⟩ := h
  · refine ⟨.working, ?_⟩
    simp only [State.svc, hthread, hexit, Bool.false_eq_true, if_false]
  · refine ⟨.testing, ?_⟩
    simp only [State.svc, hthread, hseclive, if_false]

/-- A thread that goes round in its loop keeps no other from being joined. -/
theorem canControl_update {s : State} {j : ℕ} {phase : Phase} (h : s.CanControl)
    (hloop : (s.task j).thread = some .testing ∨ (s.task j).thread = some .working) :
    (s.update j ((s.task j).goTo phase)).CanControl := by
  unfold State.CanControl at h ⊢
  rw [State.update_todo]
  cases htodo : s.todo with
  | nil =>
    rw [htodo] at h
    exact h
  | cons a todo =>
    rw [htodo] at h
    cases a with
    | create core => exact h
    | start | stop | delete | forget => trivial
    | join i =>
      have htid : ((s.update j ((s.task j).goTo phase)).task i).tid = (s.task i).tid := by
        by_cases hi : i = j
        · rw [hi, State.update_task_self, Task.goTo_tid]
        · rw [State.update_task_of_ne _ _ _ hi]
      show State.JoinReturns _ i
      unfold State.JoinReturns
      rw [htid]
      refine Or.imp_right (fun hended => ?_) h
      have hne : (s.task i).tid - 1 ≠ j := by
        intro heq
        rw [heq] at hended
        rcases hloop with hloop | hloop <;> simp [hloop] at hended
      rwa [State.update_task_of_ne _ _ _ hne]

/-- An event that only waits leaves the others as they are. -/
theorem busy_of_idle {cfg : Config} {p : Program} {e f : MainEvent}
    (hidle : p.Idle cfg e) (hf : (createdMachine cfg).guard p f) (hbusy : ¬ p.Idle cfg f) :
    (createdMachine cfg).guard ((createdMachine cfg).step p e) f ∧
      ¬ ((createdMachine cfg).step p e).Idle cfg f := by
  cases e with
  | main =>
    have hstep : (createdMachine cfg).step p .main = p := main_of_idle hidle
    rw [hstep]
    exact ⟨hf, hbusy⟩
  | pool e =>
    cases e with
    | call c | create ret tid | control => exact hidle.elim
    | svc j =>
      -- a turn of a loop moves one thread between two places, at both of which it can go on
      have hloop := hidle.2.2
      obtain ⟨phase, hphase⟩ := svc_of_idle hidle
      have hstep : (createdMachine cfg).step p (.pool (.svc j))
          = { p with pool := p.pool.update j ((p.pool.task j).goTo phase) } :=
        congrArg (fun pool => { p with pool := pool }) hphase
      rw [hstep]
      refine ⟨⟨?_, hf.2⟩, ?_⟩
      · cases f with
        | main => exact hf.1
        | pool f =>
          cases f with
          | call c => exact hf.1
          | create ret tid => exact hf.1
          | control => exact canControl_update hf.1 hloop
          | svc i =>
            have hi : i ≠ j := fun hi => hbusy (hi ▸ hidle)
            have hcan : p.pool.CanRun i := hf.1
            show State.CanRun _ i
            unfold State.CanRun at hcan ⊢
            rwa [State.update_task_of_ne _ _ _ hi]
      · cases f with
        | main => exact hbusy
        | pool f =>
          cases f with
          | call c | create ret tid | control => exact not_false
          | svc i =>
            have hi : i ≠ j := fun hi => hbusy (hi ▸ hidle)
            show ¬ (_ ∧ (State.task _ i).bExit = false ∧ _)
            rw [State.update_task_of_ne _ _ _ hi]
            exact hbusy

/-- A thread has one way to go on. -/
theorem busy_of_owner {cfg : Config} {p : Program} {e f : MainEvent}
    (he : (createdMachine cfg).guard p e) (hf : (createdMachine cfg).guard p f)
    (hbusy : ¬ p.Idle cfg f) (howner : e.owner = f.owner) : ¬ p.Idle cfg e := by
  cases e with
  | main =>
    have htodo : p.pool.todo = [] := he.1.1
    cases f with
    | main => exact hbusy
    | pool f =>
      cases f with
      | call c => exact hf.1.elim
      | create ret tid =>
        have hcan : p.pool.CanCreate := hf.1.1
        rw [State.CanCreate, htodo] at hcan
        exact hcan.elim
      | control =>
        have hcan : p.pool.CanControl := hf.1
        rw [State.CanControl, htodo] at hcan
        exact hcan.elim
      | svc j => cases howner
  | pool e =>
    cases e with
    | call c | create ret tid | control => exact not_false
    | svc j =>
      cases f with
      | main => cases howner
      | pool f =>
        cases f with
        | call c | create ret tid | control => cases howner
        | svc i =>
          obtain rfl : j = i := Option.some.inj howner
          exact hbusy

/-- The progress of the program, with an `m_seclive` that is not negative. -/
def mainProgress (cfg : Config) (hseclive : 0 ≤ cfg.seclive) :
    (createdMachine cfg).Progress (Program.Idle cfg) MainEvent.owner where
  Inv := Inv cfg
  rank := Program.rank cfg
  inv_step _ _ h hguard := h.step hguard
  idle_le _ _ h hguard _ := (rank_step h hguard).1
  busy_lt _ _ h hguard hbusy := (rank_step h hguard).2 hbusy
  Finished := Program.Finished
  busy _ h hp := h.busy hseclive hp
  ends _ _ h hp := not_guard_of_finished h hp
  keeps _ _ _ _ _ hidle hf hbusy := busy_of_idle hidle hf hbusy
  owned _ _ _ _ he hf hbusy howner := busy_of_owner he hf hbusy howner

/-! ## Whole runs -/

/-- **The program returns.** Let `m_seclive` not be negative, and no thread be refused. In every
run, whatever the order of the threads, at most `16 n + m_seclive + 7` steps are anything but turns
of a loop that only waits, `n` being the number of cores; until the program has finished, another
such step is possible; and when it has, the thread of each task has ended and was joined once, and
each task was deleted once. -/
theorem program_returns {cfg : Config} (hseclive : 0 ≤ cfg.seclive) {collected : ℤ}
    {es : List MainEvent} (h : (createdMachine cfg).Legal (.begin collected) es) :
    let p := (createdMachine cfg).run (.begin collected) es
    (createdMachine cfg).busyCount (Program.Idle cfg) (.begin collected) es
        ≤ 16 * cfg.vecCore.length + cfg.seclive.toNat + 7 ∧
      (¬ p.Finished → ∃ e, (createdMachine cfg).guard p e ∧ ¬ p.Idle cfg e) ∧
      (p.Finished → ∀ j < p.pool.next, (p.pool.task j).thread = some .done ∧
        p.pool.log.count (.joined j) = 1 ∧ p.pool.log.count (.deleted j) = 1) := by
  intro p
  have hinv : Inv cfg p := inv_run h
  refine ⟨?_, hinv.busy hseclive, fun hp j hj => ?_⟩
  · have hcount := (mainProgress cfg hseclive).busyCount_le (inv_begin cfg collected) h
    exact Nat.le_trans (Nat.le_of_add_right_le hcount) (rank_begin cfg collected)
  · obtain ⟨hdone, hdeleted⟩ := hinv.ended hp j hj
    refine ⟨hdone, ?_, ?_⟩
    · rw [hinv.kept.joined j, if_pos ⟨hj, hinv.kept.tid_eq_zero hdeleted (Or.inr rfl)⟩]
    · have hcount := hinv.kept.deleted j
      rw [hp.2, List.count_nil, Nat.zero_add] at hcount
      rw [hcount, if_pos (of_mem_of_count_eq_ite hcount hdeleted)]

/-- The program with one core, in one-loop mode: it polls the pool once in vain, and returns. -/
theorem program_returns_one :
    let es : List MainEvent := [.main, .pool (.create 0 0), .main, .pool .control, .main, .main,
      .pool (.svc 0), .pool (.svc 0), .pool (.svc 0), .pool (.svc 0), .main, .main,
      .pool .control, .pool .control, .pool .control, .main, .pool .control, .pool .control,
      .pool .control, .pool .control, .pool .control, .pool .control, .pool .control]
    let p := (createdMachine (.construct 0)).run (.begin 0) es
    (createdMachine (.construct 0)).busyCount (Program.Idle (.construct 0)) (.begin 0) es ≤ 23 ∧
      p.pool.log.count (.deleted 0) = 1 := by
  intro es p
  have hlegal : (createdMachine (.construct 0)).Legal (.begin 0) es := by decide
  obtain ⟨hcount, -, hfinished⟩ := program_returns (Int.le_refl 0) hlegal
  exact ⟨hcount, (hfinished (by decide) 0 (by decide)).2.2⟩

/-- **A run that does not end is unfair.** With an `m_seclive` that is not negative and no thread
refused, the program cannot go on for ever unless `main`, or a thread of the pool, can go on from
some moment on and never does. -/
theorem fair_run_returns {cfg : Config} (hseclive : 0 ≤ cfg.seclive) {collected : ℤ}
    {e : ℕ → MainEvent} (h : (createdMachine cfg).Forever (.begin collected) e) :
    ¬ (createdMachine cfg).Fair MainEvent.owner (.begin collected) e :=
  (mainProgress cfg hseclive).not_fair (inv_begin cfg collected) h

/-- `main` starts one thread, and then polls the pool for ever. -/
def pollsForever : ℕ → MainEvent
  | 1 => .pool (.create 0 0)
  | 3 => .pool .control
  | _ => .main

/-- The run that `pollsForever` describes is unfair: the thread never gets a turn. -/
theorem fair_run_returns_polls :
    ¬ (createdMachine (.construct 0)).Fair MainEvent.owner (.begin 0) pollsForever := by
  refine fair_run_returns (Int.le_refl 0) fun n => ?_
  let p := (createdMachine (.construct 0)).trace (.begin 0) pollsForever 5
  have hidle : p.Idle (.construct 0) .main := by decide
  have hmain : ∀ k, pollsForever (5 + k) = .main := by
    intro k
    rw [pollsForever] <;> omega
  have hstays : ∀ k, (createdMachine (.construct 0)).trace (.begin 0) pollsForever (5 + k) = p := by
    intro k
    induction k with
    | zero => rfl
    | succ k ih =>
      show (createdMachine (.construct 0)).step (Machine.trace _ _ _ (5 + k))
        (pollsForever (5 + k)) = p
      rw [ih, hmain]
      exact main_of_idle hidle
  have hfirst : ∀ n < 5, (createdMachine (.construct 0)).guard
      ((createdMachine (.construct 0)).trace (.begin 0) pollsForever n) (pollsForever n) := by
    decide
  rcases Nat.lt_or_ge n 5 with hn | hn
  · exact hfirst n hn
  · obtain ⟨k, rfl⟩ := Nat.exists_eq_add_of_le hn
    rw [hstays, hmain]
    decide

/-! ## A refused thread -/

/-- While some task has no thread, the pool does not count as stopped. -/
theorem Base.not_stop {cfg : Config} {p : Program} (h : Base cfg p)
    (hnone : ∃ j < p.pool.next, (p.pool.task j).thread = none) :
    p.pool.isStop cfg.vecCore = false := by
  obtain ⟨j, hj, hnone⟩ := hnone
  have hle := p.pool.doneCount_le_next
  have hlength : p.pool.next ≤ cfg.vecCore.length :=
    Nat.le_trans (Nat.le_add_right _ _) h.next_le
  rw [State.isStop, h.sound.sem_eq, beq_eq_false_iff_ne]
  intro heq
  have hall := p.pool.doneCount_eq_next_iff.mp (by omega)
  have hdone := hall j hj
  rw [hnone] at hdone
  cases hdone

/-- **One refused thread makes the program poll for ever.** In one-loop mode, once `pthread_create`
has failed, the pool never counts as stopped again, and `main` gets no further than to its loop. -/
theorem refused_polls_forever {cfg : Config} (hseclive : cfg.seclive = 0) {collected : ℤ}
    {es : List MainEvent} (h : (mainMachine cfg).Legal (.begin collected) es)
    (hrefused : ∃ ret tid, .pool (.create ret tid) ∈ es ∧ ret ≠ 0) :
    let p := (mainMachine cfg).run (.begin collected) es
    p.pool.isStop cfg.vecCore = false ∧
      (p.point = .start ∨ p.point = .waitJobDone ∨ p.point = .poll) := by
  suffices hmain : (∃ j < ((mainMachine cfg).run (.begin collected) es).pool.next,
        (((mainMachine cfg).run (.begin collected) es).pool.task j).thread = none) ∧
      (((mainMachine cfg).run (.begin collected) es).point = .start ∨
        ((mainMachine cfg).run (.begin collected) es).point = .waitJobDone ∨
        ((mainMachine cfg).run (.begin collected) es).point = .poll) from
    ⟨(base_run h).not_stop hmain.1, hmain.2⟩
  refine h.history (fun es p => (∃ ret tid, .pool (.create ret tid) ∈ es ∧ ret ≠ 0) →
    (∃ j < p.pool.next, (p.pool.task j).thread = none) ∧
      (p.point = .start ∨ p.point = .waitJobDone ∨ p.point = .poll)) ?_ ?_ hrefused
  · rintro ⟨ret, tid, hmem, -⟩
    exact absurd hmem List.not_mem_nil
  · rintro es e hes hguard ih ⟨ret, tid, hmem, hret⟩
    have hbase := base_run hes
    generalize (mainMachine cfg).run (.begin collected) es = p at hguard ih hbase ⊢
    rcases program_effect hguard with ⟨rfl, -, he⟩ | ⟨e', rfl, hcall, he, hstep⟩
    · -- `main` goes on, and cannot get past its loop
      obtain ⟨hnone, hpoint⟩ := ih ⟨ret, tid, by simpa using hmem, hret⟩
      have hstop := hbase.not_stop hnone
      generalize (mainMachine cfg).step p .main = p' at he ⊢
      cases he with
      | start => exact ⟨hnone, Or.inr (Or.inl rfl)⟩
      | untilStopped => exact ⟨hnone, Or.inr (Or.inr rfl)⟩
      | polled | paused => exact ⟨hnone, hpoint⟩
      | forEver _ hneg | forSeconds _ hneg => omega
      | stopped _ htrue =>
        rw [hstop] at htrue
        cases htrue
      | init hp | counted hp | elapsed hp | clear hp | leave hp => simp [hp] at hpoint
    · rw [hstep]
      rcases List.mem_append.mp hmem with hmem | hmem
      · obtain ⟨⟨j, hj, hnone⟩, hpoint⟩ := ih ⟨ret, tid, hmem, hret⟩
        exact ⟨⟨j, Nat.lt_of_lt_of_le hj he.next_le, (he.thread_eq_none_iff hj).mpr hnone⟩, hpoint⟩
      · -- the thread is refused in this step, in the call of `init`
        obtain rfl := MainEvent.pool.inj (List.mem_singleton.mp hmem)
        have hthreads := not_congr he.all_threads_iff
        refine ⟨?_, ?_⟩
        · have hall := hthreads.mpr fun hall => hret (hall.2 ret tid rfl)
          push Not at hall
          exact hall
        · have hcan : p.pool.CanCreate := hguard.1
          unfold State.CanCreate at hcan
          cases htodo : p.pool.todo with
          | nil =>
            rw [htodo] at hcan
            exact hcan.elim
          | cons a todo =>
            rw [htodo] at hcan
            have hallows := hbase.acts a (htodo ▸ List.mem_cons_self)
            cases a with
            | create core =>
              left
              cases hpoint : p.point <;> simp [hpoint, Point.Allows] at hallows ⊢
            | start | stop | join | delete | forget => exact hcan.elim

/-- The only thread is refused, and `main` polls the pool, which never stops. -/
theorem refused_polls_forever_one :
    let p := (mainMachine (.construct 0)).run (.begin 0)
      [.main, .pool (.create 11 5), .main, .pool .control, .main, .main, .main]
    p.pool.isStop (Config.construct 0).vecCore = false ∧
      (p.point = .start ∨ p.point = .waitJobDone ∨ p.point = .poll) :=
  refused_polls_forever rfl (by decide) ⟨11, 5, by decide, by decide⟩

end FfTest.TaskPool
