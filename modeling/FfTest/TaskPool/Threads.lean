import FfTest.Foundations.EventMachine
import FfTest.Foundations.Ledger
import Mathlib.Data.Int.Notation
import Mathlib.Logic.Function.Basic

/-! # `TaskPool`, its tasks and their threads

The controlling thread calls the functions of the pool; each call is broken up into acts on single
tasks. The thread of every task runs `Task::svc`. `poolMachine` interleaves the acts of the
controlling thread and the steps of all the others in any order. An act or a step that has to wait
(`pthread_join`, `sem_wait`) is not admitted before it can go on.

Tasks are numbered in the order of their creation; the thread of task `j` has the identifier
`j + 1`, as 0 stands for no thread. What `pthread_create` answers is passed in. -/

namespace FfTest.TaskPool

/-! ## Tasks -/

/-- Where a thread is in `Task::svc`. -/
inductive Phase
  /-- At `sem_wait`. -/
  | waiting
  /-- At the condition of the loop. -/
  | testing
  /-- In the body of the loop. -/
  | working
  /-- Behind the loop, at `pool.notify()`. -/
  | notifying
  /-- At its end. -/
  | done
  deriving DecidableEq, Repr

/-- `Task`, with the thread that runs `svc` on it, if one was created. -/
structure Task where
  /-- The value of `m_sem`. -/
  sem : ℕ
  /-- `m_tid`. -/
  tid : ℕ
  /-- `m_bExit`. -/
  bExit : Bool
  /-- `m_core_id`. -/
  coreId : BitVec 8
  /-- Where the thread is. -/
  thread : Option Phase
  deriving DecidableEq, Repr

namespace Task

/-- `Task::Task`. -/
def construct : Task := ⟨0, 0, false, 1, none⟩

/-- `Task::set_affinity` on a task without a thread. -/
def setAffinity (t : Task) (core : ℤ) : Task := { t with coreId := BitVec.ofInt 8 core }

/-- `Task::init`, where `pthread_create` returns `ret` and leaves `tid` in `m_tid`. The call of
`util_cpu_bind`, whose result is ignored, is left out. -/
def init (t : Task) (ret : ℤ) (tid : ℕ) : Task :=
  let t := { t with tid, thread := if ret = 0 then some .waiting else none }
  if ret < 0 then { t with tid := 0 } else t

/-- `Task::start`. -/
def start (t : Task) : Task := if t.tid ≠ 0 then { t with sem := t.sem + 1 } else t

/-- `Task::stop`, and the first line of `Task::release`. -/
def stop (t : Task) : Task := { t with bExit := true }

/-- The rest of `Task::release`, when `pthread_join` has returned. -/
def joined (t : Task) : Task := { t with tid := 0 }

/-- The thread goes on to another place. -/
def goTo (t : Task) (phase : Phase) : Task := { t with thread := some phase }

end Task

/-! ## The pool -/

/-- An act of the controlling thread. -/
inductive Act
  /-- One round of the loop in `TaskPool::init`. -/
  | create (core : ℤ)
  /-- `Task::start`. -/
  | start (j : ℕ)
  /-- `Task::stop`, or the first line of `Task::release`. -/
  | stop (j : ℕ)
  /-- The rest of `Task::release`. -/
  | join (j : ℕ)
  /-- The end of `Task::~Task`, and `delete`. -/
  | delete (j : ℕ)
  /-- `m_lstTask.clear()`. -/
  | forget
  deriving DecidableEq, Repr

/-- A call of the controlling thread. -/
inductive Call
  /-- `TaskPool::init`, with `m_vecCore` of the configuration. -/
  | init (cores : List ℤ)
  /-- `TaskPool::start`. -/
  | start
  /-- `TaskPool::stop`. -/
  | stop
  /-- `TaskPool::clear`. -/
  | clear
  /-- `TaskPool::~TaskPool`. -/
  | destroy
  deriving DecidableEq, Repr

/-- `Task::release`. -/
def releaseActs (j : ℕ) : List Act := [.stop j, .join j]

/-- `delete` of a task. -/
def deleteActs (j : ℕ) : List Act := releaseActs j ++ [.delete j]

/-- `TaskPool::clear`: all tasks are told to stop before the first is released. -/
def clearActs (lstTask : List ℕ) : List Act := lstTask.map .stop ++ lstTask.flatMap releaseActs

/-- The acts of a call on the tasks of the list. -/
def Call.acts (lstTask : List ℕ) : Call → List Act
  | .init cores => cores.map .create
  | .start => lstTask.map .start
  | .stop => lstTask.map .stop
  | .clear => clearActs lstTask
  | .destroy => clearActs lstTask ++ (lstTask.flatMap deleteActs ++ [.forget])

/-- What has happened to tasks and threads. -/
inductive Record
  /-- Task `j` was made. -/
  | made (j : ℕ)
  /-- Its thread was created. -/
  | created (j : ℕ)
  /-- `sem_post` on its `m_sem`. -/
  | posted (j : ℕ)
  /-- `pthread_join` on its thread. -/
  | joined (j : ℕ)
  /-- Task `j` was deleted. -/
  | deleted (j : ℕ)
  /-- `sem_post` on `m_sem` of the pool, by its thread. -/
  | notified (j : ℕ)
  deriving DecidableEq, Repr

/-- The pool, all tasks made so far, and what the controlling thread has still to do. -/
structure State where
  /-- The value of `m_sem` of the pool. -/
  sem : ℕ
  /-- The tasks, by number. -/
  task : ℕ → Task
  /-- How many tasks have been made. -/
  next : ℕ
  /-- `m_lstTask`. -/
  lstTask : List ℕ
  /-- The acts left of the present call. -/
  todo : List Act
  /-- Whether the destructor has not been called. -/
  alive : Bool
  /-- What has happened, newest first. -/
  log : List Record

namespace State

/-- The pool when it is constructed. -/
def start : State := ⟨0, fun _ => .construct, 0, [], [], true, []⟩

/-- Task `j` is changed. -/
def update (s : State) (j : ℕ) (t : Task) : State :=
  { s with task := Function.update s.task j t }

/-- A call begins. -/
def call (s : State) (c : Call) : State :=
  { s with todo := c.acts s.lstTask, alive := s.alive && c ≠ .destroy }

/-- A round of the loop in `TaskPool::init`, where `pthread_create` returns `ret`; if that is not 0,
it leaves `tid` in `m_tid`. The result of `Task::init` is not looked at. -/
def create (s : State) (ret : ℤ) (tid : ℕ) : State :=
  match s.todo with
  | .create core :: todo =>
    let j := s.next
    let t := (Task.construct.setAffinity core).init ret (if ret = 0 then j + 1 else tid)
    { s.update j t with
      next := j + 1
      lstTask := s.lstTask ++ [j]
      todo
      log := if ret = 0 then .created j :: .made j :: s.log else .made j :: s.log }
  | _ => s

/-- The next act of the controlling thread, when it can go on. -/
def control (s : State) : State :=
  match s.todo with
  | .start j :: todo =>
    { s.update j (s.task j).start with
      todo, log := if (s.task j).tid ≠ 0 then .posted j :: s.log else s.log }
  | .stop j :: todo => { s.update j (s.task j).stop with todo }
  | .join j :: todo =>
    if (s.task j).tid ≠ 0 then
      { s.update j (s.task j).joined with todo, log := .joined ((s.task j).tid - 1) :: s.log }
    else { s with todo }
  | .delete j :: todo => { s with todo, log := .deleted j :: s.log }
  | .forget :: todo => { s with todo, lstTask := [] }
  | _ => s

/-- The next step of the thread of task `j` in `svc`, when it can go on. -/
def svc (seclive : ℤ) (s : State) (j : ℕ) : State :=
  let t := s.task j
  match t.thread with
  | some .waiting => s.update j { t with sem := t.sem - 1, thread := some .testing }
  | some .testing => s.update j (t.goTo (if t.bExit then .notifying else .working))
  | some .working => s.update j (t.goTo (if seclive = 0 then .notifying else .testing))
  | some .notifying =>
    { s.update j (t.goTo .done) with sem := s.sem + 1, log := .notified j :: s.log }
  | _ => s

/-- `TaskPool::is_stop`. -/
def isStop (cores : List ℤ) (s : State) : Bool := s.sem == cores.length

/-! ## Who can go on -/

/-- `pthread_join` on `m_tid` of the task returns: there is no thread, or it has ended. -/
def JoinReturns (s : State) (j : ℕ) : Prop :=
  (s.task j).tid = 0 ∨ (s.task ((s.task j).tid - 1)).thread = none ∨
    (s.task ((s.task j).tid - 1)).thread = some .done

instance (s : State) (j : ℕ) : Decidable (s.JoinReturns j) :=
  inferInstanceAs (Decidable (_ ∨ _ ∨ _))

/-- The controlling thread has an act to do, other than creating a task, and can go on. -/
def CanControl (s : State) : Prop :=
  match s.todo with
  | [] | .create _ :: _ => False
  | .join j :: _ => s.JoinReturns j
  | _ => True

instance (s : State) : Decidable s.CanControl := by
  unfold CanControl
  split <;> infer_instance

/-- The thread of task `j` can go on. -/
def CanRun (s : State) (j : ℕ) : Prop :=
  match (s.task j).thread with
  | none | some .done => False
  | some .waiting => 0 < (s.task j).sem
  | _ => True

instance (s : State) (j : ℕ) : Decidable (s.CanRun j) := by
  unfold CanRun
  split <;> infer_instance

/-- The controlling thread is about to create a task. -/
def CanCreate (s : State) : Prop :=
  match s.todo with
  | .create _ :: _ => True
  | _ => False

instance (s : State) : Decidable s.CanCreate := by
  unfold CanCreate
  split <;> infer_instance

end State

/-- One step of one of the threads. -/
inductive Event
  /-- The controlling thread calls a function of the pool. -/
  | call (c : Call)
  /-- The controlling thread creates a task; `pthread_create` returns `ret`. -/
  | create (ret : ℤ) (tid : ℕ)
  /-- The controlling thread goes on with its call. -/
  | control
  /-- The thread of task `j` goes on. -/
  | svc (j : ℕ)
  deriving DecidableEq, Repr

namespace State

/-- The step of an event. -/
def step (seclive : ℤ) (s : State) : Event → State
  | .call c => s.call c
  | .create ret tid => s.create ret tid
  | .control => s.control
  | .svc j => s.svc seclive j

/-- Calls do not overlap, and none follows the destructor; `pthread_create` returns 0 or an error
number; what has to wait waits. -/
def Admits (s : State) : Event → Prop
  | .call _ => s.todo = [] ∧ s.alive = true
  | .create ret _ => s.CanCreate ∧ 0 ≤ ret
  | .control => s.CanControl
  | .svc j => s.CanRun j

instance (s : State) : ∀ e, Decidable (s.Admits e)
  | .call _ => inferInstanceAs (Decidable (_ ∧ _))
  | .create _ _ => inferInstanceAs (Decidable (_ ∧ _))
  | .control => inferInstanceAs (Decidable s.CanControl)
  | .svc j => inferInstanceAs (Decidable (s.CanRun j))

end State

/-- The pool and its threads, with `m_seclive` of the configuration. -/
def poolMachine (seclive : ℤ) : Machine State Event := ⟨State.step seclive, State.Admits⟩

instance (seclive : ℤ) (s : State) (e : Event) : Decidable ((poolMachine seclive).guard s e) :=
  inferInstanceAs (Decidable (s.Admits e))

end FfTest.TaskPool
