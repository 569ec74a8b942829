import FfTest.TaskPool.CommandLine
import FfTest.TaskPool.Completion
import FfTest.TaskPool.Joining

/-! # The main program

When the input files have been collected, `main` initialises and starts the pool, waits, and clears
the pool; the pool is destroyed when the process exits. How long `main` waits depends on
`m_seclive`: for ever, until the pool has stopped, or for so many seconds. `mainMachine` interleaves
the program with the threads of the pool, down to the acts of each call.

`Base` is what holds in every run of the program, and `Inv` what holds where no thread is
refused. -/

namespace FfTest.TaskPool

/-! ## The program -/

/-- What `main` does next, once its present call on the pool has returned. -/
inductive Point
  /-- `task_pool.init`. -/
  | init
  /-- `task_pool.start`. -/
  | start
  /-- `wait_job_done`. -/
  | waitJobDone
  /-- Another `pause()`, for a negative `m_seclive`. -/
  | pause
  /-- `task_pool.is_stop()` in the condition of the loop, for `m_seclive` 0. -/
  | poll
  /-- `seclive` in the condition of the loop, for a positive `m_seclive`. -/
  | countdown (seclive : ℕ)
  /-- `task_pool.clear`. -/
  | clear
  /-- `return 0`, which is followed by the destructor of the pool. -/
  | leave
  /-- Nothing: `main` has returned. -/
  | left
  deriving DecidableEq, Repr

/-- The program and the pool. -/
structure Program where
  /-- The pool, with its threads. -/
  pool : State
  /-- Where `main` is. -/
  point : Point

/-- One step of one of the threads. -/
inductive MainEvent
  /-- `main` goes on, outside the calls on the pool. -/
  | main
  /-- `main` goes on in a call on the pool, or a thread of the pool goes on. -/
  | pool (e : Event)
  deriving DecidableEq, Repr

namespace Program

/-- The program when `intput_collect` has returned `collected`: without an input file it returns,
before there is a pool. -/
def begin (collected : ℤ) : Program := ⟨.start, if collected < 0 then .left else .init⟩

/-- The next step of `main`. -/
def main (cfg : Config) (p : Program) : Program :=
  match p.point with
  | .init => ⟨p.pool.call (.init cfg.vecCore), .start⟩
  | .start => ⟨p.pool.call .start, .waitJobDone⟩
  | .waitJobDone =>
    if cfg.seclive < 0 then { p with point := .pause }
    else if cfg.seclive = 0 then { p with point := .poll }
    else { p with point := .countdown cfg.seclive.toNat }
  | .pause => p
  | .poll => if p.pool.isStop cfg.vecCore then { p with point := .clear } else p
  | .countdown 0 => { p with point := .clear }
  | .countdown (seclive + 1) => { p with point := .countdown seclive }
  | .clear => ⟨p.pool.call .clear, .leave⟩
  | .leave => ⟨p.pool.call .destroy, .left⟩
  | .left => p

/-- The step of an event. -/
def step (cfg : Config) (p : Program) : MainEvent → Program
  | .main => p.main cfg
  | .pool e => { p with pool := p.pool.step cfg.seclive e }

/-- `main` goes on where its call has returned; all calls are its own. -/
def Admits (p : Program) : MainEvent → Prop
  | .main => p.pool.todo = [] ∧ p.point ≠ .left
  | .pool (.call _) => False
  | .pool e => p.pool.Admits e

instance (p : Program) : ∀ e, Decidable (p.Admits e)
  | .main => inferInstanceAs (Decidable (_ ∧ _))
  | .pool (.call _) => inferInstanceAs (Decidable False)
  | .pool (.create ret tid) => inferInstanceAs (Decidable (p.pool.Admits (.create ret tid)))
  | .pool .control => inferInstanceAs (Decidable (p.pool.Admits .control))
  | .pool (.svc j) => inferInstanceAs (Decidable (p.pool.Admits (.svc j)))

/-- `main` has returned and the pool is destroyed. -/
def Finished (p : Program) : Prop := p.point = .left ∧ p.pool.todo = []

instance (p : Program) : Decidable p.Finished := inferInstanceAs (Decidable (_ ∧ _))

end Program

/-- The program, with its configuration. -/
def mainMachine (cfg : Config) : Machine Program MainEvent := ⟨Program.step cfg, Program.Admits⟩

instance (cfg : Config) (p : Program) (e : MainEvent) : Decidable ((mainMachine cfg).guard p e) :=
  inferInstanceAs (Decidable (p.Admits e))

/-- The event is no `pthread_create` that fails. -/
def MainEvent.Created : MainEvent → Prop
  | .pool (.create ret _) => ret = 0
  | _ => True

instance : ∀ e, Decidable (MainEvent.Created e)
  | .main => inferInstanceAs (Decidable True)
  | .pool (.call _) => inferInstanceAs (Decidable True)
  | .pool (.create ret _) => inferInstanceAs (Decidable (ret = 0))
  | .pool .control => inferInstanceAs (Decidable True)
  | .pool (.svc _) => inferInstanceAs (Decidable True)

/-- The program where `pthread_create` never fails. -/
def createdMachine (cfg : Config) : Machine Program MainEvent :=
  (mainMachine cfg).restrict fun _ e => e.Created

instance (cfg : Config) (p : Program) (e : MainEvent) :
    Decidable ((createdMachine cfg).guard p e) :=
  inferInstanceAs (Decidable (p.Admits e ∧ e.Created))

/-! ## What a step of the program is -/

/-- The acts that may be left at a point: those of the call before it. -/
def Point.Allows : Point → Act → Prop
  | .start, .create _ => True
  | .waitJobDone, .start _ => True
  | .leave, .stop _ | .leave, .join _ => True
  | .left, .stop _ | .left, .join _ | .left, .delete _ | .left, .forget => True
  | _, _ => False

/-- All that a step of `main` can do. -/
inductive MainEffect (cfg : Config) (p : Program) : Program → Prop
  /-- The pool is initialised. -/
  | init (hp : p.point = .init) : MainEffect cfg p ⟨p.pool.call (.init cfg.vecCore), .start⟩
  /-- The pool is started. -/
  | start (hp : p.point = .start) : MainEffect cfg p ⟨p.pool.call .start, .waitJobDone⟩
  /-- The program is going to wait for ever. -/
  | forEver (hp : p.point = .waitJobDone) (hseclive : cfg.seclive < 0) :
    MainEffect cfg p ⟨p.pool, .pause⟩
  /-- The program is going to wait until the pool has stopped. -/
  | untilStopped (hp : p.point = .waitJobDone) (hseclive : cfg.seclive = 0) :
    MainEffect cfg p ⟨p.pool, .poll⟩
  /-- The program is going to wait for some seconds. -/
  | forSeconds (hp : p.point = .waitJobDone) (hseclive : 0 < cfg.seclive) :
    MainEffect cfg p ⟨p.pool, .countdown cfg.seclive.toNat⟩
  /-- The program keeps waiting for ever. -/
  | paused (hp : p.point = .pause) : MainEffect cfg p p
  /-- The pool has not stopped. -/
  | polled (hp : p.point = .poll) (hstop : p.pool.isStop cfg.vecCore = false) : MainEffect cfg p p
  /-- The pool has stopped. -/
  | stopped (hp : p.point = .poll) (hstop : p.pool.isStop cfg.vecCore = true) :
    MainEffect cfg p ⟨p.pool, .clear⟩
  /-- A second has passed. -/
  | counted {seclive : ℕ} (hp : p.point = .countdown (seclive + 1)) :
    MainEffect cfg p ⟨p.pool, .countdown seclive⟩
  /-- The time is over. -/
  | elapsed (hp : p.point = .countdown 0) : MainEffect cfg p ⟨p.pool, .clear⟩
  /-- The pool is cleared. -/
  | clear (hp : p.point = .clear) : MainEffect cfg p ⟨p.pool.call .clear, .leave⟩
  /-- The program returns, and the pool is destroyed. -/
  | leave (hp : p.point = .leave) : MainEffect cfg p ⟨p.pool.call .destroy, .left⟩

/-- Every step of `main` has one of these effects. -/
theorem main_effect {cfg : Config} {p : Program} (h : p.point ≠ .left) :
    MainEffect cfg p (p.main cfg) := by
  obtain ⟨pool, point⟩ := p
  cases point with
  | init => exact .init rfl
  | start => exact .start rfl
  | waitJobDone =>
    show MainEffect cfg _ (if cfg.seclive < 0 then _ else if cfg.seclive = 0 then _ else _)
    by_cases hneg : cfg.seclive < 0
    · rw [if_pos hneg]
      exact .forEver rfl hneg
    · rw [if_neg hneg]
      by_cases hzero : cfg.seclive = 0
      · rw [if_pos hzero]
        exact .untilStopped rfl hzero
      · rw [if_neg hzero]
        exact .forSeconds rfl (by omega)
  | pause => exact .paused rfl
  | poll =>
    show MainEffect cfg _ (if pool.isStop cfg.vecCore = true then _ else _)
    by_cases hstop : pool.isStop cfg.vecCore = true
    · rw [if_pos hstop]
      exact .stopped rfl hstop
    · rw [if_neg hstop]
      exact .polled rfl (Bool.eq_false_iff.mpr hstop)
  | countdown seclive =>
    cases seclive with
    | zero => exact .elapsed rfl
    | succ seclive => exact .counted rfl
  | clear => exact .clear rfl
  | leave => exact .leave rfl
  | left => exact absurd rfl h

/-- An admitted event is a step of `main` between two calls, or a step of the pool that is no
call. -/
theorem program_effect {cfg : Config} {p : Program} {e : MainEvent}
    (h : (mainMachine cfg).guard p e) :
    (e = .main ∧ p.pool.todo = [] ∧ MainEffect cfg p ((mainMachine cfg).step p e)) ∨
    ∃ e', e = .pool e' ∧ (∀ c, e' ≠ .call c) ∧ Effect p.pool e' (p.pool.step cfg.seclive e') ∧
      (mainMachine cfg).step p e = { p with pool := p.pool.step cfg.seclive e' } := by
  have hpool : ∀ e', p.pool.Admits e' → Effect p.pool e' (p.pool.step cfg.seclive e') :=
    fun e' he' => step_effect (show (poolMachine cfg.seclive).guard p.pool e' from he')
  cases e with
  | main => exact Or.inl ⟨rfl, h.1, main_effect h.2⟩
  | pool e =>
    right
    cases e with
    | call c => exact h.elim
    | create ret tid => exact ⟨_, rfl, nofun, hpool (.create ret tid) h, rfl⟩
    | control => exact ⟨_, rfl, nofun, hpool .control h, rfl⟩
    | svc j => exact ⟨_, rfl, nofun, hpool (.svc j) h, rfl⟩

/-! ## What holds in every run -/

/-- What holds in every run of the program. -/
structure Base (cfg : Config) (p : Program) : Prop where
  /-- The pool is sound. -/
  sound : Sound p.pool
  /-- The pool is there until `main` returns. -/
  alive : p.point ≠ .left → p.pool.alive = true
  /-- There are no more tasks than cores. -/
  next_le : p.pool.next + p.pool.todo.countP Act.isCreate ≤ cfg.vecCore.length
  /-- There are none before the pool is initialised. -/
  next_init : p.point = .init → p.pool.next = 0
  /-- Afterwards there is one for each core, or one is still to be made. -/
  next_eq : p.point ≠ .init → p.point ≠ .left →
    p.pool.next + p.pool.todo.countP Act.isCreate = cfg.vecCore.length
  /-- The acts left are those of the call before this point. -/
  acts : ∀ a ∈ p.pool.todo, p.point.Allows a
  /-- The pool is polled in one-loop mode only. -/
  seclive_poll : p.point = .poll → cfg.seclive = 0
  /-- The program waits for ever with a negative `m_seclive` only. -/
  seclive_pause : p.point = .pause → cfg.seclive < 0

variable {cfg : Config} {p p' : Program} {s' : State} {e : Event}

/-- Only calls end the life of the pool. -/
theorem Effect.alive_eq {s s' : State} (he : Effect s e s') (hcall : ∀ c, e ≠ .call c) :
    s'.alive = s.alive := by
  cases he with
  | @call c => exact absurd rfl (hcall c)
  | created | refused | started | stopped | skipped | joined | deleted | forgotten | woken | moved
  | notified => rfl

/-- The acts of each call of the program are allowed behind it. -/
theorem allows_acts (lstTask : List ℕ) {c : Call} {point : Point} {a : Act}
    (hc : (∃ cores, c = .init cores) ∧ point = .start ∨ c = .start ∧ point = .waitJobDone ∨
      c = .clear ∧ point = .leave ∨ c = .destroy ∧ point = .left)
    (ha : a ∈ c.acts lstTask) : point.Allows a := by
  rcases hc with ⟨⟨cores, rfl⟩, rfl⟩ | ⟨rfl, rfl⟩ | ⟨rfl, rfl⟩ | ⟨rfl, rfl⟩
  · obtain ⟨core, -, rfl⟩ := List.mem_map.mp ha
    trivial
  · obtain ⟨j, -, rfl⟩ := List.mem_map.mp ha
    trivial
  · simp only [Call.acts, clearActs, releaseActs, List.mem_append, List.mem_map, List.mem_flatMap,
      List.mem_cons, List.not_mem_nil, or_false] at ha
    rcases ha with ⟨j, -, rfl⟩ | ⟨j, -, rfl | rfl⟩ <;> trivial
  · simp only [Call.acts, clearActs, releaseActs, deleteActs, List.mem_append, List.mem_map,
      List.mem_flatMap, List.mem_cons, List.not_mem_nil, or_false] at ha
    rcases ha with (⟨j, -, rfl⟩ | ⟨j, -, rfl | rfl⟩) | ⟨j, -, (rfl | rfl) | rfl⟩ | rfl <;> trivial

/-- A step of the pool keeps the invariant. -/
theorem Base.pool_step (h : Base cfg p) (he : Effect p.pool e s') (hcall : ∀ c, e ≠ .call c) :
    Base cfg { p with pool := s' } := by
  have hnone : e.initCores = none := by
    cases e with
    | call c => exact absurd rfl (hcall c)
    | create | control | svc => rfl
  have hnext := he.next_add_creates
  rw [hnone, Option.toList_none, List.flatten_nil, List.length_nil, Nat.add_zero] at hnext
  have hsub : ∀ a ∈ s'.todo, a ∈ p.pool.todo := by
    rcases he.todo_sublist with ⟨c, rfl, -⟩ | hsub
    · exact absurd rfl (hcall c)
    · exact hsub
  refine ⟨h.sound.step he, fun hp => (he.alive_eq hcall).trans (h.alive hp), hnext ▸ h.next_le,
    fun hp => ?_, fun hp hp' => hnext ▸ h.next_eq hp hp', fun a ha => h.acts a (hsub a ha),
    h.seclive_poll, h.seclive_pause⟩
  -- no act is left before the pool is initialised
  have htodo : p.pool.todo = [] := by
    refine List.eq_nil_iff_forall_not_mem.mpr fun a ha => ?_
    have hallows := h.acts a ha
    rw [show p.point = .init from hp] at hallows
    exact hallows
  rw [h.next_init hp, htodo, List.countP_nil] at hnext
  exact Nat.eq_zero_of_add_eq_zero_right hnext

/-- A call of `main` keeps what holds of the pool. -/
theorem Base.call_next (h : Base cfg p) (idle : p.pool.todo = []) (hp : p.point ≠ .left) (c : Call) :
    Sound (p.pool.call c) ∧
      (p.pool.call c).next + (p.pool.call c).todo.countP Act.isCreate
        = p.pool.next + (Event.initCores (.call c)).toList.flatten.length := by
  have he : Effect p.pool (.call c) (p.pool.call c) := .call idle (h.alive hp)
  have hnext := he.next_add_creates
  rw [idle, List.countP_nil, Nat.add_zero] at hnext
  exact ⟨h.sound.step he, hnext⟩

/-- A step of `main` keeps the invariant. -/
theorem Base.main_step (h : Base cfg p) (idle : p.pool.todo = []) (he : MainEffect cfg p p') :
    Base cfg p' := by
  have hle := h.next_le
  have hall : p.point ≠ .init → p.point ≠ .left → p.pool.next = cfg.vecCore.length := by
    intro hp hp'
    have hnext := h.next_eq hp hp'
    rwa [idle, List.countP_nil, Nat.add_zero] at hnext
  have hacts : ∀ point : Point, ∀ a ∈ p.pool.todo, point.Allows a := by
    intro point a ha
    rw [idle] at ha
    exact absurd ha List.not_mem_nil
  rw [idle, List.countP_nil, Nat.add_zero] at hle
  cases he with
  | init hp =>
    obtain ⟨hsound, hnext⟩ := h.call_next idle (by simp [hp]) (.init cfg.vecCore)
    -- the acts of `init` make one task for each core
    have hlength : (p.pool.call (.init cfg.vecCore)).next
        + (p.pool.call (.init cfg.vecCore)).todo.countP Act.isCreate = cfg.vecCore.length := by
      rw [hnext, h.next_init hp]
      simp [Event.initCores]
    refine ⟨hsound, fun _ => ?_, Nat.le_of_eq hlength, by simp, fun _ _ => hlength,
      fun a => allows_acts p.pool.lstTask (Or.inl ⟨⟨_, rfl⟩, rfl⟩), by simp, by simp⟩
    simp [State.call, h.alive (by simp [hp])]
  | start hp =>
    obtain ⟨hsound, hnext⟩ := h.call_next idle (by simp [hp]) .start
    have hlength := hnext.trans (hall (by simp [hp]) (by simp [hp]))
    refine ⟨hsound, fun _ => ?_, Nat.le_of_eq hlength, by simp, fun _ _ => hlength,
      fun a => allows_acts p.pool.lstTask (Or.inr (Or.inl ⟨rfl, rfl⟩)), by simp, by simp⟩
    simp [State.call, h.alive (by simp [hp])]
  | clear hp =>
    obtain ⟨hsound, hnext⟩ := h.call_next idle (by simp [hp]) .clear
    have hlength := hnext.trans (hall (by simp [hp]) (by simp [hp]))
    refine ⟨hsound, fun _ => ?_, Nat.le_of_eq hlength, by simp, fun _ _ => hlength,
      fun a => allows_acts p.pool.lstTask (Or.inr (Or.inr (Or.inl ⟨rfl, rfl⟩))), by simp, by simp⟩
    simp [State.call, h.alive (by simp [hp])]
  | leave hp =>
    obtain ⟨hsound, hnext⟩ := h.call_next idle (by simp [hp]) .destroy
    exact ⟨hsound, fun hleft => absurd rfl hleft, Nat.le_trans (Nat.le_of_eq hnext) hle, by simp,
      fun _ hleft => absurd rfl hleft,
      fun a => allows_acts p.pool.lstTask (Or.inr (Or.inr (Or.inr ⟨rfl, rfl⟩))), by simp, by simp⟩
  | paused | polled => exact h
  | forEver hp hseclive | untilStopped hp hseclive | forSeconds hp hseclive | stopped hp hseclive =>
    exact ⟨h.sound, fun _ => h.alive (by simp [hp]), h.next_le, by simp,
      fun _ _ => h.next_eq (by simp [hp]) (by simp [hp]), hacts _, by simp_all, by simp_all⟩
  | counted hp | elapsed hp =>
    exact ⟨h.sound, fun _ => h.alive (by simp [hp]), h.next_le, by simp,
      fun _ _ => h.next_eq (by simp [hp]) (by simp [hp]), hacts _, by simp, by simp⟩

/-- The program begins in these states. -/
theorem base_begin (cfg : Config) (collected : ℤ) : Base cfg (.begin collected) where
  sound := sound_start
  alive _ := rfl
  next_le := Nat.zero_le _
  next_init _ := rfl
  next_eq := by
    unfold Program.begin
    split <;> simp
  acts _ ha := absurd ha List.not_mem_nil
  seclive_poll := by
    unfold Program.begin
    split <;> simp
  seclive_pause := by
    unfold Program.begin
    split <;> simp

/-- **Step lemma.** Every admitted event keeps the invariant. -/
theorem Base.step (h : Base cfg p) {e : MainEvent} (hguard : (mainMachine cfg).guard p e) :
    Base cfg ((mainMachine cfg).step p e) := by
  rcases program_effect hguard with ⟨-, idle, he⟩ | ⟨e', -, hcall, he, hstep⟩
  · exact h.main_step idle he
  · rw [hstep]
    exact h.pool_step he hcall

/-- **Run lemma.** -/
theorem base_run {collected : ℤ} {es : List MainEvent}
    (h : (mainMachine cfg).Legal (.begin collected) es) :
    Base cfg ((mainMachine cfg).run (.begin collected) es) :=
  h.invariant (Base cfg) (fun _ _ hp hguard => hp.step hguard) (base_begin cfg collected)

/-! ## What holds where no thread is refused -/

/-- What holds besides in every run in which no thread is refused. -/
structure Inv (cfg : Config) (p : Program) : Prop extends Base cfg p where
  /-- Threads are joined and tasks deleted once. -/
  kept : Kept p.pool
  /-- Every task has its thread. -/
  threads : ∀ j < p.pool.next, (p.pool.task j).thread ≠ none
  /-- A thread at its semaphore can get past it, once `start` has come to its task. -/
  started : ∀ j, (p.pool.task j).thread = some .waiting →
    0 < (p.pool.task j).sem ∨ .start j ∈ p.pool.todo ∨ p.point = .start
  /-- A thread is told to stop before it is joined. -/
  told : ∀ pre j post, p.pool.todo = pre ++ .join j :: post →
    (p.pool.task j).bExit = true ∨ .stop j ∈ pre
  /-- When `main` has returned, the pool is being destroyed, or there never was a task. -/
  gone : p.point = .left → p.pool.alive = false ∨ p.pool.next = 0

/-- Every call that joins a thread first tells it to stop. -/
theorem stop_mem_of_acts {lstTask : List ℕ} {c : Call} {pre post : List Act} {j : ℕ}
    (hacts : c.acts lstTask = pre ++ .join j :: post) : .stop j ∈ pre := by
  have hmem : .join j ∈ c.acts lstTask := by
    rw [hacts]
    simp
  have hj : j ∈ lstTask := mem_of_mem_acts hmem rfl
  have hstops : ∃ rest, c.acts lstTask = lstTask.map .stop ++ rest := by
    rcases not_join_mem_acts hmem with rfl | rfl
    · exact ⟨_, rfl⟩
    · exact ⟨_, List.append_assoc ..⟩
  obtain ⟨rest, hrest⟩ := hstops
  rw [hrest] at hacts
  rcases List.append_eq_append_iff.mp hacts with ⟨mid, rfl, -⟩ | ⟨mid, heq, hmid⟩
  · exact List.mem_append_left _ (List.mem_map_of_mem hj)
  · cases mid with
    | nil =>
      rw [List.append_nil] at heq
      exact heq ▸ List.mem_map_of_mem hj
    | cons a mid =>
      -- the join is not among the acts that tell all tasks to stop
      obtain ⟨rfl, -⟩ := List.cons.inj hmid
      have hstop : Act.join j ∈ lstTask.map .stop := heq ▸ List.mem_append_right _ List.mem_cons_self
      simp at hstop

/-- Every step of the pool keeps threads from waiting in vain. -/
theorem Inv.started_pool (h : Inv cfg p) (he : Effect p.pool e s') (hcall : ∀ c, e ≠ .call c)
    (hcreated : ∀ ret tid, e = .create ret tid → ret = 0) (j : ℕ)
    (hj : (s'.task j).thread = some .waiting) :
    0 < (s'.task j).sem ∨ .start j ∈ s'.todo ∨ p.point = .start := by
  have hstarted := h.started j
  cases he with
  | @call c => exact absurd rfl (hcall c)
  | @created core todo tid hd =>
    right; right
    have hallows := h.acts (.create core) (hd ▸ List.mem_cons_self)
    cases hp : p.point with
    | start => rfl
    | init | waitJobDone | pause | poll | countdown | clear | leave | left =>
      rw [hp] at hallows
      exact hallows.elim
  | refused _ hret => exact absurd (hcreated _ _ rfl) (by omega)
  | skipped ha hd htid =>
    have hne := h.sound.tid_eq j .waiting hj (by simp)
    rcases ha with rfl | rfl
    · grind
    · grind
  | started | stopped | joined | deleted | forgotten | woken | moved | notified => grind

/-- Every step of the pool leaves it told to stop what is to be joined. -/
theorem Inv.told_pool (h : Inv cfg p) (he : Effect p.pool e s') (hcall : ∀ c, e ≠ .call c)
    (pre : List Act) (j : ℕ) (post : List Act) (htodo : s'.todo = pre ++ .join j :: post) :
    (s'.task j).bExit = true ∨ .stop j ∈ pre := by
  have htold := h.told
  have htail : ∀ a todo, p.pool.todo = a :: todo → todo = pre ++ .join j :: post →
      j < p.pool.next ∧ ((p.pool.task j).bExit = true ∨ a = .stop j ∨ .stop j ∈ pre) := by
    rintro a todo hd rfl
    refine ⟨h.sound.target_lt (.join j) (by simp [hd]) j rfl, ?_⟩
    rcases htold (a :: pre) j post hd with hexit | hmem
    · exact Or.inl hexit
    · rcases List.mem_cons.mp hmem with heq | hmem
      · exact Or.inr (Or.inl heq.symm)
      · exact Or.inr (Or.inr hmem)
  cases he with
  | @call c => exact absurd rfl (hcall c)
  | created hd | refused hd =>
    have hj := htail _ _ hd htodo
    grind
  | started hd | stopped hd | skipped _ hd | joined hd | deleted hd | forgotten hd =>
    have hj := htail _ _ hd htodo
    grind [Task.stop, Task.joined]
  | woken | moved | notified =>
    have hj := htold pre j post htodo
    grind [Task.goTo]

/-- A step of the pool that refuses no thread keeps the invariant. -/
theorem Inv.pool_step (h : Inv cfg p) (he : Effect p.pool e s') (hcall : ∀ c, e ≠ .call c)
    (hcreated : ∀ ret tid, e = .create ret tid → ret = 0) : Inv cfg { p with pool := s' } where
  toBase := h.toBase.pool_step he hcall
  kept := h.kept.step h.sound he hcreated
  threads := he.all_threads_iff.mpr ⟨h.threads, hcreated⟩
  started := h.started_pool he hcall hcreated
  told := h.told_pool he hcall
  gone hp := by
    rcases h.gone hp with halive | hnext
    · exact Or.inl ((he.alive_eq hcall).trans halive)
    · refine Or.inr ?_
      cases he with
      | @call c => exact absurd rfl (hcall c)
      | created hd | refused hd =>
        have hallows := h.acts _ (hd ▸ List.mem_cons_self)
        rw [show p.point = .left from hp] at hallows
        exact hallows.elim
      | started | stopped | skipped | joined | deleted | forgotten | woken | moved | notified =>
        exact hnext

/-- A call of `main` keeps what holds of the threads. -/
theorem Inv.call_step (h : Inv cfg p) (idle : p.pool.todo = []) (hp : p.point ≠ .left) (c : Call) :
    Kept (p.pool.call c) ∧ ∀ pre j post, (p.pool.call c).todo = pre ++ .join j :: post →
      ((p.pool.call c).task j).bExit = true ∨ .stop j ∈ pre :=
  ⟨h.kept.step h.sound (.call idle (h.alive hp)) (by simp), fun _ _ _ hacts =>
    Or.inr (stop_mem_of_acts hacts)⟩

/-- A step of `main` keeps the invariant. -/
theorem Inv.main_step (h : Inv cfg p) (idle : p.pool.todo = []) (he : MainEffect cfg p p') :
    Inv cfg p' := by
  have hbase := h.toBase.main_step idle he
  -- once the pool is started, no thread waits in vain between two calls
  have hsem : p.point ≠ .start → ∀ j, (p.pool.task j).thread = some .waiting →
      0 < (p.pool.task j).sem := by
    intro hp j hj
    rcases h.started j hj with hsem | hmem | hstart
    · exact hsem
    · rw [idle] at hmem
      exact absurd hmem List.not_mem_nil
    · exact absurd hstart hp
  cases he with
  | init hp =>
    obtain ⟨hkept, htold⟩ := h.call_step idle (by simp [hp]) (.init cfg.vecCore)
    exact ⟨hbase, hkept, h.threads, fun _ _ => Or.inr (Or.inr rfl), htold, by simp⟩
  | start hp =>
    obtain ⟨hkept, htold⟩ := h.call_step idle (by simp [hp]) .start
    refine ⟨hbase, hkept, h.threads, fun j hj => Or.inr (Or.inl ?_), htold, by simp⟩
    have hlt : j < p.pool.next := by
      by_contra hge
      exact absurd ((h.sound.fresh j (Nat.not_lt.mp hge)).symm.trans hj) (by simp)
    show .start j ∈ p.pool.lstTask.map Act.start
    rw [h.sound.listed (h.alive (by simp [hp]))]
    exact List.mem_map_of_mem (List.mem_range.mpr hlt)
  | clear hp =>
    obtain ⟨hkept, htold⟩ := h.call_step idle (by simp [hp]) .clear
    exact ⟨hbase, hkept, h.threads, fun j hj => Or.inl (hsem (by simp [hp]) j hj), htold, by simp⟩
  | leave hp =>
    obtain ⟨hkept, htold⟩ := h.call_step idle (by simp [hp]) .destroy
    refine ⟨hbase, hkept, h.threads, fun j hj => Or.inl (hsem (by simp [hp]) j hj), htold,
      fun _ => Or.inl ?_⟩
    simp [State.call]
  | paused | polled => exact h
  | forEver hp | untilStopped hp | forSeconds hp | stopped hp | counted hp | elapsed hp =>
    exact ⟨hbase, h.kept, h.threads, fun j hj => Or.inl (hsem (by simp [hp]) j hj), h.told, by simp⟩

/-- The program begins in these states. -/
theorem inv_begin (cfg : Config) (collected : ℤ) : Inv cfg (.begin collected) where
  toBase := base_begin cfg collected
  kept := kept_start
  threads _ hj := absurd hj (Nat.not_lt_zero _)
  started j hj := by simp [Program.begin, State.start, Task.construct] at hj
  told pre j post h := by simp [Program.begin, State.start] at h
  gone _ := Or.inr rfl

/-- **Step lemma.** Every admitted event that refuses no thread keeps the invariant. -/
theorem Inv.step (h : Inv cfg p) {e : MainEvent} (hguard : (createdMachine cfg).guard p e) :
    Inv cfg ((createdMachine cfg).step p e) := by
  obtain ⟨hguard, hcreated⟩ := hguard
  rcases program_effect hguard with ⟨-, idle, he⟩ | ⟨e', rfl, hcall, he, hstep⟩
  · exact h.main_step idle he
  · show Inv cfg ((mainMachine cfg).step p (.pool e'))
    rw [hstep]
    refine h.pool_step he hcall ?_
    rintro ret tid rfl
    exact hcreated

/-- **Run lemma.** -/
theorem inv_run {collected : ℤ} {es : List MainEvent}
    (h : (createdMachine cfg).Legal (.begin collected) es) :
    Inv cfg ((createdMachine cfg).run (.begin collected) es) :=
  h.invariant (Inv cfg) (fun _ _ hp hguard => hp.step hguard) (inv_begin cfg collected)

end FfTest.TaskPool
