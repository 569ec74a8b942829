import FfTest.TaskPool.CommandLine
import FfTest.TaskPool.Threads
import Mathlib.Data.Finset.Insert

/-! # Binding the threads to cores

A core goes from the argument of `-c` through `m_vecCore`, the `uint8_t` of `Task::set_affinity`,
`1 << m_core_id` and the `uint8_t` mask of `util_cpu_bind` into a CPU set. The mask has no room for
cores above 7, and `Task::init` does not look at what comes of the binding. `coresPinned_iff` says
for which arguments, and which answers of the system, every thread is bound to its core.

A shift that is not defined ends the model with `none`. -/

namespace FfTest.TaskPool

namespace Task

/-- `Task::init` leaves `m_core_id` alone. -/
theorem init_coreId (t : Task) (ret : ℤ) (tid : ℕ) : (t.init ret tid).coreId = t.coreId := by
  by_cases hret : ret < 0
  · rw [init, if_pos hret]
  · rw [init, if_neg hret]

/-- There is a thread iff `pthread_create` has returned 0. -/
theorem init_thread_ne_none_iff (t : Task) (ret : ℤ) (tid : ℕ) :
    (t.init ret tid).thread ≠ none ↔ ret = 0 := by
  have hthread : (t.init ret tid).thread = if ret = 0 then some .waiting else none := by
    by_cases hret : ret < 0
    · rw [init, if_pos hret]
    · rw [init, if_neg hret]
  rw [hthread]
  split <;> simp_all

/-- `m_tid` is what `pthread_create` leaves there, if `Task::init` does not clear it. -/
theorem init_tid (t : Task) {ret : ℤ} (hret : ¬ ret < 0) (tid : ℕ) :
    (t.init ret tid).tid = tid := by
  rw [init, if_neg hret]

end Task

namespace Pinning

/-! ## The source -/

/-- The CPU sets of the threads, by thread identifier. -/
abbrev Affinities := ℕ → Finset ℕ

/-- What the system answers for a task. -/
structure Answers where
  /-- `pthread_create`. -/
  create : ℤ
  /-- What `m_tid` holds when that fails. -/
  tid : ℕ
  /-- `pthread_setaffinity_np`. -/
  setaffinity : ℤ
  deriving DecidableEq, Repr

/-- `1 << n`, where it is defined. -/
def shiftOne (n : ℕ) : Option (BitVec 32) := if n < 32 then some (1#32 <<< n) else none

/-- The loop of `util_cpu_bind`, after so many rounds. -/
def cpuset (mask : BitVec 8) : ℕ → Finset ℕ
  | 0 => ∅
  | i + 1 =>
    if mask.setWidth 32 &&& 1#32 <<< i ≠ 0 then insert i (cpuset mask i) else cpuset mask i

/-- `util_cpu_bind`, where `pthread_setaffinity_np` returns `ret`. -/
def utilCpuBind (tid : ℕ) (mask : BitVec 8) (ret : ℤ) (aff : Affinities) : ℤ × Affinities :=
  if ret ≠ 0 then (-1, aff) else (0, Function.update aff tid (cpuset mask 8))

/-- `Task::set_affinity`. -/
def setAffinity (t : Task) (core : ℤ) (ret : ℤ) (aff : Affinities) :
    Option (Bool × Task × Affinities) :=
  let t := t.setAffinity core
  if t.tid ≠ 0 then
    match shiftOne t.coreId.toNat with
    | none => none
    | some shifted =>
      let (rc, aff) := utilCpuBind t.tid (shifted.setWidth 8) ret aff
      some (rc = 0, t, aff)
  else some (true, t, aff)

/-- A task that `TaskPool::init` has made. -/
structure Made where
  /-- The task. -/
  task : Task
  /-- What `Task::init` has returned. -/
  returned : Bool
  /-- The mask that it has passed to `util_cpu_bind`, if it has called it. -/
  mask : Option (BitVec 8)
  deriving DecidableEq, Repr

/-- `Task::init` of task `j`. A new thread has the CPU set `inherited` of the controlling thread. -/
def taskInit (inherited : Finset ℕ) (j : ℕ) (t : Task) (a : Answers) (aff : Affinities) :
    Option (Made × Affinities) :=
  let aff := if a.create = 0 then Function.update aff (j + 1) inherited else aff
  let t := t.init a.create (if a.create = 0 then j + 1 else a.tid)
  if a.create < 0 then some (⟨t, false, none⟩, aff)
  else
    match shiftOne t.coreId.toNat with
    | none => none
    | some shifted =>
      -- the result of `util_cpu_bind` is not looked at
      let (_, aff) := utilCpuBind t.tid (shifted.setWidth 8) a.setaffinity aff
      some (⟨t, true, some (shifted.setWidth 8)⟩, aff)

/-- The body of the loop in `TaskPool::init`: neither result is looked at. -/
def round (inherited : Finset ℕ) (j : ℕ) (core : ℤ) (a : Answers) (aff : Affinities) :
    Option (Made × Affinities) :=
  match setAffinity .construct core a.setaffinity aff with
  | none => none
  | some (_, t, aff) => taskInit inherited j t a aff

/-- The loop in `TaskPool::init`, with the tasks made so far. -/
def initLoop (inherited : Finset ℕ) (ans : ℕ → Answers) :
    List ℤ → List Made → Affinities → Option (List Made × Affinities)
  | [], made, aff => some (made, aff)
  | core :: cores, made, aff =>
    match round inherited made.length core (ans made.length) aff with
    | none => none
    | some (m, aff) => initLoop inherited ans cores (made ++ [m]) aff

/-- `TaskPool::init`. -/
def poolInit (inherited : Finset ℕ) (ans : ℕ → Answers) (cfg : Config) (aff : Affinities) :
    Option (List Made × Affinities) :=
  initLoop inherited ans cfg.vecCore [] aff

/-! ## The mask -/

/-- The test in the loop of `util_cpu_bind`. -/
theorem and_shiftLeft_ne_zero {mask : BitVec 8} {i : ℕ} (hi : i < 32) :
    mask.setWidth 32 &&& 1#32 <<< i ≠ 0 ↔ mask.getLsbD i = true := by
  have hpow : BitVec.twoPow 32 i ≠ 0#32 := by
    intro h
    have hbit := congrArg (BitVec.getLsbD · i) h
    simp [hi] at hbit
  have hget : (mask.setWidth 32).getLsbD i = mask.getLsbD i := by
    rw [BitVec.getLsbD_setWidth, decide_eq_true hi, Bool.true_and]
  rw [← BitVec.twoPow_eq, BitVec.and_twoPow, hget]
  cases mask.getLsbD i with
  | false => simp
  | true => simpa using hpow

/-- The CPU set has the bits of the mask. -/
theorem mem_cpuset {mask : BitVec 8} {k n : ℕ} (hn : n ≤ 32) :
    k ∈ cpuset mask n ↔ k < n ∧ mask.getLsbD k = true := by
  induction n with
  | zero => simp [cpuset]
  | succ n ih =>
    rw [cpuset]
    by_cases hbit : mask.getLsbD n = true
    · rw [if_pos ((and_shiftLeft_ne_zero (by omega)).mpr hbit), Finset.mem_insert, ih (by omega)]
      constructor
      · rintro (rfl | ⟨hk, hmask⟩)
        · exact ⟨Nat.lt_succ_self _, hbit⟩
        · exact ⟨by omega, hmask⟩
      · rintro ⟨hk, hmask⟩
        rcases Nat.eq_or_lt_of_le (Nat.le_of_lt_succ hk) with rfl | hk
        · exact Or.inl rfl
        · exact Or.inr ⟨hk, hmask⟩
    · rw [if_neg (mt (and_shiftLeft_ne_zero (by omega)).mp hbit), ih (by omega)]
      refine and_congr_left fun hmask => ⟨fun hk => by omega, fun hk => ?_⟩
      rcases Nat.eq_or_lt_of_le (Nat.le_of_lt_succ hk) with rfl | hk
      · exact absurd hmask hbit
      · exact hk

/-- What is left of a core in the mask. -/
theorem toNat_mask {k : ℕ} (hk : k < 32) :
    ((1#32 <<< k).setWidth 8).toNat = if k < 8 then 2 ^ k else 0 := by
  rw [← BitVec.twoPow_eq, BitVec.toNat_setWidth, BitVec.toNat_twoPow_of_lt hk]
  split
  · rename_i hlt
    exact Nat.mod_eq_of_lt (Nat.pow_lt_pow_right (by decide) hlt)
  · rename_i hge
    exact Nat.mod_eq_zero_of_dvd (Nat.pow_dvd_pow 2 (Nat.not_lt.mp hge))

/-- The mask has no room for cores above 7. -/
theorem lt_of_toNat {mask : BitVec 8} {k : ℕ} (h : mask.toNat = 2 ^ k) : k < 8 := by
  by_contra hge
  have hle : 2 ^ 8 ≤ 2 ^ k := Nat.pow_le_pow_right (by decide) (Nat.not_lt.mp hge)
  have hlt := mask.isLt
  omega

/-- A mask with a single bit stands for a single core. -/
theorem cpuset_of_toNat {mask : BitVec 8} {k : ℕ} (h : mask.toNat = 2 ^ k) :
    cpuset mask 8 = {k} := by
  have hk := lt_of_toNat h
  ext i
  rw [mem_cpuset (by decide), Finset.mem_singleton, BitVec.getLsbD, h, Nat.testBit_two_pow,
    decide_eq_true_iff]
  constructor
  · rintro ⟨-, rfl⟩
    rfl
  · rintro rfl
    exact ⟨hk, rfl⟩

/-! ## What a round does -/

/-- `m_core_id`, once `set_affinity` has been given the core. -/
def coreId (core : ℤ) : ℕ := (BitVec.ofInt 8 core).toNat

/-- The mask that `Task::init` passes on for the core. -/
def maskOf (core : ℤ) : BitVec 8 := (1#32 <<< coreId core).setWidth 8

/-- What round `j` makes. -/
def madeOf (j : ℕ) (core : ℤ) (a : Answers) : Made :=
  ⟨(Task.construct.setAffinity core).init a.create (if a.create = 0 then j + 1 else a.tid),
    !decide (a.create < 0), if a.create < 0 then none else some (maskOf core)⟩

/-- `m_core_id` of a task. -/
theorem madeOf_coreId (j : ℕ) (core : ℤ) (a : Answers) :
    (madeOf j core a).task.coreId.toNat = coreId core := by
  show (Task.init _ _ _).coreId.toNat = coreId core
  rw [Task.init_coreId]
  rfl

/-- The CPU sets when a thread has been created in round `j`. -/
def created (inherited : Finset ℕ) (j : ℕ) (a : Answers) (aff : Affinities) : Affinities :=
  if a.create = 0 then Function.update aff (j + 1) inherited else aff

/-- The CPU sets after round `j`. -/
def boundIn (inherited : Finset ℕ) (j : ℕ) (core : ℤ) (a : Answers) (aff : Affinities) :
    Affinities :=
  if a.create < 0 ∨ a.setaffinity ≠ 0 then created inherited j a aff
  else Function.update (created inherited j a aff) (madeOf j core a).task.tid
    (cpuset (maskOf core) 8)

/-- **What a round does.** It goes wrong where a thread is to be bound and the shift is not
defined. -/
theorem round_eq (inherited : Finset ℕ) (j : ℕ) (core : ℤ) (a : Answers) (aff : Affinities) :
    round inherited j core a aff =
      if a.create < 0 ∨ coreId core < 32 then
        some (madeOf j core a, boundIn inherited j core a aff)
      else none := by
  have hround : round inherited j core a aff =
      taskInit inherited j (Task.construct.setAffinity core) a aff := rfl
  have hcore : ((Task.construct.setAffinity core).init a.create
      (if a.create = 0 then j + 1 else a.tid)).coreId.toNat = coreId core :=
    madeOf_coreId j core a
  rw [hround, taskInit, madeOf, boundIn, madeOf, hcore]
  by_cases hrefused : a.create < 0
  · simp only [hrefused, if_true, true_or, decide_true, Bool.not_true]
    rfl
  · simp only [hrefused, if_false, false_or, decide_false, Bool.not_false, shiftOne]
    by_cases hshift : coreId core < 32
    · simp only [if_pos hshift, utilCpuBind]
      by_cases hret : a.setaffinity = 0
      · simp only [hret, ne_eq, not_true_eq_false, if_false]
        rfl
      · simp only [hret, ne_eq, not_false_eq_true, if_true]
        rfl
    · simp only [if_neg hshift]

/-- `m_tid` of a task whose thread was created. -/
theorem madeOf_tid {j : ℕ} {core : ℤ} {a : Answers} (ha : a.create = 0) :
    (madeOf j core a).task.tid = j + 1 := by
  show (Task.init _ a.create (if a.create = 0 then j + 1 else a.tid)).tid = j + 1
  rw [Task.init_tid _ (by omega), if_pos ha]

/-- What `Task::init` has passed to `util_cpu_bind`. -/
theorem madeOf_mask {j : ℕ} {core : ℤ} {a : Answers} (ha : ¬ a.create < 0) :
    (madeOf j core a).mask = some (maskOf core) := if_neg ha

/-- `Task::init` has returned false iff the answer of `pthread_create` is negative. -/
theorem madeOf_returned {j : ℕ} {core : ℤ} {a : Answers} :
    (madeOf j core a).returned = false ↔ a.create < 0 := by
  simp [madeOf]

/-- The task is the one that the pool goes on with. -/
theorem create_task {s : State} {core : ℤ} {todo : List Act} (h : s.todo = .create core :: todo)
    (a : Answers) :
    (s.create a.create a.tid).task s.next = (madeOf s.next core a).task := by
  simp only [State.create, h, State.update, Function.update_self]
  rfl

/-! ## The whole loop -/

/-- The CPU set of the thread that was created for the core. -/
def boundTo (inherited : Finset ℕ) (core : ℤ) (a : Answers) : Finset ℕ :=
  if a.setaffinity = 0 then cpuset (maskOf core) 8 else inherited

/-- What holds when the loop has dealt with these cores. -/
structure Done (inherited : Finset ℕ) (ans : ℕ → Answers) (cores : List ℤ) (made : List Made)
    (aff : Affinities) : Prop where
  /-- Every shift was defined. -/
  defined : ∀ j core, cores[j]? = some core → (ans j).create < 0 ∨ coreId core < 32
  /-- The tasks have been made. -/
  made : made = cores.mapIdx fun j core => madeOf j core (ans j)
  /-- Every thread has its CPU set, unless a later `pthread_create` has failed and left the
  identifier of this thread in `m_tid`. -/
  bound : ∀ j core, cores[j]? = some core → (ans j).create = 0 →
    (∀ i < cores.length, j < i → (ans i).create ≤ 0 ∨ (ans i).tid ≠ j + 1) →
    aff (j + 1) = boundTo inherited core (ans j)

/-- A round leaves the CPU set of another thread alone, unless a failed `pthread_create` leaves the
identifier of that thread. -/
theorem boundIn_of_ne {inherited : Finset ℕ} {j : ℕ} {core : ℤ} {a : Answers} {aff : Affinities}
    {tid : ℕ} (hne : tid ≠ j + 1) (ha : a.create ≤ 0 ∨ a.tid ≠ tid) :
    boundIn inherited j core a aff tid = aff tid := by
  have hcreated : created inherited j a aff tid = aff tid := by
    unfold created
    split
    · exact Function.update_of_ne hne ..
    · rfl
  rw [boundIn]
  split
  · exact hcreated
  · rename_i hbind
    have htid : tid ≠ (madeOf j core a).task.tid := by
      show tid ≠ (Task.init _ a.create (if a.create = 0 then j + 1 else a.tid)).tid
      rw [Task.init_tid _ (by omega)]
      split
      · exact hne
      · exact (ha.resolve_left (by omega)).symm
    rw [Function.update_of_ne htid, hcreated]

/-- A round gives a new thread its CPU set. -/
theorem boundIn_self {inherited : Finset ℕ} {j : ℕ} {core : ℤ} {a : Answers} {aff : Affinities}
    (ha : a.create = 0) : boundIn inherited j core a aff (j + 1) = boundTo inherited core a := by
  rw [boundIn, boundTo, created, if_pos ha, madeOf_tid ha]
  by_cases hret : a.setaffinity = 0
  · rw [if_neg (by omega), if_pos hret, Function.update_self]
  · rw [if_pos (Or.inr hret), if_neg hret, Function.update_self]

/-- What stands in a list with one more element. -/
theorem getElem?_concat_cases {α : Type*} {as : List α} {a b : α} {j : ℕ}
    (h : (as ++ [a])[j]? = some b) : as[j]? = some b ∨ j = as.length ∧ a = b := by
  rw [List.getElem?_append] at h
  split at h
  · exact Or.inl h
  · rw [List.getElem?_singleton] at h
    split at h
    · exact Or.inr ⟨by omega, Option.some_inj.mp h⟩
    · cases h

/-- **Step lemma.** A round adds its core to those that have been dealt with. -/
theorem Done.round {inherited : Finset ℕ} {ans : ℕ → Answers} {cores : List ℤ} {made : List Made}
    {aff : Affinities} (h : Done inherited ans cores made aff) {core : ℤ} {m : Made}
    {aff' : Affinities}
    (hround : Pinning.round inherited made.length core (ans made.length) aff = some (m, aff')) :
    Done inherited ans (cores ++ [core]) (made ++ [m]) aff' := by
  have hlength : made.length = cores.length := by
    rw [h.made, List.length_mapIdx]
  rw [round_eq, hlength] at hround
  split at hround
  case isFalse => cases hround
  case isTrue hdefined =>
    cases hround
    constructor
    · intro j c hj
      rcases getElem?_concat_cases hj with hj | ⟨rfl, rfl⟩
      · exact h.defined j c hj
      · exact hdefined
    · rw [List.mapIdx_concat, h.made]
    · intro j c hj hcreate hlater
      rw [List.length_append, List.length_singleton] at hlater
      rcases getElem?_concat_cases hj with hj | ⟨rfl, rfl⟩
      · have hlt : j < cores.length := (List.getElem?_eq_some_iff.mp hj).1
        rw [boundIn_of_ne (by omega) (hlater _ (Nat.lt_succ_self _) hlt)]
        exact h.bound j c hj hcreate fun i hi => hlater i (Nat.lt_succ_of_lt hi)
      · exact boundIn_self hcreate

/-- **Run lemma.** The loop deals with all the cores that are left. -/
theorem Done.initLoop {inherited : Finset ℕ} {ans : ℕ → Answers} {rest : List ℤ} :
    ∀ {cores : List ℤ} {made made' : List Made} {aff aff' : Affinities},
      Done inherited ans cores made aff →
      Pinning.initLoop inherited ans rest made aff = some (made', aff') →
        Done inherited ans (cores ++ rest) made' aff' := by
  induction rest with
  | nil =>
    intro cores made made' aff aff' h hloop
    cases hloop
    rwa [List.append_nil]
  | cons core rest ih =>
    intro cores made made' aff aff' h hloop
    rw [Pinning.initLoop] at hloop
    cases hround : Pinning.round inherited made.length core (ans made.length) aff with
    | none =>
      rw [hround] at hloop
      cases hloop
    | some out =>
      obtain ⟨m, aff₁⟩ := out
      rw [hround] at hloop
      have hdone := ih (h.round hround) hloop
      rwa [List.append_assoc] at hdone

/-- The loop ends where every shift that it comes to is defined. -/
theorem exists_initLoop (inherited : Finset ℕ) {ans : ℕ → Answers} {cores : List ℤ} :
    ∀ {made : List Made} (aff : Affinities),
      (∀ j core, cores[j]? = some core →
        (ans (made.length + j)).create < 0 ∨ coreId core < 32) →
      ∃ made' aff', initLoop inherited ans cores made aff = some (made', aff') := by
  induction cores with
  | nil => exact fun _ _ => ⟨_, _, rfl⟩
  | cons core cores ih =>
    intro made aff hdefined
    have hround := round_eq inherited made.length core (ans made.length) aff
    have hfirst : (ans made.length).create < 0 ∨ coreId core < 32 := hdefined 0 core rfl
    rw [if_pos hfirst] at hround
    rw [initLoop, hround]
    refine ih _ fun j c hj => ?_
    have hnext := hdefined (j + 1) c hj
    rw [List.length_append, List.length_singleton, Nat.add_assoc, Nat.add_comm 1]
    exact hnext

/-! ## From the argument to the CPU set -/

/-- Core `k` has come through, and the thread of the task is bound to it and to nothing else, or
`Task::init` has returned false. -/
structure PinnedTo (m : Made) (aff : Affinities) (k : ℕ) : Prop where
  /-- `m_core_id` is the core. -/
  coreId_eq : m.task.coreId.toNat = k
  /-- A mask passed to `util_cpu_bind` is that of the core. -/
  mask_eq : ∀ mask ∈ m.mask, mask.toNat = 2 ^ k
  /-- The thread is bound, or a failure reported. -/
  bound : m.returned = false ∨ m.task.thread ≠ none ∧ aff m.task.tid = {k}

/-- After `TaskPool::init`, every character of the argument `s` has its core in `m_vecCore` and a
task that is pinned to it; no shift was undefined. -/
def CoresPinned (inherited : Finset ℕ) (ans : ℕ → Answers) (aff : Affinities) (cfg : Config)
    (s : List Byte) : Prop :=
  ∃ made aff', poolInit inherited ans cfg aff = some (made, aff') ∧
    ∀ (i : ℕ) (c : Byte), s[i]? = some c → ∃ (k : ℕ) (m : Made), (k : ℤ) = c.toInt - 48 ∧
      cfg.vecCore[i]? = some (k : ℤ) ∧ made[i]? = some m ∧ PinnedTo m aff' k

/-- The character is a digit up to 7, and the thread is created and can be bound to the core, or has
been created with just this CPU set. A negative answer of `pthread_create`, which has none, would be
reported. -/
def Pinnable (inherited : Finset ℕ) (a : Answers) (c : Byte) : Prop :=
  0 ≤ c.toInt - 48 ∧ (a.create < 0 ∨ a.create = 0 ∧ c.toInt - 48 ≤ 7 ∧
    (a.setaffinity = 0 ∨ inherited = {(c.toInt - 48).toNat}))

/-- `uint8_t` keeps the cores that are not negative. -/
theorem coreId_of_nonneg {c : Byte} (hc : 0 ≤ c.toInt - 48) :
    coreId (Config.coreOf c) = (c.toInt - 48).toNat := by
  have hlt := BitVec.toInt_lt (x := c)
  rw [coreId, Config.coreOf, BitVec.toNat_ofInt]
  omega

/-- No thread is created for a pinned task but with the answer 0. -/
theorem PinnedTo.create_nonpos {j k : ℕ} {core : ℤ} {a : Answers} {aff : Affinities}
    (h : PinnedTo (madeOf j core a) aff k) : a.create ≤ 0 := by
  rcases h.bound with hreturned | ⟨hthread, -⟩
  · exact (madeOf_returned.mp hreturned).le
  · exact ((Task.init_thread_ne_none_iff ..).mp hthread).le

/-- A pinned task tells what the system has answered. -/
theorem PinnedTo.pinnable {inherited : Finset ℕ} {a : Answers} {j k : ℕ} {c : Byte}
    {aff : Affinities} (h : PinnedTo (madeOf j (Config.coreOf c) a) aff k)
    (hk : (k : ℤ) = c.toInt - 48)
    (hbound : a.create = 0 → aff (j + 1) = boundTo inherited (Config.coreOf c) a) :
    Pinnable inherited a c := by
  refine ⟨by omega, ?_⟩
  rcases h.create_nonpos.lt_or_eq with hneg | hcreate
  · exact Or.inl hneg
  · have hmask : (maskOf (Config.coreOf c)).toNat = 2 ^ k :=
      h.mask_eq _ (madeOf_mask (by omega))
    have hlt := lt_of_toNat hmask
    have htoNat : (c.toInt - 48).toNat = k := by omega
    refine Or.inr ⟨hcreate, by omega, ?_⟩
    rcases h.bound with hreturned | ⟨-, haff⟩
    · have hneg := madeOf_returned.mp hreturned
      omega
    · rw [madeOf_tid hcreate, hbound hcreate, boundTo] at haff
      split at haff
      · rename_i hret
        exact Or.inl hret
      · rw [htoNat]
        exact Or.inr haff

/-- A task is pinned where that is possible. -/
theorem Pinnable.pinnedTo {inherited : Finset ℕ} {a : Answers} {j : ℕ} {c : Byte}
    {aff : Affinities} (h : Pinnable inherited a c)
    (hbound : a.create = 0 → aff (j + 1) = boundTo inherited (Config.coreOf c) a) :
    PinnedTo (madeOf j (Config.coreOf c) a) aff (c.toInt - 48).toNat := by
  obtain ⟨hnonneg, hanswers⟩ := h
  have hcore := coreId_of_nonneg hnonneg
  rcases hanswers with hneg | ⟨hcreate, hle, hbind⟩
  · refine ⟨(madeOf_coreId ..).trans hcore, ?_, Or.inl ?_⟩
    · intro mask hmem
      have hnone : (madeOf j (Config.coreOf c) a).mask = none := if_pos hneg
      rw [hnone] at hmem
      cases hmem
    · exact madeOf_returned.mpr hneg
  · have hmask : (maskOf (Config.coreOf c)).toNat = 2 ^ (c.toInt - 48).toNat := by
      rw [maskOf, hcore, toNat_mask (by omega), if_pos (by omega)]
    refine ⟨(madeOf_coreId ..).trans hcore, ?_, Or.inr ⟨?_, ?_⟩⟩
    · intro mask hmem
      rw [madeOf_mask (by omega)] at hmem
      cases hmem
      exact hmask
    · exact (Task.init_thread_ne_none_iff ..).mpr hcreate
    · rw [madeOf_tid hcreate, hbound hcreate, boundTo]
      split
      · exact cpuset_of_toNat hmask
      · rename_i hret
        exact hbind.resolve_left hret

/-- The task of a character. -/
theorem Done.getElem?_made {inherited : Finset ℕ} {ans : ℕ → Answers} {s : List Byte}
    {made : List Made} {aff : Affinities} (h : Done inherited ans (s.map Config.coreOf) made aff)
    {i : ℕ} {c : Byte} (hc : s[i]? = some c) :
    made[i]? = some (madeOf i (Config.coreOf c) (ans i)) := by
  rw [h.made, List.getElem?_mapIdx, List.getElem?_map, hc]
  rfl

/-- **Which characters pin their threads.** The other characters do not matter, as long as no later
`pthread_create` fails and leaves the identifier of this thread. -/
theorem Done.pinnedTo_iff {inherited : Finset ℕ} {ans : ℕ → Answers} {s : List Byte}
    {made : List Made} {aff : Affinities} (h : Done inherited ans (s.map Config.coreOf) made aff)
    {i : ℕ} {c : Byte} (hc : s[i]? = some c)
    (hlater : ∀ j < s.length, i < j → (ans j).create ≤ 0 ∨ (ans j).tid ≠ i + 1) :
    (∃ (k : ℕ) (m : Made), (k : ℤ) = c.toInt - 48 ∧ made[i]? = some m ∧ PinnedTo m aff k) ↔
      Pinnable inherited (ans i) c := by
  have hcore : (s.map Config.coreOf)[i]? = some (Config.coreOf c) := by
    rw [List.getElem?_map, hc]
    rfl
  have hbound : (ans i).create = 0 → aff (i + 1) = boundTo inherited (Config.coreOf c) (ans i) := by
    intro hcreate
    refine h.bound i _ hcore hcreate ?_
    rwa [List.length_map]
  constructor
  · rintro ⟨k, m, hk, hm, hpin⟩
    rw [h.getElem?_made hc] at hm
    cases hm
    exact hpin.pinnable hk hbound
  · intro hpinnable
    exact ⟨_, _, Int.toNat_of_nonneg hpinnable.1, h.getElem?_made hc, hpinnable.pinnedTo hbound⟩

/-- **Which arguments pin their threads.** For every command line whose last `-c` has the argument
`s`, and all answers of the system: all cores of `s` are pinned iff every character of it is a core
that the mask has room for and the system lets its thread be bound. -/
theorem coresPinned_iff {opts : List (Char × List Byte)} {cfg : Config} {s : List Byte}
    (hs : Config.coreArgument opts = some s) {inherited : Finset ℕ} {ans : ℕ → Answers}
    {aff : Affinities} :
    CoresPinned inherited ans aff (Config.parse opts cfg).2 s ↔
      ∀ (i : ℕ) (c : Byte), s[i]? = some c → Pinnable inherited (ans i) c := by
  have hcores : (Config.parse opts cfg).2.vecCore = s.map Config.coreOf := by
    rw [Config.parse_vecCore, hs]
    rfl
  have hstart : Done inherited ans [] [] aff := ⟨nofun, rfl, nofun⟩
  unfold CoresPinned poolInit
  rw [hcores]
  constructor
  · rintro ⟨made, aff', hrun, hall⟩
    have hdone := hstart.initLoop hrun
    rw [List.nil_append] at hdone
    -- no `pthread_create` has left an identifier, so that all threads kept their CPU sets
    have hcreate : ∀ j < s.length, (ans j).create ≤ 0 := by
      intro j hj
      obtain ⟨k, m, -, -, hm, hpin⟩ := hall j s[j] (List.getElem?_eq_getElem hj)
      rw [hdone.getElem?_made (List.getElem?_eq_getElem hj)] at hm
      cases hm
      exact hpin.create_nonpos
    intro i c hc
    obtain ⟨k, m, hk, -, hm, hpin⟩ := hall i c hc
    exact (hdone.pinnedTo_iff hc fun j hj _ => Or.inl (hcreate j hj)).mp ⟨k, m, hk, hm, hpin⟩
  · intro hall
    have hdefined : ∀ (j : ℕ) (core : ℤ), (s.map Config.coreOf)[j]? = some core →
        (ans (([] : List Made).length + j)).create < 0 ∨ coreId core < 32 := by
      intro j core hj
      rw [List.getElem?_map] at hj
      obtain ⟨c, hc, rfl⟩ := Option.map_eq_some_iff.mp hj
      obtain ⟨hnonneg, hanswers⟩ := hall j c hc
      rw [List.length_nil, Nat.zero_add, coreId_of_nonneg hnonneg]
      omega
    obtain ⟨made, aff', hrun⟩ := exists_initLoop inherited aff hdefined
    have hdone := hstart.initLoop hrun
    rw [List.nil_append] at hdone
    have hcreate : ∀ j < s.length, (ans j).create ≤ 0 := by
      intro j hj
      have hanswers := (hall j s[j] (List.getElem?_eq_getElem hj)).2
      omega
    refine ⟨made, aff', hrun, fun i c hc => ?_⟩
    obtain ⟨k, m, hk, hm, hpin⟩ :=
      (hdone.pinnedTo_iff hc fun j hj _ => Or.inl (hcreate j hj)).mpr (hall i c hc)
    refine ⟨k, m, hk, ?_, hm, hpin⟩
    rw [List.getElem?_map, hc, hk]
    rfl

/-- `-c 07` pins one thread to core 0 and one to core 7. -/
theorem coresPinned_zeroSeven :
    CoresPinned {0, 1, 2, 3, 4, 5, 6, 7} (fun _ => ⟨0, 0, 0⟩) (fun _ => ∅)
      (Config.parse [('c', [48, 55])] (.construct 0)).2 [48, 55] := by
  refine (coresPinned_iff rfl).mpr fun i c hc => ?_
  rcases List.mem_pair.mp (List.mem_of_getElem? hc) with rfl | rfl
  · exact ⟨by decide, Or.inr ⟨rfl, by decide, Or.inl rfl⟩⟩
  · exact ⟨by decide, Or.inr ⟨rfl, by decide, Or.inl rfl⟩⟩

/-- `-c 8` gives an empty mask, which `pthread_setaffinity_np` refuses with `EINVAL`; nothing is
reported. -/
theorem not_coresPinned :
    ¬ ∀ (opts : List (Char × List Byte)) (cfg : Config) (s : List Byte) (inherited : Finset ℕ)
      (ans : ℕ → Answers) (aff : Affinities), Config.coreArgument opts = some s →
        CoresPinned inherited ans aff (Config.parse opts cfg).2 s := by
  intro hall
  obtain ⟨made, aff', hrun, hpinned⟩ := hall [('c', [56])] (.construct 0) [56] {0, 1, 2, 3}
    (fun _ => ⟨0, 0, 22⟩) (fun _ => ∅) rfl
  have hmade : poolInit {0, 1, 2, 3} (fun _ => ⟨0, 0, 22⟩)
      (Config.parse [('c', [56])] (.construct 0)).2 (fun _ => ∅) =
        some ([madeOf 0 8 ⟨0, 0, 22⟩], Function.update (fun _ => ∅) 1 {0, 1, 2, 3}) := rfl
  rw [hmade] at hrun
  cases hrun
  obtain ⟨k, m, -, -, hm, hpin⟩ := hpinned 0 56 rfl
  cases hm
  have hmask : (0#8).toNat = 2 ^ k := hpin.mask_eq _ rfl
  exact absurd hmask.symm (Nat.two_pow_pos k).ne'

end Pinning

end FfTest.TaskPool
