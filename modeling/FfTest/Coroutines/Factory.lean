import FfTest.Coroutines.Aco
import FfTest.Foundations.EventMachine
import FfTest.Foundations.OrderedMap

/-! # `Coroutine` and `CoroutineFactory`

A factory keeps its `Coroutine` objects under keys and each of these keeps a handle of libaco. The
main program and the functions of the coroutines call the factory; `factoryMachine` takes the calls
one by one, each made by whoever is running. What the functions do between the calls does not
matter, so that a function is whatever it does until it returns. -/

namespace FfTest.Coroutines

/-- `Coroutine`. -/
structure Coroutine where
  /-- `m_hwnd`. -/
  hwnd : Option ℕ
  /-- `m_fp`. -/
  fp : ℕ
  /-- `m_arg`. -/
  arg : ℕ
  /-- `m_main_hwnd`. -/
  mainHwnd : ℕ
  /-- `m_is_stop`. -/
  isStop : Bool
  deriving DecidableEq, Repr

/-- `CoroutineFactory`, with its objects and the library. -/
structure State (κ : Type) [LinearOrder κ] where
  /-- The objects that have not been deleted. -/
  objects : ℕ → Option Coroutine
  /-- The next object. -/
  next : ℕ
  /-- `m_hwnd`. -/
  hwnd : ℕ
  /-- `m_map`. -/
  map : OrderedMap κ ℕ
  /-- The library. -/
  lib : Libaco
  /-- Whether the destructor has not been called. -/
  alive : Bool

namespace State

variable {κ : Type} [LinearOrder κ]

/-! ## `Coroutine` -/

/-- An object is changed or deleted. -/
def setObject (s : State κ) (o : ℕ) (c : Option Coroutine) : State κ :=
  { s with objects := Function.update s.objects o c }

/-- `new Coroutine(main_hwnd, sstk)`. -/
def newCoroutine (s : State κ) : ℕ × State κ :=
  (s.next, { s.setObject s.next (some ⟨none, 0, 0, s.hwnd, false⟩) with next := s.next + 1 })

/-- `Coroutine::create`. -/
def create (s : State κ) (o : ℕ) (routine arg : ℕ) : Bool × State κ :=
  match s.objects o with
  | some c =>
    if c.hwnd ≠ none then (false, s)
    else
      let (h, lib) := s.lib.create (some c.mainHwnd) (some o)
      (true, { s.setObject o (some { c with fp := routine, arg, hwnd := some h }) with lib })
  | none => (false, s)

/-- `delete` of a `Coroutine`. -/
def delete (s : State κ) (o : ℕ) : State κ :=
  match s.objects o with
  | some ⟨some h, _, _, _, _⟩ => { s.setObject o none with lib := s.lib.destroy h }
  | _ => s.setObject o none

/-- `Coroutine::resume`. -/
def resume (s : State κ) (o : ℕ) : State κ :=
  match s.objects o with
  | some ⟨some h, _, _, _, _⟩ => { s with lib := s.lib.resume h }
  | _ => { s with lib := s.lib.breaks .resumeEnded }

/-- `Coroutine::yield`. -/
def yield (s : State κ) : State κ := { s with lib := s.lib.yield }

/-- `Coroutine::is_stop`. -/
def isStop (s : State κ) (o : ℕ) : Bool :=
  match s.objects o with
  | some c => c.isStop
  | none => false

/-- The `Coroutine` of the handle that is running: `aco_get_arg`. -/
def getArg (s : State κ) : Option ℕ := s.lib.gtlsCo.bind fun h => (s.lib.acos h).bind Aco.arg

/-- `Coroutine::routine_proxy`, from where the function has returned. -/
def routineReturns (s : State κ) : State κ :=
  match s.getArg with
  | some o =>
    { s.setObject o ((s.objects o).map fun c => { c with isStop := true }) with
      lib := s.lib.exit }
  | none => { s with lib := s.lib.exit }

/-! ## `CoroutineFactory` -/

/-- `CoroutineFactory::CoroutineFactory`. -/
def construct : State κ :=
  let (h, lib) := Libaco.start.create none none
  ⟨fun _ => none, 0, h, .empty, lib.shareStackNew, true⟩

/-- `CoroutineFactory::cr_create`. -/
def crCreate (s : State κ) (routine arg : ℕ) (key : κ) : Bool × State κ :=
  if s.map.find? key ≠ none then (false, s)
  else
    let (o, s) := s.newCoroutine
    let (_, s) := s.create o routine arg
    let (map, ret) := s.map.insert key o
    if ret then (true, { s with map }) else (false, s.delete o)

/-- `CoroutineFactory::cr_yield`. -/
def crYield (s : State κ) (key : κ) : Bool × State κ :=
  match s.map.find? key with
  | some _ => (true, s.yield)
  | none => (false, s)

/-- `CoroutineFactory::cr_resume`. -/
def crResume (s : State κ) (key : κ) : Bool × State κ :=
  match s.map.find? key with
  | some o => (true, s.resume o)
  | none => (false, s)

/-- `CoroutineFactory::cr_is_quit`. -/
def crIsQuit (s : State κ) (key : κ) : Bool :=
  match s.map.find? key with
  | some o => s.isStop o
  | none => false

/-- `CoroutineFactory::cr_get`. -/
def crGet (s : State κ) (key : κ) : Option ℕ := s.map.find? key

/-- `CoroutineFactory::cr_remove`. -/
def crRemove (s : State κ) (key : κ) : Bool × State κ :=
  match s.map.find? key with
  | some o => (true, { s.delete o with map := s.map.erase key })
  | none => (false, s)

/-- `CoroutineFactory::empty`. -/
def empty (s : State κ) : Bool := s.map.isEmpty

/-- The loop in `CoroutineFactory::~CoroutineFactory`. -/
def deleteAll : List (κ × ℕ) → State κ → State κ
  | [], s => s
  | e :: es, s => deleteAll es (s.delete e.2)

/-- `CoroutineFactory::~CoroutineFactory`. -/
def destroy (s : State κ) : State κ :=
  let s := deleteAll s.map.entries s
  { s with lib := s.lib.shareStackDestroy.destroy s.hwnd, map := .empty, alive := false }

end State

/-! ## Runs -/

/-- What whoever is running does. -/
inductive Event (κ : Type)
  /-- `cr_create`. -/
  | create (routine arg : ℕ) (key : κ)
  /-- `cr_resume`. -/
  | resume (key : κ)
  /-- `cr_get`, and `resume` of what it has found. -/
  | getResume (key : κ)
  /-- `cr_is_quit`. -/
  | isQuit (key : κ)
  /-- `cr_yield`. -/
  | yield (key : κ)
  /-- `cr_remove`. -/
  | remove (key : κ)
  /-- `Coroutine::yield`. -/
  | yieldSelf
  /-- The function of a coroutine returns. -/
  | returns
  /-- The factory is destroyed. -/
  | destroy
  deriving DecidableEq, Repr

namespace State

variable {κ : Type} [LinearOrder κ]

/-- The result of an event, where it has one, and the state after it. -/
def act (s : State κ) : Event κ → Bool × State κ
  | .create routine arg key => s.crCreate routine arg key
  | .resume key => s.crResume key
  | .getResume key =>
    match s.crGet key with
    | some o => (true, s.resume o)
    | none => (false, s)
  | .isQuit key => (s.crIsQuit key, s)
  | .yield key => s.crYield key
  | .remove key => s.crRemove key
  | .yieldSelf => (true, s.yield)
  | .returns => (true, s.routineReturns)
  | .destroy => (true, s.destroy)

/-- Nothing happens after the destructor or after a rule was broken; functions return in
coroutines, and the main program destroys the factory. -/
def Admits (s : State κ) (e : Event κ) : Prop :=
  s.alive = true ∧ s.lib.broken = none ∧
    match e with
    | .returns => s.lib.running ≠ none
    | .destroy => s.lib.running = none
    | _ => True

instance (s : State κ) (e : Event κ) : Decidable (s.Admits e) := by
  unfold Admits
  cases e <;> infer_instance

end State

/-- The factory, its coroutines and the main program. -/
def factoryMachine (κ : Type) [LinearOrder κ] : Machine (State κ) (Event κ) :=
  ⟨fun s e => (s.act e).2, State.Admits⟩

instance {κ : Type} [LinearOrder κ] (s : State κ) (e : Event κ) :
    Decidable ((factoryMachine κ).guard s e) :=
  inferInstanceAs (Decidable (s.Admits e))

end FfTest.Coroutines
