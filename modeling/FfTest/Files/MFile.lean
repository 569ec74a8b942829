import FfTest.Foundations.EventMachine
import FfTest.Foundations.Ledger
import Mathlib.Data.Int.Notation
import Mathlib.Logic.Function.Basic

/-! # `MFile` and the descriptors of the process

Any number of `MFile` objects, told apart by their numbers, open and close files. The system keeps
the table of open descriptors. What it answers to `open` and `lseek` is passed in, as is what the
memory of an object happens to hold before it is constructed. -/

namespace FfTest.Files

/-- `MFile`. -/
structure MFile where
  /-- `m_fd`. -/
  fd : ℤ
  /-- `m_name`. -/
  name : String
  /-- `m_size`. -/
  size : BitVec 32
  deriving DecidableEq, Repr

/-- The system as far as these objects use it. -/
structure System where
  /-- The descriptors handed out to them that are open. -/
  openFds : List ℤ
  /-- Which object was handed which descriptor, and which object closed which, newest first. -/
  ledger : List (LedgerEntry (ℕ × ℤ))
  /-- The paths that were to be opened, newest first. -/
  paths : List String

namespace System

/-- `open` of the system, called by object `i`, returns `ret`. -/
def «open» (i : ℕ) (path : String) (ret : ℤ) (sys : System) : System :=
  if ret < 0 then { sys with paths := path :: sys.paths }
  else ⟨ret :: sys.openFds, .acquire (i, ret) :: sys.ledger, path :: sys.paths⟩

/-- `close` of the system, called by object `i`. -/
def close (i : ℕ) (fd : ℤ) (sys : System) : System :=
  { sys with openFds := sys.openFds.erase fd, ledger := .release (i, fd) :: sys.ledger }

end System

namespace MFile

/-- `MFile::MFile()`. -/
def construct : MFile := ⟨-1, "", 0⟩

/-- `MFile::MFile(name)`, in memory that holds `fd` and `size`: neither `m_fd` nor `m_size` is
initialised. -/
def constructNamed (name : String) (fd : ℤ) (size : BitVec 32) : MFile := ⟨fd, name, size⟩

/-- `MFile::is_open`. -/
def isOpen (f : MFile) : Bool := !(f.fd < 0)

/-- `MFile::open` of object `i`, where `open` of the system returns `fd` and `lseek` to the end
returns `size`, which is put into an `int`. -/
def «open» (i : ℕ) (fd size : ℤ) (f : MFile) (sys : System) : Bool × MFile × System :=
  let sys := sys.open i f.name fd
  if fd < 0 then (false, f, sys)
  else
    let sz := BitVec.ofInt 32 size
    if sz = -1 then (false, f, sys)
    else (true, { f with fd, size := sz }, sys)

/-- `MFile::create` of object `i`, where `open` of the system returns `fd`. -/
def create (i : ℕ) (name : String) (fd : ℤ) (f : MFile) (sys : System) : ℤ × MFile × System :=
  let sys := sys.open i name fd
  if fd < 0 then (-1, f, sys) else (0, { f with fd }, sys)

/-- `MFile::close` of object `i`. -/
def close (i : ℕ) (f : MFile) (sys : System) : ℤ × MFile × System :=
  if 0 < f.fd then (0, { f with fd := -1 }, sys.close i f.fd) else (0, f, sys)

end MFile

/-! ## Runs -/

/-- The objects and the system. -/
structure State where
  /-- The objects alive, by number. -/
  files : ℕ → Option MFile
  /-- How many objects have been constructed. -/
  next : ℕ
  /-- The system. -/
  sys : System

/-- What is done to the objects, with the answers of the system. -/
inductive Event
  /-- `MFile::MFile()`. -/
  | construct
  /-- `MFile::MFile(name)`, in memory that holds `fd` and `size`. -/
  | constructNamed (name : String) (fd : ℤ) (size : BitVec 32)
  /-- `MFile::open`, where the system returns `fd` for `open` and `size` for `lseek`. -/
  | «open» (i : ℕ) (fd size : ℤ)
  /-- `MFile::create`, where the system returns `fd` for `open`. -/
  | create (i : ℕ) (name : String) (fd : ℤ)
  /-- `MFile::close`. -/
  | close (i : ℕ)
  /-- `MFile::~MFile`. -/
  | destroy (i : ℕ)
  deriving DecidableEq, Repr

namespace State

/-- No object, and no descriptor handed out. -/
def start : State := ⟨fun _ => none, 0, ⟨[], [], []⟩⟩

/-- Object `i` and the system change. -/
def update (s : State) (i : ℕ) (f : Option MFile) (sys : System) : State :=
  { s with files := Function.update s.files i f, sys }

/-- An object is constructed. -/
def made (s : State) (f : MFile) : State :=
  { s.update s.next (some f) s.sys with next := s.next + 1 }

/-- The step of an event. -/
def step (s : State) : Event → State
  | .construct => s.made .construct
  | .constructNamed name fd size => s.made (.constructNamed name fd size)
  | .open i fd size =>
    match s.files i with
    | some f =>
      let (_, f', sys) := f.open i fd size s.sys
      s.update i (some f') sys
    | none => s
  | .create i name fd =>
    match s.files i with
    | some f =>
      let (_, f', sys) := f.create i name fd s.sys
      s.update i (some f') sys
    | none => s
  | .close i =>
    match s.files i with
    | some f =>
      let (_, f', sys) := f.close i s.sys
      s.update i (some f') sys
    | none => s
  | .destroy i =>
    match s.files i with
    | some f =>
      let (_, _, sys) := f.close i s.sys
      s.update i none sys
    | none => s

/-- Only objects that are alive are used; the system hands out a descriptor that is not open. -/
def Admits (s : State) : Event → Prop
  | .construct | .constructNamed .. => True
  | .open i fd _ | .create i _ fd => s.files i ≠ none ∧ fd ∉ s.sys.openFds
  | .close i | .destroy i => s.files i ≠ none

instance (s : State) : ∀ e, Decidable (s.Admits e)
  | .construct | .constructNamed .. => isTrue trivial
  | .open .. | .create .. => inferInstanceAs (Decidable (_ ∧ _))
  | .close _ | .destroy _ => inferInstanceAs (Decidable (_ ≠ _))

end State

/-- The objects under any sequence of operations and any answers of the system. -/
def fileMachine : Machine State Event := ⟨State.step, State.Admits⟩

instance (s : State) (e : Event) : Decidable (fileMachine.guard s e) :=
  inferInstanceAs (Decidable (s.Admits e))

end FfTest.Files
