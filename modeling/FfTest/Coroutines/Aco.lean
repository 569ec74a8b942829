import FfTest.Foundations.Ledger
import Mathlib.Logic.Function.Basic

/-! # libaco

The coroutine library under `CoroutineFactory`, with one share stack: handles (`aco_t`), the owner
of the share stack and the running handle `aco_gtls_co`. Switching is taken to work: a resumed
handle goes on where it last yielded. A call that breaks a rule of the library (most are assertions
in it) is recorded, and nothing that comes after it means anything. -/

namespace FfTest.Coroutines

/-- `aco_t`. -/
structure Aco where
  /-- `main_co`, which only the main handle does not have. -/
  mainCo : Option ℕ
  /-- `arg`: the `Coroutine` it belongs to. -/
  arg : Option ℕ
  /-- `is_end`. -/
  isEnd : Bool
  /-- Where it goes on: how often it has yielded. -/
  segment : ℕ
  deriving DecidableEq, Repr

/-- A rule of the library. -/
inductive Rule
  /-- `aco_resume` is not called for the main handle or for one that has ended. -/
  | resumeEnded
  /-- `aco_resume` is called by the main program. -/
  | resumeOffMain
  /-- `aco_yield` is not called by the main program. -/
  | yieldFromMain
  /-- `aco_exit` is called by the owner of the share stack. -/
  | exitNotOwner
  /-- `aco_destroy` is not called for the running handle. -/
  | destroyRunning
  deriving DecidableEq, Repr

/-- What the library hands out. -/
inductive Resource
  /-- A handle. -/
  | handle (h : ℕ)
  /-- The share stack. -/
  | stack
  deriving DecidableEq, Repr

/-- The library. -/
structure Libaco where
  /-- The handles that have not been destroyed. -/
  acos : ℕ → Option Aco
  /-- The next handle. -/
  next : ℕ
  /-- `owner` of the share stack. -/
  owner : Option ℕ
  /-- `aco_gtls_co`. -/
  gtlsCo : Option ℕ
  /-- What has been made and destroyed, newest first. -/
  ledger : List (LedgerEntry Resource)
  /-- Which handle has run which segment of its function, newest first. -/
  ran : List (ℕ × ℕ)
  /-- The rule that was broken, if any. -/
  broken : Option Rule

namespace Libaco

/-- The library of a thread that has not used it. -/
def start : Libaco := ⟨fun _ => none, 0, none, none, [], [], none⟩

/-- A rule is broken. -/
def breaks (lib : Libaco) (rule : Rule) : Libaco := { lib with broken := some rule }

/-- `aco_create`. -/
def create (lib : Libaco) (mainCo arg : Option ℕ) : ℕ × Libaco :=
  (lib.next, { lib with
    acos := Function.update lib.acos lib.next (some ⟨mainCo, arg, false, 0⟩)
    next := lib.next + 1
    ledger := .acquire (.handle lib.next) :: lib.ledger })

/-- `aco_share_stack_new`. -/
def shareStackNew (lib : Libaco) : Libaco :=
  { lib with ledger := .acquire .stack :: lib.ledger }

/-- `aco_share_stack_destroy`. -/
def shareStackDestroy (lib : Libaco) : Libaco :=
  { lib with ledger := .release .stack :: lib.ledger }

/-- The handle that is running, if it is not the main program. -/
def running (lib : Libaco) : Option ℕ :=
  match lib.gtlsCo with
  | none => none
  | some h =>
    match lib.acos h with
    | some a => if a.mainCo = none then none else some h
    | none => none

/-- `aco_resume`, up to the switch to the handle. -/
def resume (lib : Libaco) (h : ℕ) : Libaco :=
  match lib.acos h with
  | some a =>
    if a.mainCo = none ∨ a.isEnd = true then lib.breaks .resumeEnded
    else if lib.running ≠ none then lib.breaks .resumeOffMain
    else { lib with owner := some h, gtlsCo := some h, ran := (h, a.segment) :: lib.ran }
  | none => lib.breaks .resumeEnded

/-- `aco_yield`, with the end of the `aco_resume` to which it switches. -/
def yield (lib : Libaco) : Libaco :=
  match lib.gtlsCo with
  | some h =>
    match lib.acos h with
    | some ⟨some m, arg, isEnd, segment⟩ =>
      { lib with
        acos := Function.update lib.acos h (some ⟨some m, arg, isEnd, segment + 1⟩)
        gtlsCo := some m }
    | _ => lib.breaks .yieldFromMain
  | none => lib.breaks .yieldFromMain

/-- `aco_exit`, with the end of the `aco_resume` to which it switches. -/
def exit (lib : Libaco) : Libaco :=
  match lib.gtlsCo with
  | some h =>
    match lib.acos h with
    | some ⟨some m, arg, _, segment⟩ =>
      if lib.owner = some h then
        { lib with
          acos := Function.update lib.acos h (some ⟨some m, arg, true, segment⟩)
          owner := none
          gtlsCo := some m }
      else lib.breaks .exitNotOwner
    | _ => lib.breaks .yieldFromMain
  | none => lib.breaks .yieldFromMain

/-- `aco_destroy`. -/
def destroy (lib : Libaco) (h : ℕ) : Libaco :=
  if lib.running = some h then lib.breaks .destroyRunning
  else { lib with
    acos := Function.update lib.acos h none
    owner := if lib.owner = some h then none else lib.owner
    ledger := .release (.handle h) :: lib.ledger }

end Libaco

end FfTest.Coroutines
