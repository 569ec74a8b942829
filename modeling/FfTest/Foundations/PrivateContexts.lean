import Mathlib.Logic.Function.Basic

/-! # Parties with contexts of their own

A main program and any number of coroutines take turns on one processor. Each has registers, and
each coroutine a stack, that nobody else touches; to switch only means that somebody else is
running. This is what a library of coroutines is for, whatever it does to get there.

`Private.step_ctx` is the rule that such a library offers: while a coroutine is not running, and
nobody speaks of it, its context stays as it is. -/

namespace FfTest

/-- What belongs to one coroutine. -/
inductive Context (ρ τ : Type*)
  /-- Registers and a stack. -/
  | alive (reg : ρ) (stack : τ)
  /-- Nothing is left. -/
  | ended
  deriving DecidableEq, Repr

/-- The parties. -/
structure Private (ι ρ τ : Type*) where
  /-- The registers of the main program. -/
  main : ρ
  /-- The coroutines. -/
  ctx : ι → Option (Context ρ τ)
  /-- The coroutine that is running, if not the main program. -/
  running : Option ι

/-- What the parties do. -/
inductive Action (ι ρ τ : Type*)
  /-- Nothing that concerns anybody's context. -/
  | idle
  /-- A coroutine is made. -/
  | create (i : ι) (reg : ρ) (stack : τ)
  /-- The main program lets a coroutine run. -/
  | resume (i : ι)
  /-- Whoever is running changes its context; the main program has no stack here. -/
  | work (reg : ρ) (stack : τ)
  /-- The main program is let run. -/
  | yield
  /-- The same, for good. -/
  | exit
  /-- A coroutine is taken away. -/
  | destroy (i : ι)
  deriving DecidableEq, Repr

namespace Private

variable {ι ρ τ : Type*} [DecidableEq ι]

/-- One action. -/
def step (p : Private ι ρ τ) : Action ι ρ τ → Private ι ρ τ
  | .idle => p
  | .create i reg stack => { p with ctx := Function.update p.ctx i (some (.alive reg stack)) }
  | .resume i => { p with running := some i }
  | .work reg stack =>
    match p.running with
    | none => { p with main := reg }
    | some i => { p with ctx := Function.update p.ctx i (some (.alive reg stack)) }
  | .yield => { p with running := none }
  | .exit =>
    match p.running with
    | none => p
    | some i => { p with ctx := Function.update p.ctx i (some .ended), running := none }
  | .destroy i => { p with ctx := Function.update p.ctx i none }

/-- The main program works. -/
theorem step_work_of_none {p : Private ι ρ τ} (h : p.running = none) (reg : ρ) (stack : τ) :
    p.step (.work reg stack) = { p with main := reg } := by
  rw [step, h]

/-- A coroutine works. -/
theorem step_work_of_some {p : Private ι ρ τ} {i : ι} (h : p.running = some i) (reg : ρ)
    (stack : τ) : p.step (.work reg stack) =
      { p with ctx := Function.update p.ctx i (some (.alive reg stack)) } := by
  rw [step, h]

/-- A coroutine ends. -/
theorem step_exit_of_some {p : Private ι ρ τ} {i : ι} (h : p.running = some i) :
    p.step .exit = { p with ctx := Function.update p.ctx i (some .ended), running := none } := by
  rw [step, h]

/-- Actions one after the other. -/
def run (p : Private ι ρ τ) (as : List (Action ι ρ τ)) : Private ι ρ τ := as.foldl step p

@[simp] theorem run_nil (p : Private ι ρ τ) : p.run [] = p := rfl

@[simp] theorem run_cons (p : Private ι ρ τ) (a : Action ι ρ τ) (as : List (Action ι ρ τ)) :
    p.run (a :: as) = (p.step a).run as := rfl

/-- The action is not about the coroutine. -/
def Spares (i : ι) : Action ι ρ τ → Prop
  | .create j _ _ | .resume j | .destroy j => j ≠ i
  | .idle | .work .. | .yield | .exit => True

/-- **Nobody else matters.** An action of others leaves a coroutine alone, which does not run after
it either. -/
theorem step_ctx {p : Private ι ρ τ} {i : ι} {a : Action ι ρ τ} (hrunning : p.running ≠ some i)
    (ha : Spares i a) : (p.step a).ctx i = p.ctx i ∧ (p.step a).running ≠ some i := by
  have hother : ∀ j, p.running = some j → i ≠ j := fun j hj hij => hrunning (hij ▸ hj)
  cases a with
  | idle => exact ⟨rfl, hrunning⟩
  | create j reg stack => exact ⟨Function.update_of_ne (Ne.symm ha) .., hrunning⟩
  | resume j => exact ⟨rfl, fun h => ha (Option.some.inj h)⟩
  | work reg stack =>
    cases hj : p.running with
    | none => simp [step, hj]
    | some j =>
      have hij := hother j hj
      simpa [step, hj, Function.update_of_ne hij] using Ne.symm hij
  | yield => exact ⟨rfl, Option.some_ne_none i ∘ Eq.symm⟩
  | exit =>
    cases hj : p.running with
    | none => simp [step, hj]
    | some j =>
      have hij := hother j hj
      simp [step, hj, Function.update_of_ne hij]
  | destroy j => exact ⟨Function.update_of_ne (Ne.symm ha) .., hrunning⟩

end Private

end FfTest
