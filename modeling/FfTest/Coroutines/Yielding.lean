import FfTest.Coroutines.Rules

/-! # Who is suspended by `cr_yield`

`cr_yield(key)` looks the key up and then calls `Coroutine::yield`, which is static: it suspends the
coroutine that is running, whichever object was found. So a call made by a coroutine suspends the
one under the key exactly when that is the caller itself. -/

namespace FfTest.Coroutines

variable {κ : Type} [LinearOrder κ]

/-- The coroutine with handle `h` gives up control: it was running, the main program runs now, and
`h` goes on behind the point where it was. -/
def Suspends (s s' : State κ) (h : ℕ) : Prop :=
  s.lib.running = some h ∧ s'.lib.running = none ∧ ∃ a, s.lib.acos h = some a ∧
    s'.lib.acos h = some { a with segment := a.segment + 1 }

/-- `cr_yield(key)` suspends the coroutine under the key, which gets true when it goes on, or
returns false at once. -/
def YieldsNamed (s : State κ) (key : κ) : Prop :=
  ((s.crYield key).1 = true ∧ ∃ h, s.handleOf key = some h ∧ Suspends s (s.crYield key).2 h) ∨
    s.crYield key = (false, s)

namespace Paired

variable {s : State κ} {os : List ℕ}

/-- What `Coroutine::yield` suspends is the running coroutine. -/
theorem suspends_yield (hp : Paired os s) {h : ℕ} (hrunning : s.lib.running = some h) :
    Suspends s s.yield h := by
  obtain ⟨hgtls, -, hne, o, c, segment, -, -, -, -, ha⟩ := hp.of_running hrunning
  obtain ⟨⟨mainCo, arg, isEnd, n⟩, hmain, hnone⟩ := hp.linked.main
  obtain rfl : mainCo = none := hnone
  have hyield : s.yield.lib = { s.lib with
      acos := Function.update s.lib.acos h (some ⟨some s.hwnd, some o, false, segment + 1⟩)
      gtlsCo := some s.hwnd } := by
    simp [State.yield, Libaco.yield, hgtls, ha]
  refine ⟨hrunning, ?_, _, ha, ?_⟩
  · -- the main handle, which has no main handle of its own, is current
    simp [hyield, Libaco.running, Function.update_of_ne hne.symm, hmain]
  · simp [hyield]

/-- **One call.** A coroutine that calls `cr_yield` with a known key suspends the one named iff it
has named itself. -/
theorem yieldsNamed_iff (hp : Paired s.listed s) {h : ℕ} (hrunning : s.lib.running = some h)
    {key : κ} (hkey : s.map.find? key ≠ none) :
    YieldsNamed s key ↔ s.handleOf key = s.lib.running := by
  obtain ⟨o, hfind⟩ := Option.ne_none_iff_exists'.mp hkey
  have hcall : s.crYield key = (true, s.yield) := by simp [State.crYield, hfind]
  constructor
  · rintro (⟨-, h', hhandle, hsuspends⟩ | hfalse)
    · exact hhandle.trans hsuspends.1.symm
    · -- a known key is never turned away
      rw [hcall] at hfalse
      simp at hfalse
  · intro hhandle
    refine .inl ⟨by rw [hcall], h, hhandle.trans hrunning, ?_⟩
    rw [hcall]
    exact hp.suspends_yield hrunning

end Paired

/-- A run that has broken no rule of the library has respected them all. -/
theorem respectful_of_unbroken {es : List (Event κ)} (h : (factoryMachine κ).Legal .construct es)
    (hunbroken : ((factoryMachine κ).run .construct es).lib.broken = none) :
    ((factoryMachine κ).restrict Respectful).Legal .construct es := by
  refine h.induction (motive := fun es =>
    ((factoryMachine κ).run .construct es).lib.broken = none →
      ((factoryMachine κ).restrict Respectful).Legal .construct es)
    (fun _ => trivial) ?_ hunbroken
  intro es e _ hadmits ih hunbroken
  -- the event was admitted, so nothing was broken before it
  have hes := ih hadmits.2.1
  refine (Machine.legal_snoc _ _ _ _).mpr ⟨hes, hadmits, ?_⟩
  by_contra hnot
  refine (paired_run hes hadmits.1).broken_of_not_respectful hnot ?_
  rw [Machine.run_snoc] at hunbroken
  exact hunbroken

/-- **Who is suspended by `cr_yield`.** In every state that calls of a factory can lead to, in which
a coroutine is running, and for every known key: `cr_yield(key)` suspends the coroutine under the
key, or returns false at once, iff the key is that of the running coroutine. -/
theorem yieldsNamed_iff_own {es : List (Event κ)} {key : κ}
    (h : (factoryMachine κ).Legal .construct (es ++ [.yield key]))
    (hrunning : ((factoryMachine κ).run .construct es).lib.running ≠ none)
    (hkey : ((factoryMachine κ).run .construct es).map.find? key ≠ none) :
    YieldsNamed ((factoryMachine κ).run .construct es) key ↔
      ((factoryMachine κ).run .construct es).handleOf key
        = ((factoryMachine κ).run .construct es).lib.running := by
  obtain ⟨hes, hadmits⟩ := (Machine.legal_snoc _ _ _ _).mp h
  have hp := paired_run (respectful_of_unbroken hes hadmits.2.1) hadmits.1
  obtain ⟨a, hrunning⟩ := Option.ne_none_iff_exists'.mp hrunning
  exact hp.yieldsNamed_iff hrunning hkey

/-- Two coroutines are there, and the one under 5 is running. -/
def fiveRunning : List (Event ℤ) := [.create 0 0 5, .create 0 0 6, .resume 5]

/-- The coroutine under 5 names itself, and is suspended. -/
theorem yieldsNamed_five :
    YieldsNamed ((factoryMachine ℤ).run .construct fiveRunning) 5 :=
  (yieldsNamed_iff_own (by decide) (by decide) (by decide)).mpr (by decide)

/-- The coroutine under 5 names the one under 6, and is suspended in its place. -/
theorem not_yieldsNamed_six :
    (factoryMachine ℤ).Legal .construct (fiveRunning ++ [.yield 6]) ∧
      Suspends ((factoryMachine ℤ).run .construct fiveRunning)
        (((factoryMachine ℤ).run .construct fiveRunning).crYield 6).2 1 ∧
      ((factoryMachine ℤ).run .construct fiveRunning).handleOf 6 = some 2 ∧
      ¬ YieldsNamed ((factoryMachine ℤ).run .construct fiveRunning) 6 := by
  have hhandle : ((factoryMachine ℤ).run .construct fiveRunning).handleOf 6 = some 2 := by decide
  refine ⟨by decide, ⟨by decide, by decide, _, rfl, by decide⟩, hhandle, ?_⟩
  rintro (⟨-, h, hnamed, hsuspends⟩ | hfalse)
  · rw [hhandle] at hnamed
    cases hnamed
    exact absurd hsuspends.1 (by decide)
  · exact absurd (congrArg Prod.fst hfalse) (by decide)

end FfTest.Coroutines
