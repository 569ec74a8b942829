import FfTest.Coroutines.Pairing
import Mathlib.Data.Int.Order.Basic
import Mathlib.Data.List.Infix

/-! # The rules of libaco

Neither `cr_resume` nor `cr_yield` nor `cr_remove` looks at who is running or at whether the
coroutine has ended: a key that is known goes straight to the library. So the rules of the library
are kept exactly when the callers keep them; only unknown keys, and keys to be created twice, are
turned away. -/

namespace FfTest.Coroutines

variable {κ : Type} [LinearOrder κ]

namespace State

/-- The objects in the map. -/
def listed (s : State κ) : List ℕ := s.map.entries.map Prod.snd

/-- The handle of the coroutine under a key. -/
def handleOf (s : State κ) (key : κ) : Option ℕ :=
  (s.map.find? key).bind fun o => (s.objects o).bind Coroutine.hwnd

end State

/-- The operation can be done: a coroutine is created under a new key; one that has not stopped is
resumed by the main program; a coroutine yields; one that is not running is removed. -/
def Possible (s : State κ) : Event κ → Prop
  | .create _ _ key => s.map.find? key = none
  | .resume key | .getResume key =>
    s.map.find? key ≠ none ∧ s.lib.running = none ∧ s.crIsQuit key = false
  | .yield key => s.map.find? key ≠ none ∧ s.lib.running ≠ none
  | .remove key => s.map.find? key ≠ none ∧ s.handleOf key ≠ s.lib.running
  | .yieldSelf => s.lib.running ≠ none
  | .isQuit _ | .returns | .destroy => True

/-- The operation can be done unless it is about a key that is not there, or is to be created and is
there: the caller has looked at what the factory does not look at. -/
def Respectful (s : State κ) : Event κ → Prop
  | .resume key | .getResume key =>
    s.map.find? key ≠ none → s.lib.running = none ∧ s.crIsQuit key = false
  | .yield key => s.map.find? key ≠ none → s.lib.running ≠ none
  | .remove key => s.map.find? key ≠ none → s.handleOf key ≠ s.lib.running
  | .yieldSelf => s.lib.running ≠ none
  | .create .. | .isQuit _ | .returns | .destroy => True

instance (s : State κ) : ∀ e, Decidable (Respectful s e)
  | .resume _ | .getResume _ => inferInstanceAs (Decidable (_ → _ ∧ _))
  | .yield _ | .remove _ => inferInstanceAs (Decidable (_ → _))
  | .yieldSelf => inferInstanceAs (Decidable (_ ≠ _))
  | .create .. | .isQuit _ | .returns | .destroy => isTrue trivial

/-- No rule of the library is broken, and an operation that cannot be done returns false and changes
nothing. -/
def Proper (s : State κ) (e : Event κ) : Prop :=
  (s.act e).2.lib.broken = none ∧ (¬ Possible s e → s.act e = (false, s))

namespace Paired

variable {s : State κ} {os : List ℕ}

/-- A key that is found leads to an object. -/
theorem of_find (hp : Paired s.listed s) {key : κ} {o : ℕ} (hkey : s.map.find? key = some o) :
    ∃ c, s.objects o = some c := by
  refine Option.ne_none_iff_exists'.mp ((hp.mem_iff o).mp ?_)
  exact List.mem_map.mpr ⟨(key, o), OrderedMap.find?_eq_some_iff.mp hkey, rfl⟩

/-- A new key comes with a new object. -/
theorem listed_create (hp : Paired s.listed s) {key : κ} (hkey : s.map.find? key = none)
    (routine arg : ℕ) :
    Paired (s.crCreate routine arg key).2.listed (s.crCreate routine arg key).2 := by
  refine (hp.crCreate hkey routine arg).perm ?_
  rw [crCreate_eq hkey]
  exact ((OrderedMap.insert_entries_perm s.next hkey).map Prod.snd).symm

/-- A key goes with its object. -/
theorem listed_remove (hp : Paired s.listed s) {key : κ} {o : ℕ} (hkey : s.map.find? key = some o)
    (hrunning : s.handleOf key ≠ s.lib.running) :
    Paired (s.crRemove key).2.listed (s.crRemove key).2 := by
  have hperm := (OrderedMap.entries_perm_erase hkey).map Prod.snd
  have hdelete := (hp.perm hperm).delete fun c h ho hc hrun => by
    refine hrunning ?_
    simp [State.handleOf, hkey, ho, hc, hrun]
  have hresult : (s.crRemove key).2 = { s.delete o with map := s.map.erase key } := by
    simp [State.crRemove, hkey]
  rw [hresult]
  exact hdelete.withMap (s.map.erase key)

/-- Deleting objects does not change who is running. -/
theorem delete_gtlsCo (s : State κ) (o : ℕ) :
    (s.delete o).lib.gtlsCo = s.lib.gtlsCo ∧ (s.delete o).hwnd = s.hwnd := by
  unfold State.delete Libaco.destroy
  split
  · split <;> exact ⟨rfl, rfl⟩
  · exact ⟨rfl, rfl⟩

/-- The loop in the destructor deletes all objects. -/
theorem deleteAll {es : List (κ × ℕ)} (hp : Paired (es.map Prod.snd) s)
    (hrunning : s.lib.running = none) :
    Paired [] (State.deleteAll es s) ∧ (State.deleteAll es s).lib.running = none ∧
      (State.deleteAll es s).hwnd = s.hwnd := by
  induction es generalizing s with
  | nil => exact ⟨hp, hrunning, rfl⟩
  | cons e es ih =>
    obtain ⟨hgtls, hhwnd⟩ := delete_gtlsCo s e.2
    have hdelete := Paired.delete hp fun c h _ _ => by simp [hrunning]
    have hrun : (s.delete e.2).lib.running = none := by
      rw [hdelete.running_eq, hgtls, hhwnd, ← hp.running_eq, hrunning]
    obtain ⟨hall, hnone, hsame⟩ := ih hdelete hrun
    exact ⟨hall, hnone, hsame.trans hhwnd⟩

/-- What the library has done when the factory is destroyed. -/
theorem destroy_lib (hp : Paired s.listed s) (hrunning : s.lib.running = none) :
    s.destroy.lib = { (State.deleteAll s.map.entries s).lib with
      acos := Function.update (State.deleteAll s.map.entries s).lib.acos s.hwnd none
      owner := if (State.deleteAll s.map.entries s).lib.owner = some s.hwnd then none
        else (State.deleteAll s.map.entries s).lib.owner
      ledger := .release (.handle s.hwnd) :: .release .stack ::
        (State.deleteAll s.map.entries s).lib.ledger } := by
  obtain ⟨-, hnone, hsame⟩ := deleteAll hp hrunning
  have hnot : (State.deleteAll s.map.entries s).lib.shareStackDestroy.running ≠ some s.hwnd := by
    have hsamerun : (State.deleteAll s.map.entries s).lib.shareStackDestroy.running = none := hnone
    simp [hsamerun]
  simp only [State.destroy, hsame, Libaco.destroy, if_neg hnot]
  rfl

/-- A coroutine found under a key that has not stopped is resumed. -/
theorem listed_resume (hp : Paired s.listed s) {key : κ} {o : ℕ} (hkey : s.map.find? key = some o)
    (hrunning : s.lib.running = none) (hquit : s.crIsQuit key = false) :
    Paired (s.resume o).listed (s.resume o) := by
  obtain ⟨c, ho⟩ := hp.of_find hkey
  have hstop : c.isStop = false := by simpa [State.crIsQuit, hkey, State.isStop, ho] using hquit
  obtain ⟨h, a, -, -, -, -, heq⟩ := hp.resume_eq ho hstop hrunning
  have hpaired := hp.resume ho hstop hrunning
  rw [heq] at hpaired ⊢
  exact hpaired

/-- The map stays when the function of a coroutine returns. -/
theorem map_routineReturns (s : State κ) : s.routineReturns.map = s.map := by
  unfold State.routineReturns
  split <;> rfl

/-- **Step lemma.** An event that respects the rules breaks none, and keeps objects and handles in
step as long as the factory is there. -/
theorem act {e : Event κ} (hp : Paired s.listed s) (hadmits : s.Admits e) (he : Respectful s e) :
    (s.act e).2.lib.broken = none ∧
      ((s.act e).2.alive = true → Paired (s.act e).2.listed (s.act e).2) := by
  -- only the destructor does not keep them in step, as nothing is left
  suffices hkeep : e ≠ .destroy → Paired (s.act e).2.listed (s.act e).2 by
    by_cases hdestroy : e = .destroy
    · subst hdestroy
      refine ⟨?_, fun halive => by simp [State.act, State.destroy] at halive⟩
      obtain ⟨hall, -, -⟩ := deleteAll hp hadmits.2.2
      simp only [State.act, hp.destroy_lib hadmits.2.2]
      exact hall.unbroken
    · exact ⟨(hkeep hdestroy).unbroken, fun _ => hkeep hdestroy⟩
  intro hdestroy
  cases e with
  | create routine arg key =>
    by_cases hkey : s.map.find? key = none
    · exact hp.listed_create hkey routine arg
    · simpa only [State.act, State.crCreate, if_pos hkey] using hp
  | resume key | getResume key =>
    simp only [State.act, State.crResume, State.crGet]
    cases hkey : s.map.find? key with
    | none => exact hp
    | some o =>
      obtain ⟨hrunning, hquit⟩ := he (by simp [hkey])
      exact hp.listed_resume hkey hrunning hquit
  | isQuit key => exact hp
  | yield key =>
    simp only [State.act, State.crYield]
    cases hkey : s.map.find? key with
    | none => exact hp
    | some o => exact hp.yield (he (by simp [hkey]))
  | remove key =>
    cases hkey : s.map.find? key with
    | none => simpa only [State.act, State.crRemove, hkey] using hp
    | some o => exact hp.listed_remove hkey (he (by simp [hkey]))
  | yieldSelf => exact hp.yield he
  | returns =>
    have hreturns := hp.routineReturns hadmits.2.2
    simp only [State.act, State.listed, map_routineReturns s]
    exact hreturns
  | destroy => exact absurd rfl hdestroy

/-! ## Who does not look breaks a rule -/

/-- The main program breaks a rule by yielding. -/
theorem yield_broken (hp : Paired os s) (hrunning : s.lib.running = none) :
    s.yield.lib.broken ≠ none := by
  simp only [State.yield, Libaco.yield]
  rcases hp.context with hnone | hgtls | ⟨h, a, hgtls, hne, -⟩
  · simp [hnone, Libaco.breaks]
  · obtain ⟨⟨mainCo, arg, isEnd, segment⟩, ha, hmain⟩ := hp.linked.main
    obtain rfl : mainCo = none := hmain
    simp [hgtls, ha, Libaco.breaks]
  · rw [hp.running_eq, hgtls] at hrunning
    simp [hne] at hrunning

/-- An event that does not respect the rules breaks one. -/
theorem broken_of_not_respectful {e : Event κ} (hp : Paired s.listed s) (he : ¬ Respectful s e) :
    (s.act e).2.lib.broken ≠ none := by
  cases e with
  | create | isQuit | returns | destroy => exact absurd trivial he
  | resume key | getResume key =>
    simp only [Respectful, Classical.not_imp, not_and, Bool.not_eq_false] at he
    obtain ⟨hfound, hquit⟩ := he
    obtain ⟨o, hkey⟩ := Option.ne_none_iff_exists'.mp hfound
    obtain ⟨c, ho⟩ := hp.of_find hkey
    obtain ⟨h, a, hne, hc, ha, hmates⟩ := hp.linked.of_object ho
    rw [ho, ha] at hmates
    obtain ⟨-, -, hmain, -, hend⟩ := hmates
    obtain ⟨hwnd, fp, arg, mainHwnd, isStop⟩ := c
    obtain rfl : hwnd = some h := hc
    simp only [State.act, State.crResume, State.crGet, hkey, State.resume, ho, Libaco.resume, ha]
    split
    · simp [Libaco.breaks]
    · rename_i hnot
      have hstop : isStop = false := by
        by_contra hstop
        exact hnot (Or.inr (hend.trans (Bool.not_eq_false _ ▸ hstop)))
      -- it has not stopped, so what is wrong is that somebody is running
      have hrunning : s.lib.running ≠ none := by
        intro hrunning
        have := hquit hrunning
        simp [State.crIsQuit, hkey, State.isStop, ho, hstop] at this
      simp [hrunning, Libaco.breaks]
  | yield key =>
    simp only [Respectful, Classical.not_imp, not_not] at he
    obtain ⟨o, hkey⟩ := Option.ne_none_iff_exists'.mp he.1
    simpa [State.act, State.crYield, hkey] using hp.yield_broken he.2
  | yieldSelf =>
    simp only [Respectful, not_not] at he
    exact hp.yield_broken he
  | remove key =>
    simp only [Respectful, Classical.not_imp, not_not] at he
    obtain ⟨hfound, hrunning⟩ := he
    obtain ⟨o, hkey⟩ := Option.ne_none_iff_exists'.mp hfound
    obtain ⟨c, ho⟩ := hp.of_find hkey
    obtain ⟨h, a, hne, hc, ha, hmates⟩ := hp.linked.of_object ho
    obtain ⟨hwnd, fp, arg, mainHwnd, isStop⟩ := c
    obtain rfl : hwnd = some h := hc
    have hrun : s.lib.running = some h := by
      rw [← hrunning]
      simp [State.handleOf, hkey, ho]
    simp [State.act, State.crRemove, hkey, State.delete, ho, Libaco.destroy, hrun, Libaco.breaks]

/-- Under respect for the rules, only what is about an unknown key, or creates a known one, cannot
be done; that is turned away. -/
theorem act_eq_of_not_possible {e : Event κ} (he : Respectful s e) (hnot : ¬ Possible s e) :
    s.act e = (false, s) := by
  cases e with
  | create routine arg key => exact if_pos hnot
  | resume key | getResume key =>
    have hkey : s.map.find? key = none := by
      by_contra hfound
      exact hnot ⟨hfound, he hfound⟩
    simp [State.act, State.crResume, State.crGet, hkey]
  | yield key =>
    have hkey : s.map.find? key = none := by
      by_contra hfound
      exact hnot ⟨hfound, he hfound⟩
    simp [State.act, State.crYield, hkey]
  | remove key =>
    have hkey : s.map.find? key = none := by
      by_contra hfound
      exact hnot ⟨hfound, he hfound⟩
    simp [State.act, State.crRemove, hkey]
  | yieldSelf => exact absurd he hnot
  | isQuit | returns | destroy => exact absurd trivial hnot

/-- An event is proper iff it respects the rules. -/
theorem proper_iff {e : Event κ} (hp : Paired s.listed s) (hadmits : s.Admits e) :
    Proper s e ↔ Respectful s e := by
  constructor
  · rintro ⟨hunbroken, -⟩
    by_contra hnot
    exact hp.broken_of_not_respectful hnot hunbroken
  · intro he
    exact ⟨(hp.act hadmits he).1, act_eq_of_not_possible he⟩

end Paired

/-! ## Whole runs -/

/-- **Run lemma.** Where all events respect the rules, objects and handles are in step as long as
the factory is there. -/
theorem paired_run {es : List (Event κ)}
    (h : ((factoryMachine κ).restrict Respectful).Legal .construct es)
    (halive : ((factoryMachine κ).run .construct es).alive = true) :
    Paired ((factoryMachine κ).run .construct es).listed ((factoryMachine κ).run .construct es) :=
  Machine.Legal.invariant (M := (factoryMachine κ).restrict Respectful)
    (fun s => s.alive = true → Paired s.listed s)
    (fun _ _ hs hguard => ((hs hguard.1.1).act hguard.1 hguard.2).2)
    h (fun _ => Paired.construct) halive

/-- **The rules are kept iff the callers keep them.** For every run of calls of the factory, made by
the main program and by the functions of coroutines in any order: every call breaks no rule of the
library, and returns false and changes nothing where it cannot be done, iff every call of
`cr_resume` at a known key is made by the main program and finds a coroutine that has not stopped,
every call of `cr_yield` at a known key is made by a coroutine, and every call of `cr_remove` finds
one that is not running. -/
theorem proper_iff_respectful {es : List (Event κ)}
    (h : (factoryMachine κ).Legal .construct es) :
    (∀ fs e, fs ++ [e] <+: es → Proper ((factoryMachine κ).run .construct fs) e) ↔
      ((factoryMachine κ).restrict Respectful).Legal .construct es :=
  h.restrict_iff fun _ _ hfs hadmits _ => (paired_run hfs hadmits.1).proper_iff hadmits

/-- A coroutine that creates another, yields, and is removed when it has returned. -/
theorem proper_iff_respectful_two :
    let es : List (Event ℤ) := [.create 0 1 5, .resume 5, .create 0 0 6, .resume 7, .yield 5,
      .resume 5, .returns, .remove 5, .remove 5, .create 0 0 6, .destroy]
    (∀ fs e, fs ++ [e] <+: es → Proper ((factoryMachine ℤ).run .construct fs) e) ↔
      ((factoryMachine ℤ).restrict Respectful).Legal .construct es :=
  proper_iff_respectful (by decide)

/-- A coroutine that has returned and not been removed is resumed once more: the call goes through
to `aco_resume`, which aborts. -/
theorem ended_resume_not_proper :
    (factoryMachine ℤ).Legal .construct [.create 0 0 5, .resume 5, .returns, .resume 5] ∧
      ¬ Proper ((factoryMachine ℤ).run .construct [.create 0 0 5, .resume 5, .returns])
        (.resume 5) := by
  refine ⟨by decide, fun hproper => ?_⟩
  exact absurd hproper.1 (by decide)

end FfTest.Coroutines
