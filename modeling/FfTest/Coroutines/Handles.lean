import FfTest.Coroutines.Rules
import Mathlib.Data.List.Nodup

/-! # The life of the handles

A main program that drives a factory resumes only coroutines that have not stopped, and leaves
yielding to them. Then the keys of the map, the `Coroutine` objects and the handles of the library
go together one to one at every moment, and the destructor gives everything back in an order that
the library can bear. -/

namespace FfTest.Coroutines

variable {κ : Type} [LinearOrder κ]

/-- The main program calls the factory, and resumes only what has not stopped; the functions of the
coroutines yield and return. -/
def MainDriven (s : State κ) : Event κ → Prop
  | .create .. | .isQuit _ | .remove _ | .destroy => s.lib.running = none
  | .resume key | .getResume key =>
    s.lib.running = none ∧ (s.map.find? key ≠ none → s.crIsQuit key = false)
  | .yield _ => False
  | .yieldSelf | .returns => s.lib.running ≠ none

instance (s : State κ) : ∀ e, Decidable (MainDriven s e)
  | .create .. | .isQuit _ | .remove _ | .destroy => inferInstanceAs (Decidable (_ = _))
  | .resume _ | .getResume _ => inferInstanceAs (Decidable (_ ∧ (_ → _)))
  | .yield _ => isFalse id
  | .yieldSelf | .returns => inferInstanceAs (Decidable (_ ≠ _))

/-- Keys, objects and handles go together one to one. -/
structure InStep (s : State κ) : Prop where
  /-- Each key leads to an object, and that to a handle other than the main one; either both count
  as ended or neither. -/
  of_key : ∀ key o, s.map.find? key = some o → ∃ c h a, s.objects o = some c ∧
    c.hwnd = some h ∧ h ≠ s.hwnd ∧ s.lib.acos h = some a ∧ (c.isStop = true ↔ a.isEnd = true)
  /-- Each object is under one key. -/
  of_object : ∀ o, s.objects o ≠ none → ∃! key, s.map.find? key = some o
  /-- Each handle other than the main one is under one key. -/
  of_handle : ∀ h, s.lib.acos h ≠ none → h ≠ s.hwnd → ∃! key, s.handleOf key = some h
  /-- The main handle is the one that has no main handle. -/
  main : ∀ h a, s.lib.acos h = some a → (a.mainCo = none ↔ h = s.hwnd)

/-- A successful `cr_create` leads from `s` to `s'`. -/
structure Made (s s' : State κ) (routine arg : ℕ) (key : κ) : Prop where
  /-- The key leads to an object and a handle that were not there; the object has all that it was
  given, and neither counts as ended. -/
  made : ∃ o h a, s'.map.find? key = some o ∧ s.objects o = none ∧
    s'.objects o = some ⟨some h, routine, arg, s.hwnd, false⟩ ∧ s.lib.acos h = none ∧
    s'.lib.acos h = some a ∧ a.mainCo = some s.hwnd ∧ a.arg = some o ∧ a.isEnd = false
  /-- The other keys lead where they led. -/
  keys : ∀ key' ≠ key, s'.map.find? key' = s.map.find? key'
  /-- The objects that were there are as they were. -/
  objects : ∀ o, s.objects o ≠ none → s'.objects o = s.objects o
  /-- The handles that were there are as they were. -/
  handles : ∀ h, s.lib.acos h ≠ none → s'.lib.acos h = s.lib.acos h
  /-- No more than the one object is new. -/
  object_unique : ∀ o o', s.objects o = none → s'.objects o ≠ none →
    s.objects o' = none → s'.objects o' ≠ none → o = o'
  /-- No more than the one handle is new. -/
  handle_unique : ∀ h h', s.lib.acos h = none → s'.lib.acos h ≠ none →
    s.lib.acos h' = none → s'.lib.acos h' ≠ none → h = h'

/-- All has been given back. -/
structure Returned (s : State κ) : Prop where
  /-- The share stack was destroyed after everything else, and the main handle last. -/
  last : ∃ rest, s.lib.ledger = .release (.handle s.hwnd) :: .release .stack :: rest
  /-- What was made was destroyed exactly once. -/
  once : ∀ r, timesReleased r s.lib.ledger = timesAcquired r s.lib.ledger ∧
    timesAcquired r s.lib.ledger ≤ 1
  /-- Nothing was destroyed that was not there. -/
  wellReleased : WellReleased s.lib.ledger
  /-- No object is left. -/
  objects : ∀ o, s.objects o = none
  /-- No handle is left. -/
  handles : ∀ h, s.lib.acos h = none

/-- A main program that drives the factory keeps the rules of the library. -/
theorem MainDriven.respectful {s : State κ} {e : Event κ} (hp : Paired s.listed s)
    (he : MainDriven s e) : Respectful s e := by
  cases e with
  | create | isQuit | returns | destroy => trivial
  | resume key | getResume key => exact fun hfound => ⟨he.1, he.2 hfound⟩
  | yield key => exact he.elim
  | remove key =>
    intro hfound
    obtain ⟨o, hkey⟩ := Option.ne_none_iff_exists'.mp hfound
    obtain ⟨c, ho⟩ := hp.of_find hkey
    obtain ⟨h, a, -, hc, -⟩ := hp.linked.of_object ho
    rw [show s.lib.running = none from he]
    simp [State.handleOf, hkey, ho, hc]
  | yieldSelf => exact he

namespace Paired

variable {s : State κ}

/-- An object is under one key at most. -/
theorem key_unique (hp : Paired s.listed s) {key key' : κ} {o : ℕ}
    (hkey : s.map.find? key = some o) (hkey' : s.map.find? key' = some o) : key = key' := by
  have hmem := OrderedMap.find?_eq_some_iff.mp hkey
  have hmem' := OrderedMap.find?_eq_some_iff.mp hkey'
  exact congrArg Prod.fst (List.inj_on_of_nodup_map hp.nodup hmem hmem' rfl)

/-- The pairing makes keys, objects and handles go together. -/
theorem inStep (hp : Paired s.listed s) : InStep s where
  of_key key o hkey := by
    obtain ⟨c, ho⟩ := hp.of_find hkey
    obtain ⟨h, a, hne, hc, ha, hmates⟩ := hp.linked.of_object ho
    rw [ho, ha] at hmates
    exact ⟨c, h, a, ho, hc, hne, ha, by rw [hmates.2.2.2.2]⟩
  of_object o ho := by
    obtain ⟨⟨key, o'⟩, hmem, rfl⟩ := List.mem_map.mp ((hp.mem_iff o).mpr ho)
    have hkey := OrderedMap.find?_eq_some_iff.mpr hmem
    exact ⟨key, hkey, fun key' hkey' => hp.key_unique hkey' hkey⟩
  of_handle h hh hne := by
    obtain ⟨a, ha⟩ := Option.ne_none_iff_exists'.mp hh
    obtain ⟨o, c, harg, ho, hmates⟩ := hp.linked.of_handle ha hne
    rw [ho, ha] at hmates
    obtain ⟨⟨key, o'⟩, hmem, rfl⟩ := List.mem_map.mp ((hp.mem_iff o).mpr (by simp [ho]))
    have hkey := OrderedMap.find?_eq_some_iff.mpr hmem
    refine ⟨key, by simp [State.handleOf, hkey, ho, hmates.1], fun key' hkey' => ?_⟩
    -- another key with this handle has an object that the handle knows as its own
    simp only [State.handleOf, Option.bind_eq_some_iff] at hkey'
    obtain ⟨o₂, hkey₂, c₂, ho₂, hc₂⟩ := hkey'
    obtain ⟨h₂, a₂, -, hc₂', ha₂, hmates₂⟩ := hp.linked.of_object ho₂
    obtain rfl := Option.some.inj (hc₂.symm.trans hc₂')
    obtain rfl := Option.some.inj (ha.symm.trans ha₂)
    rw [ho₂, ha] at hmates₂
    obtain rfl := Option.some.inj (harg.symm.trans hmates₂.2.2.2.1)
    exact hp.key_unique hkey₂ hkey
  main h a ha := by
    constructor
    · intro hnone
      by_contra hne
      obtain ⟨o, c, -, ho, hmates⟩ := hp.linked.of_handle ha hne
      rw [ho, ha] at hmates
      simp [hmates.2.2.1] at hnone
    · rintro rfl
      obtain ⟨a', ha', hnone⟩ := hp.linked.main
      exact Option.some.inj (ha.symm.trans ha') ▸ hnone

/-- `cr_create` at a new key makes one object with one handle, and touches nothing else. -/
theorem made (hp : Paired s.listed s) {key : κ} (hkey : s.map.find? key = none)
    (routine arg : ℕ) : Made s (s.crCreate routine arg key).2 routine arg key := by
  have hobject := hp.fresh s.next (Nat.le_refl _)
  have haco := hp.accounts.acos_eq_none (Nat.le_refl _)
  rw [crCreate_eq hkey]
  have hobjects : ∀ o ≠ s.next, Function.update s.objects s.next
      (some ⟨some s.lib.next, routine, arg, s.hwnd, false⟩) o = s.objects o :=
    fun o hne => Function.update_of_ne hne ..
  have hacos : ∀ h ≠ s.lib.next,
      (s.lib.create (some s.hwnd) (some s.next)).2.acos h = s.lib.acos h :=
    fun h hne => Function.update_of_ne hne ..
  constructor
  case made =>
    refine ⟨s.next, s.lib.next, ⟨some s.hwnd, some s.next, false, 0⟩, ?_, hobject, ?_, haco, ?_,
      rfl, rfl, rfl⟩
    · simp [OrderedMap.find?_insert _ hkey]
    · simp
    · simp [Libaco.create]
  case keys =>
    intro key' hne
    simp [OrderedMap.find?_insert _ hkey, hne]
  case objects =>
    intro o ho
    exact hobjects o fun heq => ho (heq ▸ hobject)
  case handles =>
    intro h hh
    exact hacos h fun heq => hh (heq ▸ haco)
  case object_unique =>
    -- what is there now and was not is the object with the next number
    have hnew : ∀ o, s.objects o = none → Function.update s.objects s.next
        (some ⟨some s.lib.next, routine, arg, s.hwnd, false⟩) o ≠ none → o = s.next := by
      intro o hwas his
      by_contra hne
      exact his ((hobjects o hne).trans hwas)
    intro o o' hwas his hwas' his'
    rw [hnew o hwas his, hnew o' hwas' his']
  case handle_unique =>
    have hnew : ∀ h, s.lib.acos h = none →
        (s.lib.create (some s.hwnd) (some s.next)).2.acos h ≠ none → h = s.lib.next := by
      intro h hwas his
      by_contra hne
      exact his ((hacos h hne).trans hwas)
    intro h h' hwas his hwas' his'
    rw [hnew h hwas his, hnew h' hwas' his']

/-- The destructor gives everything back. -/
theorem returned (hp : Paired s.listed s) (hrunning : s.lib.running = none) :
    Returned s.destroy := by
  obtain ⟨hall, -, hsame⟩ := deleteAll hp hrunning
  have hlib := hp.destroy_lib hrunning
  have hhwnd : s.destroy.hwnd = s.hwnd := hsame
  have hobjects : ∀ o, (State.deleteAll s.map.entries s).objects o = none := by
    intro o
    by_contra ho
    exact List.not_mem_nil ((hall.mem_iff o).mpr ho)
  have haccounts := hall.accounts
  -- a handle but for the main one would have an object, and none is left
  have hhandle : ∀ h, h ≠ s.hwnd → (State.deleteAll s.map.entries s).lib.acos h = none := by
    intro h hne
    by_contra hh
    obtain ⟨a, ha⟩ := Option.ne_none_iff_exists'.mp hh
    obtain ⟨o, c, -, ho, -⟩ := hall.linked.of_handle ha (by rwa [hsame])
    simp [hobjects o] at ho
  obtain ⟨a, hmain, -⟩ := hall.linked.main
  rw [hsame] at hmain
  generalize (State.deleteAll s.map.entries s).lib = lib at hlib haccounts hhandle hmain
  have hmainOut : Resource.handle s.hwnd ∈ outstanding (.release .stack :: lib.ledger) :=
    (mem_outstanding_release_of_ne (by simp)).mpr ((haccounts.outstanding _).mpr (by simp [hmain]))
  -- the share stack goes before the main handle, and both were there until then
  have hwell : WellReleased (.release (.handle s.hwnd) :: .release .stack :: lib.ledger) :=
    ⟨hmainOut, haccounts.stack, haccounts.wellReleased⟩
  have hfresh : FreshlyNamed (.release (.handle s.hwnd) :: .release .stack :: lib.ledger) :=
    haccounts.freshlyNamed
  have hnone : ∀ r,
      r ∉ outstanding (.release (.handle s.hwnd) :: .release .stack :: lib.ledger) := by
    intro r
    by_cases hr : r = .handle s.hwnd
    · subst hr
      exact hwell.2.not_mem_outstanding_release hfresh
    · rw [mem_outstanding_release_of_ne hr]
      cases r with
      | stack => exact haccounts.wellReleased.not_mem_outstanding_release haccounts.freshlyNamed
      | handle h =>
        have hne : h ≠ s.hwnd := fun heq => hr (congrArg _ heq)
        rw [mem_outstanding_release_of_ne (by simp), haccounts.outstanding, not_not]
        exact hhandle h hne
  refine ⟨⟨lib.ledger, by rw [hlib, hhwnd]⟩, fun r => ?_, hlib ▸ hwell, hobjects, fun h => ?_⟩
  · have hacquired := hwell.timesAcquired_eq r
    rw [List.count_eq_zero.mpr (hnone r), Nat.add_zero] at hacquired
    rw [hlib]
    exact ⟨hacquired.symm, hfresh.timesAcquired_le r⟩
  · rw [hlib]
    by_cases hh : h = s.hwnd
    · simp [hh]
    · simpa [hh] using hhandle h hh

end Paired

/-! ## Whole runs -/

/-- Only the destructor ends the life of a factory. -/
theorem act_alive (s : State κ) {e : Event κ} (he : e ≠ .destroy) :
    (s.act e).2.alive = s.alive := by
  have hdelete : ∀ (s : State κ) o, (s.delete o).alive = s.alive := by
    intro s o
    unfold State.delete
    split <;> rfl
  have hresume : ∀ o, (s.resume o).alive = s.alive := by
    intro o
    unfold State.resume
    split <;> rfl
  cases e with
  | create routine arg key =>
    by_cases hkey : s.map.find? key = none
    · simp [State.act, Paired.crCreate_eq hkey]
    · simp [State.act, State.crCreate, hkey]
  | resume key | getResume key =>
    simp only [State.act, State.crResume, State.crGet]
    split
    · exact hresume _
    · rfl
  | isQuit key | yieldSelf => rfl
  | yield key =>
    simp only [State.act, State.crYield]
    split <;> rfl
  | remove key =>
    simp only [State.act, State.crRemove]
    split
    · exact hdelete _ _
    · rfl
  | returns =>
    simp only [State.act, State.routineReturns]
    split <;> rfl
  | destroy => exact absurd rfl he

/-- A run driven by the main program keeps the rules of the library. -/
theorem MainDriven.legal {es : List (Event κ)}
    (h : ((factoryMachine κ).restrict MainDriven).Legal .construct es) :
    ((factoryMachine κ).restrict Respectful).Legal .construct es := by
  refine Machine.Legal.induction (M := (factoryMachine κ).restrict MainDriven)
    (motive := fun es => ((factoryMachine κ).restrict Respectful).Legal .construct es)
    trivial (fun es e _ hguard ih => ?_) h
  refine (Machine.legal_snoc _ _ _ _).mpr ⟨ih, hguard.1, ?_⟩
  exact hguard.2.respectful (paired_run ih hguard.1.1)

/-- When the factory is gone, all has been given back. -/
theorem returned_run {es : List (Event κ)}
    (h : ((factoryMachine κ).restrict MainDriven).Legal .construct es)
    (hdead : ((factoryMachine κ).run .construct es).alive = false) :
    Returned ((factoryMachine κ).run .construct es) := by
  refine Machine.Legal.history (M := (factoryMachine κ).restrict MainDriven)
    (fun _ s => s.alive = false → Returned s) (fun hdead => by simp [State.construct] at hdead)
    (fun es e hes hguard _ hdead => ?_) h hdead
  have hpaired := paired_run (MainDriven.legal hes) hguard.1.1
  have hdestroy : e = .destroy := by
    by_contra hne
    have halive := act_alive ((factoryMachine κ).run .construct es) hne
    exact absurd (hdead.symm.trans (halive.trans hguard.1.1)) Bool.false_ne_true
  subst hdestroy
  exact hpaired.returned hguard.2

/-- **Handle invariant.** For every run of the main program on a factory, with coroutines that yield
and return as they like: as long as the factory is there, keys, objects and handles go together one
to one, with both flags for the end in step, and `cr_create` succeeds iff the key is new, when it
makes one object with one handle under it and touches nothing else, and changes nothing otherwise;
the library never destroys what is not there; and when the factory has been destroyed, everything
made was destroyed exactly once, the share stack after all coroutines and the main handle last. -/
theorem handles_in_step {es : List (Event κ)}
    (h : ((factoryMachine κ).restrict MainDriven).Legal .construct es) :
    let s := (factoryMachine κ).run .construct es
    (s.alive = true → InStep s ∧ WellReleased s.lib.ledger ∧ ∀ routine arg key,
      ((s.act (.create routine arg key)).1 = true ↔ s.map.find? key = none) ∧
      (s.map.find? key = none → Made s (s.act (.create routine arg key)).2 routine arg key) ∧
      (s.map.find? key ≠ none → s.act (.create routine arg key) = (false, s))) ∧
    (s.alive = false → Returned s) := by
  intro s
  refine ⟨fun halive => ?_, returned_run h⟩
  have hpaired := paired_run (MainDriven.legal h) halive
  refine ⟨hpaired.inStep, hpaired.accounts.wellReleased, fun routine arg key => ?_⟩
  have hknown : s.map.find? key ≠ none → s.act (.create routine arg key) = (false, s) :=
    fun hfound => if_pos hfound
  refine ⟨⟨fun htrue => ?_, fun hkey => ?_⟩, fun hkey => hpaired.made hkey routine arg, hknown⟩
  · by_contra hfound
    rw [hknown hfound] at htrue
    exact Bool.false_ne_true htrue
  · simp [State.act, Paired.crCreate_eq hkey]

/-- Two coroutines: one is resumed through `cr_get` to its end and removed, its key is used again,
and the other is left where it yielded. -/
theorem handles_in_step_two :
    let es : List (Event ℤ) := [.create 0 1 5, .create 0 0 6, .create 0 0 5, .resume 5, .yieldSelf,
      .getResume 6, .returns, .isQuit 6, .remove 6]
    let s := (factoryMachine ℤ).run .construct es
    let s' := (factoryMachine ℤ).run .construct (es ++ [.create 0 0 6, .remove 7, .destroy])
    InStep s ∧ Made s (s.act (.create 0 0 6)).2 0 0 6 ∧ s.act (.create 0 0 5) = (false, s) ∧
      s'.alive = false ∧ Returned s' := by
  intro es s s'
  have hlegal : ((factoryMachine ℤ).restrict MainDriven).Legal .construct
      (es ++ [.create 0 0 6, .remove 7, .destroy]) := by decide
  obtain ⟨hstep, -, hcreate⟩ := (handles_in_step hlegal.of_append).1 (by decide)
  exact ⟨hstep, (hcreate 0 0 6).2.1 (by decide), (hcreate 0 0 5).2.2 (by decide), by decide,
    (handles_in_step hlegal).2 (by decide)⟩

end FfTest.Coroutines
