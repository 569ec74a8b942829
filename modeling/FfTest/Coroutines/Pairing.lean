import FfTest.Coroutines.Factory

/-! # Objects and handles in step

`Paired os s` says that the objects `os` of a factory and the handles of the library other than the
main one go together one to one, with their two flags for the end in step, and that the ledger of
the library agrees with it. Each operation of the factory that breaks no rule keeps the pairing. -/

namespace FfTest.Coroutines

/-! ## The ledger of the library -/

/-- The ledger has all handles, and the share stack is there. -/
structure Accounts (lib : Libaco) : Prop where
  /-- Only what is there is destroyed. -/
  wellReleased : WellReleased lib.ledger
  /-- No handle is made twice. -/
  freshlyNamed : FreshlyNamed lib.ledger
  /-- Handles are numbered in the order in which they are made. -/
  acquired : ∀ h, timesAcquired (.handle h) lib.ledger = if h < lib.next then 1 else 0
  /-- The handles that have not been destroyed are there. -/
  outstanding : ∀ h, .handle h ∈ outstanding lib.ledger ↔ lib.acos h ≠ none
  /-- So is the share stack. -/
  stack : .stack ∈ FfTest.outstanding lib.ledger

namespace Accounts

variable {lib lib' : Libaco}

/-- Numbers not given yet have no handle. -/
theorem acos_eq_none (ha : Accounts lib) {h : ℕ} (hge : lib.next ≤ h) : lib.acos h = none := by
  by_contra hne
  have hpos := timesAcquired_pos_of_mem_outstanding ((ha.outstanding h).mpr hne)
  rw [ha.acquired h, if_neg (Nat.not_lt.mpr hge)] at hpos
  exact Nat.lt_irrefl 0 hpos

/-- Nothing is made and nothing destroyed. -/
theorem congr (ha : Accounts lib) (hnext : lib'.next = lib.next)
    (hledger : lib'.ledger = lib.ledger)
    (hacos : ∀ h, lib'.acos h = none ↔ lib.acos h = none) : Accounts lib' where
  wellReleased := hledger ▸ ha.wellReleased
  freshlyNamed := hledger ▸ ha.freshlyNamed
  acquired h := by rw [hledger, hnext, ha.acquired h]
  outstanding h := by
    rw [hledger, ha.outstanding h]
    exact not_congr (hacos h).symm
  stack := hledger ▸ ha.stack

/-- A handle is made. -/
theorem create (ha : Accounts lib) (mainCo arg : Option ℕ) :
    Accounts (lib.create mainCo arg).2 where
  wellReleased := ha.wellReleased
  freshlyNamed := by
    refine ⟨?_, ha.freshlyNamed⟩
    rw [ha.acquired, if_neg (Nat.lt_irrefl _)]
  acquired h := by
    have hacquired := ha.acquired h
    simp only [Libaco.create, timesAcquired_acquire, hacquired, Resource.handle.injEq]
    grind
  outstanding h := by
    simp only [Libaco.create, outstanding_acquire, List.mem_cons, Resource.handle.injEq,
      ha.outstanding h]
    by_cases hh : h = lib.next
    · simp [hh]
    · simp [hh]
  stack := List.mem_cons_of_mem _ ha.stack

/-- A handle that is there is destroyed. -/
theorem destroy (ha : Accounts lib) {h : ℕ} (hne : lib.acos h ≠ none)
    (hrunning : lib.running ≠ some h) : Accounts (lib.destroy h) := by
  rw [Libaco.destroy, if_neg hrunning]
  refine ⟨⟨(ha.outstanding h).mpr hne, ha.wellReleased⟩, ha.freshlyNamed, ha.acquired,
    fun j => ?_, ?_⟩
  · by_cases hj : j = h
    · subst hj
      have hnot := ha.wellReleased.not_mem_outstanding_release
        (i := Resource.handle j) ha.freshlyNamed
      exact iff_of_false hnot (by simp)
    · rw [mem_outstanding_release_of_ne (fun heq => hj (Resource.handle.inj heq)), ha.outstanding j]
      simp [hj]
  · exact (mem_outstanding_release_of_ne (by simp)).mpr ha.stack

end Accounts

/-! ## Objects and handles -/

/-- What is at number `o` of the objects and at number `h` of the handles: nothing, or an object and
a handle that know each other, both ended or neither. -/
def Mates (hwnd o h : ℕ) : Option Coroutine → Option Aco → Prop
  | none, none => True
  | some c, some a => c.hwnd = some h ∧ c.mainHwnd = hwnd ∧ a.mainCo = some hwnd ∧
      a.arg = some o ∧ a.isEnd = c.isStop
  | _, _ => False

/-- The objects and the handles other than the main one go together one to one. -/
structure Linked (hwnd : ℕ) (objects : ℕ → Option Coroutine) (acos : ℕ → Option Aco) : Prop where
  /-- Each object has a handle. -/
  toHandle : ∀ o c, objects o = some c → ∃ h, h ≠ hwnd ∧ Mates hwnd o h (some c) (acos h)
  /-- Each handle but the main one has an object. -/
  toObject : ∀ h a, acos h = some a → h ≠ hwnd → ∃ o, Mates hwnd o h (objects o) (some a)
  /-- The main handle is there. -/
  main : ∃ a, acos hwnd = some a ∧ a.mainCo = none

namespace Linked

variable {hwnd o h : ℕ} {objects : ℕ → Option Coroutine} {acos : ℕ → Option Aco}

/-- The mate of an object. -/
theorem of_object (hl : Linked hwnd objects acos) {c : Coroutine} (ho : objects o = some c) :
    ∃ h a, h ≠ hwnd ∧ c.hwnd = some h ∧ acos h = some a ∧
      Mates hwnd o h (objects o) (acos h) := by
  obtain ⟨h, hne, hmates⟩ := hl.toHandle o c ho
  rw [ho]
  cases ha : acos h with
  | none => simp [ha, Mates] at hmates
  | some a =>
    rw [ha] at hmates
    exact ⟨h, a, hne, hmates.1, ha, ha ▸ hmates⟩

/-- The mate of a handle. -/
theorem of_handle (hl : Linked hwnd objects acos) {a : Aco} (ha : acos h = some a)
    (hne : h ≠ hwnd) : ∃ o c, a.arg = some o ∧ objects o = some c ∧
      Mates hwnd o h (objects o) (acos h) := by
  obtain ⟨o, hmates⟩ := hl.toObject h a ha hne
  cases ho : objects o with
  | none => simp [ho, Mates] at hmates
  | some c =>
    rw [ho] at hmates
    refine ⟨o, c, hmates.2.2.2.1, ho, ?_⟩
    rwa [ho, ha]

/-- An object and its handle are changed, made or taken away together. -/
theorem update (hl : Linked hwnd objects acos) (hne : h ≠ hwnd) {c : Option Coroutine}
    {a : Option Aco} (hold : Mates hwnd o h (objects o) (acos h)) (hnew : Mates hwnd o h c a) :
    Linked hwnd (Function.update objects o c) (Function.update acos h a) where
  toHandle o' c' ho' := by
    by_cases heq : o' = o
    · subst heq
      rw [Function.update_self] at ho'
      exact ⟨h, hne, by rwa [Function.update_self, ← ho']⟩
    · rw [Function.update_of_ne heq] at ho'
      obtain ⟨h', hne', hmates⟩ := hl.toHandle o' c' ho'
      refine ⟨h', hne', ?_⟩
      rw [Function.update_of_ne]
      · exact hmates
      · -- the handle of another object is another handle
        rintro rfl
        unfold Mates at hold hmates
        grind
  toObject h' a' ha' hne' := by
    by_cases heq : h' = h
    · subst heq
      rw [Function.update_self] at ha'
      exact ⟨o, by rwa [Function.update_self, ← ha']⟩
    · rw [Function.update_of_ne heq] at ha'
      obtain ⟨o', hmates⟩ := hl.toObject h' a' ha' hne'
      refine ⟨o', ?_⟩
      rw [Function.update_of_ne]
      · exact hmates
      · rintro rfl
        unfold Mates at hold hmates
        grind
  main := by
    rw [Function.update_of_ne hne.symm]
    exact hl.main

end Linked

/-! ## The pairing -/

variable {κ : Type} [LinearOrder κ]

/-- The factory has the objects `os`, each in step with its handle. -/
structure Paired (os : List ℕ) (s : State κ) : Prop where
  /-- No object is listed twice. -/
  nodup : os.Nodup
  /-- The objects listed are those that there are. -/
  mem_iff : ∀ o, o ∈ os ↔ s.objects o ≠ none
  /-- Objects and handles go together. -/
  linked : Linked s.hwnd s.objects s.lib.acos
  /-- Numbers not given yet have no object. -/
  fresh : ∀ o, s.next ≤ o → s.objects o = none
  /-- The main program is running, or a handle that has not ended and owns the share stack. -/
  context : s.lib.gtlsCo = none ∨ s.lib.gtlsCo = some s.hwnd ∨
    ∃ h a, s.lib.gtlsCo = some h ∧ h ≠ s.hwnd ∧ s.lib.acos h = some a ∧ a.isEnd = false ∧
      s.lib.owner = some h
  /-- The ledger of the library agrees. -/
  accounts : Accounts s.lib
  /-- No rule of the library has been broken. -/
  unbroken : s.lib.broken = none

namespace Paired

variable {s : State κ} {os : List ℕ}

/-- Who is running: the main program, or the handle in `aco_gtls_co`. -/
theorem running_eq (hp : Paired os s) : s.lib.running = if s.lib.gtlsCo = some s.hwnd then none
    else s.lib.gtlsCo := by
  rcases hp.context with hnone | hmain | ⟨h, a, hgtls, hne, ha, -, -⟩
  · simp [Libaco.running, hnone]
  · obtain ⟨a, ha, hnone⟩ := hp.linked.main
    simp [Libaco.running, hmain, ha, hnone]
  · obtain ⟨o, c, -, ho, hmates⟩ := hp.linked.of_handle ha hne
    rw [ho, ha] at hmates
    simp [Libaco.running, hgtls, ha, hmates.2.2.1, hne]

/-- The list of objects may be reordered. -/
theorem perm (hp : Paired os s) {os' : List ℕ} (hperm : os.Perm os') : Paired os' s :=
  { hp with
    nodup := hperm.nodup_iff.mp hp.nodup
    mem_iff := fun o => hperm.mem_iff.symm.trans (hp.mem_iff o) }

/-- The map plays no part. -/
theorem withMap (hp : Paired os s) (map : OrderedMap κ ℕ) : Paired os { s with map } :=
  ⟨hp.nodup, hp.mem_iff, hp.linked, hp.fresh, hp.context, hp.accounts, hp.unbroken⟩

/-! ## The operations keep the pairing -/

/-- What `cr_create` does at a new key. -/
theorem crCreate_eq {key : κ} (hkey : s.map.find? key = none) (routine arg : ℕ) :
    s.crCreate routine arg key = (true, { s with
      objects := Function.update s.objects s.next
        (some ⟨some s.lib.next, routine, arg, s.hwnd, false⟩)
      next := s.next + 1
      map := (s.map.insert key s.next).1
      lib := (s.lib.create (some s.hwnd) (some s.next)).2 }) := by
  simp [State.crCreate, hkey, State.newCoroutine, State.create, State.setObject, Libaco.create,
    OrderedMap.insert_snd]

/-- A coroutine is created. -/
theorem crCreate (hp : Paired os s) {key : κ} (hkey : s.map.find? key = none) (routine arg : ℕ) :
    Paired (s.next :: os) (s.crCreate routine arg key).2 := by
  have hobj := hp.fresh s.next (Nat.le_refl _)
  have haco := hp.accounts.acos_eq_none (Nat.le_refl _)
  have hmain : s.lib.next ≠ s.hwnd := by
    obtain ⟨a, ha, -⟩ := hp.linked.main
    intro heq
    simp [← heq, haco] at ha
  rw [crCreate_eq hkey]
  refine ⟨?_, fun o => ?_, ?_, fun o ho => ?_, ?_, hp.accounts.create _ _, hp.unbroken⟩
  · exact List.nodup_cons.mpr ⟨fun hmem => (hp.mem_iff _).mp hmem hobj, hp.nodup⟩
  · by_cases ho : o = s.next
    · simp [ho]
    · simp [ho, hp.mem_iff]
  · refine hp.linked.update hmain ?_ ?_
    · simp [hobj, haco, Mates]
    · simp [Mates]
  · have hne : o ≠ s.next := by
      rintro rfl
      exact absurd ho (Nat.not_succ_le_self _)
    exact (Function.update_of_ne hne ..).trans (hp.fresh o (Nat.le_of_succ_le ho))
  · rcases hp.context with hnone | hgtls | ⟨h, a, hgtls, hne, ha, hend, howner⟩
    · exact Or.inl hnone
    · exact Or.inr (Or.inl hgtls)
    · have hnew : h ≠ s.lib.next := by
        rintro rfl
        simp [haco] at ha
      exact Or.inr (Or.inr
        ⟨h, a, hgtls, hne, (Function.update_of_ne hnew ..).trans ha, hend, howner⟩)

/-- An object that is not running is deleted with its handle. -/
theorem delete {o : ℕ} (hp : Paired (o :: os) s)
    (hrunning : ∀ c h, s.objects o = some c → c.hwnd = some h → s.lib.running ≠ some h) :
    Paired os (s.delete o) := by
  obtain ⟨c, ho⟩ := Option.ne_none_iff_exists'.mp ((hp.mem_iff o).mp List.mem_cons_self)
  obtain ⟨h, a, hne, hc, ha, hmates⟩ := hp.linked.of_object ho
  have hnot : s.lib.running ≠ some h := hrunning c h ho hc
  have heq : s.delete o = { s with
      objects := Function.update s.objects o none
      lib := s.lib.destroy h } := by
    obtain ⟨hwnd, fp, arg, mainHwnd, isStop⟩ := c
    obtain rfl : hwnd = some h := hc
    simp [State.delete, ho, State.setObject]
  have haccounts := hp.accounts.destroy (h := h) (by simp [ha]) hnot
  rw [heq]
  rw [Libaco.destroy, if_neg hnot] at haccounts ⊢
  obtain ⟨hmem, hnodup⟩ := List.nodup_cons.mp hp.nodup
  refine ⟨hnodup, fun o' => ?_, ?_, fun o' ho' => ?_, ?_, haccounts, hp.unbroken⟩
  · by_cases heq : o' = o
    · simp [heq, hmem]
    · have hiff := hp.mem_iff o'
      simpa [heq] using hiff
  · exact hp.linked.update hne hmates trivial
  · by_cases heq : o' = o
    · simp [heq]
    · simpa [heq] using hp.fresh o' ho'
  · have hrun := hp.running_eq
    rcases hp.context with hnone | hgtls | ⟨h', a', hgtls, hne', ha', hend, howner⟩
    · exact Or.inl hnone
    · exact Or.inr (Or.inl hgtls)
    -- whoever is running is not the one deleted
    · have hother : h' ≠ h := by
        rintro rfl
        rw [hgtls, if_neg (by simpa using hne')] at hrun
        exact hnot hrun
      refine Or.inr (Or.inr
        ⟨h', a', hgtls, hne', (Function.update_of_ne hother ..).trans ha', hend, ?_⟩)
      simpa [howner] using hother

/-- What `resume` does to an object that has not stopped, when the main program is running. -/
theorem resume_eq (hp : Paired os s) {o : ℕ} {c : Coroutine} (ho : s.objects o = some c)
    (hstop : c.isStop = false) (hrunning : s.lib.running = none) :
    ∃ h a, h ≠ s.hwnd ∧ c.hwnd = some h ∧ s.lib.acos h = some a ∧ a.isEnd = false ∧
      s.resume o = { s with lib := { s.lib with
        owner := some h, gtlsCo := some h, ran := (h, a.segment) :: s.lib.ran } } := by
  obtain ⟨h, a, hne, hc, ha, hmates⟩ := hp.linked.of_object ho
  rw [ho, ha] at hmates
  obtain ⟨-, -, hmain, -, hend⟩ := hmates
  refine ⟨h, a, hne, hc, ha, hend.trans hstop, ?_⟩
  obtain ⟨hwnd, fp, arg, mainHwnd, isStop⟩ := c
  obtain rfl : hwnd = some h := hc
  simp [State.resume, ho, Libaco.resume, ha, hmain, hend.trans hstop, hrunning]

/-- The main program resumes an object that has not stopped. -/
theorem resume (hp : Paired os s) {o : ℕ} {c : Coroutine} (ho : s.objects o = some c)
    (hstop : c.isStop = false) (hrunning : s.lib.running = none) : Paired os (s.resume o) := by
  obtain ⟨h, a, hne, -, ha, hend, heq⟩ := hp.resume_eq ho hstop hrunning
  rw [heq]
  exact ⟨hp.nodup, hp.mem_iff, hp.linked, hp.fresh, Or.inr (Or.inr ⟨h, a, rfl, hne, ha, hend, rfl⟩),
    hp.accounts.congr rfl rfl fun _ => Iff.rfl, hp.unbroken⟩

/-- What is known of the coroutine that is running. -/
theorem of_running (hp : Paired os s) {h : ℕ} (hrunning : s.lib.running = some h) :
    s.lib.gtlsCo = some h ∧ s.lib.owner = some h ∧ h ≠ s.hwnd ∧ ∃ o c segment,
      s.objects o = some c ∧ c.hwnd = some h ∧ c.mainHwnd = s.hwnd ∧ c.isStop = false ∧
      s.lib.acos h = some ⟨some s.hwnd, some o, false, segment⟩ := by
  have hrun := hp.running_eq
  rw [hrunning] at hrun
  rcases hp.context with hnone | hgtls | ⟨h', a, hgtls, hne, ha, hend, howner⟩
  · simp [hnone] at hrun
  · simp [hgtls] at hrun
  · obtain rfl : h = h' := by simpa [hgtls, hne] using hrun
    obtain ⟨o, c, -, ho, hmates⟩ := hp.linked.of_handle ha hne
    rw [ho, ha] at hmates
    obtain ⟨hc, hmainHwnd, hmain, harg, hstop⟩ := hmates
    obtain ⟨mainCo, arg, isEnd, segment⟩ := a
    simp only at hend hmain harg hstop
    subst hend hmain harg
    exact ⟨hgtls, howner, hne, o, c, segment, ho, hc, hmainHwnd, hstop.symm, ha⟩

/-- A coroutine yields. -/
theorem yield (hp : Paired os s) (hrunning : s.lib.running ≠ none) : Paired os s.yield := by
  obtain ⟨h, hrunning⟩ := Option.ne_none_iff_exists'.mp hrunning
  obtain ⟨hgtls, -, hne, o, c, segment, ho, hc, hmainHwnd, hstop, ha⟩ := hp.of_running hrunning
  have heq : s.yield = { s with lib := { s.lib with
      acos := Function.update s.lib.acos h (some ⟨some s.hwnd, some o, false, segment + 1⟩)
      gtlsCo := some s.hwnd } } := by
    simp [State.yield, Libaco.yield, hgtls, ha]
  have hlinked := hp.linked.update (a := some ⟨some s.hwnd, some o, false, segment + 1⟩)
    (c := some c) (o := o) hne (by simp [ho, ha, Mates, hc, hmainHwnd, hstop])
    (by simp [Mates, hc, hmainHwnd, hstop])
  rw [← ho, Function.update_eq_self] at hlinked
  rw [heq]
  refine ⟨hp.nodup, hp.mem_iff, hlinked, hp.fresh, Or.inr (Or.inl rfl),
    hp.accounts.congr rfl rfl fun h' => ?_, hp.unbroken⟩
  by_cases hh : h' = h
  · simp [hh, ha]
  · simp [hh]

/-- The function of a coroutine returns. -/
theorem routineReturns (hp : Paired os s) (hrunning : s.lib.running ≠ none) :
    Paired os s.routineReturns := by
  obtain ⟨h, hrunning⟩ := Option.ne_none_iff_exists'.mp hrunning
  obtain ⟨hgtls, howner, hne, o, c, segment, ho, hc, hmainHwnd, hstop, ha⟩ := hp.of_running hrunning
  have heq : s.routineReturns = { s with
      objects := Function.update s.objects o (some { c with isStop := true })
      lib := { s.lib with
        acos := Function.update s.lib.acos h (some ⟨some s.hwnd, some o, true, segment⟩)
        owner := none
        gtlsCo := some s.hwnd } } := by
    simp [State.routineReturns, State.getArg, hgtls, ha, State.setObject, ho, Libaco.exit, howner]
  rw [heq]
  refine ⟨hp.nodup, fun o' => ?_, ?_, fun o' ho' => ?_, Or.inr (Or.inl rfl),
    hp.accounts.congr rfl rfl fun h' => ?_, hp.unbroken⟩
  · by_cases heq : o' = o
    · simp [heq, hp.mem_iff, ho]
    · simp [heq, hp.mem_iff]
  · refine hp.linked.update hne ?_ ?_
    · simp [ho, ha, Mates, hc, hmainHwnd, hstop]
    · simp [Mates, hc, hmainHwnd]
  · have hother : o' ≠ o := by
      rintro rfl
      simp [hp.fresh o' ho'] at ho
    exact (Function.update_of_ne hother ..).trans (hp.fresh o' ho')
  · by_cases hh : h' = h
    · simp [hh, ha]
    · simp [hh]

/-- The constructed factory has no objects. -/
theorem construct : Paired [] (State.construct : State κ) where
  nodup := List.nodup_nil
  mem_iff o := by simp [State.construct]
  linked := by
    refine ⟨fun o c ho => by simp [State.construct] at ho, fun h a ha hne => ?_, ?_⟩
    · simp [State.construct, Libaco.start, Libaco.create, Libaco.shareStackNew] at ha hne
      simp [hne] at ha
    · simp [State.construct, Libaco.start, Libaco.create, Libaco.shareStackNew]
  fresh _ _ := rfl
  context := Or.inl rfl
  accounts := by
    refine ⟨trivial, ⟨rfl, rfl, trivial⟩, fun h => ?_, fun h => ?_, List.mem_cons_self⟩
    · simp [State.construct, Libaco.start, Libaco.create, Libaco.shareStackNew]
      grind
    · by_cases hh : h = 0
      · simp [State.construct, Libaco.start, Libaco.create, Libaco.shareStackNew, hh]
      · simp [State.construct, Libaco.start, Libaco.create, Libaco.shareStackNew, hh]
  unbroken := rfl

end Paired

end FfTest.Coroutines
