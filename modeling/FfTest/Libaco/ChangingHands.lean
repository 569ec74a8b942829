import FfTest.Libaco.PrivateStacks

/-! # Steps that keep the invariant

Most events change the record of one coroutine and the owner of its share stack: `Updated` says so.
`Keeps` is what such a step has to show of this coroutine, of the share stacks and of who is
running; what holds of all others is not broken, so that the step keeps the invariant (`Keeps.inv`),
and nobody else sees it (`Keeps.view`). -/

namespace FfTest.Libaco

open State

/-! ## Changing hands -/

/-- Who owns a share stack does not matter for its layout. -/
theorem ShareStack.Sound.owned {k : ShareStack} (h : k.Sound) (w : Option ℕ) (n : ℕ) :
    ({ k with owner := w, alignValidsz := n } : ShareStack).Sound :=
  ⟨h.retptr, h.high, h.low, h.limit, h.aligned, h.within, h.space⟩

/-- The record of the same share stack, perhaps with another owner. -/
def ShareStack.Reowned (k k' : ShareStack) : Prop :=
  ∃ w n, k' = { k with owner := w, alignValidsz := n }

namespace ShareStack.Reowned

variable {k k' : ShareStack}

/-- Nothing has changed. -/
theorem refl (k : ShareStack) : k.Reowned k := ⟨k.owner, k.alignValidsz, rfl⟩

/-- The block. -/
theorem block (h : k.Reowned k') : k'.block = k.block := by
  obtain ⟨w, n, rfl⟩ := h
  rfl

/-- The top. -/
theorem retptr (h : k.Reowned k') : k'.alignRetptr = k.alignRetptr := by
  obtain ⟨w, n, rfl⟩ := h
  rfl

/-- The bottom. -/
theorem low (h : k.Reowned k') : k'.low = k.low := by
  obtain ⟨w, n, rfl⟩ := h
  rfl

/-- It is as sound as it was. -/
theorem sound (h : k.Reowned k') (hk : k.Sound) : k'.Sound := by
  obtain ⟨w, n, rfl⟩ := h
  exact hk.owned w n

end ShareStack.Reowned

/-- A share stack that is not the handle's is left alone. -/
theorem ShareStack.disown_of_ne {k : ShareStack} {co : ℕ} (h : k.owner ≠ some co) :
    k.disown co = k := if_neg h

/-- The share stack of the handle has no owner any more. -/
theorem ShareStack.disown_of_eq {k : ShareStack} {co : ℕ} (h : k.owner = some co) :
    k.disown co = { k with owner := none, alignValidsz := 0 } := if_pos h

/-- A share stack stays where it is. -/
theorem ShareStack.reowned_disown (k : ShareStack) (co : ℕ) : k.Reowned (k.disown co) := by
  by_cases hown : k.owner = some co
  · rw [disown_of_eq hown]
    exact ⟨none, 0, rfl⟩
  · rw [disown_of_ne hown]
    exact .refl k

/-- The handle is the owner no more. -/
theorem ShareStack.disown_owner_ne (k : ShareStack) (co : ℕ) : (k.disown co).owner ≠ some co := by
  by_cases hown : k.owner = some co
  · rw [disown_of_eq hown]
    exact (Option.some_ne_none co).symm
  · rwa [disown_of_ne hown]

/-- Nobody else is any more or any less. -/
theorem ShareStack.disown_owner_iff (k : ShareStack) {co o : ℕ} (ho : o ≠ co) :
    (k.disown co).owner = some o ↔ k.owner = some o := by
  by_cases hown : k.owner = some co
  · rw [disown_of_eq hown, hown]
    exact iff_of_false (Option.some_ne_none o).symm fun h => ho (Option.some.inj h).symm
  · rw [disown_of_ne hown]

/-- Where the record `k'` of a share stack comes from: it was there, and has perhaps come to or from
the coroutine `o`, or it is new. -/
inductive Origin (o t : ℕ) (s s' : State) (k' : ShareStack) : Prop
  /-- It was there. -/
  | old {k : ShareStack} (hk : s.sstks t = some k) (place : k.Reowned k')
    (word : AgreeOn s.sys.mem s'.sys.mem ⟨k.alignRetptr, 64 / 8⟩)
    (owner : ∀ {co}, co ≠ o → (k'.owner = some co ↔ k.owner = some co))
  /-- It is new. -/
  | new (sound : k'.Sound) (owner : k'.owner = none)
    (word : loadWord 64 s'.sys.mem k'.alignRetptr = s'.protector)

/-- What a step about the coroutine `o` has to show to keep the invariant. -/
structure Keeps (main o : ℕ) (s s' : State) : Prop where
  /-- Of the others. -/
  about : About main o s s'
  /-- Of the blocks. -/
  parcels : Parcels s'.span s'.sys
  /-- Of the main coroutine. -/
  mainAco : ∃ c, s'.acos main = some c ∧ IsMain c
  /-- Of the coroutine itself. -/
  self : ∀ {c}, s'.acos o = some c → o ≠ main → Sub s' main o c
  /-- Of the share stacks. -/
  origin : ∀ {t k}, s'.sstks t = some k → Origin o t s s' k
  /-- Of the share stacks that the coroutine owns. -/
  owner : ∀ {t k}, s'.sstks t = some k → k.owner = some o →
    ∃ c, s'.acos o = some c ∧ c.shareStack = some t ∧ c.isEnd = false
  /-- If another coroutine is running, it was. -/
  others : ∀ {co}, co ≠ o → s'.running = some co → s.running = some co
  /-- If the coroutine is running, it owns its share stack. -/
  running : ∀ {c t k}, s'.running = some o → s'.acos o = some c → c.shareStack = some t →
    s'.sstks t = some k → k.owner = some o
  /-- Of `aco_gtls_co`. -/
  gtlsCo : ∀ {co}, s'.gtlsCo = some co → ∃ c, s'.acos co = some c
  /-- Of the protector. -/
  protector : s'.protector = s.protector

namespace Keeps

variable {main o : ℕ} {s s' : State}

/-- **Kept.** The step keeps the invariant. -/
theorem inv (h : Keeps main o s s') (hinv : Inv main s) : Inv main s' := by
  constructor
  case parcels => exact h.parcels
  case mainAco => exact h.mainAco
  case sub =>
    intro co c hc hne
    -- the coroutine that the step is about has its own field; the others are as they were
    by_cases hco : co = o
    · subst hco
      exact h.self hc hne
    · exact h.about.sub hinv hco hne hc
  case sound =>
    intro t k hk
    cases h.origin hk with
    | old hk₀ place word owner => exact place.sound (hinv.sound hk₀)
    | new sound owner word => exact sound
  case owner =>
    intro t k co hk hown
    by_cases hco : co = o
    · subst hco
      exact h.owner hk hown
    -- another owner owned this share stack before, so that it is no new one
    · cases h.origin hk with
      | old hk₀ place word owner =>
        have hown₀ := (owner hco).mp hown
        obtain ⟨c, hc, hrest⟩ := hinv.owner hk₀ hown₀
        exact ⟨c, (h.about.acos hco (hinv.owner_ne_main hk₀ hown₀)).trans hc, hrest⟩
      | new sound owner word =>
        rw [owner] at hown
        cases hown
  case running =>
    intro co c t k hrun hc ht hk
    by_cases hco : co = o
    · subst hco
      exact h.running hrun hc ht hk
    · have hrun₀ := h.others hco hrun
      obtain ⟨-, hne, d, hd, -, -, u, k₀, hu, hk₀, -⟩ := hinv.running_sub hrun₀
      rw [h.about.acos hco hne] at hc
      obtain rfl := Option.some.inj (hd.symm.trans hc)
      obtain rfl : u = t := Option.some.inj (hu.symm.trans ht)
      obtain ⟨k', hk', -, -, howner⟩ := h.about.stack hco hc ht hk₀
      obtain rfl := Option.some.inj (hk'.symm.trans hk)
      exact howner.mpr (hinv.running hrun₀ hc ht hk₀)
  case gtlsCo => exact h.gtlsCo
  case top =>
    intro t k hk
    cases h.origin hk with
    | old hk₀ place word owner =>
      rw [place.retptr, h.protector]
      exact (word.loadWord_eq ⟨le_rfl, le_rfl⟩).trans (hinv.top hk₀)
    | new sound owner word => exact word

/-- What is seen after the step differs in the context of the coroutine at most. -/
theorem view (h : Keeps main o s s') (hinv : Inv main s) {p : Private ℕ Regs (List Byte)}
    (hmain : s'.mainReg main = p.main)
    (hctx : p.ctx = Function.update s.context o (s'.context o))
    (hrunning : s'.running = p.running) : s'.view main = p := by
  refine view_eq hmain (fun co => ?_) hrunning
  rw [hctx]
  by_cases hco : co = o
  · rw [hco, Function.update_self]
  · rw [Function.update_of_ne hco]
    exact h.about.context_of_ne hinv h.mainAco hco

end Keeps

/-- The coroutine `o` has become `x`, and its share stack `t` has perhaps come to it or from it. -/
structure Updated (o t : ℕ) (x : Option Aco) (k k' : ShareStack) (s s' : State) : Prop where
  /-- The coroutine. -/
  acos : s'.acos = Function.update s.acos o x
  /-- The share stack. -/
  sstks : s'.sstks = Function.update s.sstks t (some k')
  /-- What it was. -/
  was : s.sstks t = some k
  /-- It is where it was. -/
  place : k.Reowned k'
  /-- It belongs to no other coroutine that it has not belonged to. -/
  owner : ∀ {co}, co ≠ o → (k'.owner = some co ↔ k.owner = some co)
  /-- It is the coroutine's. -/
  member : ∀ {c}, s.acos o = some c → c.shareStack = some t

namespace Updated

variable {main o t : ℕ} {x : Option Aco} {k k' : ShareStack} {s s' : State}

/-- The coroutine. -/
theorem acos_self (h : Updated o t x k k' s s') : s'.acos o = x := by
  rw [h.acos, Function.update_self]

/-- The other ones. -/
theorem acos_of_ne (h : Updated o t x k k' s s') {co : ℕ} (hco : co ≠ o) :
    s'.acos co = s.acos co := by
  rw [h.acos, Function.update_of_ne hco]

/-- The share stack. -/
theorem sstks_self (h : Updated o t x k k' s s') : s'.sstks t = some k' := by
  rw [h.sstks, Function.update_self]

/-- The other ones. -/
theorem sstks_of_ne (h : Updated o t x k k' s s') {u : ℕ} (hu : u ≠ t) :
    s'.sstks u = s.sstks u := by
  rw [h.sstks, Function.update_of_ne hu]

/-- What does not depend on the owner is the same of all share stacks. -/
theorem map_sstks (h : Updated o t x k k' s s') {α : Type} (f : ShareStack → α) (hf : f k' = f k)
    (u : ℕ) : (s'.sstks u).map f = (s.sstks u).map f := by
  by_cases hu : u = t
  · rw [hu, h.sstks_self, h.was, Option.map_some, Option.map_some, hf]
  · rw [h.sstks_of_ne hu]

/-- The main coroutine stays what it is. -/
theorem mainAco (h : Updated o t x k k' s s') (hinv : Inv main s) (hne : o ≠ main) :
    ∃ c, s'.acos main = some c ∧ IsMain c := by
  rw [h.acos_of_ne hne.symm]
  exact hinv.mainAco

/-- Nothing else is about another coroutine than `o`. -/
theorem about (h : Updated o t x k k' s s')
    (hreg : ∀ {co}, co ≠ o → ∀ c, s'.regOf co c = s.regOf co c)
    (harea : ∀ {co u k₁}, co ≠ o → s.sstks u = some k₁ → k₁.owner = some co →
      AgreeOn s.sys.mem s'.sys.mem k₁.block)
    (hsave : ∀ {co b}, co ≠ o → s.span (.save co) = some b → AgreeOn s.sys.mem s'.sys.mem b) :
    About main o s s' := by
  refine ⟨fun hco _ => h.acos_of_ne hco, hreg, fun {co c u k₁} hco _ _ hk₁ => ?_, harea, hsave⟩
  by_cases hu : u = t
  · subst hu
    obtain rfl := Option.some.inj (hk₁.symm.trans h.was)
    exact ⟨k', h.sstks_self, h.place.retptr, h.place.low, h.owner hco⟩
  · exact ⟨k₁, (h.sstks_of_ne hu).trans hk₁, .refl co k₁⟩

/-- All share stacks were there. -/
theorem origin (h : Updated o t x k k' s s')
    (hwords : ∀ {u k₁}, s.sstks u = some k₁ →
      AgreeOn s.sys.mem s'.sys.mem ⟨k₁.alignRetptr, 64 / 8⟩)
    {u : ℕ} {k₁ : ShareStack} (hu : s'.sstks u = some k₁) : Origin o u s s' k₁ := by
  by_cases hsame : u = t
  · subst hsame
    obtain rfl := Option.some.inj (h.sstks_self.symm.trans hu)
    exact .old h.was h.place (hwords h.was) h.owner
  · rw [h.sstks_of_ne hsame] at hu
    exact .old hu (.refl k₁) (hwords hu) fun _ => Iff.rfl

/-- The coroutine owns no share stack but its own. -/
theorem eq_of_owner (h : Updated o t x k k' s s') (hinv : Inv main s) {u : ℕ} {k₁ : ShareStack}
    (hu : s'.sstks u = some k₁) (hown : k₁.owner = some o) : u = t ∧ k₁ = k' := by
  by_cases hsame : u = t
  · subst hsame
    exact ⟨rfl, Option.some.inj (hu.symm.trans h.sstks_self)⟩
  · rw [h.sstks_of_ne hsame] at hu
    obtain ⟨c, hc, hsstk, -⟩ := hinv.owner hu hown
    exact absurd (Option.some.inj (hsstk.symm.trans (h.member hc))) hsame

/-- Who is running does not change while `aco_gtls_co` and the `main_co` of the coroutine stay. -/
theorem running_eq (h : Updated o t x k k' s s') (hgtls : s'.gtlsCo = s.gtlsCo)
    (hmainCo : s.gtlsCo = some o →
      (x.bind Aco.mainCo).isSome = ((s.acos o).bind Aco.mainCo).isSome) :
    s'.running = s.running := by
  refine running_congr hgtls fun {co} hco => ?_
  by_cases hsame : co = o
  · subst hsame
    rw [h.acos_self]
    exact hmainCo hco
  · rw [h.acos_of_ne hsame]

/-- `aco_gtls_co` does not dangle while it stays, and its handle does. -/
theorem gtlsCo (h : Updated o t x k k' s s') (hinv : Inv main s) (hgtls : s'.gtlsCo = s.gtlsCo)
    (hself : s.gtlsCo = some o → ∃ c, x = some c) {co : ℕ} (hco : s'.gtlsCo = some co) :
    ∃ c, s'.acos co = some c := by
  rw [hgtls] at hco
  by_cases hsame : co = o
  · subst hsame
    rw [h.acos_self]
    exact hself hco
  · rw [h.acos_of_ne hsame]
    exact hinv.gtlsCo hco

end Updated

end FfTest.Libaco
