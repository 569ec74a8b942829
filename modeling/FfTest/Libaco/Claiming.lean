import FfTest.Libaco.ChangingHands

/-! # The share stack changes hands

`aco_resume` moves two stacks: that of the owner of the share stack to its save stack, and that of
the coroutine that is to run back from its own. `Moved` says what such a move is, and `Moved.spec`
that it keeps the invariant and is seen by nobody; `save_spec` and `restore_spec` are its two cases,
and `claim_spec` puts them together. -/

namespace FfTest.Libaco

open State

variable {main : ℕ} {s s' : State}

/-! ## Moving a stack -/

/-- The blocks, where one coroutine has another save stack. -/
theorem Updated.span_moved {o sstk : ℕ} {c c' : Aco} {k k' : ShareStack}
    (h : Updated o sstk (some c') k k' s s') (hc : s.acos o = some c) :
    s'.span = Function.update s.span (.save o)
      (c'.saveStack.ptr.map fun ptr => ⟨ptr, c'.saveStack.sz⟩) := by
  funext i
  cases i with
  | aco co =>
    rw [Function.update_of_ne (by simp)]
    show (s'.acos co).map _ = (s.acos co).map _
    by_cases hco : co = o
    · rw [hco, h.acos_self, hc, Option.map_some, Option.map_some]
    · rw [h.acos_of_ne hco]
  | save co =>
    show (s'.acos co).bind _ = _
    by_cases hco : co = o
    · rw [hco, h.acos_self, Function.update_self, Option.bind_some]
    · have hsave : Role.save co ≠ Role.save o := fun h => hco (Role.save.inj h)
      rw [h.acos_of_ne hco, Function.update_of_ne hsave]
      rfl
  | sstk t =>
    rw [Function.update_of_ne (by simp)]
    exact h.map_sstks _ rfl t
  | area t =>
    rw [Function.update_of_ne (by simp)]
    exact h.map_sstks _ h.place.block t

/-- While the main program is running, the stack of the coroutine `o` is moved between its share
stack and its save stack. -/
structure Moved (o sstk : ℕ) (c : Aco) (saveStack : SaveStack) (k k' : ShareStack) (s s' : State) :
    Prop where
  /-- The records. -/
  updated : Updated o sstk (some { c with saveStack }) k k' s s'
  /-- The coroutine as it was. -/
  was : s.acos o = some c
  /-- It has not ended. -/
  going : c.isEnd = false
  /-- The main program is running. -/
  running : s.running = none
  /-- Nobody is switched. -/
  gtlsCo : s'.gtlsCo = s.gtlsCo
  /-- Nor is the processor. -/
  cpu : s'.cpu = s.cpu
  /-- The protector stays. -/
  protector : s'.protector = s.protector
  /-- Nobody else owns the share stack. -/
  before : ∀ {co}, co ≠ o → k.owner ≠ some co
  /-- The coroutine has a save stack, which is the one block that may be new. -/
  parcels : ∃ ptr, saveStack.ptr = some ptr ∧
    Parcels (Function.update s.span (.save o) (some ⟨ptr, saveStack.sz⟩)) s'.sys
  /-- The other blocks are left alone. -/
  mem : ∀ {i b}, i ≠ .save o → i ≠ .area sstk → s.span i = some b → AgreeOn s.sys.mem s'.sys.mem b
  /-- So is the word at the top of the share stack. -/
  top : AgreeOn s.sys.mem s'.sys.mem ⟨k.alignRetptr, 64 / 8⟩
  /-- What is saved. -/
  saved : k'.owner ≠ some o →
    saveStack.validSz = k.alignRetptr - c.reg.rsp.toNat ∧ saveStack.validSz ≤ saveStack.sz
  /-- How often. -/
  counted : saveStack.ctSave = saveStack.ctRestore +
    if k'.owner ≠ some o ∧ 0 < saveStack.validSz then 1 else 0
  /-- The bytes stay the same. -/
  bytes : s'.running ≠ some o → s'.bytesOf o { c with saveStack } k' = s.bytesOf o c k

namespace Moved

variable {o sstk : ℕ} {c : Aco} {saveStack : SaveStack} {k k' : ShareStack}

/-- The main program goes on running. -/
theorem running_eq (h : Moved o sstk c saveStack k k' s s') : s'.running = s.running :=
  h.updated.running_eq h.gtlsCo fun _ => by rw [h.was]; rfl

/-- Nobody is running but the main program. -/
theorem running_ne (h : Moved o sstk c saveStack k k' s s') (co : ℕ) : s'.running ≠ some co := by
  rw [h.running_eq, h.running]
  exact (Option.some_ne_none co).symm

/-- All registers are where they were. -/
theorem regOf_eq (h : Moved o sstk c saveStack k k' s s') (co : ℕ) (d : Aco) :
    s'.regOf co d = s.regOf co d := regOf_congr h.running_eq h.cpu co d

/-- The words at the tops of the share stacks are left alone. -/
theorem word (h : Moved o sstk c saveStack k k' s s') (hinv : Inv main s) {t : ℕ}
    {k₁ : ShareStack} (hk₁ : s.sstks t = some k₁) :
    AgreeOn s.sys.mem s'.sys.mem ⟨k₁.alignRetptr, 64 / 8⟩ := by
  by_cases ht : t = sstk
  · subst ht
    obtain rfl := Option.some.inj (hk₁.symm.trans h.updated.was)
    exact h.top
  · have harea : Role.area t ≠ .area sstk := fun heq => ht (Role.area.inj heq)
    exact (h.mem (by simp) harea (span_area hk₁)).mono (hinv.sound hk₁).word_within

/-- The others are left alone. -/
theorem about (h : Moved o sstk c saveStack k k' s s') : About main o s s' := by
  refine h.updated.about (fun {co} _ => h.regOf_eq co) (fun {co t k₁} hco hk₁ hown => ?_)
    fun hco => h.mem (fun heq => hco (Role.save.inj heq)) (by simp)
  -- the share stack that is moved belongs to no other coroutine
  refine h.mem (by simp) (fun heq => ?_) (span_area hk₁)
  obtain rfl := Role.area.inj heq
  obtain rfl := Option.some.inj (hk₁.symm.trans h.updated.was)
  exact h.before hco hown

/-- What holds of the coroutine. -/
theorem sub (h : Moved o sstk c saveStack k k' s s') (hinv : Inv main s) (hne : o ≠ main) :
    Sub s' main o { c with saveStack } := by
  obtain ⟨hmainCo, -, t, k₀, ht, hk₀, hfits⟩ := hinv.sub h.was hne
  obtain rfl : t = sstk := Option.some.inj (ht.symm.trans (h.updated.member h.was))
  obtain rfl := Option.some.inj (hk₀.symm.trans h.updated.was)
  have hfit := hfits h.going
  obtain ⟨ptr, hptr, -⟩ := h.parcels
  refine ⟨hmainCo, ⟨ptr, hptr⟩, t, k', ht, h.updated.sstks_self, fun _ => ?_⟩
  refine ⟨?_, ?_, fun hown => ?_, fun hown => (h.saved hown).2, h.counted⟩
  · rw [h.updated.place.low, h.regOf_eq]
    exact hfit.low
  · rw [h.updated.place.retptr, h.regOf_eq]
    exact hfit.high
  · rw [h.updated.place.retptr]
    exact (h.saved hown).1

/-- The invariant is kept. -/
theorem keeps (h : Moved o sstk c saveStack k k' s s') (hinv : Inv main s) (hne : o ≠ main) :
    Keeps main o s s' where
  about := h.about
  parcels := by
    obtain ⟨ptr, hptr, hparcels⟩ := h.parcels
    rw [h.updated.span_moved h.was]
    show Parcels (Function.update s.span _ (saveStack.ptr.map _)) _
    rw [hptr]
    exact hparcels
  mainAco := h.updated.mainAco hinv hne
  self := by
    intro d hd _
    obtain rfl := Option.some.inj (h.updated.acos_self.symm.trans hd)
    exact h.sub hinv hne
  origin := h.updated.origin (h.word hinv)
  owner := by
    intro t k₁ hk₁ hown
    obtain ⟨rfl, -⟩ := h.updated.eq_of_owner hinv hk₁ hown
    have hsstk := h.updated.member h.was
    exact ⟨_, h.updated.acos_self, hsstk, h.going⟩
  others := fun {co} _ hrun => absurd hrun (h.running_ne co)
  running := fun hrun => absurd hrun (h.running_ne o)
  gtlsCo := h.updated.gtlsCo hinv h.gtlsCo fun _ => ⟨_, rfl⟩
  protector := h.protector

/-- The coroutine sees its context as it was. -/
theorem context_eq (h : Moved o sstk c saveStack k k' s s') : s'.context o = s.context o := by
  have hsstk := h.updated.member h.was
  rw [context_sub h.updated.acos_self hsstk h.updated.sstks_self,
    context_sub h.was hsstk h.updated.was, h.bytes (h.running_ne o), h.regOf_eq]
  rfl

/-- **Moving a stack.** The move keeps the invariant, and nobody sees it. -/
theorem spec (h : Moved o sstk c saveStack k k' s s') (hinv : Inv main s) (hne : o ≠ main) :
    Inv main s' ∧ s'.view main = s.view main := by
  have hkeeps := h.keeps hinv hne
  refine ⟨hkeeps.inv hinv, hkeeps.view hinv ?_ ?_ h.running_eq⟩
  · show s'.mainReg main = s.mainReg main
    unfold State.mainReg
    rw [h.running_eq, h.running, if_pos rfl, if_pos rfl, h.cpu]
  · show s.context = _
    rw [h.context_eq, Function.update_eq_self]

end Moved

/-- While the main program is running, the registers of a coroutine are in its `aco_t`, and its
stack lies in its share stack. -/
theorem Inv.at_rest (hinv : Inv main s) (hrun : s.running = none) {sstk co : ℕ} {c : Aco}
    {k : ShareStack} (hne : co ≠ main) (hc : s.acos co = some c)
    (hsstk : c.shareStack = some sstk) (hend : c.isEnd = false) (hk : s.sstks sstk = some k) :
    s.regOf co c = c.reg ∧ Fits s co c k ∧ k.low ≤ c.reg.rsp.toNat ∧
      c.reg.rsp.toNat ≤ k.alignRetptr ∧ ∃ ptr, c.saveStack.ptr = some ptr := by
  obtain ⟨-, hptr, t, k₀, ht, hk₀, hfits⟩ := hinv.sub hc hne
  obtain rfl : t = sstk := Option.some.inj (ht.symm.trans hsstk)
  obtain rfl : k₀ = k := Option.some.inj (hk₀.symm.trans hk)
  have hidle : s.running ≠ some co := by
    rw [hrun]
    exact (Option.some_ne_none co).symm
  have hfit := hfits hend
  have hlow := hfit.low
  have hhigh := hfit.high
  have hreg := regOf_of_ne hidle c
  rw [hreg] at hlow hhigh
  exact ⟨hreg, hfit, hlow, hhigh, hptr⟩

/-! ## Saving -/

/-- What `save` does, once its assertions hold. -/
theorem save_eq {sstk o : ℕ} {k : ShareStack} {d : Aco} (hk : s.sstks sstk = some k)
    (ho : k.owner = some o) (hd : s.acos o = some d) (hsstk : d.shareStack = some sstk)
    (hlow : k.low ≤ d.reg.rsp.toNat) (hhigh : d.reg.rsp.toNat ≤ k.alignRetptr) {m : Memory}
    {r : Option Grant} {grown saved : SaveStack} {sys₁ sys₂ : SysHeap}
    (hgrow : { d.saveStack with validSz := k.alignRetptr - d.reg.rsp.toNat : SaveStack }.grow
      s.sys m r = some (grown, sys₁))
    (hcopy : grown.copyOut sys₁ d.reg.rsp.toNat = some (saved, sys₂)) :
    s.save sstk m r = some { s with
      sys := sys₂
      acos := Function.update s.acos o (some { d with saveStack := saved })
      sstks := Function.update s.sstks sstk
        (some { k with owner := none, alignValidsz := 0 }) } := by
  have hassert : k.alignRetptr ≥ d.reg.rsp.toNat ∧ k.low ≤ d.reg.rsp.toNat := ⟨hhigh, hlow⟩
  unfold State.save
  simp only [hk, ho, hd, Option.bind_eq_bind, Option.bind_some]
  simp only [← Option.bind_eq_bind, assert_bind_of hsstk, assert_bind_of hassert]
  rw [hgrow]
  simp only [Option.bind_eq_bind, Option.bind_some, hcopy]

/-- **Saving.** The owner of the share stack is made somebody whose stack is saved. -/
theorem save_spec (hinv : Inv main s) (hrun : s.running = none) {sstk o : ℕ} {k : ShareStack}
    {d : Aco} (hk : s.sstks sstk = some k) (ho : k.owner = some o) (hd : s.acos o = some d)
    {m : Memory} {r : Option Grant}
    (hok : { d.saveStack with validSz := k.alignRetptr - d.reg.rsp.toNat : SaveStack }.GrowOk
      s.sys m r) :
    ∃ s', s.save sstk m r = some s' ∧ Inv main s' ∧ s'.view main = s.view main ∧
      s'.protector = s.protector ∧
      s'.sstks sstk = some { k with owner := none, alignValidsz := 0 } ∧
      ∀ {co}, co ≠ o → s'.acos co = s.acos co := by
  have hne := hinv.owner_ne_main hk ho
  obtain ⟨d₀, hd₀, hsstk, hend⟩ := hinv.owner hk ho
  obtain rfl : d₀ = d := Option.some.inj (hd₀.symm.trans hd)
  obtain ⟨hreg, hfit, hlow, hhigh, ptr, hptr⟩ := hinv.at_rest hrun hne hd hsstk hend hk
  have hsound := hinv.sound hk
  have hblock : s.span (.area sstk) = some k.block := span_area hk
  have hinside := hsound.within_block hlow hhigh
  -- the save stack, with the size that `aco_resume` computes for what is to be saved
  obtain ⟨save, hsave⟩ : ∃ save : SaveStack,
    save = { d₀.saveStack with validSz := k.alignRetptr - d₀.reg.rsp.toNat } := ⟨_, rfl⟩
  have hvalid : save.validSz = k.alignRetptr - d₀.reg.rsp.toNat := by rw [hsave]
  rw [← hvalid] at hinside
  rw [← hsave] at hok
  have hsavePtr : save.ptr = some ptr := by rw [hsave, hptr]
  have hsaveSpan : s.span (.save o) = some ⟨ptr, save.sz⟩ := by
    rw [hsave, span_save hd hptr]
  have hroles : Role.save o ≠ .area sstk := by simp
  -- it grows if it is too small, and takes the copy
  obtain ⟨grown, sys₁, saved, sys₂, ptr', hgrow, hcopy, hptr', hvalid', hroom, hctSave,
    hctRestore, hparcels, hcopied, hkept⟩ :=
    SaveStack.saved_spec hinv.parcels hroles hsavePtr hsaveSpan hblock
      (hvalid ▸ (hsound.le_limit hlow).2) hinside hok
  obtain ⟨s', hs'⟩ : ∃ s' : State, s' = { s with
      sys := sys₂
      acos := Function.update s.acos o (some { d₀ with saveStack := saved })
      sstks := Function.update s.sstks sstk (some { k with owner := none, alignValidsz := 0 }) } :=
    ⟨_, rfl⟩
  have hrun' : s.save sstk m r = some s' := by
    rw [hs']
    exact save_eq hk ho hd hsstk hlow hhigh (hsave ▸ hgrow) hcopy
  have hmoved : Moved o sstk d₀ saved k { k with owner := none, alignValidsz := 0 } s s' := by
    subst hs'
    constructor
    case updated =>
      refine ⟨rfl, rfl, hk, ⟨none, 0, rfl⟩, fun hco => ?_, fun hd' => ?_⟩
      · rw [ho]
        exact iff_of_false (Option.some_ne_none _).symm fun h => hco (Option.some.inj h).symm
      · exact Option.some.inj (hd'.symm.trans hd) ▸ hsstk
    case was => exact hd
    case going => exact hend
    case running => exact hrun
    case gtlsCo => rfl
    case cpu => rfl
    case protector => rfl
    case before => exact fun hco hown => hco (Option.some.inj (hown.symm.trans ho))
    case parcels => exact ⟨ptr', hptr', hparcels⟩
    case mem => exact fun hi _ hb => hkept hi hb
    case top => exact (hkept (by simp) hblock).mono hsound.word_within
    -- the stack is in the save stack now; unless it is empty, one more copy went out than back
    case saved => exact fun _ => ⟨hvalid'.trans hvalid, hvalid' ▸ hroom⟩
    case counted =>
      have hcounted := hfit.counted
      rw [if_neg fun h => h.1 ho] at hcounted
      rw [hctSave, hctRestore, hvalid']
      simpa [hsave] using hcounted
    case bytes =>
      intro _
      rw [bytesOf_owner d₀ ho, bytesOf_saved (Option.some_ne_none _).symm hptr', hreg,
        ← hvalid]
      show bytes sys₂.mem ptr' saved.validSz = _
      rw [hvalid', hcopied]
  obtain ⟨hinv', hview⟩ := hmoved.spec hinv hne
  exact ⟨s', hrun', hinv', hview, hmoved.protector, hmoved.updated.sstks_self,
    hmoved.updated.acos_of_ne⟩

/-! ## Restoring -/

/-- What `restore` does, once its assertions hold. -/
theorem restore_eq {sstk co : ℕ} {k : ShareStack} {c : Aco} (hk : s.sstks sstk = some k)
    (hc : s.acos co = some c) (ho : k.owner = none)
    (hlimit : c.saveStack.validSz ≤ k.alignLimit - 8) {saved : SaveStack} {sys : SysHeap}
    (hcopy : c.saveStack.copyIn s.sys (k.alignRetptr - c.saveStack.validSz) = some (saved, sys)) :
    s.restore sstk co = some { s with
      sys
      acos := Function.update s.acos co (some { c with saveStack := saved })
      sstks := Function.update s.sstks sstk (some { k with
        owner := some co, alignValidsz := c.saveStack.validSz + 8 }) } := by
  unfold State.restore
  simp only [hk, hc, Option.bind_eq_bind, Option.bind_some]
  simp only [← Option.bind_eq_bind, assert_bind_of ho, assert_bind_of hlimit]
  rw [hcopy]
  rfl

/-- **Restoring.** A share stack without an owner is given to a coroutine, with its stack. -/
theorem restore_spec (hinv : Inv main s) (hrun : s.running = none) {sstk co : ℕ} {c : Aco}
    {k : ShareStack} (hne : co ≠ main) (hc : s.acos co = some c)
    (hsstk : c.shareStack = some sstk) (hend : c.isEnd = false) (hk : s.sstks sstk = some k)
    (ho : k.owner = none) :
    ∃ s', s.restore sstk co = some s' ∧ Inv main s' ∧ s'.view main = s.view main ∧
      s'.protector = s.protector ∧
      (∃ k', s'.sstks sstk = some k' ∧ k'.owner = some co) ∧
      ∃ c', s'.acos co = some c' ∧ c'.isEnd = false ∧ c'.shareStack = some sstk := by
  obtain ⟨-, hfit, hlow, hhigh, ptr, hptr⟩ := hinv.at_rest hrun hne hc hsstk hend hk
  have hother : k.owner ≠ some co := by
    rw [ho]
    exact (Option.some_ne_none co).symm
  have hsound := hinv.sound hk
  have hvalid := hfit.saved hother
  have hblock : s.span (.area sstk) = some k.block := span_area hk
  have hsaveBlock := span_save hc hptr
  have hinside := hsound.within_block hlow hhigh
  rw [← hvalid] at hinside
  have hroles : Role.save co ≠ .area sstk := by simp
  -- the copy lands between the stack pointer and the word at the top
  obtain ⟨m, hcopy, hcopied, hkept⟩ :=
    SaveStack.copyIn_spec hinv.parcels hroles hptr hsaveBlock hblock (hfit.room hother) hinside
  obtain ⟨saved, hsaved, hptr', hsz', hvalid', hctSave, hctRestore⟩ : ∃ saved : SaveStack,
      c.saveStack.copyIn s.sys c.reg.rsp.toNat = some (saved, s.sys.poke m) ∧
      saved.ptr = c.saveStack.ptr ∧ saved.sz = c.saveStack.sz ∧
      saved.validSz = c.saveStack.validSz ∧ saved.ctSave = c.saveStack.ctSave ∧
      saved.ctRestore = c.saveStack.ctRestore + (if 0 < c.saveStack.validSz then 1 else 0) :=
    ⟨_, hcopy, rfl, rfl, rfl, rfl, rfl⟩
  obtain ⟨s', hs'⟩ : ∃ s' : State, s' = { s with
      sys := s.sys.poke m
      acos := Function.update s.acos co (some { c with saveStack := saved })
      sstks := Function.update s.sstks sstk (some { k with
        owner := some co, alignValidsz := c.saveStack.validSz + 8 }) } := ⟨_, rfl⟩
  have hrun' : s.restore sstk co = some s' := by
    -- what was saved reached up to the top, so the copy begins at the stack pointer again
    have hrsp : k.alignRetptr - c.saveStack.validSz = c.reg.rsp.toNat := by omega
    rw [hs']
    exact restore_eq hk hc ho (hvalid ▸ (hsound.le_limit hlow).1) (hrsp ▸ hsaved)
  have hmoved : Moved co sstk c saved k
      { k with owner := some co, alignValidsz := c.saveStack.validSz + 8 } s s' := by
    subst hs'
    constructor
    case updated =>
      refine ⟨rfl, rfl, hk, ⟨some co, _, rfl⟩, fun hco => ?_, fun hc' => ?_⟩
      · rw [ho]
        exact iff_of_false (fun h => hco (Option.some.inj h).symm) (Option.some_ne_none _).symm
      · exact Option.some.inj (hc'.symm.trans hc) ▸ hsstk
    case was => exact hc
    case going => exact hend
    case running => exact hrun
    case gtlsCo => rfl
    case cpu => rfl
    case protector => rfl
    case before =>
      intro o _ hown
      rw [ho] at hown
      cases hown
    case parcels =>
      refine ⟨ptr, hptr'.trans hptr, ?_⟩
      rw [hsz', ← hsaveBlock, Function.update_eq_self]
      exact hinv.parcels.poke m
    -- only the share stack is written to
    case mem =>
      intro i b _ hi hb
      exact hkept ((hinv.parcels.apart hi hb hblock).mono ⟨le_rfl, le_rfl⟩ hinside)
    case top =>
      refine hkept (Or.inr ?_)
      show c.reg.rsp.toNat + c.saveStack.validSz ≤ k.alignRetptr
      omega
    case saved => exact fun hown => absurd rfl hown
    case counted =>
      have hcounted := hfit.counted
      rw [hctSave, hctRestore, hcounted]
      simp [hother]
    case bytes =>
      intro hidle'
      rw [bytesOf_owner _ rfl, bytesOf_saved hother hptr, ← hcopied, regOf_of_ne hidle', hvalid]
      rfl
  obtain ⟨hinv', hview⟩ := hmoved.spec hinv hne
  exact ⟨s', hrun', hinv', hview, hmoved.protector, ⟨_, hmoved.updated.sstks_self, rfl⟩,
    _, hmoved.updated.acos_self, hend, hsstk⟩

/-! ## Claiming -/

/-- **Claiming.** A coroutine that has not ended can be made the owner of its share stack, and
nobody sees it. -/
theorem claim_spec (hinv : Inv main s) (hrun : s.running = none) {sstk co : ℕ} {c : Aco}
    (hne : co ≠ main) (hc : s.acos co = some c) (hsstk : c.shareStack = some sstk)
    (hend : c.isEnd = false) {m : Memory} {r : Option Grant} (hok : s.SaveOk co m r) :
    ∃ s', s.claim sstk co m r = some s' ∧ Inv main s' ∧ s'.view main = s.view main ∧
      s'.protector = s.protector ∧
      (∃ k', s'.sstks sstk = some k' ∧ k'.owner = some co) ∧
      ∃ c', s'.acos co = some c' ∧ c'.isEnd = false ∧ c'.shareStack = some sstk := by
  obtain ⟨-, -, t, k, ht, hk, -⟩ := hinv.sub hc hne
  obtain rfl : t = sstk := Option.some.inj (ht.symm.trans hsstk)
  unfold State.claim
  rw [hk, Option.bind_eq_bind, Option.bind_some]
  -- the share stack may be the coroutine's, nobody's, or another one's
  by_cases hown : k.owner = some co
  · rw [if_neg (not_not.mpr hown)]
    exact ⟨s, rfl, hinv, rfl, rfl, ⟨k, hk, hown⟩, c, hc, hend, hsstk⟩
  · rw [if_pos hown]
    cases ho : k.owner with
    | none =>
      have hsave : s.save t m r = some s := by
        unfold State.save
        rw [hk, Option.bind_eq_bind, Option.bind_some, ho]
      rw [hsave, Option.bind_eq_bind, Option.bind_some]
      exact restore_spec hinv hrun hne hc hsstk hend hk ho
    | some o =>
      obtain ⟨d, hd, -⟩ := hinv.owner hk ho
      have hother : co ≠ o := by
        rintro rfl
        exact hown ho
      have hstack : s.stackOf co = some k := by
        unfold State.stackOf
        rw [hc, Option.bind_some, hsstk, Option.bind_some, hk]
      -- the stack of `o` is saved, which leaves the coroutine alone, and then its own is restored
      obtain ⟨s₁, hsave, hinv₁, hview₁, hprotector₁, hk₁, hacos₁⟩ :=
        save_spec hinv hrun hk ho hd (hok hstack ho hother.symm hd)
      have hrun₁ : s₁.running = none := (congrArg Private.running hview₁).trans hrun
      obtain ⟨s₂, hrestore, hinv₂, hview₂, hprotector₂, hrest⟩ := restore_spec hinv₁ hrun₁ hne
        ((hacos₁ hother).trans hc) hsstk hend hk₁ rfl
      rw [hsave, Option.bind_eq_bind, Option.bind_some, hrestore]
      exact ⟨s₂, rfl, hinv₂, hview₂.trans hview₁, hprotector₂.trans hprotector₁, hrest⟩

end FfTest.Libaco
