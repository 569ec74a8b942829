import FfTest.Libaco.Turns

/-! # Coroutines and share stacks come and go

The rest of the events: what is made gets blocks of its own, and what is destroyed gives its blocks
back, and nobody else sees it. -/

namespace FfTest.Libaco

open State

variable {main : ℕ} {s s' : State}

/-! ## Coroutines -/

/-- The registers of the main program are where they were while nobody is switched. -/
theorem mainReg_congr (hrunning : s'.running = s.running) (hcpu : s'.cpu = s.cpu)
    (hmain : s'.acos main = s.acos main) : s'.mainReg main = s.mainReg main := by
  unfold State.mainReg
  rw [hrunning, hcpu, hmain]

/-- Two blocks are found beside those that there are. -/
theorem Updated.span_create {p t ptr : ℕ} {c : Aco} {k k' : ShareStack}
    (h : Updated p t (some c) k k' s s') (hptr : c.saveStack.ptr = some ptr) :
    s'.span = Function.update (Function.update s.span (.aco p) (some ⟨p, sizeofAco⟩)) (.save p)
      (some ⟨ptr, c.saveStack.sz⟩) := by
  funext i
  cases i with
  | aco co =>
    rw [Function.update_of_ne (by simp)]
    show (s'.acos co).map _ = _
    by_cases hco : co = p
    · rw [hco, h.acos_self, Function.update_self, Option.map_some]
    · rw [h.acos_of_ne hco, Function.update_of_ne fun heq => hco (Role.aco.inj heq)]
      rfl
  | save co =>
    show (s'.acos co).bind _ = _
    by_cases hco : co = p
    · rw [hco, h.acos_self, Function.update_self, Option.bind_some, hptr, Option.map_some]
    · rw [h.acos_of_ne hco, Function.update_of_ne fun heq => hco (Role.save.inj heq),
        Function.update_of_ne (by simp)]
      rfl
  | sstk u =>
    rw [Function.update_of_ne (by simp), Function.update_of_ne (by simp)]
    exact h.map_sstks _ rfl u
  | area u =>
    rw [Function.update_of_ne (by simp), Function.update_of_ne (by simp)]
    exact h.map_sstks _ h.place.block u

/-- The coroutine `p` is made, with an empty stack. -/
structure Created (main p sstk : ℕ) (c : Aco) (k : ShareStack) (s s' : State) : Prop where
  /-- The records. -/
  updated : Updated p sstk (some c) k k s s'
  /-- The coroutine was not there. -/
  new : s.acos p = none
  /-- It is not the main coroutine. -/
  mainCo : c.mainCo = some main
  /-- It has a save stack. -/
  ptr : ∃ ptr, c.saveStack.ptr = some ptr
  /-- There is nothing on it. -/
  valid : c.saveStack.validSz = 0
  /-- Nothing was copied. -/
  count : c.saveStack.ctSave = c.saveStack.ctRestore
  /-- It has a share stack. -/
  member : c.shareStack = some sstk
  /-- It has not ended. -/
  going : c.isEnd = false
  /-- It starts at the top. -/
  rsp : c.reg.rsp.toNat = k.alignRetptr
  /-- Nobody is switched. -/
  gtlsCo : s'.gtlsCo = s.gtlsCo
  /-- Nor is the processor. -/
  cpu : s'.cpu = s.cpu
  /-- The protector stays. -/
  protector : s'.protector = s.protector
  /-- It has blocks of its own. -/
  parcels : Parcels s'.span s'.sys
  /-- All that there was is left alone. -/
  mem : ∀ {i b}, s.span i = some b → AgreeOn s.sys.mem s'.sys.mem b

namespace Created

variable {p sstk : ℕ} {c : Aco} {k : ShareStack}

/-- A handle that was there is another one. -/
theorem ne (h : Created main p sstk c k s s') {o : ℕ} {d : Aco} (hd : s.acos o = some d) :
    o ≠ p := by
  rintro rfl
  rw [h.new] at hd
  cases hd

/-- `aco_gtls_co` is another one. -/
theorem gtlsCo_ne (h : Created main p sstk c k s s') (hinv : Inv main s) : s.gtlsCo ≠ some p := by
  intro hp
  obtain ⟨d, hd⟩ := hinv.gtlsCo hp
  exact h.ne hd rfl

/-- Whoever was running is running. -/
theorem running_eq (h : Created main p sstk c k s s') (hinv : Inv main s) :
    s'.running = s.running :=
  h.updated.running_eq h.gtlsCo fun hp => absurd hp (h.gtlsCo_ne hinv)

/-- The new coroutine is not. -/
theorem idle (h : Created main p sstk c k s s') (hinv : Inv main s) : s'.running ≠ some p := by
  rw [h.running_eq hinv]
  exact fun hp => h.gtlsCo_ne hinv (running_eq_some_iff.mp hp).1

/-- Nor is it the owner of a share stack. -/
theorem owner_ne (h : Created main p sstk c k s s') (hinv : Inv main s) {t : ℕ} {k₁ : ShareStack}
    (hk₁ : s.sstks t = some k₁) : k₁.owner ≠ some p := by
  intro hown
  obtain ⟨d, hd, -⟩ := hinv.owner hk₁ hown
  exact h.ne hd rfl

/-- What holds of the coroutine. -/
theorem sub (h : Created main p sstk c k s s') (hinv : Inv main s) : Sub s' main p c := by
  have hidle := h.idle hinv
  have hsound := hinv.sound h.updated.was
  refine ⟨h.mainCo, h.ptr, sstk, k, h.member, h.updated.sstks_self, fun _ => ?_⟩
  constructor
  case low =>
    have hlimit := hsound.limit
    have hret := hsound.retptr
    rw [regOf_of_ne hidle, h.rsp, ShareStack.low]
    omega
  case high => rw [regOf_of_ne hidle, h.rsp]
  case saved => exact fun _ => by rw [h.valid, h.rsp, Nat.sub_self]
  case room => exact fun _ => h.valid ▸ Nat.zero_le _
  case counted => rw [h.valid, if_neg fun hpos => lt_irrefl 0 hpos.2, h.count, Nat.add_zero]

/-- The invariant is kept. -/
theorem keeps (h : Created main p sstk c k s s') (hinv : Inv main s) : Keeps main p s s' := by
  have hrunning := h.running_eq hinv
  obtain ⟨f, hf, -⟩ := hinv.mainAco
  constructor
  case about =>
    exact h.updated.about (fun _ => regOf_congr hrunning h.cpu _)
      (fun _ hk₁ _ => h.mem (span_area hk₁)) fun _ => h.mem
  case parcels => exact h.parcels
  case mainAco => exact h.updated.mainAco hinv (h.ne hf).symm
  case self =>
    intro d hd _
    obtain rfl := Option.some.inj (h.updated.acos_self.symm.trans hd)
    exact h.sub hinv
  case origin =>
    exact h.updated.origin fun hk₁ => (h.mem (span_area hk₁)).mono (hinv.sound hk₁).word_within
  case owner =>
    intro t k₁ hk₁ hown
    obtain ⟨rfl, rfl⟩ := h.updated.eq_of_owner hinv hk₁ hown
    exact absurd hown (h.owner_ne hinv h.updated.was)
  case others => exact fun _ hrun => hrunning ▸ hrun
  case running => exact fun hrun => absurd hrun (h.idle hinv)
  case gtlsCo => exact h.updated.gtlsCo hinv h.gtlsCo fun hp => absurd hp (h.gtlsCo_ne hinv)
  case protector => exact h.protector

/-- **A new coroutine.** It is seen to start with an empty stack. -/
theorem spec (h : Created main p sstk c k s s') (hinv : Inv main s) :
    Inv main s' ∧ s'.view main = (s.view main).step (.create p c.reg []) := by
  have hkeeps := h.keeps hinv
  have hrunning := h.running_eq hinv
  obtain ⟨f, hf, -⟩ := hinv.mainAco
  refine ⟨hkeeps.inv hinv, hkeeps.view hinv ?_ ?_ hrunning⟩
  · exact mainReg_congr hrunning h.cpu (h.updated.acos_of_ne (h.ne hf))
  · obtain ⟨ptr, hptr⟩ := h.ptr
    show Function.update s.context p (some (.alive c.reg [])) = _
    rw [context_sub h.updated.acos_self h.member h.updated.sstks_self, h.going,
      regOf_of_ne (h.idle hinv), bytesOf_saved (h.owner_ne hinv h.updated.was) hptr, h.valid,
      bytes_zero]
    rfl

end Created

/-- A coroutine is made. -/
theorem refines_create (hinv : Inv main s) {mainCo sstk arg : ℕ} {saveStackSz fp : Word}
    {r save : Option Grant} (h : s.Admits (.create mainCo sstk saveStackSz fp arg r save)) :
    Refines main s (.create mainCo sstk saveStackSz fp arg r save) := by
  obtain ⟨⟨f, hf, hnone⟩, hstk, hr, hrok, hsave, hsaveok⟩ := h
  obtain ⟨k, hk⟩ := Option.ne_none_iff_exists'.mp hstk
  obtain ⟨g, rfl⟩ := Option.ne_none_iff_exists'.mp hr
  obtain ⟨v, rfl⟩ := Option.ne_none_iff_exists'.mp hsave
  obtain rfl : mainCo = main := by
    by_contra hne
    rw [(hinv.sub hf hne).mainCo] at hnone
    cases hnone
  -- the block for the `aco_t` is new, so that no coroutine has its address
  have hp : s.acos g.base = none := by
    rw [Option.eq_none_iff_forall_ne_some]
    intro c hc
    exact hinv.parcels.base_ne_alloc (by decide) hrok (span_aco hc) rfl
  have hsz : 0 < (if saveStackSz = 0 then 64 else saveStackSz.toNat) := by
    split
    · decide
    · rename_i hne
      exact Nat.pos_of_ne_zero fun hzero => hne (BitVec.eq_of_toNat_eq hzero)
  obtain ⟨sz, hszEq⟩ : ∃ sz, sz = if saveStackSz = 0 then 64 else saveStackSz.toNat := ⟨_, rfl⟩
  rw [← hszEq] at hsz hsaveok
  have hnoAco : s.span (.aco g.base) = none := by simp [State.span, hp]
  have hnoSave : s.span (.save g.base) = none := by simp [State.span, hp]
  obtain ⟨hparcels, hmem⟩ :=
    hinv.parcels.alloc_two (by simp) hnoAco hnoSave (by decide) hsz hrok hsaveok
  have hsound := hinv.sound hk
  -- the new stack is empty: its stack pointer is the top of the share stack
  have hrsp : (BitVec.ofNat 64 k.alignRetptr).toNat = k.alignRetptr := by
    have hret := hsound.retptr
    have hhigh := hsound.high
    have hspace := hsound.space
    rw [BitVec.toNat_ofNat, Nat.mod_eq_of_lt (by omega)]
  obtain ⟨s', hs'⟩ : ∃ s' : State, s' = { s with
      sys := ((s.sys.alloc sizeofAco (some g)).2.alloc sz (some v)).2
      acos := Function.update s.acos g.base (some ⟨s.entry k fp, some mainCo, arg, false, fp,
        ⟨some v.base, sz, 0, 0, 0, 0⟩, some sstk⟩) } := ⟨_, rfl⟩
  obtain ⟨c, hc⟩ : ∃ c : Aco, c = ⟨s.entry k fp, some mainCo, arg, false, fp,
    ⟨some v.base, sz, 0, 0, 0, 0⟩, some sstk⟩ := ⟨_, rfl⟩
  have hsys : s'.sys = ((s.sys.alloc sizeofAco (some g)).2.alloc sz (some v)).2 := by rw [hs']
  -- the share stack is not touched, and there was nobody at the address
  have hupdated : Updated g.base sstk (some c) k k s s' := by
    refine ⟨by rw [hs', hc], ?_, hk, .refl k, fun _ => Iff.rfl, fun hd => ?_⟩
    · rw [hs', ← hk, Function.update_eq_self]
    · rw [hp] at hd
      cases hd
  have hptr : c.saveStack.ptr = some v.base := by rw [hc]
  have hcreated : Created mainCo g.base sstk c k s s' := by
    constructor
    case updated => exact hupdated
    case new => exact hp
    case mainCo => rw [hc]
    case ptr => exact ⟨v.base, hptr⟩
    case valid => rw [hc]
    case count => rw [hc]
    case member => rw [hc]
    case going => rw [hc]
    case rsp => rw [hc]; exact hrsp
    case gtlsCo => rw [hs']
    case cpu => rw [hs']
    case protector => rw [hs']
    case parcels =>
      rw [hupdated.span_create hptr, hsys, hc]
      exact hparcels
    case mem =>
      intro i b hb
      rw [hsys]
      exact hmem hb
  obtain ⟨hinv', hview⟩ := hcreated.spec hinv
  refine ⟨s', ?_, hinv', ?_, by rw [hs']⟩
  · simp only [State.act, State.create, Option.map_eq_some_iff, Option.bind_eq_bind,
      Option.bind_eq_some_iff]
    refine ⟨(g.base, s'), ⟨g.base, rfl, k, hk, (), if_pos (Option.some_ne_none _), ?_⟩, rfl⟩
    rw [hs', hszEq]
    rfl
  · rw [hview, hc]
    simp only [State.action, hk]

/-! ## Destroying -/

/-- Two blocks are gone. -/
theorem Updated.span_destroy {co t : ℕ} {k k' : ShareStack} (h : Updated co t none k k' s s') :
    s'.span = Function.update (Function.update s.span (.save co) none) (.aco co) none := by
  funext i
  cases i with
  | aco o =>
    show (s'.acos o).map _ = _
    by_cases ho : o = co
    · rw [ho, h.acos_self, Function.update_self]
      rfl
    · rw [h.acos_of_ne ho, Function.update_of_ne fun heq => ho (Role.aco.inj heq),
        Function.update_of_ne (by simp)]
      rfl
  | save o =>
    rw [Function.update_of_ne (by simp)]
    show (s'.acos o).bind _ = _
    by_cases ho : o = co
    · rw [ho, h.acos_self, Function.update_self]
      rfl
    · rw [h.acos_of_ne ho, Function.update_of_ne fun heq => ho (Role.save.inj heq)]
      rfl
  | sstk u =>
    rw [Function.update_of_ne (by simp), Function.update_of_ne (by simp)]
    exact h.map_sstks _ rfl u
  | area u =>
    rw [Function.update_of_ne (by simp), Function.update_of_ne (by simp)]
    exact h.map_sstks _ h.place.block u

/-- The coroutine `co`, which is not running, is destroyed. -/
structure Destroyed (co sstk : ℕ) (c : Aco) (k : ShareStack) (s s' : State) : Prop where
  /-- The records. -/
  updated : Updated co sstk none k (k.disown co) s s'
  /-- The coroutine as it was. -/
  was : s.acos co = some c
  /-- It is not running. -/
  idle : s.running ≠ some co
  /-- Nobody is switched. -/
  gtlsCo : s'.gtlsCo = s.gtlsCo
  /-- Nor is the processor. -/
  cpu : s'.cpu = s.cpu
  /-- The protector stays. -/
  protector : s'.protector = s.protector
  /-- Its blocks are gone. -/
  parcels : Parcels s'.span s'.sys
  /-- The others are left alone. -/
  mem : ∀ {i b}, i ≠ .save co → i ≠ .aco co → s.span i = some b → AgreeOn s.sys.mem s'.sys.mem b

namespace Destroyed

variable {co sstk : ℕ} {c : Aco} {k : ShareStack}

/-- `aco_gtls_co` would be the handle of the coroutine only while this is running. -/
theorem gtlsCo_ne (h : Destroyed co sstk c k s s') (hinv : Inv main s) (hne : co ≠ main) :
    s.gtlsCo ≠ some co := by
  intro hco
  refine h.idle (running_eq_some_iff.mpr ⟨hco, c, h.was, ?_⟩)
  rw [(hinv.sub h.was hne).mainCo]
  exact Option.some_ne_none _

/-- Whoever was running is running. -/
theorem running_eq (h : Destroyed co sstk c k s s') (hinv : Inv main s) (hne : co ≠ main) :
    s'.running = s.running :=
  h.updated.running_eq h.gtlsCo fun hco => absurd hco (h.gtlsCo_ne hinv hne)

/-- The invariant is kept. -/
theorem keeps (h : Destroyed co sstk c k s s') (hinv : Inv main s) (hne : co ≠ main) :
    Keeps main co s s' := by
  have hrunning := h.running_eq hinv hne
  constructor
  case about =>
    exact h.updated.about (fun _ => regOf_congr hrunning h.cpu _)
      (fun _ hk₁ _ => h.mem (by simp) (by simp) (span_area hk₁))
      fun ho => h.mem (fun heq => ho (Role.save.inj heq)) (by simp)
  case parcels => exact h.parcels
  case mainAco => exact h.updated.mainAco hinv hne
  case self =>
    intro d hd _
    rw [h.updated.acos_self] at hd
    cases hd
  case origin =>
    exact h.updated.origin fun hk₁ =>
      (h.mem (by simp) (by simp) (span_area hk₁)).mono (hinv.sound hk₁).word_within
  case owner =>
    intro t k₁ hk₁ hown
    obtain ⟨rfl, rfl⟩ := h.updated.eq_of_owner hinv hk₁ hown
    exact absurd hown (k.disown_owner_ne co)
  case others => exact fun _ hrun => hrunning ▸ hrun
  case running => exact fun hrun => absurd (hrunning ▸ hrun) h.idle
  case gtlsCo => exact h.updated.gtlsCo hinv h.gtlsCo fun hco => absurd hco (h.gtlsCo_ne hinv hne)
  case protector => exact h.protector

/-- **A coroutine goes.** -/
theorem spec (h : Destroyed co sstk c k s s') (hinv : Inv main s) (hne : co ≠ main) :
    Inv main s' ∧ s'.view main = (s.view main).step (.destroy co) := by
  have hkeeps := h.keeps hinv hne
  have hrunning := h.running_eq hinv hne
  refine ⟨hkeeps.inv hinv, hkeeps.view hinv ?_ ?_ hrunning⟩
  · exact mainReg_congr hrunning h.cpu (h.updated.acos_of_ne hne.symm)
  · have hnone : s'.context co = none := by
      unfold State.context
      rw [h.updated.acos_self]
      rfl
    rw [hnone]
    rfl

end Destroyed

/-- A coroutine is destroyed. -/
theorem refines_destroy (hinv : Inv main s) {co : ℕ} {m₁ m₂ : Memory}
    (h : s.Admits (.destroy co m₁ m₂)) : Refines main s (.destroy co m₁ m₂) := by
  obtain ⟨hidle, c, ptr, hc, hnone, hptr, hfree₁, hfree₂⟩ := h
  have hne := hinv.ne_main hc hnone
  obtain ⟨-, -, sstk, k, hsstk, hk, -⟩ := hinv.sub hc hne
  obtain ⟨s', hs'⟩ : ∃ s' : State, s' = { s with
      sys := (s.sys.free ptr m₁).free co m₂
      acos := Function.update s.acos co none
      sstks := Function.update s.sstks sstk (some (k.disown co)) } := ⟨_, rfl⟩
  have hsys : s'.sys = (s.sys.free ptr m₁).free co m₂ := by rw [hs']
  have hupdated : Updated co sstk none k (k.disown co) s s' := by
    refine ⟨by rw [hs'], by rw [hs'], hk, k.reowned_disown co, k.disown_owner_iff, fun hd => ?_⟩
    exact Option.some.inj (hd.symm.trans hc) ▸ hsstk
  obtain ⟨hparcels, hmem⟩ :=
    hinv.parcels.free_two (by simp) (span_save hc hptr) (span_aco hc) hfree₁ hfree₂
  have hdestroyed : Destroyed co sstk c k s s' := by
    refine ⟨hupdated, hc, hidle, by rw [hs'], by rw [hs'], by rw [hs'], ?_, fun hsave haco hb => ?_⟩
    · rw [hupdated.span_destroy, hsys]
      exact hparcels
    · rw [hsys]
      exact hmem hsave haco hb
  obtain ⟨hinv', hview⟩ := hdestroyed.spec hinv hne
  refine ⟨s', ?_, hinv', hview, by rw [hs']⟩
  show s.destroy co m₁ m₂ = some s'
  unfold State.destroy
  rw [hc, Option.bind_eq_bind, Option.bind_some, if_neg hnone]
  simp only [Option.bind_eq_bind, Option.bind_eq_some_iff]
  exact ⟨sstk, hsstk, k, hk, ptr, hptr, congrArg some hs'.symm⟩

/-! ## Share stacks -/

/-- **A share stack comes or goes.** The coroutines do not see it. -/
theorem Inv.restacked (hinv : Inv main s) (t : ℕ) (habout : About main main s s')
    (hacos : s'.acos = s.acos) (hsstks : ∀ {u}, u ≠ t → s'.sstks u = s.sstks u)
    (hnew : ∀ {k}, s'.sstks t = some k → k.Sound ∧ k.owner = none ∧
      loadWord 64 s'.sys.mem k.alignRetptr = s.protector)
    (hkept : ∀ {u k}, u ≠ t → s.sstks u = some k → AgreeOn s.sys.mem s'.sys.mem k.block)
    (hgtls : s'.gtlsCo = s.gtlsCo) (hcpu : s'.cpu = s.cpu) (hprotector : s'.protector = s.protector)
    (hparcels : Parcels s'.span s'.sys) :
    Inv main s' ∧ s'.view main = s.view main := by
  have hrunning : s'.running = s.running := running_congr hgtls fun _ => by rw [hacos]
  obtain ⟨f, hf, hfmain⟩ := hinv.mainAco
  have hf' : s'.acos main = some f := hacos ▸ hf
  have hidle : s'.running ≠ some main := by
    rw [hrunning]
    exact fun hmain => (hinv.running_sub hmain).2.1 rfl
  have hkeeps : Keeps main main s s' := by
    constructor
    case about => exact habout
    case parcels => exact hparcels
    case mainAco => exact ⟨f, hf', hfmain⟩
    case self => exact fun _ hne => absurd rfl hne
    case origin =>
      intro u k hu
      by_cases hsame : u = t
      · obtain ⟨hsound, howner, hword⟩ := hnew (hsame ▸ hu)
        exact .new hsound howner (hword.trans hprotector.symm)
      · rw [hsstks hsame] at hu
        exact .old hu (.refl k) ((hkept hsame hu).mono (hinv.sound hu).word_within) fun _ => Iff.rfl
    case owner =>
      intro u k hu hown
      -- a new share stack has no owner; the others do not change hands
      by_cases hsame : u = t
      · rw [(hnew (hsame ▸ hu)).2.1] at hown
        cases hown
      · rw [hsstks hsame] at hu
        exact absurd rfl (hinv.owner_ne_main hu hown)
    case others => exact fun _ hrun => hrunning ▸ hrun
    case running => exact fun hrun => absurd hrun hidle
    case gtlsCo =>
      rw [hgtls, hacos]
      exact hinv.gtlsCo
    case protector => exact hprotector
  refine ⟨hkeeps.inv hinv, hkeeps.view hinv ?_ ?_ hrunning⟩
  · exact mainReg_congr hrunning hcpu (by rw [hacos])
  · show s.context = _
    rw [context_main hf' hfmain, ← context_main hf hfmain, Function.update_eq_self]

/-- Two blocks are found beside those that there are. -/
theorem span_shareStackNew {p : ℕ} {k : ShareStack} (hacos : s'.acos = s.acos)
    (hsstks : s'.sstks = Function.update s.sstks p (some k)) :
    s'.span = Function.update (Function.update s.span (.sstk p) (some ⟨p, sizeofShareStack⟩))
      (.area p) (some k.block) := by
  funext i
  cases i with
  | aco co =>
    rw [Function.update_of_ne (by simp), Function.update_of_ne (by simp)]
    exact congrArg (fun f : ℕ → Option Aco => (f co).map fun _ => _) hacos
  | save co =>
    rw [Function.update_of_ne (by simp), Function.update_of_ne (by simp)]
    show (s'.acos co).bind _ = (s.acos co).bind _
    rw [hacos]
  | sstk t =>
    rw [Function.update_of_ne (by simp)]
    show (s'.sstks t).map _ = _
    rw [hsstks]
    by_cases ht : t = p
    · rw [ht, Function.update_self, Function.update_self, Option.map_some]
    · rw [Function.update_of_ne ht, Function.update_of_ne fun h => ht (Role.sstk.inj h)]
      rfl
  | area t =>
    show (s'.sstks t).map _ = _
    rw [hsstks]
    by_cases ht : t = p
    · rw [ht, Function.update_self, Function.update_self, Option.map_some]
    · rw [Function.update_of_ne ht, Function.update_of_ne fun h => ht (Role.area.inj h),
        Function.update_of_ne (by simp)]
      rfl

/-- A share stack is made. -/
theorem refines_shareStackNew (hinv : Inv main s) {sz pgsz : Word}
    {guardPageEnabled : Bool} {r area : Option Grant}
    (h : s.Admits (.shareStackNew sz guardPageEnabled pgsz r area)) :
    Refines main s (.shareStackNew sz guardPageEnabled pgsz r area) := by
  obtain ⟨-, -, -, size, hsize, hr, hrok, a, rfl, haok, hspace⟩ := h
  obtain ⟨g, rfl⟩ := Option.ne_none_iff_exists'.mp hr
  obtain ⟨hroom, -⟩ := le_shareStackSize hsize
  obtain ⟨k, hlayout, hsound, hblock, howner, -⟩ := layout_granted hsize hspace
  -- the block is new, so that no share stack has its address
  have hp : s.sstks g.base = none := by
    rw [Option.eq_none_iff_forall_ne_some]
    intro k₀ hk₀
    exact hinv.parcels.base_ne_alloc (by decide) hrok (span_sstk hk₀) rfl
  have hnoSstk : s.span (.sstk g.base) = none := by simp [State.span, hp]
  have hnoArea : s.span (.area g.base) = none := by simp [State.span, hp]
  obtain ⟨hparcels₂, hagree⟩ :=
    hinv.parcels.alloc_two (by simp) hnoSstk hnoArea (by decide) (by omega : 0 < size.toNat) hrok
      haok
  obtain ⟨sys, hsys⟩ : ∃ sys : SysHeap,
      sys = ((s.sys.alloc sizeofShareStack (some g)).2.alloc size.toNat (some a)).2 := ⟨_, rfl⟩
  rw [← hsys] at hparcels₂
  obtain ⟨s', hs'⟩ : ∃ s' : State, s' = { s with
      sys := sys.poke (storeWord sys.mem k.alignRetptr s.protector)
      sstks := Function.update s.sstks g.base (some k) } := ⟨_, rfl⟩
  have hacos : s'.acos = s.acos := by rw [hs']
  have hsstks : s'.sstks = Function.update s.sstks g.base (some k) := by rw [hs']
  have hsys' : s'.sys = sys.poke (storeWord sys.mem k.alignRetptr s.protector) := by rw [hs']
  have hspan := span_shareStackNew hacos hsstks
  rw [hblock] at hspan
  have hrunning : s'.running = s.running := by rw [hs']; rfl
  have hparcels : Parcels s'.span s'.sys := by
    rw [hspan, hsys']
    exact hparcels₂.poke _
  -- the word at the top is written into the new block
  have hmem : ∀ {i b}, s.span i = some b → AgreeOn s.sys.mem s'.sys.mem b := by
    intro i b hb
    have hsstk : i ≠ .sstk g.base := by
      rintro rfl
      rw [hnoSstk] at hb
      cases hb
    have harea : i ≠ .area g.base := by
      rintro rfl
      rw [hnoArea] at hb
      cases hb
    have hold : Function.update (Function.update s.span (.sstk g.base)
        (some ⟨g.base, sizeofShareStack⟩)) (.area g.base) (some ⟨a.base, size.toNat⟩) i
        = some b := by
      rwa [Function.update_of_ne harea, Function.update_of_ne hsstk]
    have hword : (⟨k.alignRetptr, 64 / 8⟩ : Span).Within ⟨a.base, size.toNat⟩ :=
      hblock ▸ hsound.word_within
    have hapart := hparcels₂.apart harea hold (Function.update_self ..)
    rw [hsys']
    refine (hagree hb).trans ?_
    rw [hsys]
    exact agreeOn_storeWord _ s.protector (hapart.mono ⟨le_rfl, le_rfl⟩ hword)
  -- the coroutines there are have other share stacks, which stay where they are
  have habout : About main main s s' := by
    refine ⟨fun _ _ => by rw [hacos], fun _ => regOf_congr hrunning (by rw [hs']) _, ?_,
      fun _ hk _ => hmem (span_area hk), fun _ => hmem⟩
    intro co c u k₁ hco _ _ hk₁
    have hu : u ≠ g.base := by
      rintro rfl
      rw [hp] at hk₁
      cases hk₁
    exact ⟨k₁, by rw [hsstks, Function.update_of_ne hu, hk₁], .refl co k₁⟩
  obtain ⟨hinv', hview⟩ := hinv.restacked g.base habout hacos
    (fun hu => by rw [hsstks, Function.update_of_ne hu])
    (fun hk => by
      rw [hsstks, Function.update_self] at hk
      rw [hsys']
      exact Option.some.inj hk ▸ ⟨hsound, howner, loadWord_storeWord (by decide) ..⟩)
    (fun _ hk => hmem (span_area hk)) (by rw [hs']) (by rw [hs']) (by rw [hs']) hparcels
  refine ⟨s', ?_, hinv', hview, by rw [hs']⟩
  simp only [State.act, State.shareStackNew2, Option.map_eq_some_iff, Option.bind_eq_bind,
    Option.bind_eq_some_iff]
  refine ⟨(g.base, s'), ⟨size, hsize, g.base, rfl, a.base, rfl, k, hlayout, ?_⟩, rfl⟩
  rw [hs', hsys]

/-- Two blocks are gone. -/
theorem span_shareStackDestroy {t : ℕ} (hacos : s'.acos = s.acos)
    (hsstks : s'.sstks = Function.update s.sstks t none) :
    s'.span = Function.update (Function.update s.span (.area t) none) (.sstk t) none := by
  funext i
  cases i with
  | aco co =>
    rw [Function.update_of_ne (by simp), Function.update_of_ne (by simp)]
    exact congrArg (fun f : ℕ → Option Aco => (f co).map fun _ => _) hacos
  | save co =>
    rw [Function.update_of_ne (by simp), Function.update_of_ne (by simp)]
    show (s'.acos co).bind _ = (s.acos co).bind _
    rw [hacos]
  | sstk u =>
    show (s'.sstks u).map _ = _
    rw [hsstks]
    by_cases hu : u = t
    · rw [hu, Function.update_self, Function.update_self]
      rfl
    · rw [Function.update_of_ne hu, Function.update_of_ne fun h => hu (Role.sstk.inj h),
        Function.update_of_ne (by simp)]
      rfl
  | area u =>
    rw [Function.update_of_ne (by simp)]
    show (s'.sstks u).map _ = _
    rw [hsstks]
    by_cases hu : u = t
    · rw [hu, Function.update_self, Function.update_self]
      rfl
    · rw [Function.update_of_ne hu, Function.update_of_ne fun h => hu (Role.area.inj h)]
      rfl

/-- A share stack is destroyed. -/
theorem refines_shareStackDestroy (hinv : Inv main s) {t : ℕ} {m₁ m₂ : Memory}
    (h : s.Admits (.shareStackDestroy t m₁ m₂)) : Refines main s (.shareStackDestroy t m₁ m₂) := by
  obtain ⟨hunused, k, hk, hfree₁, hfree₂⟩ := h
  obtain ⟨hparcels, hagree⟩ :=
    hinv.parcels.free_two (by simp) (span_area hk) (span_sstk hk) hfree₁ hfree₂
  obtain ⟨s', hs'⟩ : ∃ s' : State, s' = { s with
      sys := (s.sys.free k.block.base m₁).free t m₂
      sstks := Function.update s.sstks t none } := ⟨_, rfl⟩
  have hacos : s'.acos = s.acos := by rw [hs']
  have hsstks : s'.sstks = Function.update s.sstks t none := by rw [hs']
  have hsys : s'.sys = (s.sys.free k.block.base m₁).free t m₂ := by rw [hs']
  have hrunning : s'.running = s.running := by rw [hs']; rfl
  have hmem : ∀ {i b}, i ≠ .area t → i ≠ .sstk t → s.span i = some b →
      AgreeOn s.sys.mem s'.sys.mem b := by
    intro i b harea hi hb
    rw [hsys]
    exact hagree harea hi hb
  -- by the rules no coroutine has this share stack any more
  have habout : About main main s s' := by
    refine ⟨fun _ _ => by rw [hacos], fun _ => regOf_congr hrunning (by rw [hs']) _, ?_, ?_,
      fun _ => hmem (by simp) (by simp)⟩
    · intro co c u k₁ _ hc hu hk₁
      have hne : u ≠ t := by
        rintro rfl
        exact hunused hc hu
      exact ⟨k₁, by rw [hsstks, Function.update_of_ne hne, hk₁], .refl co k₁⟩
    · intro co u k₁ _ hk₁ hown
      obtain ⟨c, hc, hu, -⟩ := hinv.owner hk₁ hown
      refine hmem (fun hsame => ?_) (by simp) (span_area hk₁)
      exact hunused hc (Role.area.inj hsame ▸ hu)
  obtain ⟨hinv', hview⟩ := hinv.restacked t habout hacos
    (fun hu => by rw [hsstks, Function.update_of_ne hu])
    (fun hk => by
      rw [hsstks, Function.update_self] at hk
      cases hk)
    (fun hu hk => hmem (fun h => hu (Role.area.inj h)) (by simp) (span_area hk)) (by rw [hs'])
    (by rw [hs']) (by rw [hs']) (by
      rw [span_shareStackDestroy hacos hsstks, hsys]
      exact hparcels)
  refine ⟨s', ?_, hinv', hview, by rw [hs']⟩
  simp only [State.act, State.shareStackDestroy, Option.bind_eq_bind, Option.bind_eq_some_iff]
  exact ⟨k, hk, congrArg some hs'.symm⟩

end FfTest.Libaco
