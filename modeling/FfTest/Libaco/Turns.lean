import FfTest.Libaco.Claiming

/-! # Taking turns

`Refines` says of an event that it can be taken, that it keeps the invariant, and that it is seen as
the action it stands for. This file is about the events of a turn: a coroutine is resumed, works,
and yields or exits, and the main program works in between. -/

namespace FfTest.Libaco

open State

variable {main : ℕ} {s s' : State}

/-- The event can be taken, keeps the invariant, and is seen as it should be. -/
def Refines (main : ℕ) (s : State) (e : Event) : Prop :=
  ∃ s', s.act e = some s' ∧ Inv main s' ∧ s'.view main = (s.view main).step (s.action e) ∧
    s'.protector = s.protector

/-! ## Switching -/

/-- The blocks stay while the save stacks do. -/
theorem span_congr
    (hacos : ∀ co, (s'.acos co).map Aco.saveStack = (s.acos co).map Aco.saveStack)
    (hsstks : ∀ t, (s'.sstks t).map ShareStack.block = (s.sstks t).map ShareStack.block) :
    s'.span = s.span := by
  have hsaves : ∀ {α : Type} (g : SaveStack → Option α) (co : ℕ),
      ((s'.acos co).bind fun c => g c.saveStack) = (s.acos co).bind fun c => g c.saveStack := by
    intro α g co
    have hbind := congrArg (Option.bind · g) (hacos co)
    rwa [Option.bind_map, Option.bind_map] at hbind
  have hblocks : ∀ {α : Type} (g : Span → α) (t : ℕ),
      ((s'.sstks t).map fun k => g k.block) = (s.sstks t).map fun k => g k.block := by
    intro α g t
    have hmap := congrArg (Option.map g) (hsstks t)
    rwa [Option.map_map, Option.map_map] at hmap
  funext i
  cases i with
  | aco co =>
    show (s'.acos co).map _ = (s.acos co).map _
    rw [Option.map_eq_bind, Option.map_eq_bind]
    exact hsaves (fun _ => some (⟨co, sizeofAco⟩ : Span)) co
  | save co => exact hsaves (fun v => v.ptr.map fun ptr => (⟨ptr, v.sz⟩ : Span)) co
  | sstk t => exact hblocks (fun _ => (⟨t, sizeofShareStack⟩ : Span)) t
  | area t => exact hblocks id t

/-- The registers of the main program while it is running. -/
theorem mainReg_of_none (h : s.running = none) : s.mainReg main = s.cpu := if_pos h

/-- The registers of the main program while it is not running. -/
theorem mainReg_of_some {co : ℕ} {f : Aco} (h : s.running = some co) (hf : s.acos main = some f) :
    s.mainReg main = f.reg := by
  unfold State.mainReg
  rw [h, if_neg (Option.some_ne_none co), hf]
  rfl

/-- The switch, on records. -/
theorem acosw_eq {fromCo toCo : ℕ} {f t : Aco} (hf : s.acos fromCo = some f)
    (ht : s.acos toCo = some t) (hne : toCo ≠ fromCo) :
    s.acosw fromCo toCo = some { s with
      acos := Function.update s.acos fromCo (some { f with reg := s.cpu })
      cpu := t.reg } := by
  simp only [State.acosw, Option.bind_eq_bind, Option.bind_eq_some_iff]
  exact ⟨f, hf, t, (Function.update_of_ne hne ..).trans ht, rfl⟩

/-- Letting the main program run. -/
theorem yield1_eq {co : ℕ} {c f : Aco} (hc : s.acos co = some c) (hmainCo : c.mainCo = some main)
    (hf : s.acos main = some f) (hne : main ≠ co) :
    s.yield1 co = some { s with
      acos := Function.update s.acos co (some { c with reg := s.cpu })
      cpu := f.reg
      gtlsCo := some main } := by
  simp only [State.yield1, Option.bind_eq_bind, Option.bind_eq_some_iff]
  exact ⟨c, hc, main, hmainCo, _, acosw_eq hc hf hne, rfl⟩

/-- What holds of the owner of a share stack, whose stack pointer lies in it. -/
theorem Fits.of_owner {co : ℕ} {c : Aco} {k : ShareStack} (hown : k.owner = some co)
    (hlow : k.low ≤ (s.regOf co c).rsp.toNat) (hhigh : (s.regOf co c).rsp.toNat ≤ k.alignRetptr)
    (hcounted : c.saveStack.ctSave = c.saveStack.ctRestore) : Fits s co c k := by
  refine ⟨hlow, hhigh, fun h => absurd hown h, fun h => absurd hown h, ?_⟩
  rw [if_neg fun h => h.1 hown, hcounted, Nat.add_zero]

/-- All that was saved of the owner has been restored. -/
theorem Fits.counted_of_owner {co : ℕ} {c : Aco} {k : ShareStack} (h : Fits s co c k)
    (hown : k.owner = some co) : c.saveStack.ctSave = c.saveStack.ctRestore := by
  have hcounted := h.counted
  rwa [if_neg fun hnot => hnot.1 hown, Nat.add_zero] at hcounted

/-- The coroutine `co`, which owns its share stack, is let run by the main program. -/
structure Entered (main co sstk : ℕ) (c f : Aco) (k : ShareStack) (s s' : State) : Prop where
  /-- The main program was running. -/
  running : s.running = none
  /-- The coroutine. -/
  was : s.acos co = some c
  /-- Its share stack. -/
  member : c.shareStack = some sstk
  /-- The record of that. -/
  stack : s.sstks sstk = some k
  /-- Its owner. -/
  owner : k.owner = some co
  /-- The main coroutine. -/
  mainWas : s.acos main = some f
  /-- Where the registers of the main program are. -/
  acos : s'.acos = Function.update s.acos main (some { f with reg := s.cpu })
  /-- The share stacks stay. -/
  sstks : s'.sstks = s.sstks
  /-- Blocks and memory stay. -/
  sys : s'.sys = s.sys
  /-- The handle is that of the coroutine. -/
  gtlsCo : s'.gtlsCo = some co
  /-- So are the registers. -/
  cpu : s'.cpu = c.reg
  /-- The protector stays. -/
  protector : s'.protector = s.protector

namespace Entered

variable {co sstk : ℕ} {c f : Aco} {k : ShareStack}

/-- The main coroutine. -/
theorem acos_main (h : Entered main co sstk c f k s s') :
    s'.acos main = some { f with reg := s.cpu } := by
  rw [h.acos, Function.update_self]

/-- The others. -/
theorem acos_of_ne (h : Entered main co sstk c f k s s') {o : ℕ} (ho : o ≠ main) :
    s'.acos o = s.acos o := by
  rw [h.acos, Function.update_of_ne ho]

/-- The coroutine is running. -/
theorem running_eq (h : Entered main co sstk c f k s s') (hinv : Inv main s) (hne : co ≠ main) :
    s'.running = some co := by
  rw [running_eq_some_iff, h.acos_of_ne hne]
  exact ⟨h.gtlsCo, c, h.was, by rw [(hinv.sub h.was hne).mainCo]; exact Option.some_ne_none _⟩

/-- No coroutine was. -/
theorem idle (h : Entered main co sstk c f k s s') (o : ℕ) : s.running ≠ some o := by
  rw [h.running]
  exact (Option.some_ne_none o).symm

/-- The registers of the coroutine have gone to the processor. -/
theorem regOf_eq (h : Entered main co sstk c f k s s') (hinv : Inv main s) (hne : co ≠ main) :
    s'.regOf co c = s.regOf co c := by
  rw [regOf_of_ne (h.idle co), regOf_of_running (h.running_eq hinv hne), h.cpu]

/-- The others are left alone. -/
theorem about (h : Entered main co sstk c f k s s') (hinv : Inv main s) (hne : co ≠ main) :
    About main co s s' := by
  refine ⟨fun _ ho => h.acos_of_ne ho, fun {o} ho d => ?_,
    fun _ _ _ hk => ⟨_, h.sstks ▸ hk, .refl _ _⟩, fun _ _ _ => h.sys ▸ fun _ _ => rfl,
    fun _ _ => h.sys ▸ fun _ _ => rfl⟩
  rw [regOf_of_ne (h.idle o), regOf_of_ne]
  rw [h.running_eq hinv hne]
  exact fun heq => ho (Option.some.inj heq).symm

/-- What holds of the coroutine. -/
theorem sub (h : Entered main co sstk c f k s s') (hinv : Inv main s) (hne : co ≠ main) :
    Sub s' main co c := by
  obtain ⟨hmainCo, hptr, t, k₀, ht, hk₀, hfits⟩ := hinv.sub h.was hne
  obtain rfl : t = sstk := Option.some.inj (ht.symm.trans h.member)
  obtain rfl := Option.some.inj (hk₀.symm.trans h.stack)
  refine ⟨hmainCo, hptr, t, k₀, ht, h.sstks ▸ hk₀, fun hend => ?_⟩
  have hfit := hfits hend
  refine .of_owner h.owner ?_ ?_ (hfit.counted_of_owner h.owner)
  · rw [h.regOf_eq hinv hne]
    exact hfit.low
  · rw [h.regOf_eq hinv hne]
    exact hfit.high

/-- The blocks stay. -/
theorem span_eq (h : Entered main co sstk c f k s s') : s'.span = s.span := by
  refine span_congr (fun o => ?_) fun _ => by rw [h.sstks]
  by_cases ho : o = main
  · rw [ho, h.acos_main, h.mainWas, Option.map_some, Option.map_some]
  · rw [h.acos_of_ne ho]

/-- The invariant is kept. -/
theorem keeps (h : Entered main co sstk c f k s s') (hinv : Inv main s) (hne : co ≠ main) :
    Keeps main co s s' where
  about := h.about hinv hne
  parcels := by
    rw [h.span_eq, h.sys]
    exact hinv.parcels
  mainAco := by
    obtain ⟨f₀, hf₀, hfmain⟩ := hinv.mainAco
    obtain rfl := Option.some.inj (hf₀.symm.trans h.mainWas)
    exact ⟨_, h.acos_main, hfmain⟩
  self := by
    intro d hd _
    rw [h.acos_of_ne hne] at hd
    obtain rfl := Option.some.inj (hd.symm.trans h.was)
    exact h.sub hinv hne
  origin := by
    intro u k₁ hk₁
    rw [h.sstks] at hk₁
    exact .old hk₁ (.refl k₁) (h.sys ▸ fun _ _ => rfl) fun _ => Iff.rfl
  owner := by
    intro u k₁ hk₁ hown
    rw [h.sstks] at hk₁
    rw [h.acos_of_ne hne]
    exact hinv.owner hk₁ hown
  others := by
    intro o ho hrun
    exact absurd (Option.some.inj (hrun.symm.trans (h.running_eq hinv hne))) ho
  running := by
    intro d u k₁ _ hd hu hk₁
    rw [h.acos_of_ne hne] at hd
    obtain rfl := Option.some.inj (hd.symm.trans h.was)
    obtain rfl : sstk = u := Option.some.inj (h.member.symm.trans hu)
    rw [h.sstks] at hk₁
    obtain rfl := Option.some.inj (hk₁.symm.trans h.stack)
    exact h.owner
  gtlsCo := by
    intro o ho
    obtain rfl := Option.some.inj (h.gtlsCo.symm.trans ho)
    exact ⟨c, (h.acos_of_ne hne).trans h.was⟩
  protector := h.protector

/-- The coroutine finds its context as it was. -/
theorem context_eq (h : Entered main co sstk c f k s s') (hinv : Inv main s) (hne : co ≠ main) :
    s'.context co = s.context co := by
  have hk : s'.sstks sstk = some k := h.sstks ▸ h.stack
  have hreg := h.regOf_eq hinv hne
  rw [context_sub ((h.acos_of_ne hne).trans h.was) h.member hk, context_sub h.was h.member h.stack,
    hreg, bytesOf_owner c h.owner, bytesOf_owner c h.owner, hreg, h.sys]

/-- **To a coroutine.** The owner of a share stack can be let run. -/
theorem spec (h : Entered main co sstk c f k s s') (hinv : Inv main s) (hne : co ≠ main) :
    Inv main s' ∧ s'.view main = { s.view main with running := some co } := by
  have hkeeps := h.keeps hinv hne
  have hrunning := h.running_eq hinv hne
  refine ⟨hkeeps.inv hinv, hkeeps.view hinv ?_ ?_ hrunning⟩
  · show s'.mainReg main = s.mainReg main
    rw [mainReg_of_none h.running, mainReg_of_some hrunning h.acos_main]
  · show s.context = _
    rw [h.context_eq hinv hne, Function.update_eq_self]

end Entered

/-- A resume. -/
theorem refines_resume (hinv : Inv main s) {co : ℕ} {m : Memory} {r : Option Grant}
    (h : s.Admits (.resume co m r)) : Refines main s (.resume co m r) := by
  obtain ⟨hrun, ⟨c, hc, hmainCo, hend⟩, hok⟩ := h
  have hne := hinv.ne_main hc hmainCo
  obtain ⟨hmainCo, -, sstk, k, hsstk, hk, -⟩ := hinv.sub hc hne
  obtain ⟨s₁, hclaim, hinv₁, hview₁, hprotector₁, ⟨k₁, hk₁, hown₁⟩, c₁, hc₁, hend₁, hsstk₁⟩ :=
    claim_spec hinv hrun hne hc hsstk hend hok
  have hrun₁ : s₁.running = none := (congrArg Private.running hview₁).trans hrun
  obtain ⟨f, hf, -⟩ := hinv₁.mainAco
  have hentered : Entered main co sstk c₁ f k₁ s₁ { s₁ with
      gtlsCo := some co
      acos := Function.update s₁.acos main (some { f with reg := s₁.cpu })
      cpu := c₁.reg } :=
    ⟨hrun₁, hc₁, hsstk₁, hk₁, hown₁, hf, rfl, rfl, rfl, rfl, rfl, rfl⟩
  obtain ⟨hinv₂, hview₂⟩ := hentered.spec hinv₁ hne
  refine ⟨_, ?_, hinv₂, ?_, hprotector₁⟩
  · show s.resume co m r = _
    simp only [State.resume, Option.bind_eq_bind, Option.bind_eq_some_iff]
    exact ⟨c, hc, main, hmainCo, (), if_pos hend, sstk, hsstk, s₁, hclaim,
      acosw_eq (s := { s₁ with gtlsCo := some co }) hf hc₁ hne⟩
  · rw [hview₂, hview₁]
    rfl

/-- The coroutine `co`, which is running, lets the main program run, and may have ended. -/
structure Left (main co sstk : ℕ) (ended : Bool) (c f : Aco) (k : ShareStack) (s s' : State) :
    Prop where
  /-- The records. -/
  updated : Updated co sstk (some { c with reg := s.cpu, isEnd := ended }) k
    (if ended then k.disown co else k) s s'
  /-- The coroutine was running. -/
  running : s.running = some co
  /-- The coroutine as it was. -/
  was : s.acos co = some c
  /-- The main coroutine. -/
  mainWas : s.acos main = some f
  /-- Blocks and memory stay. -/
  sys : s'.sys = s.sys
  /-- The handle is that of the main coroutine. -/
  gtlsCo : s'.gtlsCo = some main
  /-- So are the registers. -/
  cpu : s'.cpu = f.reg
  /-- The protector stays. -/
  protector : s'.protector = s.protector

namespace Left

variable {co sstk : ℕ} {ended : Bool} {c f : Aco} {k : ShareStack}

/-- It owned its share stack, and had not ended. -/
theorem owner (h : Left main co sstk ended c f k s s') (hinv : Inv main s) :
    k.owner = some co ∧ c.isEnd = false := by
  have hown := hinv.running h.running h.was (h.updated.member h.was) h.updated.was
  obtain ⟨d, hd, -, hend⟩ := hinv.owner h.updated.was hown
  obtain rfl := Option.some.inj (hd.symm.trans h.was)
  exact ⟨hown, hend⟩

/-- The main program is running. -/
theorem running_none (h : Left main co sstk ended c f k s s') (hinv : Inv main s) :
    s'.running = none := by
  obtain ⟨-, hne, -⟩ := hinv.running_sub h.running
  obtain ⟨f₀, hf₀, hnone, -⟩ := hinv.mainAco
  rw [Option.eq_none_iff_forall_ne_some]
  intro o ho
  obtain ⟨hgo, d, hd, hdmain⟩ := running_eq_some_iff.mp ho
  obtain rfl := Option.some.inj (h.gtlsCo.symm.trans hgo)
  rw [h.updated.acos_of_ne hne.symm, hf₀] at hd
  exact hdmain (Option.some.inj hd ▸ hnone)

/-- No coroutine is. -/
theorem idle (h : Left main co sstk ended c f k s s') (hinv : Inv main s) (o : ℕ) :
    s'.running ≠ some o := by
  rw [h.running_none hinv]
  exact (Option.some_ne_none o).symm

/-- The registers of the coroutine have gone to its `aco_t`. -/
theorem regOf_eq (h : Left main co sstk ended c f k s s') (hinv : Inv main s) :
    s'.regOf co { c with reg := s.cpu, isEnd := ended } = s.regOf co c := by
  rw [regOf_of_ne (h.idle hinv co), regOf_of_running h.running]

/-- The others are left alone. -/
theorem about (h : Left main co sstk ended c f k s s') (hinv : Inv main s) :
    About main co s s' := by
  refine h.updated.about (fun {o} ho d => ?_) (fun _ _ _ => h.sys ▸ fun _ _ => rfl)
    fun _ _ => h.sys ▸ fun _ _ => rfl
  rw [regOf_of_ne (h.idle hinv o), regOf_of_ne]
  rw [h.running]
  exact fun heq => ho (Option.some.inj heq).symm

/-- What holds of the coroutine. -/
theorem sub (h : Left main co sstk ended c f k s s') (hinv : Inv main s) :
    Sub s' main co { c with reg := s.cpu, isEnd := ended } := by
  obtain ⟨-, -, c₀, hc₀, hmainCo, hptr, t, k₀, ht, hk₀, hfits⟩ := hinv.running_sub h.running
  obtain rfl := Option.some.inj (hc₀.symm.trans h.was)
  obtain rfl : t = sstk := Option.some.inj (ht.symm.trans (h.updated.member h.was))
  obtain rfl := Option.some.inj (hk₀.symm.trans h.updated.was)
  refine ⟨hmainCo, hptr, t, _, ht, h.updated.sstks_self, fun hend => ?_⟩
  obtain rfl : ended = false := hend
  obtain ⟨hown, hgoing⟩ := h.owner hinv
  have hfit := hfits hgoing
  refine .of_owner hown ?_ ?_ (hfit.counted_of_owner hown)
  · rw [h.regOf_eq hinv]
    exact hfit.low
  · rw [h.regOf_eq hinv]
    exact hfit.high

/-- The blocks stay. -/
theorem span_eq (h : Left main co sstk ended c f k s s') : s'.span = s.span := by
  refine span_congr (fun o => ?_) (h.updated.map_sstks _ h.updated.place.block)
  by_cases ho : o = co
  · rw [ho, h.updated.acos_self, h.was, Option.map_some, Option.map_some]
  · rw [h.updated.acos_of_ne ho]

/-- The invariant is kept. -/
theorem keeps (h : Left main co sstk ended c f k s s') (hinv : Inv main s) :
    Keeps main co s s' := by
  obtain ⟨-, hne, -⟩ := hinv.running_sub h.running
  have hmainAco := h.updated.mainAco hinv hne
  constructor
  case about => exact h.about hinv
  case parcels =>
    rw [h.span_eq, h.sys]
    exact hinv.parcels
  case mainAco => exact hmainAco
  case self =>
    intro d hd _
    obtain rfl := Option.some.inj (h.updated.acos_self.symm.trans hd)
    exact h.sub hinv
  case origin => exact h.updated.origin fun _ => h.sys ▸ fun _ _ => rfl
  case owner =>
    intro u k₁ hk₁ hown
    obtain ⟨rfl, rfl⟩ := h.updated.eq_of_owner hinv hk₁ hown
    have hsstk := h.updated.member h.was
    refine ⟨_, h.updated.acos_self, hsstk, ?_⟩
    -- a coroutine that has ended owns nothing
    cases ended with
    | false => rfl
    | true => exact absurd hown (k.disown_owner_ne co)
  case others => exact fun {o} _ hrun => absurd hrun (h.idle hinv o)
  case running => exact fun hrun => absurd hrun (h.idle hinv co)
  case gtlsCo =>
    intro o ho
    obtain rfl := Option.some.inj (h.gtlsCo.symm.trans ho)
    obtain ⟨d, hd, -⟩ := hmainAco
    exact ⟨d, hd⟩
  case protector => exact h.protector

/-- The coroutine has its context, unless it has ended. -/
theorem context_eq (h : Left main co sstk ended c f k s s') (hinv : Inv main s) :
    s'.context co = if ended then some .ended else s.context co := by
  have hsstk := h.updated.member h.was
  obtain ⟨hown, hgoing⟩ := h.owner hinv
  rw [context_sub h.updated.acos_self hsstk h.updated.sstks_self]
  cases ended with
  | true => rfl
  | false =>
    have hreg := h.regOf_eq hinv
    show some (Context.alive (s'.regOf co _) (s'.bytesOf co _ k)) = s.context co
    rw [context_sub h.was hsstk h.updated.was, hgoing, bytesOf_owner c hown,
      bytesOf_owner _ hown, hreg, h.sys]
    rfl

/-- **Away from a coroutine.** Whoever is running can let the main program run, and may have ended.
-/
theorem spec (h : Left main co sstk ended c f k s s') (hinv : Inv main s) :
    Inv main s' ∧ s'.view main = (s.view main).step (if ended then .exit else .yield) := by
  have hkeeps := h.keeps hinv
  have hctx := h.context_eq hinv
  have hrunning := h.running_none hinv
  have hmainReg : s'.mainReg main = s.mainReg main := by
    rw [mainReg_of_none hrunning, mainReg_of_some h.running h.mainWas, h.cpu]
  refine ⟨hkeeps.inv hinv, ?_⟩
  cases ended with
  | false =>
    refine hkeeps.view hinv hmainReg ?_ hrunning
    show s.context = _
    rw [hctx, if_neg Bool.false_ne_true, Function.update_eq_self]
  | true =>
    have hstep : (s.view main).running = some co := h.running
    rw [if_pos rfl, Private.step_exit_of_some hstep]
    refine hkeeps.view hinv hmainReg ?_ hrunning
    show Function.update s.context co (some .ended) = _
    rw [hctx, if_pos rfl]

end Left

/-- A yield. -/
theorem refines_yield (hinv : Inv main s) (h : s.Admits .yield) : Refines main s .yield := by
  obtain ⟨co, hrun⟩ := Option.ne_none_iff_exists'.mp h
  obtain ⟨hgtls, hne, c, hc, hmainCo, -, sstk, k, hsstk, hk, -⟩ := hinv.running_sub hrun
  obtain ⟨d, hd, -, hend⟩ := hinv.owner hk (hinv.running hrun hc hsstk hk)
  obtain rfl := Option.some.inj (hd.symm.trans hc)
  obtain ⟨f, hf, -⟩ := hinv.mainAco
  have hleft : Left main co sstk false d f k s { s with
      acos := Function.update s.acos co (some { d with reg := s.cpu })
      cpu := f.reg
      gtlsCo := some main } := by
    refine ⟨⟨by rw [← hend], ?_, hk, .refl k, fun _ => Iff.rfl, fun he => ?_⟩, hrun, hc, hf, rfl,
      rfl, rfl, rfl⟩
    · exact hk ▸ (Function.update_eq_self sstk s.sstks).symm
    · exact Option.some.inj (he.symm.trans hc) ▸ hsstk
  obtain ⟨hinv', hview⟩ := hleft.spec hinv
  refine ⟨_, ?_, hinv', hview, rfl⟩
  simp only [State.act, State.yield, Option.bind_eq_bind, Option.bind_eq_some_iff]
  exact ⟨co, hgtls, yield1_eq hc hmainCo hf hne.symm⟩

/-- An exit. -/
theorem refines_exit (hinv : Inv main s) (h : s.Admits .exit) : Refines main s .exit := by
  obtain ⟨co, hrun⟩ := Option.ne_none_iff_exists'.mp h
  obtain ⟨hgtls, hne, c, hc, hmainCo, -, sstk, k, hsstk, hk, -⟩ := hinv.running_sub hrun
  have hown := hinv.running hrun hc hsstk hk
  obtain ⟨f, hf, -⟩ := hinv.mainAco
  have hleft : Left main co sstk true c f k s { s with
      acos := Function.update s.acos co (some { c with reg := s.cpu, isEnd := true })
      sstks := Function.update s.sstks sstk (some (k.disown co))
      cpu := f.reg
      gtlsCo := some main } := by
    refine ⟨⟨rfl, rfl, hk, k.reowned_disown co, k.disown_owner_iff, fun he => ?_⟩, hrun, hc, hf,
      rfl, rfl, rfl, rfl⟩
    exact Option.some.inj (he.symm.trans hc) ▸ hsstk
  obtain ⟨hinv', hview⟩ := hleft.spec hinv
  refine ⟨_, ?_, hinv', hview, rfl⟩
  have hto : Function.update s.acos co (some { c with isEnd := true }) main = some f := by
    rw [Function.update_of_ne hne.symm, hf]
  simp only [State.act, State.exit, Option.bind_eq_bind, Option.bind_eq_some_iff]
  refine ⟨co, hgtls, c, hc, sstk, hsstk, k, hk, (), if_pos hown, ?_⟩
  rw [yield1_eq (c := { c with isEnd := true }) (Function.update_self ..) hmainCo hto hne.symm,
    Function.update_idem]

/-! ## Work -/

/-- The invariant does not depend on memory and the processor, but for what they mean to the
coroutines. -/
theorem Inv.worked (hinv : Inv main s) {cpu : Regs} {m : Memory}
    (hs' : s' = { s with cpu, sys := s.sys.poke m })
    (hsub : ∀ {co c}, s'.acos co = some c → co ≠ main → Sub s' main co c)
    (htop : ∀ {t k}, s.sstks t = some k → AgreeOn s.sys.mem m ⟨k.alignRetptr, 64 / 8⟩) :
    Inv main s' := by
  subst hs'
  exact ⟨hinv.parcels.poke m, hinv.mainAco, hsub, hinv.sound, hinv.owner, hinv.running,
    hinv.gtlsCo, fun hk => ((htop hk).loadWord_eq ⟨le_rfl, le_rfl⟩).trans (hinv.top hk)⟩

/-- The word at the top of a share stack stays. -/
theorem agreeOn_top_of_works (hinv : Inv main s) {cpu : Regs} {m : Memory} (h : s.Works cpu m)
    {t : ℕ} {k : ShareStack} (hk : s.sstks t = some k) :
    AgreeOn s.sys.mem m ⟨k.alignRetptr, 64 / 8⟩ := by
  have hword := (hinv.sound hk).word_within
  by_cases hown : ∃ co c, s.running = some co ∧ s.acos co = some c ∧ c.shareStack = some t
  · obtain ⟨co, c, hco, hc, ht⟩ := hown
    have hstack : s.stackOf co = some k := by
      unfold State.stackOf
      rw [hc, Option.bind_some, ht, Option.bind_some, hk]
    refine (h.2 hco hstack).2.2.mono ⟨le_rfl, ?_⟩
    simp only [Span.Within, Span.stop] at *
    omega
  · refine (h.1 (span_area hk) fun {co c u} hco hc hu hsame => ?_).mono hword
    exact hown ⟨co, c, hco, hc, Role.area.inj hsame ▸ hu⟩

/-- The main program works. -/
theorem refines_work_of_none (hinv : Inv main s) (hrun : s.running = none) {cpu : Regs} {m : Memory}
    (h : s.Works cpu m) : Refines main s (.work cpu m) := by
  obtain ⟨s', hs'⟩ : ∃ s' : State, s' = { s with cpu, sys := s.sys.poke m } := ⟨_, rfl⟩
  have hacos : s'.acos = s.acos := by rw [hs']
  have hsstks : s'.sstks = s.sstks := by rw [hs']
  have hmem : s'.sys.mem = m := by rw [hs']; rfl
  have hrunning : s'.running = none := by rw [hs']; exact hrun
  have hidle : ∀ {x : State} (co : ℕ), x.running = none → x.running ≠ some co := fun co hx => by
    rw [hx]
    exact (Option.some_ne_none co).symm
  -- the main program has no part of a share stack, so it leaves every block alone
  have habout : About main main s s' := by
    have hkept : ∀ {i b}, s.span i = some b → AgreeOn s.sys.mem s'.sys.mem b := fun hb => by
      rw [hmem]
      exact h.1 hb fun hco => absurd hco (hidle _ hrun)
    refine ⟨fun _ _ => by rw [hacos], fun {co} _ c => ?_,
      fun _ _ _ hk => ⟨_, hsstks ▸ hk, .refl _ _⟩, fun _ hk _ => hkept (span_area hk),
      fun _ hb => hkept hb⟩
    rw [regOf_of_ne (hidle co hrunning), regOf_of_ne (hidle co hrun)]
  have hmainAco : ∃ c, s'.acos main = some c ∧ IsMain c := by
    rw [hacos]
    exact hinv.mainAco
  refine ⟨s', congrArg some hs'.symm, hinv.worked hs' (fun hc hne => habout.sub hinv hne hne hc)
    fun hk => agreeOn_top_of_works hinv h hk, ?_, by rw [hs']⟩
  have haction : s.action (.work cpu m) = .work cpu [] := by
    unfold State.action
    rw [hrun]
    rfl
  rw [haction, Private.step_work_of_none hrun]
  refine view_eq ?_ (fun co => ?_) (hrunning.trans hrun.symm)
  · rw [mainReg_of_none hrunning, hs']
  · show s'.context co = s.context co
    by_cases hco : co = main
    · subst hco
      obtain ⟨c, hc, hmain⟩ := hinv.mainAco
      rw [context_main hc hmain, context_main (by rw [hacos, hc]) hmain]
    · exact habout.context hinv hco hco

/-- A coroutine works. -/
theorem refines_work_of_some (hinv : Inv main s) {co : ℕ} (hrun : s.running = some co) {cpu : Regs}
    {m : Memory} (h : s.Works cpu m) : Refines main s (.work cpu m) := by
  obtain ⟨-, hne, c, hc, hmainCo, hptr, sstk, k, hsstk, hk, hfits⟩ := hinv.running_sub hrun
  have hown := hinv.running hrun hc hsstk hk
  obtain ⟨d, hd, -, hend⟩ := hinv.owner hk hown
  obtain rfl := Option.some.inj (hd.symm.trans hc)
  have hstack : s.stackOf co = some k := by
    unfold State.stackOf
    rw [hc, Option.bind_some, hsstk, Option.bind_some, hk]
  obtain ⟨hlow, hhigh, -⟩ := h.2 hrun hstack
  obtain ⟨s', hs'⟩ : ∃ s' : State, s' = { s with cpu, sys := s.sys.poke m } := ⟨_, rfl⟩
  have hacos : s'.acos = s.acos := by rw [hs']
  have hsstks : s'.sstks = s.sstks := by rw [hs']
  have hmem : s'.sys.mem = m := by rw [hs']; rfl
  have hrunning : s'.running = some co := by rw [hs']; exact hrun
  have hreg : ∀ e, s'.regOf co e = cpu := fun e => by rw [regOf_of_running hrunning, hs']
  have hother : ∀ {x : State} {o}, o ≠ co → x.running = some co → x.running ≠ some o :=
    fun ho hx h => ho (Option.some.inj (h.symm.trans hx))
  -- whoever else owns a share stack owns another one
  have habout : About main co s s' := by
    refine ⟨fun _ _ => by rw [hacos], fun ho e => ?_, fun _ _ _ hk' => ⟨_, hsstks ▸ hk', .refl _ _⟩,
      ?_, ?_⟩
    · rw [regOf_of_ne (hother ho hrunning), regOf_of_ne (hother ho hrun)]
    · intro o u k' ho hu hown'
      rw [hmem]
      refine h.1 (span_area hu) fun {o' e t} ho' he ht hsame => ?_
      obtain rfl := Option.some.inj (hrun.symm.trans ho')
      obtain rfl := Option.some.inj (he.symm.trans hc)
      obtain rfl := Role.area.inj hsame
      obtain rfl := Option.some.inj (hsstk.symm.trans ht)
      obtain rfl := Option.some.inj (hu.symm.trans hk)
      exact ho (Option.some.inj (hown'.symm.trans hown))
    · intro o b _ hb
      rw [hmem]
      exact h.1 hb fun _ _ _ => by simp
  have hself : s'.acos co = some d := by rw [hacos, hc]
  have hk' : s'.sstks sstk = some k := by rw [hsstks, hk]
  refine ⟨s', congrArg some hs'.symm, hinv.worked hs' (fun {o e} he ho => ?_)
    fun hk => agreeOn_top_of_works hinv h hk, ?_, by rw [hs']⟩
  -- the coroutine stays within its part of the share stack, by the guard; others are not concerned
  · by_cases hsame : o = co
    · subst hsame
      obtain rfl := Option.some.inj (hself.symm.trans he)
      refine ⟨hmainCo, hptr, sstk, k, hsstk, hk', fun _ => ?_⟩
      refine .of_owner hown ?_ ?_ ((hfits hend).counted_of_owner hown)
      · rw [hreg]
        exact hlow
      · rw [hreg]
        exact hhigh
    · exact habout.sub hinv hsame ho he
  · have haction : s.action (.work cpu m) =
        .work cpu (bytes m cpu.rsp.toNat (k.alignRetptr - cpu.rsp.toNat)) := by
      unfold State.action
      rw [hrun, Option.bind_some, hstack]
    obtain ⟨f, hf, hfmain⟩ := hinv.mainAco
    have hf' : s'.acos main = some f := by rw [hacos, hf]
    -- what it does is seen in its own context only
    rw [haction, Private.step_work_of_some hrun]
    refine view_eq ?_ (fun o => ?_) (hrunning.trans hrun.symm)
    · show s'.mainReg main = s.mainReg main
      rw [mainReg_of_some hrunning hf', mainReg_of_some hrun hf]
    · show s'.context o = Function.update s.context co _ o
      by_cases ho : o = co
      · subst ho
        rw [Function.update_self, context_sub hself hsstk hk', hend, bytesOf_owner _ hown, hreg,
          hmem]
        rfl
      · rw [Function.update_of_ne ho]
        exact habout.context_of_ne hinv ⟨f, hf', hfmain⟩ ho

/-- What is done between the calls. -/
theorem refines_work (hinv : Inv main s) {cpu : Regs} {m : Memory} (h : s.Admits (.work cpu m)) :
    Refines main s (.work cpu m) := by
  cases hrun : s.running with
  | none => exact refines_work_of_none hinv hrun h
  | some co => exact refines_work_of_some hinv hrun h

end FfTest.Libaco
