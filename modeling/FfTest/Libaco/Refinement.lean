import FfTest.Libaco.Creation

/-! # Whole runs of coroutines

`run_refines` puts the events together: a run that keeps the rules never fails an assertion, and at
its end registers and stacks are what parties with contexts of their own would have.
`resumed_intact` reads off what a coroutine relies on: when it is resumed, it finds its registers
and its stack as it has left them, whoever has used the share stack in between. -/

namespace FfTest.Libaco

open State

variable {main : ℕ} {s s' : State}

/-! ## One event -/

/-- **One event.** -/
theorem refines (hinv : Inv main s) {e : Event} (h : s.Admits e) : Refines main s e := by
  cases e with
  | shareStackNew => exact refines_shareStackNew hinv h
  | shareStackDestroy => exact refines_shareStackDestroy hinv h
  | create => exact refines_create hinv h
  | resume => exact refines_resume hinv h
  | work => exact refines_work hinv h
  | yield => exact refines_yield hinv h
  | exit => exact refines_exit hinv h
  | destroy => exact refines_destroy hinv h

/-! ## The start -/

/-- What the parties see at the start. -/
def firstView (cpu : Regs) : Private ℕ Regs (List Byte) := ⟨cpu, fun _ => none, none⟩

/-- The blocks where there is the main coroutine only. -/
theorem span_start {c : Aco} (hmain : IsMain c)
    (hacos : s.acos = Function.update (fun _ => none) main (some c))
    (hsstks : s.sstks = fun _ => none) :
    s.span = Function.update (fun _ => none) (.aco main) (some ⟨main, sizeofAco⟩) := by
  have hself : s.acos main = some c := by rw [hacos, Function.update_self]
  have hothers : ∀ {co}, co ≠ main → s.acos co = none := fun hco => by
    rw [hacos, Function.update_of_ne hco]
  funext i
  cases i with
  | aco co =>
    by_cases hco : co = main
    · rw [hco, span_aco hself, Function.update_self]
    · rw [Function.update_of_ne fun h => hco (Role.aco.inj h)]
      simp [State.span, hothers hco]
  | save co =>
    rw [Function.update_of_ne (by simp)]
    by_cases hco : co = main
    · simp [State.span, hco, hself, hmain.2.2]
    · simp [State.span, hothers hco]
  | sstk t =>
    rw [Function.update_of_ne (by simp)]
    simp [State.span, hsstks]
  | area t =>
    rw [Function.update_of_ne (by simp)]
    simp [State.span, hsstks]

/-- The invariant holds at the start. -/
theorem start_spec (m : Memory) (main : ℕ) (protector : Word) (cpu : Regs) :
    ∃ s, State.start m main protector cpu = some s ∧ Inv main s ∧
      s.view main = firstView cpu ∧ s.protector = protector := by
  obtain ⟨c, hc⟩ : ∃ c : Aco,
      c = ⟨⟨0, 0, 0, 0, 0, 0, 0, 0, 0, 0⟩, none, 0, false, 0, ⟨none, 0, 0, 0, 0, 0⟩, none⟩ :=
    ⟨_, rfl⟩
  have hmain : IsMain c := by
    rw [hc]
    exact ⟨rfl, rfl, rfl⟩
  obtain ⟨s, hs⟩ : ∃ s : State, s = { State.fresh m protector cpu with
      sys := ((SysHeap.empty m).alloc sizeofAco (some ⟨main, m⟩)).2
      acos := Function.update (fun _ => none) main (some c) } := ⟨_, rfl⟩
  have hacos : s.acos = Function.update (fun _ => none) main (some c) := by rw [hs]
  have hself : s.acos main = some c := by rw [hacos, Function.update_self]
  -- there is the main coroutine and nothing else
  have hnobody : ∀ {co d}, s.acos co = some d → co = main := by
    intro co d hd
    by_contra hne
    rw [hacos, Function.update_of_ne hne] at hd
    cases hd
  have hnone : s.sstks = fun _ => none := by rw [hs]; rfl
  have hsstks : ∀ {t k}, s.sstks t ≠ some k := fun {t k} => by
    rw [hnone]
    exact (Option.some_ne_none k).symm
  have hrunning : s.running = none := by rw [hs]; rfl
  have hok : (SysHeap.empty m).AllocOk 1 sizeofAco (some ⟨main, m⟩) :=
    SysHeap.allocOk_of_nil rfl (one_dvd _)
  have hparcels := (Parcels.empty (ι := Role) m).alloc (i := .aco main) rfl (by decide) hok
  refine ⟨s, by rw [hs, hc]; rfl, ?_, ?_, by rw [hs]; rfl⟩
  · constructor
    case parcels =>
      rw [span_start hmain hacos hnone, hs]
      exact hparcels
    case mainAco => exact ⟨c, hself, hmain⟩
    case sub => exact fun hd hne => absurd (hnobody hd) hne
    case sound => exact fun hk => absurd hk hsstks
    case owner => exact fun hk => absurd hk hsstks
    case running =>
      intro co d t k hco
      rw [hrunning] at hco
      cases hco
    case gtlsCo =>
      intro co hco
      rw [hs] at hco
      cases hco
    case top => exact fun hk => absurd hk hsstks
  · refine view_eq ?_ (fun co => ?_) hrunning
    · rw [mainReg_of_none hrunning, hs]
      rfl
    · by_cases hco : co = main
      · rw [hco, context_main hself hmain]
        rfl
      · unfold State.context
        rw [hacos, Function.update_of_ne hco]
        rfl

/-! ## Two coroutines on one share stack -/

/-- Nothing is asked of the allocator while the stack of the owner fits its save stack. -/
theorem saveOk_of_room {co : ℕ} (m : Memory) (r : Option Grant)
    (h : ∀ k ∈ s.stackOf co, ∀ o ∈ k.owner, ∀ d ∈ s.acos o,
      k.alignRetptr - d.reg.rsp.toNat ≤ d.saveStack.sz) : s.SaveOk co m r :=
  fun {k o d} hk ho _ hd hlt => absurd (h k hk o ho d hd) (Nat.not_le.mpr hlt)

/-- Registers may be changed while memory stays. -/
theorem works_mem {cpu : Regs} (h : ∀ co ∈ s.running, ∀ k ∈ s.stackOf co,
    k.low ≤ cpu.rsp.toNat ∧ cpu.rsp.toNat ≤ k.alignRetptr) : s.Works cpu s.sys.mem := by
  refine ⟨fun _ _ _ _ => rfl, fun {co k} hco hk => ?_⟩
  obtain ⟨hlow, hhigh⟩ := h co hco k hk
  exact ⟨hlow, hhigh, fun _ _ => rfl⟩

/-- Registers of which only the stack pointer matters. -/
def regsAt (rsp : Word) : Regs := ⟨0, 0, 0, 0, 0, rsp, 0, 0, 0, 0⟩

/-- Memory with a protector at the top of a share stack. -/
def guardedMemory : Memory := storeWord (fun _ => 0) 2113512 (77 : Word)

/-- A share stack and two coroutines are made, and the first one leaves 16 bytes on the stack. -/
def firstTurn : List Event := [
  .shareStackNew 0 false 4096 (some ⟨8192, fun _ => 0⟩) (some ⟨16384, fun _ => 0⟩),
  .create 4096 8192 0 5 0 (some ⟨12288, guardedMemory⟩) (some ⟨13312, guardedMemory⟩),
  .create 4096 8192 0 6 0 (some ⟨14336, guardedMemory⟩) (some ⟨15360, guardedMemory⟩),
  .resume 12288 guardedMemory none,
  .work (regsAt 2113496) guardedMemory]

/-- The other coroutine has the share stack. -/
def otherTurn : List Event := [.resume 14336 guardedMemory none, .yield]

/-- The turns keep the rules. -/
theorem turns_legal : libacoMachine.Legal (State.start (fun _ => 0) 4096 77 (regsAt 0))
    (firstTurn ++ .yield :: (otherTurn ++ [.resume 12288 guardedMemory none])) := by
  refine ⟨⟨_, rfl, ?_⟩, ⟨_, rfl, ?_⟩, ⟨_, rfl, ?_⟩, ⟨_, rfl, ?_⟩, ⟨_, rfl, ?_⟩, ⟨_, rfl, ?_⟩,
    ⟨_, rfl, ?_⟩, ⟨_, rfl, ?_⟩, ⟨_, rfl, ?_⟩, trivial⟩
  · refine ⟨12, by decide, rfl, 2097152, rfl, by simp, ?_, _, rfl, ?_, by decide⟩
    · exact SysHeap.allocOk_of_apart (by decide) (by decide)
    · exact SysHeap.allocOk_of_apart (by decide) (by decide)
  · refine ⟨⟨_, rfl, rfl⟩, by decide, by simp, ?_, by simp, ?_⟩
    · exact SysHeap.allocOk_of_apart (by decide) (by decide)
    · exact SysHeap.allocOk_of_apart (by decide) (by decide)
  · refine ⟨⟨_, rfl, rfl⟩, by decide, by simp, ?_, by simp, ?_⟩
    · exact SysHeap.allocOk_of_apart (by decide) (by decide)
    · exact SysHeap.allocOk_of_apart (by decide) (by decide)
  · exact ⟨by decide, ⟨_, rfl, by decide, rfl⟩, saveOk_of_room _ _ (by decide)⟩
  · exact works_mem (by decide)
  · show State.running _ ≠ none
    decide
  · exact ⟨by decide, ⟨_, rfl, by decide, rfl⟩, saveOk_of_room _ _ (by decide)⟩
  · show State.running _ ≠ none
    decide
  · exact ⟨by decide, ⟨_, rfl, by decide, rfl⟩, saveOk_of_room _ _ (by decide)⟩

/-! ## Whole runs -/

/-- From any state that is as it should be. -/
theorem run_refines_from {es : List Event} (hinv : Inv main s)
    (h : libacoMachine.Legal (some s) es) :
    ∃ s', libacoMachine.run (some s) es = some s' ∧ Inv main s' ∧
      s'.view main = (s.view main).run (s.actions es) ∧ s'.protector = s.protector := by
  induction es generalizing s with
  | nil => exact ⟨s, rfl, hinv, rfl, rfl⟩
  | cons e es ih =>
    obtain ⟨⟨t, ht, hadmits⟩, hrest⟩ := h
    obtain rfl := Option.some.inj ht
    obtain ⟨s₁, hact, hinv₁, hview₁, hprotector₁⟩ := refines hinv hadmits
    have hstep : libacoMachine.step (some s) e = some s₁ := hact
    rw [hstep] at hrest
    obtain ⟨s₂, hrun, hinv₂, hview₂, hprotector₂⟩ := ih hinv₁ hrest
    refine ⟨s₂, by rw [Machine.run_cons, hstep, hrun], hinv₂, ?_, hprotector₂.trans hprotector₁⟩
    rw [hview₂, hview₁, State.actions, hact, Private.run_cons]

/-- From the start. -/
theorem run_spec {m : Memory} {main : ℕ} {protector : Word} {cpu : Regs} {es : List Event}
    (h : libacoMachine.Legal (State.start m main protector cpu) es) :
    ∃ s₀ s, State.start m main protector cpu = some s₀ ∧
      libacoMachine.run (State.start m main protector cpu) es = some s ∧ Inv main s ∧
      s.view main = (firstView cpu).run (s₀.actions es) ∧ s.protector = protector := by
  obtain ⟨s₀, hs₀, hinv₀, hview₀, hprotector₀⟩ := start_spec m main protector cpu
  rw [hs₀] at h
  obtain ⟨s, hrun, hinv, hview, hprotector⟩ := run_refines_from hinv₀ h
  exact ⟨s₀, s, hs₀, by rw [hs₀, hrun], hinv, hview₀ ▸ hview, hprotector.trans hprotector₀⟩

/-- **Blocks.** The library frees only what it has, and at any moment it has one block for each
`aco_t`, save stack, `aco_share_stack_t` and share stack, and no other one. -/
theorem run_blocks {m : Memory} {main : ℕ} {protector : Word} {cpu : Regs} {es : List Event}
    (h : libacoMachine.Legal (State.start m main protector cpu) es) :
    ∃ s, libacoMachine.run (State.start m main protector cpu) es = some s ∧
      WellUsed s.sys.calls ∧
      (∀ a, a ∈ held s.sys.calls ↔ ∃ i b, s.span i = some b ∧ b.base = a) ∧
      ∀ {i j b c}, i ≠ j → s.span i = some b → s.span j = some c → b.Apart c := by
  obtain ⟨-, s, -, hrun, hinv, -⟩ := run_spec h
  exact ⟨s, hrun, hinv.parcels.wellUsed, fun a => hinv.parcels.mem_held_iff, hinv.parcels.apart⟩

theorem run_blocks_turns :
    ∃ s, libacoMachine.run (State.start (fun _ => 0) 4096 77 (regsAt 0))
        (firstTurn ++ .yield :: (otherTurn ++ [.resume 12288 guardedMemory none])) = some s ∧
      WellUsed s.sys.calls ∧
      (∀ a, a ∈ held s.sys.calls ↔ ∃ i b, s.span i = some b ∧ b.base = a) ∧
      ∀ {i j b c}, i ≠ j → s.span i = some b → s.span j = some c → b.Apart c :=
  run_blocks turns_legal

/-- **The protector.** Whoever is running, and whatever was copied, the word at the top of each
share stack, to which the function of a coroutine would return, is the address of the protector. -/
theorem run_protector {m : Memory} {main : ℕ} {protector : Word} {cpu : Regs} {es : List Event}
    (h : libacoMachine.Legal (State.start m main protector cpu) es) :
    ∃ s, libacoMachine.run (State.start m main protector cpu) es = some s ∧
      ∀ {sstk k}, s.sstks sstk = some k → loadWord 64 s.sys.mem k.alignRetptr = protector := by
  obtain ⟨-, s, -, hrun, hinv, -, hprotector⟩ := run_spec h
  refine ⟨s, hrun, fun hk => ?_⟩
  rw [← hprotector]
  exact hinv.top hk

theorem run_protector_turns :
    ∃ s, libacoMachine.run (State.start (fun _ => 0) 4096 77 (regsAt 0))
        (firstTurn ++ .yield :: (otherTurn ++ [.resume 12288 guardedMemory none])) = some s ∧
      ∀ {sstk k}, s.sstks sstk = some k → loadWord 64 s.sys.mem k.alignRetptr = 77 :=
  run_protector turns_legal

/-- **Copies come in pairs.** What was copied out of the share stack for a coroutine has been copied
back as often, but for the stack that is saved now. -/
theorem run_copies {m : Memory} {main : ℕ} {protector : Word} {cpu : Regs} {es : List Event}
    (h : libacoMachine.Legal (State.start m main protector cpu) es) :
    ∃ s, libacoMachine.run (State.start m main protector cpu) es = some s ∧
      ∀ {co c k}, s.acos co = some c → s.stackOf co = some k → c.isEnd = false →
        c.saveStack.ctSave = c.saveStack.ctRestore +
          if k.owner ≠ some co ∧ 0 < c.saveStack.validSz then 1 else 0 := by
  obtain ⟨-, s, -, hrun, hinv, -⟩ := run_spec h
  refine ⟨s, hrun, fun {co c k} hc hk hend => ?_⟩
  have hne : co ≠ main := by
    rintro rfl
    obtain ⟨d, hd, -, hnone, -⟩ := hinv.mainAco
    simp [State.stackOf, hd, hnone] at hk
  obtain ⟨-, -, t, k₀, ht, hk₀, hfits⟩ := hinv.sub hc hne
  have hstack : s.stackOf co = some k₀ := by
    unfold State.stackOf
    rw [hc, Option.bind_some, ht, Option.bind_some, hk₀]
  obtain rfl := Option.some.inj (hstack.symm.trans hk)
  exact (hfits hend).counted

theorem run_copies_turns :
    ∃ s, libacoMachine.run (State.start (fun _ => 0) 4096 77 (regsAt 0))
        (firstTurn ++ .yield :: (otherTurn ++ [.resume 12288 guardedMemory none])) = some s ∧
      ∀ {co c k}, s.acos co = some c → s.stackOf co = some k → c.isEnd = false →
        c.saveStack.ctSave = c.saveStack.ctRestore +
          if k.owner ≠ some co ∧ 0 < c.saveStack.validSz then 1 else 0 :=
  run_copies turns_legal

/-! ## What a coroutine relies on -/

/-- The event does not speak of the coroutine. -/
def Event.Spares (co : ℕ) : Event → Prop
  | .resume o _ _ | .destroy o _ _ => o ≠ co
  | .shareStackNew .. | .shareStackDestroy .. | .create .. | .work .. | .yield | .exit => True

/-- Then neither does the action. -/
theorem spares_action (hinv : Inv main s) {co : ℕ} {c : Aco} (hc : s.acos co = some c) {e : Event}
    (h : s.Admits e) (he : e.Spares co) : Private.Spares co (s.action e) := by
  cases e with
  | create mainCo sstk saveStackSz fp arg r save =>
    obtain ⟨-, -, hr, hrok, -⟩ := h
    obtain ⟨g, rfl⟩ := Option.ne_none_iff_exists'.mp hr
    have hne : g.base ≠ co := (hinv.parcels.base_ne_alloc (by decide) hrok (span_aco hc)).symm
    simp only [State.action]
    split
    · exact hne
    · trivial
  | work cpu m =>
    simp only [State.action]
    split <;> trivial
  | resume o m r => exact he
  | destroy o m₁ m₂ => exact he
  | shareStackNew => trivial
  | shareStackDestroy => trivial
  | yield => trivial
  | exit => trivial

/-- Who is seen to have a context is a coroutine. -/
theorem acos_of_context {co : ℕ} {x : Context Regs (List Byte)} (h : s.context co = some x) :
    ∃ c, s.acos co = some c := by
  obtain ⟨c, hc, -⟩ := Option.bind_eq_some_iff.mp h
  exact ⟨c, hc⟩

/-- While nobody speaks of a coroutine, its context stays. -/
theorem context_spared {co : ℕ} {x : Context Regs (List Byte)} {es : List Event} (hinv : Inv main s)
    (hidle : s.running ≠ some co) (hx : s.context co = some x)
    (h : libacoMachine.Legal (some s) es) (hes : ∀ e ∈ es, e.Spares co) :
    ∃ s', libacoMachine.run (some s) es = some s' ∧ Inv main s' ∧ s'.running ≠ some co ∧
      s'.context co = some x := by
  induction es generalizing s with
  | nil => exact ⟨s, rfl, hinv, hidle, hx⟩
  | cons e es ih =>
    obtain ⟨⟨t, ht, hadmits⟩, hrest⟩ := h
    obtain rfl := Option.some.inj ht
    obtain ⟨c, hc⟩ := acos_of_context hx
    obtain ⟨s₁, hact, hinv₁, hview₁, -⟩ := refines hinv hadmits
    have hspares := spares_action hinv hc hadmits (hes e List.mem_cons_self)
    obtain ⟨hctx, hidle'⟩ := Private.step_ctx (p := s.view main) hidle hspares
    rw [← hview₁] at hctx hidle'
    have hstep : libacoMachine.step (some s) e = some s₁ := hact
    rw [hstep] at hrest
    obtain ⟨s₂, hrun, hrest⟩ := ih hinv₁ hidle' (hctx.trans hx) hrest
      fun e' he' => hes e' (List.mem_cons_of_mem e he')
    exact ⟨s₂, by rw [Machine.run_cons, hstep, hrun], hrest⟩

/-- The context of the coroutine that is running. -/
theorem context_running (hinv : Inv main s) {co : ℕ} (h : s.running = some co) :
    ∃ k, s.stackOf co = some k ∧ s.cpu.rsp.toNat ≤ k.alignRetptr ∧ s.context co =
      some (.alive s.cpu (bytes s.sys.mem s.cpu.rsp.toNat (k.alignRetptr - s.cpu.rsp.toNat))) := by
  obtain ⟨-, -, c, hc, -, -, t, k, ht, hk, hfits⟩ := hinv.running_sub h
  have hown := hinv.running h hc ht hk
  obtain ⟨d, hd, -, hend⟩ := hinv.owner hk hown
  obtain rfl := Option.some.inj (hd.symm.trans hc)
  have hhigh := (hfits hend).high
  rw [regOf_of_running h] at hhigh
  refine ⟨k, ?_, hhigh, ?_⟩
  · unfold State.stackOf
    rw [hc, Option.bind_some, ht, Option.bind_some, hk]
  · rw [context_sub hc ht hk, hend, bytesOf_owner d hown, regOf_of_running h]
    rfl

/-- **Found as left.** A coroutine that has yielded, and is resumed after any events that do not
speak of it, finds its registers and every byte of its stack as it has left them, at the same
addresses. -/
theorem resumed_intact {m : Memory} {main : ℕ} {protector : Word} {cpu : Regs}
    {es fs : List Event} {co : ℕ} {mem : Memory} {r : Option Grant}
    (h : libacoMachine.Legal (State.start m main protector cpu)
      (es ++ .yield :: (fs ++ [.resume co mem r])))
    {s₁ : State} (hs₁ : libacoMachine.run (State.start m main protector cpu) es = some s₁)
    (hco : s₁.running = some co) (hfs : ∀ e ∈ fs, e.Spares co) :
    ∃ s₂ k₁ k₂, libacoMachine.run (State.start m main protector cpu)
        (es ++ .yield :: (fs ++ [.resume co mem r])) = some s₂ ∧
      s₁.stackOf co = some k₁ ∧ s₂.stackOf co = some k₂ ∧ s₂.running = some co ∧
      s₂.cpu = s₁.cpu ∧ k₂.alignRetptr = k₁.alignRetptr ∧
      AgreeOn s₁.sys.mem s₂.sys.mem
        ⟨s₁.cpu.rsp.toNat, k₁.alignRetptr - s₁.cpu.rsp.toNat⟩ := by
  obtain ⟨hes, hrest⟩ := (libacoMachine.legal_append ..).mp h
  obtain ⟨-, s, -, hrun, hinv, -⟩ := run_spec hes
  obtain rfl : s = s₁ := Option.some.inj (hrun.symm.trans hs₁)
  rw [hs₁] at hrest
  obtain ⟨k₁, hk₁, htop₁, hctx₁⟩ := context_running hinv hco
  -- the coroutine yields
  obtain ⟨⟨_, ⟨⟩, hyield⟩, hrest⟩ := hrest
  obtain ⟨s', hact, hinv', hview', -⟩ := refines hinv hyield
  have hstep : libacoMachine.step (some s) .yield = some s' := hact
  have hidle : s'.running ≠ some co := by
    have hnone : s'.running = none := congrArg Private.running hview'
    rw [hnone]
    exact (Option.some_ne_none co).symm
  have hctx' : s'.context co = s.context co := congrFun (congrArg Private.ctx hview') co
  -- others take their turns
  rw [hstep] at hrest
  obtain ⟨hfsLegal, hresume, -⟩ := (libacoMachine.legal_append ..).mp hrest
  obtain ⟨s'', hrun'', hinv'', -, hctx''⟩ :=
    context_spared hinv' hidle (hctx'.trans hctx₁) hfsLegal hfs
  -- and it is resumed
  rw [hrun''] at hresume
  obtain ⟨_, ⟨⟩, hadmits⟩ := hresume
  obtain ⟨s₂, hact₂, hinv₂, hview₂, -⟩ := refines hinv'' hadmits
  have hrunning₂ : s₂.running = some co := congrArg Private.running hview₂
  have hctx₂ : s₂.context co = s''.context co := congrFun (congrArg Private.ctx hview₂) co
  obtain ⟨k₂, hk₂, htop₂, hstack₂⟩ := context_running hinv₂ hrunning₂
  have hsame := hstack₂.symm.trans (hctx₂.trans hctx'')
  obtain ⟨hcpu, hbytes⟩ := Context.alive.inj (Option.some.inj hsame)
  rw [hcpu] at hbytes htop₂
  have hlength := congrArg List.length hbytes
  rw [length_bytes, length_bytes] at hlength
  refine ⟨s₂, k₁, k₂, ?_, hk₁, hk₂, hrunning₂, hcpu, by omega, ?_⟩
  · have hlast : libacoMachine.step (some s'') (.resume co mem r) = some s₂ := hact₂
    rw [Machine.run_append, hs₁, Machine.run_cons, hstep, Machine.run_append, hrun'',
      Machine.run_cons, hlast, Machine.run_nil]
  · rw [hlength] at hbytes
    rintro a ⟨hle, hlt⟩
    have hle' : s.cpu.rsp.toNat ≤ a := hle
    have hlt' : a < s.cpu.rsp.toNat + (k₁.alignRetptr - s.cpu.rsp.toNat) := hlt
    have hbyte := bytes_eq_iff.mp hbytes (a - s.cpu.rsp.toNat) (by omega)
    rwa [Nat.add_sub_cancel' hle'] at hbyte

theorem resumed_intact_turns :
    ∃ s₁, libacoMachine.run (State.start (fun _ => 0) 4096 77 (regsAt 0)) firstTurn = some s₁ ∧
      ∃ s₂ k₁ k₂, libacoMachine.run (State.start (fun _ => 0) 4096 77 (regsAt 0))
        (firstTurn ++ .yield :: (otherTurn ++ [.resume 12288 guardedMemory none])) = some s₂ ∧
      s₁.stackOf 12288 = some k₁ ∧ s₂.stackOf 12288 = some k₂ ∧ s₂.running = some 12288 ∧
      s₂.cpu = s₁.cpu ∧ k₂.alignRetptr = k₁.alignRetptr ∧
      AgreeOn s₁.sys.mem s₂.sys.mem
        ⟨s₁.cpu.rsp.toNat, k₁.alignRetptr - s₁.cpu.rsp.toNat⟩ :=
  ⟨_, rfl, resumed_intact turns_legal rfl (by decide) (by simp [otherTurn, Event.Spares])⟩

end FfTest.Libaco
