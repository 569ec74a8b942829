import FfTest.Libaco.Runs

/-! # Everybody has a stack

Though all coroutines of a share stack run at the same addresses, each finds its stack as it has
left it. `Inv` is what holds of every reachable state. `About` says that a step is about one
coroutine: what it does is neither seen by the others (`About.context`) nor does it break what holds
of them (`About.sub`). -/

namespace FfTest.Libaco

open State

/-! ## The invariant -/

/-- The stack pointer of a coroutine lies in its share stack, and a coroutine that is not the owner
has all of its stack in its save stack. -/
structure Fits (s : State) (co : ℕ) (c : Aco) (k : ShareStack) : Prop where
  /-- The lower bound. -/
  low : k.low ≤ (s.regOf co c).rsp.toNat
  /-- The upper bound. -/
  high : (s.regOf co c).rsp.toNat ≤ k.alignRetptr
  /-- What is saved. -/
  saved : k.owner ≠ some co → c.saveStack.validSz = k.alignRetptr - c.reg.rsp.toNat
  /-- There is room for it. -/
  room : k.owner ≠ some co → c.saveStack.validSz ≤ c.saveStack.sz
  /-- What was saved has been restored, but for the last time. -/
  counted : c.saveStack.ctSave = c.saveStack.ctRestore +
    if k.owner ≠ some co ∧ 0 < c.saveStack.validSz then 1 else 0

/-- What holds of a coroutine. -/
structure Sub (s : State) (main co : ℕ) (c : Aco) : Prop where
  /-- It belongs to the main coroutine. -/
  mainCo : c.mainCo = some main
  /-- It has a save stack. -/
  ptr : ∃ ptr, c.saveStack.ptr = some ptr
  /-- It has a share stack, which it fits until it has ended. -/
  stack : ∃ sstk k, c.shareStack = some sstk ∧ s.sstks sstk = some k ∧
    (c.isEnd = false → Fits s co c k)

/-- The main coroutine has no stack here. -/
def IsMain (c : Aco) : Prop := c.mainCo = none ∧ c.shareStack = none ∧ c.saveStack.ptr = none

/-- What holds of every reachable state. -/
structure Inv (main : ℕ) (s : State) : Prop where
  /-- The library has the blocks that it was given. -/
  parcels : Parcels s.span s.sys
  /-- There is a main coroutine. -/
  mainAco : ∃ c, s.acos main = some c ∧ IsMain c
  /-- The others are coroutines. -/
  sub : ∀ {co c}, s.acos co = some c → co ≠ main → Sub s main co c
  /-- The share stacks are sound. -/
  sound : ∀ {sstk k}, s.sstks sstk = some k → k.Sound
  /-- The owner of a share stack is a coroutine of it that has not ended. -/
  owner : ∀ {sstk k o}, s.sstks sstk = some k → k.owner = some o →
    ∃ c, s.acos o = some c ∧ c.shareStack = some sstk ∧ c.isEnd = false
  /-- The coroutine that is running is the owner of its share stack. -/
  running : ∀ {co c sstk k}, s.running = some co → s.acos co = some c →
    c.shareStack = some sstk → s.sstks sstk = some k → k.owner = some co
  /-- `aco_gtls_co` does not dangle. -/
  gtlsCo : ∀ {co}, s.gtlsCo = some co → ∃ c, s.acos co = some c
  /-- A function that returns at the top of a share stack returns to the protector. -/
  top : ∀ {sstk k}, s.sstks sstk = some k → loadWord 64 s.sys.mem k.alignRetptr = s.protector

/-! ## Blocks -/

theorem span_aco {s : State} {co : ℕ} {c : Aco} (hc : s.acos co = some c) :
    s.span (.aco co) = some ⟨co, sizeofAco⟩ := by
  simp [State.span, hc]

theorem span_save {s : State} {co ptr : ℕ} {c : Aco} (hc : s.acos co = some c)
    (hptr : c.saveStack.ptr = some ptr) : s.span (.save co) = some ⟨ptr, c.saveStack.sz⟩ := by
  simp [State.span, hc, hptr]

theorem span_sstk {s : State} {t : ℕ} {k : ShareStack} (hk : s.sstks t = some k) :
    s.span (.sstk t) = some ⟨t, sizeofShareStack⟩ := by
  simp [State.span, hk]

theorem span_area {s : State} {t : ℕ} {k : ShareStack} (hk : s.sstks t = some k) :
    s.span (.area t) = some k.block := by
  simp [State.span, hk]

/-! ## Who is running -/

theorem running_eq_some_iff {s : State} {co : ℕ} :
    s.running = some co ↔ s.gtlsCo = some co ∧ ∃ c, s.acos co = some c ∧ c.mainCo ≠ none := by
  unfold State.running
  rw [Option.filter_eq_some_iff]
  refine and_congr_right fun _ => ?_
  cases s.acos co with
  | none => simp
  | some c => cases hmain : c.mainCo <;> simp [hmain]

/-- Who is running does not change while `aco_gtls_co` and its `main_co` stay. -/
theorem running_congr {s s' : State} (hgtls : s'.gtlsCo = s.gtlsCo)
    (hacos : ∀ {co}, s.gtlsCo = some co →
      ((s'.acos co).bind Aco.mainCo).isSome = ((s.acos co).bind Aco.mainCo).isSome) :
    s'.running = s.running := by
  unfold State.running
  rw [hgtls]
  cases hco : s.gtlsCo with
  | none => rfl
  | some co => rw [Option.filter_some, Option.filter_some, hacos hco]

/-- The registers of a coroutine that is not running are in its `aco_t`. -/
theorem regOf_of_ne {s : State} {co : ℕ} (h : s.running ≠ some co) (c : Aco) :
    s.regOf co c = c.reg := if_neg h

/-- The registers of the coroutine that is running are in the processor. -/
theorem regOf_of_running {s : State} {co : ℕ} (h : s.running = some co) (c : Aco) :
    s.regOf co c = s.cpu := if_pos h

/-- The registers are where they were while nobody is switched. -/
theorem regOf_congr {s s' : State} (hrunning : s'.running = s.running) (hcpu : s'.cpu = s.cpu)
    (co : ℕ) (c : Aco) : s'.regOf co c = s.regOf co c := by
  unfold State.regOf
  rw [hrunning, hcpu]

namespace Inv

variable {main : ℕ} {s : State}

/-- Who has a main coroutine is not it. -/
theorem ne_main (hinv : Inv main s) {co : ℕ} {c : Aco} (hc : s.acos co = some c)
    (hmain : c.mainCo ≠ none) : co ≠ main := by
  rintro rfl
  obtain ⟨d, hd, hnone, -⟩ := hinv.mainAco
  obtain rfl := Option.some.inj (hc.symm.trans hd)
  exact hmain hnone

/-- The coroutine that is running. -/
theorem running_sub (hinv : Inv main s) {co : ℕ} (h : s.running = some co) :
    s.gtlsCo = some co ∧ co ≠ main ∧ ∃ c, s.acos co = some c ∧ Sub s main co c := by
  obtain ⟨hgtls, c, hc, hmain⟩ := running_eq_some_iff.mp h
  have hne := hinv.ne_main hc hmain
  exact ⟨hgtls, hne, c, hc, hinv.sub hc hne⟩

/-- The owner of a share stack is not the main coroutine. -/
theorem owner_ne_main (hinv : Inv main s) {sstk o : ℕ} {k : ShareStack}
    (hk : s.sstks sstk = some k) (ho : k.owner = some o) : o ≠ main := by
  rintro rfl
  obtain ⟨c, hc, hsstk, -⟩ := hinv.owner hk ho
  obtain ⟨d, hd, -, hnone, -⟩ := hinv.mainAco
  obtain rfl := Option.some.inj (hc.symm.trans hd)
  rw [hnone] at hsstk
  cases hsstk

/-- A coroutine owns no share stack but its own. -/
theorem owner_ne (hinv : Inv main s) {sstk sstk' co : ℕ} {c : Aco} {k : ShareStack}
    (hc : s.acos co = some c) (hsstk : c.shareStack = some sstk) (hne : sstk' ≠ sstk)
    (hk : s.sstks sstk' = some k) : k.owner ≠ some co := by
  intro ho
  obtain ⟨d, hd, hsstk', -⟩ := hinv.owner hk ho
  obtain rfl := Option.some.inj (hc.symm.trans hd)
  exact hne (Option.some.inj (hsstk'.symm.trans hsstk))

end Inv

/-! ## What is seen -/

/-- The main coroutine has no context as a coroutine. -/
theorem context_main {s : State} {main : ℕ} {c : Aco} (hc : s.acos main = some c)
    (hmain : IsMain c) : s.context main = none := by
  unfold State.context
  rw [hc, Option.bind_some, hmain.2.1]
  rfl

/-- The context of a coroutine. -/
theorem context_sub {s : State} {co sstk : ℕ} {c : Aco} {k : ShareStack} (hc : s.acos co = some c)
    (hsstk : c.shareStack = some sstk) (hk : s.sstks sstk = some k) :
    s.context co = some (if c.isEnd then .ended else .alive (s.regOf co c) (s.bytesOf co c k)) := by
  unfold State.context
  rw [hc, Option.bind_some, hsstk, Option.bind_some, hk, Option.map_some]

/-- The stack of the owner of the share stack. -/
theorem bytesOf_owner {s : State} {co : ℕ} (c : Aco) {k : ShareStack} (h : k.owner = some co) :
    s.bytesOf co c k = bytes s.sys.mem (s.regOf co c).rsp.toNat
      (k.alignRetptr - (s.regOf co c).rsp.toNat) := if_pos h

/-- The stack of any other coroutine. -/
theorem bytesOf_saved {s : State} {co ptr : ℕ} {c : Aco} {k : ShareStack}
    (h : k.owner ≠ some co) (hptr : c.saveStack.ptr = some ptr) :
    s.bytesOf co c k = bytes s.sys.mem ptr c.saveStack.validSz := by
  unfold State.bytesOf
  rw [if_neg h, hptr]
  rfl

/-- What is seen is told by its three parts. -/
theorem view_eq {s : State} {main : ℕ} {p : Private ℕ Regs (List Byte)}
    (hmain : s.mainReg main = p.main) (hctx : ∀ co, s.context co = p.ctx co)
    (hrunning : s.running = p.running) : s.view main = p := by
  obtain ⟨m, ctx, running⟩ := p
  obtain rfl : s.context = ctx := funext hctx
  obtain rfl : s.mainReg main = m := hmain
  obtain rfl : s.running = running := hrunning
  rfl

/-! ## What a step is about -/

/-- The two records are of one share stack, and do not differ for the coroutine `co`. -/
structure SameFor (co : ℕ) (k k' : ShareStack) : Prop where
  /-- The top. -/
  retptr : k'.alignRetptr = k.alignRetptr
  /-- The bottom. -/
  low : k'.low = k.low
  /-- Whether it is the owner. -/
  owner : k'.owner = some co ↔ k.owner = some co

/-- Nothing differs from itself. -/
theorem SameFor.refl (co : ℕ) (k : ShareStack) : SameFor co k k := ⟨rfl, rfl, Iff.rfl⟩

/-- A step is about the coroutine `o`, and perhaps the main coroutine. -/
structure About (main o : ℕ) (s s' : State) : Prop where
  /-- The other coroutines stay. -/
  acos : ∀ {co}, co ≠ o → co ≠ main → s'.acos co = s.acos co
  /-- The others have their registers. -/
  reg : ∀ {co}, co ≠ o → ∀ c, s'.regOf co c = s.regOf co c
  /-- The others have their share stacks. -/
  stack : ∀ {co c t k}, co ≠ o → s.acos co = some c → c.shareStack = some t →
    s.sstks t = some k → ∃ k', s'.sstks t = some k' ∧ SameFor co k k'
  /-- The share stacks that the others own are left alone. -/
  area : ∀ {co t k}, co ≠ o → s.sstks t = some k → k.owner = some co →
    AgreeOn s.sys.mem s'.sys.mem k.block
  /-- The save stacks of the others are left alone. -/
  save : ∀ {co b}, co ≠ o → s.span (.save co) = some b → AgreeOn s.sys.mem s'.sys.mem b

namespace About

variable {main o : ℕ} {s s' : State}

/-- What holds of another coroutine is not broken. -/
theorem sub (h : About main o s s') (hinv : Inv main s) {co : ℕ} {c : Aco} (hne : co ≠ o)
    (hmain : co ≠ main) (hc : s'.acos co = some c) : Sub s' main co c := by
  rw [h.acos hne hmain] at hc
  obtain ⟨hmainCo, hptr, t, k, ht, hk, hfits⟩ := hinv.sub hc hmain
  obtain ⟨k', hk', hret, hlow, howner⟩ := h.stack hne hc ht hk
  refine ⟨hmainCo, hptr, t, k', ht, hk', fun hend => ?_⟩
  have hfit := hfits hend
  refine ⟨?_, ?_, fun hown => ?_, fun hown => hfit.room (mt howner.mpr hown), ?_⟩
  · rw [hlow, h.reg hne]
    exact hfit.low
  · rw [hret, h.reg hne]
    exact hfit.high
  · rw [hret]
    exact hfit.saved (mt howner.mpr hown)
  · simp only [ne_eq, howner]
    exact hfit.counted

/-- **Not seen.** Another coroutine does not see the step. -/
theorem context (h : About main o s s') (hinv : Inv main s) {co : ℕ} (hne : co ≠ o)
    (hmain : co ≠ main) : s'.context co = s.context co := by
  have hacos := h.acos hne hmain
  cases hc : s.acos co with
  | none =>
    unfold State.context
    rw [hacos, hc]
    rfl
  | some c =>
    obtain ⟨-, ⟨ptr, hptr⟩, t, k, ht, hk, hfits⟩ := hinv.sub hc hmain
    obtain ⟨k', hk', hret, -, howner⟩ := h.stack hne hc ht hk
    rw [context_sub hc ht hk, context_sub (hacos.trans hc) ht hk', h.reg hne]
    cases hend : c.isEnd with
    | true => rfl
    | false =>
      have hfit := hfits hend
      have hbytes : s'.bytesOf co c k' = s.bytesOf co c k := by
        by_cases hown : k.owner = some co
        · rw [bytesOf_owner c hown, bytesOf_owner c (howner.mpr hown), h.reg hne, hret]
          exact (h.area hne hk hown).bytes_eq ((hinv.sound hk).within_block hfit.low hfit.high)
        · rw [bytesOf_saved hown hptr, bytesOf_saved (mt howner.mp hown) hptr]
          exact (h.save hne (span_save hc hptr)).bytes_eq
            ⟨le_rfl, Nat.add_le_add_left (hfit.room hown) ptr⟩
      rw [hbytes]

/-- All contexts, where the main coroutine stays what it is. -/
theorem context_of_ne (h : About main o s s') (hinv : Inv main s)
    (hmain : ∃ c, s'.acos main = some c ∧ IsMain c) {co : ℕ} (hne : co ≠ o) :
    s'.context co = s.context co := by
  by_cases hco : co = main
  · subst hco
    obtain ⟨c, hc, hcmain⟩ := hmain
    obtain ⟨d, hd, hdmain⟩ := hinv.mainAco
    rw [context_main hc hcmain, context_main hd hdmain]
  · exact h.context hinv hne hco

end About

end FfTest.Libaco
