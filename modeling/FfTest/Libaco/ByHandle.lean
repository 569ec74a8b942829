import FfTest.Coroutines.Aco
import FfTest.Libaco.Refinement

/-! # Coroutines by their handles

`FfTest.Coroutines.Aco` has the library as `CoroutineFactory` uses it: handles that are numbered, no
memory, and a record of the rule that is broken first. This file connects it to the library with its
memory, through what the parties see. `Named` says which handle stands for which `aco_t`, as the
address of one that was destroyed may be that of the next. In every run that keeps the rules the
numbered library breaks none, and has the same handles, ended or not, and the same one running
(`run_handles`). -/

namespace FfTest.Libaco

open State

/-! ## Following the parties -/

section Follow

variable {ι ρ τ : Type*}

/-- The numbered library, and the handles of the parties. -/
structure Named (ι : Type*) where
  /-- The handle of a coroutine. -/
  handle : ι → ℕ
  /-- The library. -/
  lib : Coroutines.Libaco

namespace Named

/-- The library with its main handle, which is the first one. -/
def start : Named ι := ⟨fun _ => 0, (Coroutines.Libaco.start.create none none).2⟩

/-- The calls of an action. -/
def follow [DecidableEq ι] (n : Named ι) : Action ι ρ τ → Named ι
  | .create i _ _ =>
    let (h, lib) := n.lib.create (some 0) none
    ⟨Function.update n.handle i h, lib⟩
  | .resume i => { n with lib := n.lib.resume (n.handle i) }
  | .yield => { n with lib := n.lib.yield }
  | .exit => { n with lib := n.lib.exit }
  | .destroy i => { n with lib := n.lib.destroy (n.handle i) }
  | .idle | .work .. => n

/-- The calls of several actions. -/
def run [DecidableEq ι] (n : Named ι) (as : List (Action ι ρ τ)) : Named ι := as.foldl follow n

end Named

/-- The rules that the actions keep. -/
def KeepsRules (p : Private ι ρ τ) : Action ι ρ τ → Prop
  | .create i _ _ => p.ctx i = none
  | .resume i => p.running = none ∧ ∃ reg stack, p.ctx i = some (.alive reg stack)
  | .yield | .exit => p.running ≠ none
  | .destroy i => p.running ≠ some i ∧ p.ctx i ≠ none
  | .idle | .work .. => True

/-- The numbered library knows the parties by their handles. -/
structure Knows (p : Private ι ρ τ) (n : Named ι) : Prop where
  /-- No rule is broken. -/
  broken : n.lib.broken = none
  /-- The main handle. -/
  main : ∃ a, n.lib.acos 0 = some a ∧ a.mainCo = none
  /-- It is not the next one. -/
  next_pos : 0 < n.lib.next
  /-- The running coroutine is alive. -/
  alive : ∀ {i}, p.running = some i → ∃ reg stack, p.ctx i = some (.alive reg stack)
  /-- The handle of a coroutine, which has ended iff the coroutine has. -/
  known : ∀ {i x}, p.ctx i = some x → n.handle i < n.lib.next ∧
    ∃ a, n.lib.acos (n.handle i) = some a ∧ a.mainCo = some 0 ∧ (a.isEnd = true ↔ x = .ended)
  /-- Different coroutines have different handles. -/
  apart : ∀ {i j}, p.ctx i ≠ none → p.ctx j ≠ none → n.handle i = n.handle j → i = j
  /-- There are no other handles. -/
  only : ∀ {h a}, n.lib.acos h = some a → h = 0 ∨ ∃ i, p.ctx i ≠ none ∧ n.handle i = h
  /-- Where the main program is running, so it is for the library. -/
  idle : p.running = none → n.lib.gtlsCo = none ∨ n.lib.gtlsCo = some 0
  /-- Where a coroutine is running, its handle is, and is the owner of the share stack. -/
  running : ∀ {i}, p.running = some i →
    n.lib.gtlsCo = some (n.handle i) ∧ n.lib.owner = some (n.handle i)

variable {p : Private ι ρ τ} {n : Named ι}

/-- Who is running. -/
theorem Knows.running_eq (h : Knows p n) : n.lib.running = p.running.map n.handle := by
  unfold Coroutines.Libaco.running
  cases hrun : p.running with
  | none =>
    obtain ⟨a, ha, hmain⟩ := h.main
    rcases h.idle hrun with hnone | hzero
    · rw [hnone]
      rfl
    · rw [hzero]
      simp only [ha, hmain, if_true]
      rfl
  | some i =>
    obtain ⟨reg, stack, hi⟩ := h.alive hrun
    obtain ⟨-, a, ha, hmain, -⟩ := h.known hi
    rw [(h.running hrun).1]
    simp only [ha, hmain]
    rw [if_neg (Option.some_ne_none 0)]
    rfl

/-- A coroutine does not have the main handle. -/
theorem Knows.handle_ne_zero (h : Knows p n) {i : ι} (hi : p.ctx i ≠ none) : n.handle i ≠ 0 := by
  intro hzero
  obtain ⟨x, hx⟩ := Option.ne_none_iff_exists'.mp hi
  obtain ⟨-, a, ha, hmain, -⟩ := h.known hx
  obtain ⟨b, hb, hnone⟩ := h.main
  rw [hzero] at ha
  obtain rfl := Option.some.inj (ha.symm.trans hb)
  rw [hnone] at hmain
  cases hmain

/-- At the start there is the main handle only. -/
theorem knows_start (reg : ρ) : Knows (⟨reg, fun _ => none, none⟩ : Private ι ρ τ) .start where
  broken := rfl
  main := ⟨_, rfl, rfl⟩
  next_pos := Nat.one_pos
  alive h := nomatch h
  known h := nomatch h
  apart h := absurd rfl h
  only {h a} ha := by
    left
    by_contra hne
    have hnone : (Named.start : Named ι).lib.acos h = none := Function.update_of_ne hne ..
    rw [hnone] at ha
    cases ha
  idle _ := Or.inl rfl
  running h := nomatch h

/-! ## One action -/

variable [DecidableEq ι]

/-- Where a handle is to be told, the one that is made is the next one, and the others stay. -/
theorem Knows.create_handle (h : Knows p n) {i : ι} {reg : ρ} {stack : τ} {j : ι}
    {x : Context ρ τ} (hx : Function.update p.ctx i (some (.alive reg stack)) j = some x) :
    j = i ∧ x = .alive reg stack ∧ Function.update n.handle i n.lib.next j = n.lib.next ∨
      j ≠ i ∧ p.ctx j = some x ∧ Function.update n.handle i n.lib.next j = n.handle j ∧
        n.handle j < n.lib.next := by
  by_cases hj : j = i
  · subst hj
    rw [Function.update_self] at hx
    exact Or.inl ⟨rfl, (Option.some.inj hx).symm, Function.update_self ..⟩
  · rw [Function.update_of_ne hj] at hx
    exact Or.inr ⟨hj, hx, Function.update_of_ne hj .., (h.known hx).1⟩

/-- The handle that is made is another one than all others. -/
theorem Knows.create_apart (h : Knows p n) {i : ι} {reg : ρ} {stack : τ} {j k : ι}
    (hj : Function.update p.ctx i (some (.alive reg stack)) j ≠ none)
    (hk : Function.update p.ctx i (some (.alive reg stack)) k ≠ none)
    (heq : Function.update n.handle i n.lib.next j = Function.update n.handle i n.lib.next k) :
    j = k := by
  obtain ⟨x, hx⟩ := Option.ne_none_iff_exists'.mp hj
  obtain ⟨y, hy⟩ := Option.ne_none_iff_exists'.mp hk
  rcases h.create_handle hx with ⟨rfl, -, hj'⟩ | ⟨-, hx', hj', hlt⟩
  · rcases h.create_handle hy with ⟨rfl, -, -⟩ | ⟨-, -, hk', hlt⟩
    · rfl
    · rw [hj', hk'] at heq
      omega
  · rcases h.create_handle hy with ⟨rfl, -, hk'⟩ | ⟨-, hy', hk', -⟩
    · rw [hj', hk'] at heq
      omega
    · rw [hj', hk'] at heq
      exact h.apart (by simp [hx']) (by simp [hy']) heq

/-- A coroutine is made. -/
theorem Knows.create (h : Knows p n) {i : ι} (hi : p.ctx i = none) (reg : ρ) (stack : τ) :
    Knows (p.step (.create i reg stack)) (n.follow (.create i reg stack : Action ι ρ τ)) := by
  have hacos : ∀ {k}, k < n.lib.next →
      (n.lib.create (some 0) none).2.acos k = n.lib.acos k :=
    fun hk => Function.update_of_ne (Nat.ne_of_lt hk) ..
  have hself : (n.lib.create (some 0) none).2.acos n.lib.next = some ⟨some 0, none, false, 0⟩ :=
    Function.update_self ..
  -- a coroutine that was there is another one
  have hold : ∀ {j x}, p.ctx j = some x → j ≠ i := by
    rintro j x hj rfl
    rw [hi] at hj
    cases hj
  constructor
  case broken => exact h.broken
  case main =>
    obtain ⟨a, ha, hmain⟩ := h.main
    exact ⟨a, (hacos h.next_pos).trans ha, hmain⟩
  case next_pos => exact Nat.succ_pos _
  case alive =>
    intro j hj
    obtain ⟨reg', stack', hx⟩ := h.alive hj
    exact ⟨reg', stack', (Function.update_of_ne (hold hx) ..).trans hx⟩
  case known =>
    intro j x hx
    show Function.update n.handle i n.lib.next j < n.lib.next + 1 ∧
      ∃ a, (n.lib.create (some 0) none).2.acos (Function.update n.handle i n.lib.next j) = some a ∧ _
    rcases h.create_handle hx with ⟨-, rfl, hj⟩ | ⟨-, hx', hj, hlt⟩
    · rw [hj]
      exact ⟨Nat.lt_succ_self _, _, hself, rfl, by simp⟩
    · obtain ⟨-, hfound⟩ := h.known hx'
      rw [hj, hacos hlt]
      exact ⟨Nat.lt_succ_of_lt hlt, hfound⟩
  case apart => exact h.create_apart
  case only =>
    intro k a hk
    by_cases hnext : k = n.lib.next
    · refine Or.inr ⟨i, ?_, ?_⟩
      · show Function.update p.ctx i (some (.alive reg stack)) i ≠ none
        rw [Function.update_self]
        exact Option.some_ne_none _
      · exact (Function.update_self ..).trans hnext.symm
    · have hk' : n.lib.acos k = some a := (Function.update_of_ne hnext ..).symm.trans hk
      refine Or.imp_right ?_ (h.only hk')
      rintro ⟨j, hj, rfl⟩
      obtain ⟨x, hx⟩ := Option.ne_none_iff_exists'.mp hj
      refine ⟨j, ?_, Function.update_of_ne (hold hx) ..⟩
      show Function.update p.ctx i (some (.alive reg stack)) j ≠ none
      rwa [Function.update_of_ne (hold hx)]
  case idle => exact h.idle
  case running =>
    intro j hj
    obtain ⟨reg', stack', hx⟩ := h.alive hj
    show n.lib.gtlsCo = some (Function.update n.handle i n.lib.next j) ∧
      n.lib.owner = some (Function.update n.handle i n.lib.next j)
    rw [Function.update_of_ne (hold hx)]
    exact h.running hj

/-- A coroutine is resumed. -/
theorem Knows.resume (h : Knows p n) {i : ι} (hrun : p.running = none)
    (hi : ∃ reg stack, p.ctx i = some (.alive reg stack)) :
    Knows (p.step (.resume i)) (n.follow (.resume i : Action ι ρ τ)) := by
  obtain ⟨reg, stack, hx⟩ := hi
  -- its handle belongs to somebody who is not the main one and has not ended
  obtain ⟨hlt, a, ha, hmain, hend⟩ := h.known hx
  have hnone : n.lib.running = none := by
    rw [h.running_eq, hrun]
    rfl
  have hresume : n.lib.resume (n.handle i) = { n.lib with
      owner := some (n.handle i)
      gtlsCo := some (n.handle i)
      ran := (n.handle i, a.segment) :: n.lib.ran } := by
    unfold Coroutines.Libaco.resume
    rw [ha]
    dsimp only
    rw [if_neg (by simp [hmain, hend]), if_neg (not_not.mpr hnone)]
  show Knows { p with running := some i } { n with lib := n.lib.resume (n.handle i) }
  rw [hresume]
  refine ⟨h.broken, h.main, h.next_pos, ?_, h.known, h.apart, h.only, nofun, ?_⟩
  · intro j hj
    obtain rfl := Option.some.inj hj
    exact ⟨reg, stack, hx⟩
  · intro j hj
    obtain rfl := Option.some.inj hj
    exact ⟨rfl, rfl⟩

/-- The running coroutine stops, for now or for good. -/
theorem Knows.stopped (h : Knows p n) {i : ι} (hrun : p.running = some i) {x : Context ρ τ}
    {a : Coroutines.Aco} (ha : a.mainCo = some 0) (hend : a.isEnd = true ↔ x = .ended)
    (lib : Coroutines.Libaco)
    (hacos : lib.acos = Function.update n.lib.acos (n.handle i) (some a))
    (hnext : lib.next = n.lib.next) (hbroken : lib.broken = none) (hgtls : lib.gtlsCo = some 0) :
    Knows { p with ctx := Function.update p.ctx i (some x), running := none }
      { n with lib } := by
  obtain ⟨reg, stack, hi⟩ := h.alive hrun
  have hne : p.ctx i ≠ none := by simp [hi]
  have hctx : ∀ {j}, Function.update p.ctx i (some x) j ≠ none → p.ctx j ≠ none := by
    intro j hj
    by_cases hji : j = i
    · exact hji ▸ hne
    · rwa [Function.update_of_ne hji] at hj
  have hothers : ∀ {k}, k ≠ n.handle i → lib.acos k = n.lib.acos k := fun hk => by
    rw [hacos, Function.update_of_ne hk]
  constructor
  case broken => exact hbroken
  case main =>
    obtain ⟨b, hb, hmain⟩ := h.main
    exact ⟨b, (hothers (h.handle_ne_zero hne).symm).trans hb, hmain⟩
  case next_pos => exact hnext ▸ h.next_pos
  case alive => exact fun hj => nomatch hj
  case known =>
    intro j y hy
    show n.handle j < lib.next ∧ ∃ b, lib.acos (n.handle j) = some b ∧ _
    rw [hnext]
    -- the coroutine that stops has what the hypotheses say; other handles lie apart from its own
    by_cases hji : j = i
    · subst hji
      obtain rfl : x = y := by
        have hy' : Function.update p.ctx j (some x) j = some y := hy
        rw [Function.update_self] at hy'
        exact Option.some.inj hy'
      refine ⟨(h.known hi).1, a, ?_, ha, hend⟩
      rw [hacos, Function.update_self]
    · have hy' : p.ctx j = some y := (Function.update_of_ne hji ..).symm.trans hy
      have hapart : n.handle j ≠ n.handle i := fun heq =>
        hji (h.apart (by simp [hy']) hne heq)
      rw [hothers hapart]
      exact h.known hy'
  case apart => exact fun hj hk heq => h.apart (hctx hj) (hctx hk) heq
  case only =>
    intro k b hk
    by_cases hki : k = n.handle i
    · right
      refine ⟨i, ?_, hki.symm⟩
      show Function.update p.ctx i (some x) i ≠ none
      rw [Function.update_self]
      exact Option.some_ne_none x
    · refine Or.imp_right ?_ (h.only ((hothers hki).symm.trans hk))
      rintro ⟨j, hj, rfl⟩
      refine ⟨j, ?_, rfl⟩
      show Function.update p.ctx i (some x) j ≠ none
      rwa [Function.update_of_ne fun hji => hki (congrArg n.handle hji)]
  case idle => exact fun _ => Or.inr hgtls
  case running => exact fun hj => nomatch hj

/-- The running coroutine yields. -/
theorem Knows.yield (h : Knows p n) (hrun : p.running ≠ none) :
    Knows (p.step .yield) (n.follow (.yield : Action ι ρ τ)) := by
  obtain ⟨i, hi⟩ := Option.ne_none_iff_exists'.mp hrun
  obtain ⟨reg, stack, hx⟩ := h.alive hi
  obtain ⟨-, ⟨mainCo, arg, isEnd, segment⟩, ha, hmain, hend⟩ := h.known hx
  obtain rfl : mainCo = some 0 := hmain
  have hyield : n.lib.yield = { n.lib with
      acos := Function.update n.lib.acos (n.handle i) (some ⟨some 0, arg, isEnd, segment + 1⟩)
      gtlsCo := some 0 } := by
    unfold Coroutines.Libaco.yield
    rw [(h.running hi).1]
    dsimp only
    rw [ha]
  have hsame : Function.update p.ctx i (some (.alive reg stack)) = p.ctx := by
    rw [← hx, Function.update_eq_self]
  have hstopped := h.stopped (x := .alive reg stack) hi (a := ⟨some 0, arg, isEnd, segment + 1⟩)
    rfl hend n.lib.yield (by rw [hyield]) (by rw [hyield]) (by rw [hyield]; exact h.broken)
    (by rw [hyield])
  rw [hsame] at hstopped
  exact hstopped

/-- The running coroutine exits. -/
theorem Knows.exit (h : Knows p n) (hrun : p.running ≠ none) :
    Knows (p.step .exit) (n.follow (.exit : Action ι ρ τ)) := by
  obtain ⟨i, hi⟩ := Option.ne_none_iff_exists'.mp hrun
  obtain ⟨reg, stack, hx⟩ := h.alive hi
  obtain ⟨-, ⟨mainCo, arg, isEnd, segment⟩, ha, hmain, -⟩ := h.known hx
  obtain rfl : mainCo = some 0 := hmain
  obtain ⟨hgtls, howner⟩ := h.running hi
  have hexit : n.lib.exit = { n.lib with
      acos := Function.update n.lib.acos (n.handle i) (some ⟨some 0, arg, true, segment⟩)
      owner := none
      gtlsCo := some 0 } := by
    unfold Coroutines.Libaco.exit
    rw [hgtls]
    dsimp only
    rw [ha]
    dsimp only
    rw [if_pos howner]
  rw [Private.step_exit_of_some hi]
  exact h.stopped hi (a := ⟨some 0, arg, true, segment⟩) rfl (by simp) n.lib.exit
    (by rw [hexit]) (by rw [hexit]) (by rw [hexit]; exact h.broken) (by rw [hexit])

/-- A coroutine is destroyed. -/
theorem Knows.destroy (h : Knows p n) {i : ι} (hrun : p.running ≠ some i) (hi : p.ctx i ≠ none) :
    Knows (p.step (.destroy i)) (n.follow (.destroy i : Action ι ρ τ)) := by
  -- by its handle it is not running either, as no two coroutines have one handle
  have hidle : n.lib.running ≠ some (n.handle i) := by
    rw [h.running_eq]
    intro heq
    obtain ⟨j, hj, hji⟩ := Option.map_eq_some_iff.mp heq
    obtain ⟨reg, stack, hx⟩ := h.alive hj
    exact hrun (h.apart (by simp [hx]) hi hji ▸ hj)
  have hdestroy : n.lib.destroy (n.handle i) = { n.lib with
      acos := Function.update n.lib.acos (n.handle i) none
      owner := if n.lib.owner = some (n.handle i) then none else n.lib.owner
      ledger := .release (.handle (n.handle i)) :: n.lib.ledger } := if_neg hidle
  have hctx : ∀ {j}, Function.update p.ctx i none j ≠ none → j ≠ i ∧ p.ctx j ≠ none := by
    intro j hj
    have hji : j ≠ i := by
      rintro rfl
      exact hj (Function.update_self ..)
    exact ⟨hji, by rwa [Function.update_of_ne hji] at hj⟩
  have hapart : ∀ {j}, j ≠ i → p.ctx j ≠ none → n.handle j ≠ n.handle i :=
    fun hji hj heq => hji (h.apart hj hi heq)
  have hothers : ∀ {k}, k ≠ n.handle i →
      Function.update n.lib.acos (n.handle i) none k = n.lib.acos k :=
    fun hk => Function.update_of_ne hk ..
  show Knows { p with ctx := Function.update p.ctx i none }
    { n with lib := n.lib.destroy (n.handle i) }
  rw [hdestroy]
  constructor
  case broken => exact h.broken
  case main =>
    obtain ⟨b, hb, hmain⟩ := h.main
    exact ⟨b, (hothers (h.handle_ne_zero hi).symm).trans hb, hmain⟩
  case next_pos => exact h.next_pos
  case alive =>
    intro j hj
    obtain ⟨reg, stack, hx⟩ := h.alive hj
    have hji : j ≠ i := fun hji => hrun (hji ▸ hj)
    exact ⟨reg, stack, (Function.update_of_ne hji ..).trans hx⟩
  case known =>
    intro j y hy
    have hy' : Function.update p.ctx i none j = some y := hy
    obtain ⟨hji, hj⟩ := hctx (by rw [hy']; exact Option.some_ne_none y)
    rw [Function.update_of_ne hji] at hy'
    show _ ∧ ∃ b, Function.update n.lib.acos (n.handle i) none (n.handle j) = some b ∧ _
    rw [hothers (hapart hji hj)]
    exact h.known hy'
  case apart => exact fun hj hk heq => h.apart (hctx hj).2 (hctx hk).2 heq
  case only =>
    intro k b hk
    have hki : k ≠ n.handle i := by
      rintro rfl
      have hnone : Function.update n.lib.acos (n.handle i) none (n.handle i) = some b := hk
      rw [Function.update_self] at hnone
      cases hnone
    refine Or.imp_right ?_ (h.only ((hothers hki).symm.trans hk))
    rintro ⟨j, hj, rfl⟩
    refine ⟨j, ?_, rfl⟩
    show Function.update p.ctx i none j ≠ none
    rwa [Function.update_of_ne fun hji => hki (congrArg n.handle hji)]
  case idle => exact h.idle
  case running =>
    intro j hj
    obtain ⟨reg, stack, hx⟩ := h.alive hj
    have hji : j ≠ i := fun hji => hrun (hji ▸ hj)
    obtain ⟨hgtls, howner⟩ := h.running hj
    -- the one that is running owns the share stack, so the one destroyed does not
    have hne : n.lib.owner ≠ some (n.handle i) := by
      rw [howner]
      exact fun heq => hapart hji (by simp [hx]) (Option.some.inj heq)
    exact ⟨hgtls, (if_neg hne).trans howner⟩

/-- Work concerns no handle. -/
theorem Knows.work (h : Knows p n) (reg : ρ) (stack : τ) :
    Knows (p.step (.work reg stack)) n := by
  cases hrun : p.running with
  | none =>
    rw [Private.step_work_of_none hrun]
    exact ⟨h.broken, h.main, h.next_pos, h.alive, h.known, h.apart, h.only, h.idle, h.running⟩
  | some i =>
    rw [Private.step_work_of_some hrun]
    obtain ⟨reg', stack', hi⟩ := h.alive hrun
    -- registers and stack change, of which the numbered library knows nothing
    have hctx : ∀ {j}, Function.update p.ctx i (some (.alive reg stack)) j ≠ none ↔
        p.ctx j ≠ none := by
      intro j
      by_cases hji : j = i
      · simp [hji, hi]
      · rw [Function.update_of_ne hji]
    refine ⟨h.broken, h.main, h.next_pos, ?_, ?_, fun hj hk => h.apart (hctx.mp hj) (hctx.mp hk), ?_,
      h.idle, h.running⟩
    · intro j hj
      obtain rfl := Option.some.inj (hrun.symm.trans hj)
      exact ⟨reg, stack, Function.update_self ..⟩
    · intro j y hy
      by_cases hji : j = i
      · subst hji
        obtain rfl : .alive reg stack = y := by
          have hy' : Function.update p.ctx j (some (.alive reg stack)) j = some y := hy
          rw [Function.update_self] at hy'
          exact Option.some.inj hy'
        obtain ⟨hlt, a, ha, hmain, hend⟩ := h.known hi
        exact ⟨hlt, a, ha, hmain, hend.trans (by simp)⟩
      · exact h.known ((Function.update_of_ne hji ..).symm.trans hy)
    · intro k a hk
      exact Or.imp_right (fun ⟨j, hj, hjk⟩ => ⟨j, hctx.mpr hj, hjk⟩) (h.only hk)

/-- **One action.** What keeps the rules of the parties breaks none of the numbered library. -/
theorem Knows.step (h : Knows p n) {a : Action ι ρ τ} (ha : KeepsRules p a) :
    Knows (p.step a) (n.follow a) := by
  cases a with
  | idle => exact h
  | create i reg stack => exact h.create ha reg stack
  | resume i => exact h.resume ha.1 ha.2
  | work reg stack => exact h.work reg stack
  | yield => exact h.yield ha
  | exit => exact h.exit ha
  | destroy i => exact h.destroy ha.1 ha.2

end Follow

/-! ## Whole runs -/

variable {main : ℕ} {s : State}

/-- The rules of the library are those of the parties. -/
theorem keepsRules_action (hinv : Inv main s) {e : Event} (h : s.Admits e) :
    KeepsRules (s.view main) (s.action e) := by
  cases e with
  | create mainCo sstk saveStackSz fp arg r save =>
    obtain ⟨-, hstk, hr, hrok, -⟩ := h
    obtain ⟨g, rfl⟩ := Option.ne_none_iff_exists'.mp hr
    obtain ⟨k, hk⟩ := Option.ne_none_iff_exists'.mp hstk
    have haction : s.action (.create mainCo sstk saveStackSz fp arg (some g) save)
        = .create g.base (s.entry k fp) [] := by simp only [State.action, hk]
    rw [haction]
    -- the address is new, and so is the name of the party
    show s.context g.base = none
    rw [Option.eq_none_iff_forall_ne_some]
    intro x hx
    obtain ⟨c, hc⟩ := acos_of_context hx
    exact hinv.parcels.base_ne_alloc (by decide) hrok (span_aco hc) rfl
  | resume co m r =>
    obtain ⟨hrun, ⟨c, hc, hmain, hend⟩, -⟩ := h
    obtain ⟨-, -, t, k, ht, hk, -⟩ := hinv.sub hc (hinv.ne_main hc hmain)
    refine ⟨hrun, s.regOf co c, s.bytesOf co c k, ?_⟩
    show s.context co = _
    rw [context_sub hc ht hk, hend, if_neg Bool.false_ne_true]
  | work cpu m =>
    simp only [State.action]
    split <;> trivial
  | yield => exact h
  | exit => exact h
  | destroy co m₁ m₂ =>
    obtain ⟨hrun, c, ptr, hc, hmain, -⟩ := h
    obtain ⟨-, -, t, k, ht, hk, -⟩ := hinv.sub hc (hinv.ne_main hc hmain)
    refine ⟨hrun, ?_⟩
    show s.context co ≠ none
    rw [context_sub hc ht hk]
    exact Option.some_ne_none _
  | shareStackNew => trivial
  | shareStackDestroy => trivial

/-- The numbered library follows the one with its memory. -/
theorem knows_run {es : List Event} {n : Named ℕ} (hinv : Inv main s)
    (hknows : Knows (s.view main) n) (h : libacoMachine.Legal (some s) es) :
    ∃ s', libacoMachine.run (some s) es = some s' ∧ Inv main s' ∧
      Knows (s'.view main) (n.run (s.actions es)) := by
  induction es generalizing s n with
  | nil => exact ⟨s, rfl, hinv, hknows⟩
  | cons e es ih =>
    obtain ⟨⟨t, ht, hadmits⟩, hrest⟩ := h
    obtain rfl := Option.some.inj ht
    obtain ⟨s₁, hact, hinv₁, hview₁, -⟩ := refines hinv hadmits
    have hstep : libacoMachine.step (some s) e = some s₁ := hact
    have hknows₁ : Knows (s₁.view main) (n.follow (s.action e)) := by
      rw [hview₁]
      exact hknows.step (keepsRules_action hinv hadmits)
    rw [hstep] at hrest
    obtain ⟨s₂, hrun, hinv₂, hknows₂⟩ := ih hinv₁ hknows₁ hrest
    refine ⟨s₂, by rw [Machine.run_cons, hstep, hrun], hinv₂, ?_⟩
    have hactions : s.actions (e :: es) = s.action e :: s₁.actions es := by
      rw [State.actions, hact]
    rw [hactions]
    exact hknows₂

/-- A coroutine is one of the parties, which has ended iff it has. -/
theorem context_eq_some (hinv : Inv main s) {co : ℕ} {c : Aco} (hc : s.acos co = some c)
    (hne : co ≠ main) : ∃ x, s.context co = some x ∧ (x = .ended ↔ c.isEnd = true) := by
  obtain ⟨-, -, t, k, ht, hk, -⟩ := hinv.sub hc hne
  refine ⟨_, context_sub hc ht hk, ?_⟩
  cases c.isEnd <;> simp

/-- **The numbered library.** In every run that keeps the rules, the library by its handles, called
in the same way, breaks none of its rules. Its running handle is that of the coroutine that is
running, if any; each coroutine has a handle of its own, with the same `main_co` and `is_end`; and
there are no other handles but the main one. -/
theorem run_handles {m : Memory} {main : ℕ} {protector : Word} {cpu : Regs} {es : List Event}
    (h : libacoMachine.Legal (State.start m main protector cpu) es) :
    ∃ (s₀ s : State) (n : Named ℕ), State.start m main protector cpu = some s₀ ∧
      libacoMachine.run (State.start m main protector cpu) es = some s ∧
      n = Named.start.run (s₀.actions es) ∧ n.lib.broken = none ∧
      n.lib.running = s.running.map n.handle ∧
      (∀ {co c}, s.acos co = some c → co ≠ main →
        ∃ a, n.lib.acos (n.handle co) = some a ∧ a.mainCo = some 0 ∧ a.isEnd = c.isEnd) ∧
      (∀ {co co' c c'}, s.acos co = some c → s.acos co' = some c' → co ≠ main → co' ≠ main →
        n.handle co = n.handle co' → co = co') ∧
      ∀ {i a}, n.lib.acos i = some a →
        i = 0 ∨ ∃ co c, s.acos co = some c ∧ co ≠ main ∧ n.handle co = i := by
  obtain ⟨s₀, hs₀, hinv₀, hview₀, -⟩ := start_spec m main protector cpu
  rw [hs₀] at h ⊢
  have hknows₀ : Knows (s₀.view main) Named.start := by
    rw [hview₀]
    exact knows_start cpu
  obtain ⟨s, hrun, hinv, hknows⟩ := knows_run hinv₀ hknows₀ h
  refine ⟨s₀, s, _, rfl, hrun, rfl, hknows.broken, hknows.running_eq, ?_, ?_, ?_⟩
  · intro co c hc hne
    obtain ⟨x, hx, hended⟩ := context_eq_some hinv hc hne
    obtain ⟨-, a, ha, hmain, hend⟩ := hknows.known hx
    exact ⟨a, ha, hmain, Bool.eq_iff_iff.mpr (hend.trans hended)⟩
  · intro co co' c c' hc hc' hne hne' heq
    obtain ⟨x, hx, -⟩ := context_eq_some hinv hc hne
    obtain ⟨y, hy, -⟩ := context_eq_some hinv hc' hne'
    have hnone : ∀ {o z}, s.context o = some z → s.context o ≠ none := fun ho => by
      rw [ho]
      exact Option.some_ne_none _
    exact hknows.apart (hnone hx) (hnone hy) heq
  · intro i a ha
    refine Or.imp_right ?_ (hknows.only ha)
    rintro ⟨co, hco, hi⟩
    obtain ⟨x, hx⟩ := Option.ne_none_iff_exists'.mp hco
    obtain ⟨c, hc⟩ := acos_of_context hx
    refine ⟨co, c, hc, ?_, hi⟩
    rintro rfl
    obtain ⟨d, hd, hdmain⟩ := hinv.mainAco
    have hnone : s.context co = none := context_main hd hdmain
    exact hco hnone

/-- Two coroutines on one share stack, by their handles. -/
theorem run_handles_turns :
    ∃ (s₀ s : State) (n : Named ℕ), State.start (fun _ => 0) 4096 77 (regsAt 0) = some s₀ ∧
      libacoMachine.run (State.start (fun _ => 0) 4096 77 (regsAt 0))
        (firstTurn ++ .yield :: (otherTurn ++ [.resume 12288 guardedMemory none])) = some s ∧
      n = Named.start.run (s₀.actions
        (firstTurn ++ .yield :: (otherTurn ++ [.resume 12288 guardedMemory none]))) ∧
      n.lib.broken = none ∧ n.lib.running = s.running.map n.handle := by
  obtain ⟨s₀, s, n, hs₀, hrun, hn, hbroken, hrunning, -⟩ := run_handles turns_legal
  exact ⟨s₀, s, n, hs₀, hrun, hn, hbroken, hrunning⟩

end FfTest.Libaco
