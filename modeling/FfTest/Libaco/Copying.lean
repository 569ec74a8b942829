import FfTest.Libaco.Switching

/-! # What is copied, and where to

The fast path of the copy is a plain copy (`optimizedMemcpy_eq`). A save stack that is too small is
doubled until it is large enough (`SaveStack.doubled_spec`), so that it never has twice the bytes
that were needed. `SaveStack.grow_spec`, `SaveStack.copyOut_spec` and `SaveStack.copyIn_spec` say
what the parts of `aco_resume` do to memory: they touch the save stack, the part of the share stack
that is restored, and nothing else. -/

namespace FfTest.Libaco

/-- **The fast path is a copy.** -/
theorem optimizedMemcpy_eq (m : Memory) {dst src sz : ℕ}
    (hapart : (⟨dst, sz⟩ : Span).Apart ⟨src, sz⟩) :
    optimizedMemcpy m dst src sz = memcpy m dst src sz := by
  unfold optimizedMemcpy
  split
  · rename_i htest
    simp only [shortAligned, decide_eq_true_eq] at htest
    exact copyTail_copyBlocks (by decide) (by decide) m (by omega) (by omega) (by omega) hapart
  · rfl

namespace SaveStack

/-! ## Growing -/

/-- The rounds suffice: when the bits of the size are all shifted out, the assertion fails. -/
theorem doubled_add {validSz rounds sz : ℕ} (h : 2 ^ 64 ∣ sz * 2 ^ rounds) (more : ℕ) :
    doubled validSz (rounds + more) sz = doubled validSz rounds sz := by
  induction rounds generalizing sz with
  | zero =>
    cases more with
    | zero => rfl
    | succ more =>
      have hzero : sz * 2 % 2 ^ 64 = 0 :=
        Nat.mod_eq_zero_of_dvd ((h.trans (by rw [Nat.pow_zero, Nat.mul_one])).mul_right 2)
      have hassert : ¬ 0 < sz * 2 % 2 ^ 64 := by omega
      rw [Nat.zero_add, doubled, doubled]
      simp only [assert_bind_of_not hassert]
  | succ rounds ih =>
    have hnext : 2 ^ 64 ∣ sz * 2 % 2 ^ 64 * 2 ^ rounds := by
      have hdvd : 2 ^ 64 ∣ sz * 2 * 2 ^ rounds := by
        rwa [Nat.mul_assoc, ← Nat.pow_succ']
      rw [← Nat.mod_add_div (sz * 2) (2 ^ 64), Nat.add_mul, Nat.mul_assoc (2 ^ 64)] at hdvd
      exact (Nat.dvd_add_left (Nat.dvd_mul_right ..)).mp hdvd
    rw [Nat.succ_add, doubled, doubled, ih hnext]

/-- The same for the 64 rounds that the model has. -/
theorem doubled_rounds (validSz sz more : ℕ) :
    doubled validSz (64 + more) sz = doubled validSz 64 sz :=
  doubled_add (Nat.dvd_mul_left ..) more

/-- **The loop ends** with the first doubling that is large enough. -/
theorem doubled_spec {validSz : ℕ} (hvalid : validSz ≤ 2 ^ 63) (rounds : ℕ) {sz : ℕ} (hpos : 0 < sz)
    (hlt : sz < validSz) (hrounds : validSz ≤ sz * 2 ^ rounds) :
    ∃ n, doubled validSz rounds sz = some (sz * 2 ^ (n + 1)) ∧ validSz ≤ sz * 2 ^ (n + 1) ∧
      ∀ j ≤ n, sz * 2 ^ j < validSz := by
  induction rounds generalizing sz with
  | zero => omega
  | succ rounds ih =>
    have hmod : sz * 2 % 2 ^ 64 = sz * 2 := Nat.mod_eq_of_lt (by omega)
    have hassert : 0 < sz * 2 := by omega
    have hpow : ∀ n, sz * 2 * 2 ^ n = sz * 2 ^ (n + 1) := fun n => by
      rw [Nat.mul_assoc, ← Nat.pow_succ']
    rw [doubled]
    simp only [hmod, assert_bind_of hassert]
    by_cases hle : validSz ≤ sz * 2
    · rw [if_pos hle]
      refine ⟨0, rfl, hle, fun j hj => ?_⟩
      rwa [Nat.le_zero.mp hj, Nat.pow_zero, Nat.mul_one]
    · rw [if_neg hle]
      obtain ⟨n, hdoubled, henough, hshort⟩ := ih hassert (by omega) (by rwa [hpow])
      rw [hpow] at hdoubled henough
      refine ⟨n + 1, hdoubled, henough, fun j hj => ?_⟩
      cases j with
      | zero => rwa [Nat.pow_zero, Nat.mul_one]
      | succ j =>
        rw [← hpow]
        exact hshort j (by omega)

/-- What `free` and `malloc` may leave and return when the save stack has to grow. -/
def GrowOk (save : SaveStack) (sys : SysHeap) (m : Memory) (r : Option Grant) : Prop :=
  save.sz < save.validSz → ∀ ptr ∈ save.ptr, sys.FreeOk ptr m ∧ r ≠ none ∧
    ∀ sz, (sys.free ptr m).AllocOk 16 sz r

/-- **Growing.** -/
theorem grow_spec {ι : Type*} [DecidableEq ι] {span : ι → Option Span} {sys : SysHeap}
    (hp : Parcels span sys) {i : ι} {save : SaveStack} {ptr : ℕ} (hptr : save.ptr = some ptr)
    (hi : span i = some ⟨ptr, save.sz⟩) (hvalid : save.validSz ≤ 2 ^ 63) {m : Memory}
    {r : Option Grant} (hok : save.GrowOk sys m r) :
    ∃ ptr' sz' sys', save.grow sys m r = some ({ save with ptr := some ptr', sz := sz' }, sys') ∧
      Parcels (Function.update span i (some ⟨ptr', sz'⟩)) sys' ∧ save.validSz ≤ sz' ∧
      (sz' = save.sz ∨ sz' < 2 * save.validSz) ∧
      ∀ {j b}, j ≠ i → span j = some b → AgreeOn sys.mem sys'.mem b := by
  have hpos : 0 < save.sz := hp.pos hi
  unfold grow
  by_cases hlt : save.sz < save.validSz
  · obtain ⟨hfree, hr, halloc⟩ := hok hlt ptr hptr
    obtain ⟨n, hsz', hle, hshort⟩ := doubled_spec hvalid 64 hpos hlt (hvalid.trans (by omega))
    have hbound := hshort n le_rfl
    rw [Nat.pow_succ] at hsz' hle
    obtain ⟨sz', heq⟩ : ∃ sz', sz' = save.sz * (2 ^ n * 2) := ⟨_, rfl⟩
    rw [← heq] at hsz' hle
    obtain ⟨g, rfl⟩ := Option.ne_none_iff_exists'.mp hr
    have hgone := hp.free hi m
    have hnone : Function.update span i none i = none := Function.update_self ..
    have hnew := hgone.alloc hnone (by omega : 0 < sz') (halloc sz')
    rw [Function.update_idem] at hnew
    have hgranted : (some g.base : Option ℕ) ≠ none := Option.some_ne_none _
    refine ⟨g.base, sz', _, ?_, hnew, hle, Or.inr ?_, ?_⟩
    · rw [if_pos hlt, hptr]
      simp only [Option.elim_some, hsz', SysHeap.alloc, Option.bind_eq_bind, Option.bind_some]
      rfl
    · rw [heq, ← Nat.mul_assoc]
      omega
    · intro j b hj hb
      have hb' : Function.update span i none j = some b := by
        rwa [Function.update_of_ne hj]
      exact (hp.agreeOn_free hj hi hb hfree).trans (hgone.agreeOn_alloc (halloc sz') hb')
  · refine ⟨ptr, save.sz, sys, ?_, ?_, by omega, Or.inl rfl, fun _ _ _ _ => rfl⟩
    · rw [if_neg hlt, ← hptr]
    · rwa [← hi, Function.update_eq_self]

/-! ## Copying out and in -/

/-- A copy from the block of one name to that of another one. -/
theorem copy_spec {ι : Type*} {span : ι → Option Span} {sys : SysHeap} (hp : Parcels span sys)
    {i j : ι} (hij : i ≠ j) {b c : Span} (hi : span i = some b) (hj : span j = some c)
    {dst src n : ℕ} (hdst : (⟨dst, n⟩ : Span).Within b) (hsrc : (⟨src, n⟩ : Span).Within c) :
    bytes (optimizedMemcpy sys.mem dst src n) dst n = bytes sys.mem src n ∧
      ∀ {s : Span}, s.Apart ⟨dst, n⟩ → AgreeOn sys.mem (optimizedMemcpy sys.mem dst src n) s := by
  rw [optimizedMemcpy_eq sys.mem ((hp.apart hij hi hj).mono hdst hsrc)]
  exact ⟨bytes_memcpy .., fun hs => agreeOn_memcpy _ _ hs⟩

/-- **Copying out.** -/
theorem copyOut_spec {ι : Type*} {span : ι → Option Span} {sys : SysHeap} (hp : Parcels span sys)
    {i j : ι} (hij : i ≠ j) (save : SaveStack) {ptr rsp : ℕ} {c : Span}
    (hptr : save.ptr = some ptr) (hi : span i = some ⟨ptr, save.sz⟩) (hj : span j = some c)
    (hroom : save.validSz ≤ save.sz) (hsrc : (⟨rsp, save.validSz⟩ : Span).Within c) :
    ∃ m, save.copyOut sys rsp = some ({ save with
        ctSave := save.ctSave + if 0 < save.validSz then 1 else 0 }.copied, sys.poke m) ∧
      bytes m ptr save.validSz = bytes sys.mem rsp save.validSz ∧
      ∀ {s : Span}, s.Apart ⟨ptr, save.sz⟩ → AgreeOn sys.mem m s := by
  have hblock : (⟨ptr, save.validSz⟩ : Span).Within ⟨ptr, save.sz⟩ :=
    ⟨le_rfl, Nat.add_le_add_left hroom ptr⟩
  unfold copyOut
  by_cases hpos : 0 < save.validSz
  · obtain ⟨hbytes, hagree⟩ := copy_spec hp hij hi hj hblock hsrc
    refine ⟨_, ?_, hbytes, fun hs => hagree (hs.mono ⟨le_rfl, le_rfl⟩ hblock)⟩
    rw [if_pos hpos, if_pos hpos, hptr]
    rfl
  · have hzero : save.validSz = 0 := by omega
    refine ⟨sys.mem, ?_, ?_, fun _ _ _ => rfl⟩
    · rw [if_neg hpos, if_neg hpos]
      rfl
    · rw [hzero, bytes_zero, bytes_zero]

/-- **Copying in.** -/
theorem copyIn_spec {ι : Type*} {span : ι → Option Span} {sys : SysHeap} (hp : Parcels span sys)
    {i j : ι} (hij : i ≠ j) {save : SaveStack} {ptr rsp : ℕ} {c : Span}
    (hptr : save.ptr = some ptr) (hi : span i = some ⟨ptr, save.sz⟩) (hj : span j = some c)
    (hroom : save.validSz ≤ save.sz) (hdst : (⟨rsp, save.validSz⟩ : Span).Within c) :
    ∃ m, save.copyIn sys rsp = some ({ save with
        ctRestore := save.ctRestore + if 0 < save.validSz then 1 else 0 }.copied, sys.poke m) ∧
      bytes m rsp save.validSz = bytes sys.mem ptr save.validSz ∧
      ∀ {s : Span}, s.Apart ⟨rsp, save.validSz⟩ → AgreeOn sys.mem m s := by
  have hblock : (⟨ptr, save.validSz⟩ : Span).Within ⟨ptr, save.sz⟩ :=
    ⟨le_rfl, Nat.add_le_add_left hroom ptr⟩
  unfold copyIn
  by_cases hpos : 0 < save.validSz
  · obtain ⟨hbytes, hagree⟩ := copy_spec hp (Ne.symm hij) hj hi hdst hblock
    refine ⟨_, ?_, hbytes, hagree⟩
    rw [if_pos hpos, if_pos hpos, hptr]
    rfl
  · have hzero : save.validSz = 0 := by omega
    refine ⟨sys.mem, ?_, ?_, fun _ _ _ => rfl⟩
    · rw [if_neg hpos, if_neg hpos]
      rfl
    · rw [hzero, bytes_zero, bytes_zero]

/-- **Saving.** Room is made, and then the stack is copied out. -/
theorem saved_spec {ι : Type*} [DecidableEq ι] {span : ι → Option Span} {sys : SysHeap}
    (hp : Parcels span sys) {i j : ι} (hij : i ≠ j) {save : SaveStack} {ptr rsp : ℕ} {c : Span}
    (hptr : save.ptr = some ptr) (hi : span i = some ⟨ptr, save.sz⟩) (hj : span j = some c)
    (hvalid : save.validSz ≤ 2 ^ 63) (hsrc : (⟨rsp, save.validSz⟩ : Span).Within c) {m : Memory}
    {r : Option Grant} (hok : save.GrowOk sys m r) :
    ∃ grown sys₁ saved sys₂ ptr', save.grow sys m r = some (grown, sys₁) ∧
      grown.copyOut sys₁ rsp = some (saved, sys₂) ∧ saved.ptr = some ptr' ∧
      saved.validSz = save.validSz ∧ save.validSz ≤ saved.sz ∧
      saved.ctSave = save.ctSave + (if 0 < save.validSz then 1 else 0) ∧
      saved.ctRestore = save.ctRestore ∧
      Parcels (Function.update span i (some ⟨ptr', saved.sz⟩)) sys₂ ∧
      bytes sys₂.mem ptr' save.validSz = bytes sys.mem rsp save.validSz ∧
      ∀ {l b}, l ≠ i → span l = some b → AgreeOn sys.mem sys₂.mem b := by
  obtain ⟨ptr', sz', sys₁, hgrow, hgrown, hroom, -, hkept⟩ := grow_spec hp hptr hi hvalid hok
  have hown : Function.update span i (some ⟨ptr', sz'⟩) i = some ⟨ptr', sz'⟩ :=
    Function.update_self ..
  have hsame : ∀ {l b}, l ≠ i → span l = some b →
      Function.update span i (some ⟨ptr', sz'⟩) l = some b := fun hl hb => by
    rwa [Function.update_of_ne hl]
  obtain ⟨m', hcopy, hbytes, hothers⟩ := copyOut_spec hgrown hij
    { save with ptr := some ptr', sz := sz' } rfl hown (hsame hij.symm hj) hroom hsrc
  refine ⟨_, sys₁, _, _, ptr', hgrow, hcopy, rfl, rfl, hroom, rfl, rfl, hgrown.poke m', ?_, ?_⟩
  · exact hbytes.trans ((hkept hij.symm hj).bytes_eq hsrc)
  · intro l b hl hb
    exact (hkept hl hb).trans (hothers (hgrown.apart hl (hsame hl hb) hown))

end SaveStack

end FfTest.Libaco
