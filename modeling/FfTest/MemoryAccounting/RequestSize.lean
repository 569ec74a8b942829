import FfTest.MemoryAccounting.Counters

/-! # Sizes whose request wraps

`size + ALIGN` is computed in `size_t`. A `size` of more than `2 ^ w - 65` bytes wraps to a request
of less than `ALIGN` bytes, which the system may well serve; the pointer returned then lies behind
the end of its block. So a call returns a pointer with `size` bytes behind it exactly when the sum
does not wrap, or the system refuses (`holdsSize_iff`). -/

namespace FfTest

variable {D : Type*} {w : ℕ}

/-- If a pointer is returned, the block granted last has `size` bytes from it on. -/
def HoldsSize (size : BitVec w) (ret : Option ℕ × JutState D) : Prop :=
  ∀ p ∈ ret.1, ∃ b ∈ ret.2.sys.blocks.head?, b.base ≤ p ∧ p + size.toNat ≤ b.stop

/-- `size + ALIGN` reaches its true value iff it does not wrap. -/
theorem add_align_le_iff {size : BitVec w} :
    size.toNat + align ≤ (size + BitVec.ofNat w align).toNat ↔ size.toNat + align < 2 ^ w := by
  constructor
  · intro h
    exact Nat.lt_of_le_of_lt h (BitVec.isLt _)
  · intro h
    exact (toNat_add_align h).ge

/-- A block granted for a payload and its header holds the payload iff the request did not wrap. -/
theorem holdsSize_shifted_iff {size : BitVec w} {base : ℕ} {s : JutState D} {out : List Span}
    (hs : s.sys.blocks = ⟨base, (size + BitVec.ofNat w align).toNat⟩ :: out) :
    HoldsSize size (some (base + align), s) ↔ size.toNat + align < 2 ^ w := by
  rw [← add_align_le_iff]
  simp only [HoldsSize, hs, List.head?_cons, Option.mem_def, Option.some.injEq, forall_eq',
    exists_eq_left', Span.stop]
  omega

/-- Where nothing is returned there is nothing to hold. -/
theorem holdsSize_none (size : BitVec w) (s : JutState D) : HoldsSize size (none, s) := by
  simp [HoldsSize]

variable [DecidableEq D]

/-- `jut_malloc` under the policies 4 and 5. -/
theorem jutMalloc_holdsSize_iff (hw : align < 2 ^ w) {policy : ℤ}
    (hpolicy : policy = 4 ∨ policy = 5) (dc : Option D) (size : BitVec w) (r : Option Grant)
    (s : JutState D) :
    HoldsSize size (jutMalloc policy dc size r s) ↔ r = none ∨ size.toNat + align < 2 ^ w := by
  cases r with
  | none =>
    refine iff_of_true ?_ (.inl rfl)
    rcases hpolicy with rfl | rfl
    · exact holdsSize_none size _
    · rw [jutMalloc_five_none]
      exact holdsSize_none size _
  | some g =>
    rw [or_iff_right (Option.some_ne_none g)]
    rcases hpolicy with rfl | rfl
    · rw [jutMalloc_four_some]
      exact holdsSize_shifted_iff rfl
    · by_cases hzero : size = 0
      · -- the answer of `malloc(0)` is returned as it is, and no byte is asked for
        subst hzero
        refine iff_of_true ?_ (by simpa using hw)
        rw [jutMalloc_five_zero]
        simp [JutState.sysAlloc, SysHeap.alloc, HoldsSize, Span.stop]
      · rw [jutMalloc_five_some dc hzero]
        exact holdsSize_shifted_iff rfl

/-- `jut_realloc` under the policies 4 and 5. -/
theorem jutRealloc_holdsSize_iff (hw : align < 2 ^ w) {policy : ℤ}
    (hpolicy : policy = 4 ∨ policy = 5) (dc : Option D) (ptr : Option ℕ) (size : BitVec w)
    (r : Option Grant) (s : JutState D) :
    HoldsSize size (jutRealloc policy dc ptr size r s) ↔
      r = none ∨ size.toNat + align < 2 ^ w := by
  by_cases hnull : ptr = none ∧ size = 0
  · -- `jut_realloc(NULL, 0)` returns `NULL`
    obtain ⟨rfl, rfl⟩ := hnull
    refine iff_of_true ?_ (.inr (by simpa using hw))
    rcases hpolicy with rfl | rfl
    · rw [jutRealloc_four_null_zero]
      exact holdsSize_none 0 s
    · rw [jutRealloc_five_null_zero]
      exact holdsSize_none 0 s
  have hne : ptr = none → size ≠ 0 := fun hptr hzero => hnull ⟨hptr, hzero⟩
  cases r with
  | none =>
    refine iff_of_true ?_ (.inl rfl)
    cases ptr with
    | none =>
      rcases hpolicy with rfl | rfl
      · rw [jutRealloc_four_null_none dc (hne rfl)]
        exact holdsSize_none size _
      · rw [jutRealloc_five_null_none dc (hne rfl)]
        exact holdsSize_none size _
    | some ptr =>
      rcases hpolicy with rfl | rfl
      · rw [jutRealloc_four_live_none]
        exact holdsSize_none size _
      · rw [jutRealloc_five_live_none]
        exact holdsSize_none size _
  | some g =>
    rw [or_iff_right (Option.some_ne_none g)]
    cases ptr with
    | none =>
      rcases hpolicy with rfl | rfl
      · rw [jutRealloc_four_null_some dc (hne rfl)]
        exact holdsSize_shifted_iff rfl
      · rw [jutRealloc_five_null_some dc (hne rfl)]
        exact holdsSize_shifted_iff rfl
    | some ptr =>
      rcases hpolicy with rfl | rfl
      · rw [jutRealloc_four_live_some]
        exact holdsSize_shifted_iff rfl
      · rw [jutRealloc_five_live_some]
        exact holdsSize_shifted_iff rfl

/-- **When the block behind a pointer is large enough.** Under the policies 4 and 5, in every state
and whatever the system answers, a pointer that `jut_malloc(size)` or `jut_realloc(ptr, size)`
returns has `size` bytes of its block behind it iff `size + ALIGN` does not wrap; a system that
refuses does no harm. -/
theorem holdsSize_iff (hw : align < 2 ^ w) {policy : ℤ} (hpolicy : policy = 4 ∨ policy = 5)
    (dc : Option D) (size : BitVec w) (r : Option Grant) (s : JutState D) :
    (HoldsSize size (jutMalloc policy dc size r s) ↔
        r = none ∨ size.toNat + align < 2 ^ w) ∧
      ∀ ptr, HoldsSize size (jutRealloc policy dc ptr size r s) ↔
        r = none ∨ size.toNat + align < 2 ^ w :=
  ⟨jutMalloc_holdsSize_iff hw hpolicy dc size r s,
    fun ptr => jutRealloc_holdsSize_iff hw hpolicy dc ptr size r s⟩

/-- The state before the first call. -/
def freshJut : JutState Unit := ⟨SysHeap.empty zeroMem, fun _ => freshDecoder⟩

/-- 1000 bytes in a 32-bit process, under policy 4. -/
theorem holdsSize_thousand :
    HoldsSize 1000#32 (jutMalloc 4 (some ()) 1000#32 (some ⟨64, zeroMem⟩) freshJut) :=
  (holdsSize_iff (by decide) (.inl rfl) (some ()) 1000#32 _ freshJut).1.mpr (.inr (by decide))

/-- In a 32-bit process a size of `2 ^ 32 - 1` bytes is a request of 63 bytes, which the system
serves: not every pointer returned has a block large enough. -/
theorem not_holdsSize :
    ¬ ∀ (size : BitVec 32) (r : Option Grant),
      freshJut.sys.AllocOk align (size + BitVec.ofNat 32 align).toNat r →
        HoldsSize size (jutMalloc 4 (some ()) size r freshJut) := by
  intro hall
  have hok : freshJut.sys.AllocOk align (4294967295#32 + BitVec.ofNat 32 align).toNat
      (some ⟨64, zeroMem⟩) := SysHeap.allocOk_of_nil rfl (by decide)
  have hholds := hall 4294967295#32 (some ⟨64, zeroMem⟩) hok
  rw [jutMalloc_four_some] at hholds
  exact absurd ((holdsSize_shifted_iff rfl).mp hholds) (by decide)

end FfTest
