import FfTest.Foundations.PowersOfTwo
import FfTest.Libaco.Acosw
import Mathlib.Algebra.Order.Ring.Int
import Mathlib.Data.BitVec

/-! # The share stack of libaco

`aco_share_stack_new2` rounds the size that it is asked for up to whole pages, puts one guard page
below, and lays the stack out from its upper end. `guardedSize_eq` gives the size in full, and
with it the only case in which an assertion about it fails; `ShareStack.Sound` is what the rest of
libaco relies on.

What ends the program, as a failed assertion does, ends the model with `none`. -/

namespace FfTest.Libaco

/-- `assert`. -/
def assert (p : Prop) [Decidable p] : Option Unit := if p then some () else none

/-- An assertion that holds does nothing. -/
theorem assert_bind_of {α : Type} {p : Prop} [Decidable p] (hp : p) (k : Unit → Option α) :
    assert p >>= k = k () := by
  rw [assert, if_pos hp]
  rfl

/-- An assertion that fails ends the program. -/
theorem assert_bind_of_not {α : Type} {p : Prop} [Decidable p] (hp : ¬ p)
    (k : Unit → Option α) : assert p >>= k = none := by
  rw [assert, if_neg hp]
  rfl

/-! ## The size -/

/-- The size to go by: the default for 0, and never less than 4096. -/
def requestedSize (sz : Word) : Word :=
  let sz := if sz = 0 then 1024 * 1024 * 2 else sz
  if sz < 4096 then 4096 else sz

/-- `new_sz`. -/
def paddedSize (sz u_pgsz : Word) : Option Word :=
  if sz &&& (u_pgsz - 1) ≠ 0 then do
    let newSz := sz &&& ~~~(u_pgsz - 1)
    assert (newSz ≥ u_pgsz)
    assert (newSz + u_pgsz <<< 1 ≥ newSz)
    let newSz := newSz + u_pgsz <<< 1
    assert (sz / u_pgsz + 2 = newSz / u_pgsz)
    some newSz
  else do
    assert (sz + u_pgsz ≥ sz)
    let newSz := sz + u_pgsz
    assert (sz / u_pgsz + 1 = newSz / u_pgsz)
    some newSz

/-- The size in whole pages. -/
def pagedSize (sz u_pgsz : Word) : Option Word :=
  if sz ≤ u_pgsz then some (u_pgsz <<< 1) else do
    let sz ← paddedSize sz u_pgsz
    assert (sz / u_pgsz > 1 ∧ sz &&& (u_pgsz - 1) = 0)
    some sz

/-- The size with the guard page, where `sysconf(_SC_PAGESIZE)` has returned `pgsz`. -/
def guardedSize (sz pgsz : Word) : Option Word := do
  assert (0 < pgsz.toInt ∧ (pgsz - 1) &&& pgsz = 0)
  assert ((pgsz <<< 1) >>> 1 = pgsz)
  pagedSize sz pgsz

/-- The size that `aco_share_stack_new2` maps or allocates. -/
def shareStackSize (sz : Word) (guardPageEnabled : Bool) (pgsz : Word) : Option Word :=
  if guardPageEnabled then guardedSize (requestedSize sz) pgsz else some (requestedSize sz)

/-! ## The layout -/

/-- `aco_share_stack_t`. -/
structure ShareStack where
  /-- `ptr`. -/
  ptr : ℕ
  /-- `sz`. -/
  sz : ℕ
  /-- `align_highptr`. -/
  alignHighptr : ℕ
  /-- `align_retptr`. -/
  alignRetptr : ℕ
  /-- `align_validsz`. -/
  alignValidsz : ℕ
  /-- `align_limit`. -/
  alignLimit : ℕ
  /-- `owner`. -/
  owner : Option ℕ
  /-- `guard_page_enabled`. -/
  guardPageEnabled : Bool
  /-- `real_ptr`, if there is a guard page. -/
  realPtr : ℕ
  /-- `real_sz`. -/
  realSz : ℕ
  deriving DecidableEq, Repr

/-- The stack in a block at `block` of `sz` bytes, of which the guard page has the first `pgsz`. -/
def ShareStack.layout (block sz : Word) (guardPageEnabled : Bool) (pgsz : Word) :
    Option ShareStack := do
  assert (guardPageEnabled = true → sz ≥ pgsz <<< 1)
  let ptr := if guardPageEnabled then block + pgsz else block
  let usable := if guardPageEnabled then sz - pgsz else sz
  let u_p := ((usable - 16 + ptr) >>> 4) <<< 4
  assert (usable > 40)
  some {
    ptr := ptr.toNat
    sz := usable.toNat
    alignHighptr := u_p.toNat
    alignRetptr := (u_p - 8).toNat
    alignValidsz := 0
    alignLimit := (usable - 16 - 16).toNat
    owner := none
    guardPageEnabled
    realPtr := if guardPageEnabled then block.toNat else 0
    realSz := if guardPageEnabled then sz.toNat else 0 }

/-- The block that the stack was laid out in. -/
def ShareStack.block (k : ShareStack) : Span :=
  if k.guardPageEnabled then ⟨k.realPtr, k.realSz⟩ else ⟨k.ptr, k.sz⟩

/-- The lowest address that a coroutine may leave its stack pointer at. -/
def ShareStack.low (k : ShareStack) : ℕ := k.alignHighptr - k.alignLimit

/-- What the rest of the library relies on. -/
structure ShareStack.Sound (k : ShareStack) : Prop where
  /-- Above the stack there is the word that a function would return to. -/
  retptr : k.alignRetptr + 8 = k.alignHighptr
  /-- The word lies in the stack. -/
  high : k.alignHighptr + 16 ≤ k.ptr + k.sz
  /-- The stack does not reach what lies below. -/
  low : k.ptr + k.alignLimit < k.alignHighptr
  /-- There is room. -/
  limit : 8 < k.alignLimit
  /-- The processor's rule for calls is kept. -/
  aligned : 16 ∣ k.alignHighptr
  /-- All of it lies in its block. -/
  within : (⟨k.ptr, k.sz⟩ : Span).Within k.block
  /-- It lies in the lower half of the addresses. -/
  space : k.ptr + k.sz ≤ 2 ^ 63

/-- What lies between the lowest stack pointer and the top lies in the block. -/
theorem ShareStack.Sound.within_block {k : ShareStack} (h : k.Sound) {a : ℕ} (ha : k.low ≤ a)
    (htop : a ≤ k.alignRetptr) : (⟨a, k.alignRetptr - a⟩ : Span).Within k.block := by
  have hin := h.within
  have hret := h.retptr
  have hhigh := h.high
  have hlow := h.low
  simp only [Span.Within, Span.stop, ShareStack.low] at *
  omega

/-- The word that a function would return to lies in the block. -/
theorem ShareStack.Sound.word_within {k : ShareStack} (h : k.Sound) :
    (⟨k.alignRetptr, 64 / 8⟩ : Span).Within k.block := by
  have hin := h.within
  have hret := h.retptr
  have hhigh := h.high
  have hlow := h.low
  have hlimit := h.limit
  simp only [Span.Within, Span.stop] at *
  omega

/-- The stack below the top has less than `align_limit` bytes. -/
theorem ShareStack.Sound.le_limit {k : ShareStack} (h : k.Sound) {a : ℕ} (ha : k.low ≤ a) :
    k.alignRetptr - a ≤ k.alignLimit - 8 ∧ k.alignRetptr - a ≤ 2 ^ 63 := by
  have hret := h.retptr
  have hhigh := h.high
  have hspace := h.space
  unfold ShareStack.low at ha
  omega

/-! ## Words -/

/-- The lower bits of a word. -/
theorem toNat_and_sub_one {sz pgsz : Word} {k : ℕ} (hp : pgsz.toNat = 2 ^ k) :
    (sz &&& (pgsz - 1)).toNat = sz.toNat % 2 ^ k := by
  have hone : (1 : Word) ≤ pgsz := by
    rw [BitVec.le_def, hp]
    exact Nat.one_le_two_pow
  rw [BitVec.toNat_and, BitVec.toNat_sub_of_le hone, hp]
  exact Nat.and_two_pow_sub_one_eq_mod ..

/-- The word without its lower bits. -/
theorem toNat_and_not_sub_one {sz pgsz : Word} {k : ℕ} (hp : pgsz.toNat = 2 ^ k) :
    (sz &&& ~~~(pgsz - 1)).toNat = 2 ^ k * (sz.toNat / 2 ^ k) := by
  have hone : (1 : Word) ≤ pgsz := by
    rw [BitVec.le_def, hp]
    exact Nat.one_le_two_pow
  have hpred : (pgsz - 1).toNat = 2 ^ k - 1 := by
    rw [BitVec.toNat_sub_of_le hone, hp]
    rfl
  apply Nat.eq_of_testBit_eq
  intro i
  rw [BitVec.testBit_toNat, BitVec.getLsbD_and, BitVec.getLsbD_not, ← BitVec.testBit_toNat,
    ← BitVec.testBit_toNat, hpred, Nat.testBit_two_pow_sub_one, Nat.testBit_two_pow_mul,
    Nat.testBit_div_two_pow]
  by_cases hik : i < k
  · simp [hik]
  · have hsum : i - k + k = i := Nat.sub_add_cancel (by omega)
    rw [hsum]
    by_cases hi : i < 64
    · simp [hi, Nat.not_lt.mp hik]
    · have hbit : sz.toNat.testBit i = false :=
        Nat.testBit_lt_two_pow (sz.isLt.trans_le (Nat.pow_le_pow_right (by decide) (by omega)))
      simp [hbit]

/-- The test for an overflow. -/
theorem le_add_iff (a b : Word) : a + b ≥ a ↔ a.toNat + b.toNat < 2 ^ 64 := by
  have ha := a.isLt
  have hb := b.isLt
  rw [ge_iff_le, BitVec.le_def, BitVec.toNat_add]
  constructor
  · intro h
    by_contra hge
    rw [Nat.mod_eq_sub_mod (by omega), Nat.mod_eq_of_lt (by omega)] at h
    omega
  · intro h
    rw [Nat.mod_eq_of_lt h]
    exact Nat.le_add_right _ _

/-- Adding without an overflow. -/
theorem toNat_add_of_lt {a b : Word} (h : a.toNat + b.toNat < 2 ^ 64) :
    (a + b).toNat = a.toNat + b.toNat := by
  rw [BitVec.toNat_add, Nat.mod_eq_of_lt h]

/-- Twice a page. -/
theorem toNat_shiftLeft_one {pgsz : Word} {k : ℕ} (hk : k < 63) (hp : pgsz.toNat = 2 ^ k) :
    (pgsz <<< 1).toNat = 2 * 2 ^ k := by
  have hlt : 2 * 2 ^ k < 2 ^ 64 := by
    rw [← Nat.pow_succ']
    exact Nat.pow_lt_pow_right (by decide) (by omega)
  rw [BitVec.toNat_shiftLeft, hp, Nat.shiftLeft_eq, Nat.pow_one, Nat.mul_comm,
    Nat.mod_eq_of_lt hlt]

/-! ## The size in full -/

/-- The assertion about the number of pages holds. -/
theorem pages_eq {sz newSz pgsz : Word} {k c : ℕ} (hp : pgsz.toNat = 2 ^ k) (hc : c < 2 ^ 64)
    (hnew : newSz.toNat = 2 ^ k * (sz.toNat / 2 ^ k + c)) :
    sz / pgsz + BitVec.ofNat 64 c = newSz / pgsz := by
  have hpos : 0 < 2 ^ k := Nat.two_pow_pos k
  have hdiv : (newSz / pgsz).toNat = sz.toNat / 2 ^ k + c := by
    rw [BitVec.toNat_udiv, hp, hnew, Nat.mul_div_cancel_left _ hpos]
  have hlt : sz.toNat / 2 ^ k + c < 2 ^ 64 := hdiv ▸ (newSz / pgsz).isLt
  apply BitVec.eq_of_toNat_eq
  rw [hdiv, BitVec.toNat_add, BitVec.toNat_udiv, hp, BitVec.toNat_ofNat, Nat.mod_eq_of_lt hc,
    Nat.mod_eq_of_lt hlt]

/-- The size is rounded up to whole pages, and one more; only an overflow ends the program. -/
theorem paddedSize_eq {sz pgsz : Word} {k : ℕ} (hk : k < 63) (hp : pgsz.toNat = 2 ^ k)
    (hgt : 2 ^ k < sz.toNat) :
    paddedSize sz pgsz = if roundUp sz.toNat (2 ^ k) + 2 ^ k < 2 ^ 64 then
      some (BitVec.ofNat 64 (roundUp sz.toNat (2 ^ k) + 2 ^ k)) else none := by
  have hpos : 0 < 2 ^ k := Nat.two_pow_pos k
  have hdivmod := Nat.div_add_mod sz.toNat (2 ^ k)
  have hrest : (sz &&& (pgsz - 1)).toNat = sz.toNat % 2 ^ k := toNat_and_sub_one hp
  unfold paddedSize
  -- whole pages get one page more; otherwise the rest is cut off and two are added
  by_cases hdvd : sz.toNat % 2 ^ k = 0
  · have hround : roundUp sz.toNat (2 ^ k) = sz.toNat := roundUp_of_dvd (Nat.dvd_of_mod_eq_zero hdvd)
    have hzero : sz &&& (pgsz - 1) = 0 := BitVec.eq_of_toNat_eq (hrest.trans hdvd)
    rw [if_neg (not_not.mpr hzero), hround]
    by_cases hlt : sz.toNat + 2 ^ k < 2 ^ 64
    · have hsum : (sz + pgsz).toNat = sz.toNat + 2 ^ k := by
        rw [toNat_add_of_lt (by rwa [hp]), hp]
      have hpages : sz / pgsz + 1 = (sz + pgsz) / pgsz := by
        refine pages_eq (c := 1) hp (by decide) ?_
        rw [hsum, Nat.mul_succ]
        omega
      have hge : sz + pgsz ≥ sz := (le_add_iff ..).mpr (by rwa [hp])
      simp only [assert_bind_of hge, assert_bind_of hpages, if_pos hlt]
      exact congrArg some (BitVec.eq_of_toNat_eq (by
        rw [hsum, BitVec.toNat_ofNat, Nat.mod_eq_of_lt hlt]))
    -- the sum wraps, and the assertion about the addition fails
    · have hge : ¬ sz + pgsz ≥ sz := mt (le_add_iff ..).mp (by rwa [hp])
      rw [assert_bind_of_not hge, if_neg hlt]
  · have hround : roundUp sz.toNat (2 ^ k) = 2 ^ k * (sz.toNat / 2 ^ k + 1) :=
      roundUp_of_not_dvd hpos (mt Nat.mod_eq_zero_of_dvd hdvd)
    have hne : sz &&& (pgsz - 1) ≠ 0 := by
      intro hzero
      rw [hzero] at hrest
      exact hdvd hrest.symm
    have hnew : (sz &&& ~~~(pgsz - 1)).toNat = 2 ^ k * (sz.toNat / 2 ^ k) :=
      toNat_and_not_sub_one hp
    have htwo : (pgsz <<< 1).toNat = 2 * 2 ^ k := toNat_shiftLeft_one hk hp
    have hge : sz &&& ~~~(pgsz - 1) ≥ pgsz := by
      rw [ge_iff_le, BitVec.le_def, hnew, hp]
      exact Nat.le_mul_of_pos_right _ (Nat.div_pos hgt.le hpos)
    rw [if_pos hne, hround, Nat.mul_succ]
    simp only [assert_bind_of hge]
    by_cases hlt : 2 ^ k * (sz.toNat / 2 ^ k) + 2 ^ k + 2 ^ k < 2 ^ 64
    · have hsum : ((sz &&& ~~~(pgsz - 1)) + pgsz <<< 1).toNat
          = 2 ^ k * (sz.toNat / 2 ^ k) + 2 ^ k + 2 ^ k := by
        rw [toNat_add_of_lt (by omega), hnew, htwo]
        omega
      have hpages : sz / pgsz + (2 : Word) = ((sz &&& ~~~(pgsz - 1)) + pgsz <<< 1) / pgsz := by
        refine pages_eq (c := 2) hp (by decide) ?_
        rw [hsum, Nat.mul_add, Nat.mul_two, Nat.add_assoc]
      have hover : (sz &&& ~~~(pgsz - 1)) + pgsz <<< 1 ≥ sz &&& ~~~(pgsz - 1) :=
        (le_add_iff ..).mpr (by omega)
      simp only [assert_bind_of hover, assert_bind_of hpages, if_pos hlt]
      exact congrArg some (BitVec.eq_of_toNat_eq (by
        rw [hsum, BitVec.toNat_ofNat, Nat.mod_eq_of_lt hlt]))
    · have hover : ¬ (sz &&& ~~~(pgsz - 1)) + pgsz <<< 1 ≥ sz &&& ~~~(pgsz - 1) :=
        mt (le_add_iff ..).mp (by omega)
      rw [assert_bind_of_not hover, if_neg hlt]

/-- The assertion about the result holds. -/
theorem whole_pages {size pgsz : Word} {k c : ℕ} (hp : pgsz.toNat = 2 ^ k)
    (hsize : size.toNat = 2 ^ k * (c + 1)) (hc : 0 < c) :
    size / pgsz > 1 ∧ size &&& (pgsz - 1) = 0 := by
  constructor
  · rw [gt_iff_lt, BitVec.lt_def, BitVec.toNat_udiv, hp, hsize,
      Nat.mul_div_cancel_left _ (Nat.two_pow_pos k)]
    show 1 < c + 1
    omega
  · apply BitVec.eq_of_toNat_eq
    rw [toNat_and_sub_one hp, hsize, Nat.mul_mod_right]
    rfl

/-- The same for any size. -/
theorem pagedSize_eq {sz pgsz : Word} {k : ℕ} (hk : k < 63) (hp : pgsz.toNat = 2 ^ k)
    (hsz : 0 < sz.toNat) :
    pagedSize sz pgsz = if roundUp sz.toNat (2 ^ k) + 2 ^ k < 2 ^ 64 then
      some (BitVec.ofNat 64 (roundUp sz.toNat (2 ^ k) + 2 ^ k)) else none := by
  have hpos : 0 < 2 ^ k := Nat.two_pow_pos k
  have hlt : 2 ^ k < 2 ^ 63 := Nat.pow_lt_pow_right (by decide) hk
  unfold pagedSize
  by_cases hle : sz ≤ pgsz
  · have hround : roundUp sz.toNat (2 ^ k) = 2 ^ k := roundUp_of_le hsz (by
      rwa [BitVec.le_def, hp] at hle)
    rw [if_pos hle, hround, if_pos (by omega)]
    refine congrArg some (BitVec.eq_of_toNat_eq ?_)
    rw [toNat_shiftLeft_one hk hp, BitVec.toNat_ofNat, Nat.mod_eq_of_lt (by omega), Nat.two_mul]
  · rw [if_neg hle]
    rw [BitVec.le_def, hp, Nat.not_le] at hle
    rw [paddedSize_eq hk hp hle]
    by_cases hfits : roundUp sz.toNat (2 ^ k) + 2 ^ k < 2 ^ 64
    · have hsum : (BitVec.ofNat 64 (roundUp sz.toNat (2 ^ k) + 2 ^ k)).toNat
          = 2 ^ k * (sz.toNat ⌈/⌉ 2 ^ k + 1) := by
        rw [BitVec.toNat_ofNat, Nat.mod_eq_of_lt hfits, roundUp, Nat.mul_succ]
      have hceil : 0 < sz.toNat ⌈/⌉ 2 ^ k := Nat.pos_of_ne_zero fun hzero => by
        have hleast := le_roundUp hpos sz.toNat
        rw [roundUp, hzero, Nat.mul_zero] at hleast
        omega
      rw [if_pos hfits]
      exact assert_bind_of (whole_pages hp hsum hceil) fun _ => some _
    · rw [if_neg hfits]
      rfl

/-- The page size passes its assertion iff it is a power of two that is a `long`. -/
theorem pageSize_iff {pgsz : Word} :
    (0 < pgsz.toInt ∧ (pgsz - 1) &&& pgsz = 0) ↔ ∃ k < 63, pgsz.toNat = 2 ^ k := by
  constructor
  · rintro ⟨hpos, hand⟩
    have hsigned : pgsz.toNat < 2 ^ 63 := by
      have hlt := BitVec.toInt_pos_iff.mp hpos.le
      omega
    have hne : pgsz.toNat ≠ 0 := by
      intro hzero
      rw [BitVec.eq_of_toNat_eq (x := pgsz) (y := 0) hzero] at hpos
      exact absurd hpos (by decide)
    have hone : (1 : Word) ≤ pgsz := by
      rw [BitVec.le_def]
      exact Nat.one_le_iff_ne_zero.mpr hne
    have hzero : pgsz.toNat &&& (pgsz.toNat - 1) = 0 := by
      have hnat := congrArg BitVec.toNat hand
      rw [BitVec.toNat_and, BitVec.toNat_sub_of_le hone, Nat.and_comm] at hnat
      exact hnat
    obtain ⟨k, hk⟩ := (Nat.and_sub_one_eq_zero_iff_isPowerOfTwo hne).mp hzero
    exact ⟨k, (Nat.pow_lt_pow_iff_right (by decide)).mp (hk ▸ hsigned), hk⟩
  · rintro ⟨k, hk, hp⟩
    have hlt : 2 ^ k < 2 ^ 63 := Nat.pow_lt_pow_right (by decide) hk
    have hpos : 0 < 2 ^ k := Nat.two_pow_pos k
    constructor
    · rw [BitVec.toInt_eq_toNat_of_lt (by omega), hp]
      exact_mod_cast hpos
    · apply BitVec.eq_of_toNat_eq
      rw [BitVec.and_comm, toNat_and_sub_one hp, hp, Nat.mod_self]
      rfl

/-- **The size of a guarded share stack.** Whole pages for the size asked for, and a page to guard
them; the assertions fail exactly where that is no `size_t`. -/
theorem guardedSize_eq {sz pgsz : Word} {k : ℕ} (hk : k < 63) (hp : pgsz.toNat = 2 ^ k)
    (hsz : 0 < sz.toNat) :
    guardedSize sz pgsz = if roundUp sz.toNat (2 ^ k) + 2 ^ k < 2 ^ 64 then
      some (BitVec.ofNat 64 (roundUp sz.toNat (2 ^ k) + 2 ^ k)) else none := by
  have hshift : (pgsz <<< 1) >>> 1 = pgsz := by
    apply BitVec.eq_of_toNat_eq
    rw [BitVec.toNat_ushiftRight, toNat_shiftLeft_one hk hp, hp, Nat.shiftRight_eq_div_pow,
      Nat.pow_one, Nat.mul_div_cancel_left _ (by decide)]
  unfold guardedSize
  rw [assert_bind_of (pageSize_iff.mpr ⟨k, hk, hp⟩), assert_bind_of hshift,
    pagedSize_eq hk hp hsz]

/-- No share stack is smaller than 4096 bytes. -/
theorem le_requestedSize (sz : Word) : 4096 ≤ (requestedSize sz).toNat := by
  have hleast : ∀ w : Word, 4096 ≤ (if w < 4096 then 4096 else w : Word).toNat := by
    intro w
    split
    · decide
    · rename_i hlt
      rwa [BitVec.not_lt, BitVec.le_def] at hlt
  exact hleast _

/-- **The size in full.** With a guard page it is the request in whole pages and one page more,
where the page size is a power of two and that is a `size_t`. -/
theorem shareStackSize_eq_some_iff {sz pgsz size : Word} {guardPageEnabled : Bool} :
    shareStackSize sz guardPageEnabled pgsz = some size ↔
      if guardPageEnabled then (∃ k < 63, pgsz.toNat = 2 ^ k) ∧
        size.toNat = roundUp (requestedSize sz).toNat pgsz.toNat + pgsz.toNat
      else size = requestedSize sz := by
  have hleast := le_requestedSize sz
  cases guardPageEnabled with
  | false => exact Option.some_inj.trans eq_comm
  | true =>
    show guardedSize (requestedSize sz) pgsz = some size ↔ (∃ k < 63, pgsz.toNat = 2 ^ k) ∧ _
    by_cases hpage : ∃ k < 63, pgsz.toNat = 2 ^ k
    · obtain ⟨k, hk, hp⟩ := hpage
      rw [guardedSize_eq hk hp (by omega), and_iff_right ⟨k, hk, hp⟩, hp]
      by_cases hfits : roundUp (requestedSize sz).toNat (2 ^ k) + 2 ^ k < 2 ^ 64
      · rw [if_pos hfits, Option.some_inj, ← BitVec.toNat_inj, BitVec.toNat_ofNat,
          Nat.mod_eq_of_lt hfits, eq_comm]
      · rw [if_neg hfits]
        exact iff_of_false (by simp) fun h => hfits (h ▸ size.isLt)
    · have hfails := mt pageSize_iff.mp hpage
      rw [guardedSize, assert_bind_of_not hfails]
      exact iff_of_false (by simp) fun h => hpage h.1

/-- There is room beside the guard page. -/
theorem le_shareStackSize {sz pgsz size : Word} {guardPageEnabled : Bool}
    (h : shareStackSize sz guardPageEnabled pgsz = some size) :
    4096 ≤ size.toNat ∧ (guardPageEnabled = true →
      pgsz.toNat + 4096 ≤ size.toNat ∧ 2 * pgsz.toNat ≤ size.toNat) := by
  have hleast := le_requestedSize sz
  rw [shareStackSize_eq_some_iff] at h
  cases guardPageEnabled with
  | false =>
    obtain rfl : size = requestedSize sz := h
    exact ⟨hleast, by simp⟩
  | true =>
    obtain ⟨⟨k, -, hp⟩, hsize⟩ := h
    have hpos : 0 < pgsz.toNat := hp ▸ Nat.two_pow_pos k
    have hround := le_roundUp hpos (requestedSize sz).toNat
    have hpage : pgsz.toNat ≤ roundUp (requestedSize sz).toNat pgsz.toNat :=
      Nat.le_of_dvd (by omega) (dvd_roundUp ..)
    refine ⟨?_, fun _ => ⟨?_, ?_⟩⟩ <;> omega

/-! ## The layout in full -/

/-- Clearing the four lowest bits. -/
theorem toNat_shiftRight_shiftLeft_four (w : Word) :
    ((w >>> 4) <<< 4).toNat = 16 * (w.toNat / 16) := by
  have hw := w.isLt
  rw [BitVec.toNat_shiftLeft, BitVec.toNat_ushiftRight, Nat.shiftRight_eq_div_pow,
    Nat.shiftLeft_eq, Nat.mod_eq_of_lt (by omega), Nat.mul_comm]

/-- The part of a block above its guard page, if it has one. -/
theorem usable_part {block sz pgsz : Word} {guardPageEnabled : Bool}
    (hblock : block.toNat + sz.toNat ≤ 2 ^ 63)
    (hguard : guardPageEnabled = true → pgsz.toNat + 40 < sz.toNat)
    (hsz : guardPageEnabled = false → 40 < sz.toNat) :
    ∃ ptr usable : Word, ptr = (if guardPageEnabled then block + pgsz else block) ∧
      usable = (if guardPageEnabled then sz - pgsz else sz) ∧
      ptr.toNat = block.toNat + (if guardPageEnabled then pgsz.toNat else 0) ∧
      usable.toNat + (if guardPageEnabled then pgsz.toNat else 0) = sz.toNat ∧
      40 < usable.toNat := by
  refine ⟨_, _, rfl, rfl, ?_⟩
  cases guardPageEnabled with
  | false => exact ⟨rfl, rfl, hsz rfl⟩
  | true =>
    have hlt := hguard rfl
    have hsub : (sz - pgsz).toNat = sz.toNat - pgsz.toNat :=
      BitVec.toNat_sub_of_le (by rw [BitVec.le_def]; omega)
    refine ⟨toNat_add_of_lt (by omega), ?_, ?_⟩
    · show (sz - pgsz).toNat + pgsz.toNat = sz.toNat
      omega
    · show 40 < (sz - pgsz).toNat
      omega

/-- The three addresses in the usable part: nothing wraps around. -/
theorem toNat_addresses {ptr usable : Word} (hroom : 40 < usable.toNat)
    (hspace : ptr.toNat + usable.toNat ≤ 2 ^ 63) :
    (((usable - 16 + ptr) >>> 4) <<< 4).toNat = 16 * ((ptr.toNat + usable.toNat - 16) / 16) ∧
      (((usable - 16 + ptr) >>> 4) <<< 4 - 8).toNat
        = 16 * ((ptr.toNat + usable.toNat - 16) / 16) - 8 ∧
      (usable - 16 - 16).toNat = usable.toNat - 32 := by
  have htop : (usable - 16 + ptr).toNat = ptr.toNat + usable.toNat - 16 := by
    have hsub : (usable - 16).toNat = usable.toNat - 16 :=
      BitVec.toNat_sub_of_le (by rw [BitVec.le_def]; show 16 ≤ _; omega)
    rw [toNat_add_of_lt (by omega), hsub]
    omega
  have hhigh := toNat_shiftRight_shiftLeft_four (usable - 16 + ptr)
  rw [htop] at hhigh
  refine ⟨hhigh, ?_, ?_⟩
  · rw [← hhigh]
    exact BitVec.toNat_sub_of_le (by rw [BitVec.le_def, hhigh]; show 8 ≤ _; omega)
  · rw [BitVec.sub_sub]
    exact BitVec.toNat_sub_of_le (by rw [BitVec.le_def]; show 32 ≤ _; omega)

/-- **The layout.** In a block below the upper half of the addresses the stack can be laid out, and
is sound. -/
theorem layout_sound {block sz pgsz : Word} {guardPageEnabled : Bool}
    (hblock : block.toNat + sz.toNat ≤ 2 ^ 63)
    (hguard : guardPageEnabled = true → pgsz.toNat + 40 < sz.toNat ∧ 2 * pgsz.toNat ≤ sz.toNat)
    (hsz : guardPageEnabled = false → 40 < sz.toNat) :
    ∃ k, ShareStack.layout block sz guardPageEnabled pgsz = some k ∧ k.Sound ∧
      k.block = ⟨block.toNat, sz.toNat⟩ ∧ k.owner = none ∧
      k.sz + (if guardPageEnabled then pgsz.toNat else 0) = sz.toNat := by
  obtain ⟨ptr, usable, hptr, husable, hptrNat, husableNat, hroom⟩ :=
    usable_part hblock (fun hguarded => (hguard hguarded).1) hsz
  have hspace : ptr.toNat + usable.toNat ≤ 2 ^ 63 := by omega
  have hpages : guardPageEnabled = true → sz ≥ pgsz <<< 1 := by
    intro hguarded
    have hle := (hguard hguarded).2
    rw [ge_iff_le, BitVec.le_def, BitVec.toNat_shiftLeft, Nat.shiftLeft_eq]
    exact (Nat.mod_le _ _).trans (by omega)
  have hassert : usable > 40 := by
    rw [gt_iff_lt, BitVec.lt_def]
    exact hroom
  obtain ⟨hhigh, hretptr, hlimit⟩ := toNat_addresses hroom hspace
  unfold ShareStack.layout
  rw [← hptr, ← husable, assert_bind_of hpages]
  refine ⟨_, assert_bind_of hassert _, ?_, ?_, rfl, husableNat⟩
  · constructor
    case retptr =>
      show (((usable - 16 + ptr) >>> 4) <<< 4 - 8).toNat + 8
        = (((usable - 16 + ptr) >>> 4) <<< 4).toNat
      omega
    case high =>
      show (((usable - 16 + ptr) >>> 4) <<< 4).toNat + 16 ≤ ptr.toNat + usable.toNat
      omega
    case low =>
      show ptr.toNat + (usable - 16 - 16).toNat < (((usable - 16 + ptr) >>> 4) <<< 4).toNat
      omega
    case limit =>
      show 8 < (usable - 16 - 16).toNat
      omega
    case aligned =>
      show 16 ∣ (((usable - 16 + ptr) >>> 4) <<< 4).toNat
      rw [hhigh]
      exact Nat.dvd_mul_right ..
    case within =>
      cases guardPageEnabled with
      | false => exact ⟨le_rfl, le_rfl⟩
      | true =>
        show block.toNat ≤ ptr.toNat ∧ ptr.toNat + usable.toNat ≤ block.toNat + sz.toNat
        simp only [if_true] at hptrNat husableNat
        omega
    case space => exact hspace
  · cases guardPageEnabled with
    | false =>
      show (⟨ptr.toNat, usable.toNat⟩ : Span) = _
      rw [hptrNat, ← husableNat]
      rfl
    | true => rfl

/-- In the block that is granted for the size there is the layout. -/
theorem layout_granted {sz pgsz size : Word} {guardPageEnabled : Bool} {base : ℕ}
    (hsize : shareStackSize sz guardPageEnabled pgsz = some size)
    (hspace : base + size.toNat ≤ 2 ^ 63) :
    ∃ k, ShareStack.layout (BitVec.ofNat 64 base) size guardPageEnabled pgsz = some k ∧ k.Sound ∧
      k.block = ⟨base, size.toNat⟩ ∧ k.owner = none ∧
      k.sz + (if guardPageEnabled then pgsz.toNat else 0) = size.toNat := by
  obtain ⟨hroom, hpages⟩ := le_shareStackSize hsize
  have hbase : (BitVec.ofNat 64 base).toNat = base := by
    rw [BitVec.toNat_ofNat, Nat.mod_eq_of_lt (by omega)]
  have hspace' : (BitVec.ofNat 64 base).toNat + size.toNat ≤ 2 ^ 63 := by rwa [hbase]
  have hguard : guardPageEnabled = true →
      pgsz.toNat + 40 < size.toNat ∧ 2 * pgsz.toNat ≤ size.toNat := fun hguarded => by
    have hpage := hpages hguarded
    omega
  have hplain : guardPageEnabled = false → 40 < size.toNat := fun _ => by omega
  obtain ⟨k, hlayout, hsound, hblock, hrest⟩ := layout_sound hspace' hguard hplain
  rw [hbase] at hblock
  exact ⟨k, hlayout, hsound, hblock, hrest⟩

end FfTest.Libaco
