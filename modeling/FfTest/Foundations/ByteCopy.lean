import FfTest.Foundations.ByteMemory
import Mathlib.Algebra.Order.Ring.Nat

/-! # Words of any width, and copies

`loadWord` and `storeWord` are memory accesses of any number of bytes, least significant byte first,
`memcpy` copies a range, and `bytes` reads one. A copy in blocks of some width, with the rest copied
as one last word that may overlap the blocks, is `memcpy` if the two ranges are apart
(`copyTail_copyBlocks`). -/

namespace FfTest

/-! ## Ranges -/

/-- The bytes at `n` addresses from `a` on. -/
def bytes (m : Memory) (a n : ℕ) : List Byte := (List.range n).map fun i => m (a + i)

@[simp] theorem bytes_zero (m : Memory) (a : ℕ) : bytes m a 0 = [] := rfl

@[simp] theorem length_bytes (m : Memory) (a n : ℕ) : (bytes m a n).length = n := by
  rw [bytes, List.length_map, List.length_range]

/-- Ranges are equal byte by byte. -/
theorem bytes_eq_iff {m m' : Memory} {a a' n : ℕ} :
    bytes m a n = bytes m' a' n ↔ ∀ i < n, m (a + i) = m' (a' + i) := by
  unfold bytes
  rw [List.map_inj_left]
  exact forall_congr' fun i => by rw [List.mem_range]

/-- Memories that agree on a span agree on each part of it. -/
theorem AgreeOn.mono {m m' : Memory} {s t : Span} (h : AgreeOn m m' s) (hin : t.Within s) :
    AgreeOn m m' t := fun a ha => h a ⟨hin.1.trans ha.1, ha.2.trans_le hin.2⟩

/-- Two memories that agree on a span have the same ranges in it. -/
theorem AgreeOn.bytes_eq {m m' : Memory} {s : Span} (h : AgreeOn m m' s) {a n : ℕ}
    (hin : (⟨a, n⟩ : Span).Within s) : bytes m' a n = bytes m a n := by
  refine bytes_eq_iff.mpr fun i hi => h _ ?_
  simp only [Span.Within, Span.Has, Span.stop] at *
  omega

/-- The memory with `n` bytes copied from `src` to `dst`. -/
def memcpy (m : Memory) (dst src n : ℕ) : Memory :=
  fun x => if dst ≤ x ∧ x < dst + n then m (src + (x - dst)) else m x

/-- What was copied is found. -/
theorem memcpy_add (m : Memory) (dst src : ℕ) {n i : ℕ} (hi : i < n) :
    memcpy m dst src n (dst + i) = m (src + i) := by
  rw [memcpy, if_pos (by omega), Nat.add_sub_cancel_left]

/-- The copy holds the bytes of the original. -/
theorem bytes_memcpy (m : Memory) (dst src n : ℕ) :
    bytes (memcpy m dst src n) dst n = bytes m src n :=
  bytes_eq_iff.mpr fun _ hi => memcpy_add m dst src hi

/-- Nothing else is changed by a copy. -/
theorem memcpy_of_outside (m : Memory) {dst x : ℕ} (src : ℕ) {n : ℕ} (h : x < dst ∨ dst + n ≤ x) :
    memcpy m dst src n x = m x := if_neg (by omega)

/-- A copy to somewhere else leaves a span alone. -/
theorem agreeOn_memcpy (m : Memory) {dst : ℕ} (src : ℕ) {n : ℕ} {s : Span}
    (h : s.Apart ⟨dst, n⟩) : AgreeOn m (memcpy m dst src n) s := by
  intro x hx
  apply memcpy_of_outside
  have hout := h.not_has hx
  simp only [Span.Has, Span.stop] at hout
  omega

/-! ## Words -/

/-- The number at `n` addresses from `a` on. -/
def loadNat (m : Memory) : ℕ → ℕ → ℕ
  | _, 0 => 0
  | a, n + 1 => (m a).toNat + 256 * loadNat m (a + 1) n

/-- The word of `w` bits at `a`. -/
def loadWord (w : ℕ) (m : Memory) (a : ℕ) : BitVec w := BitVec.ofNat w (loadNat m a (w / 8))

/-- The memory with the word `v` at `a`. -/
def storeWord {w : ℕ} (m : Memory) (a : ℕ) (v : BitVec w) : Memory :=
  fun x => if a ≤ x ∧ x < a + w / 8 then v.extractLsb' (8 * (x - a)) 8 else m x

/-- The number has the bytes as its digits. -/
theorem loadNat_div_mod (m : Memory) (a : ℕ) {n i : ℕ} (hi : i < n) :
    loadNat m a n / 256 ^ i % 256 = (m (a + i)).toNat := by
  have hbyte := (m a).isLt
  induction n generalizing a i with
  | zero => omega
  | succ n ih =>
    rw [loadNat]
    cases i with
    | zero =>
      rw [Nat.pow_zero, Nat.div_one, Nat.add_mul_mod_self_left]
      exact Nat.mod_eq_of_lt hbyte
    | succ i =>
      rw [Nat.pow_succ', ← Nat.div_div_eq_div_mul, Nat.add_mul_div_left _ _ (by decide),
        Nat.div_eq_of_lt hbyte, Nat.zero_add, ih (a + 1) (by omega) (m (a + 1)).isLt]
      congr 2
      omega

/-- A number is made of its digits. -/
theorem loadNat_eq_mod {m : Memory} {a n v : ℕ}
    (h : ∀ i < n, (m (a + i)).toNat = v / 256 ^ i % 256) : loadNat m a n = v % 256 ^ n := by
  induction n generalizing a v with
  | zero => rw [loadNat, Nat.pow_zero, Nat.mod_one]
  | succ n ih =>
    have hfirst : (m a).toNat = v % 256 := by
      have h0 := h 0 (by omega)
      rwa [Nat.pow_zero, Nat.div_one] at h0
    have hrest : loadNat m (a + 1) n = v / 256 % 256 ^ n := by
      refine ih fun i hi => ?_
      rw [Nat.div_div_eq_div_mul, ← Nat.pow_succ', ← h (i + 1) (by omega), Nat.add_assoc,
        Nat.add_comm 1]
    rw [loadNat, hfirst, hrest, Nat.pow_succ', Nat.mod_mul]

theorem loadNat_lt (m : Memory) (a n : ℕ) : loadNat m a n < 256 ^ n := by
  have heq : loadNat m a n = loadNat m a n % 256 ^ n :=
    loadNat_eq_mod fun i hi => (loadNat_div_mod m a hi).symm
  rw [heq]
  exact Nat.mod_lt _ (Nat.pow_pos (by decide))

/-- The bytes of a word that was loaded. -/
theorem extractLsb'_loadWord {w : ℕ} (hw : 8 ∣ w) (m : Memory) (a : ℕ) {i : ℕ} (hi : i < w / 8) :
    (loadWord w m a).extractLsb' (8 * i) 8 = m (a + i) := by
  have hpow : (2 : ℕ) ^ w = 256 ^ (w / 8) := by
    rw [show (256 : ℕ) = 2 ^ 8 from rfl, ← Nat.pow_mul, Nat.mul_div_cancel' hw]
  apply BitVec.eq_of_toNat_eq
  rw [BitVec.extractLsb'_toNat, loadWord, BitVec.toNat_ofNat, hpow,
    Nat.mod_eq_of_lt (loadNat_lt m a _), Nat.shiftRight_eq_div_pow, Nat.pow_mul]
  exact loadNat_div_mod m a hi

/-- A word is read back as it was written. -/
theorem loadWord_storeWord {w : ℕ} (hw : 8 ∣ w) (m : Memory) (a : ℕ) (v : BitVec w) :
    loadWord w (storeWord m a v) a = v := by
  have hpow : 256 ^ (w / 8) = (2 : ℕ) ^ w := by
    rw [show (256 : ℕ) = 2 ^ 8 from rfl, ← Nat.pow_mul, Nat.mul_div_cancel' hw]
  have hbytes : loadNat (storeWord m a v) a (w / 8) = v.toNat % 256 ^ (w / 8) := by
    refine loadNat_eq_mod fun i hi => ?_
    rw [storeWord, if_pos (by omega), Nat.add_sub_cancel_left, BitVec.extractLsb'_toNat,
      Nat.shiftRight_eq_div_pow, Nat.pow_mul]
  apply BitVec.eq_of_toNat_eq
  rw [loadWord, BitVec.toNat_ofNat, hbytes, hpow, Nat.mod_mod, Nat.mod_eq_of_lt v.isLt]

/-- A word write changes no byte outside the word. -/
theorem storeWord_of_outside {w : ℕ} (m : Memory) {a x : ℕ} (v : BitVec w)
    (h : x < a ∨ a + w / 8 ≤ x) : storeWord m a v x = m x := if_neg (by omega)

/-- A word written somewhere else leaves a span alone. -/
theorem agreeOn_storeWord {w : ℕ} (m : Memory) {a : ℕ} (v : BitVec w) {s : Span}
    (h : s.Apart ⟨a, w / 8⟩) : AgreeOn m (storeWord m a v) s := by
  intro x hx
  apply storeWord_of_outside
  have hout := h.not_has hx
  simp only [Span.Has, Span.stop] at hout
  omega

/-- A word is the same in two memories that agree on a span holding it. -/
theorem AgreeOn.loadWord_eq {m m' : Memory} {s : Span} (h : AgreeOn m m' s) {w a : ℕ}
    (hin : (⟨a, w / 8⟩ : Span).Within s) : loadWord w m' a = loadWord w m a := by
  have hbytes := bytes_eq_iff.mp (h.bytes_eq hin)
  have hnat : loadNat m' a (w / 8) = loadNat m a (w / 8) := by
    rw [← Nat.mod_eq_of_lt (loadNat_lt m a (w / 8))]
    refine loadNat_eq_mod fun i hi => ?_
    rw [hbytes i hi, loadNat_div_mod m a hi]
  rw [loadWord, loadWord, hnat]

/-! ## Copies in blocks -/

/-- A word written where it was read from elsewhere is a copy. -/
theorem storeWord_loadWord {w : ℕ} (hw : 8 ∣ w) {m m' : Memory} {dst src : ℕ} :
    storeWord m' dst (loadWord w m src)
      = fun x => if dst ≤ x ∧ x < dst + w / 8 then m (src + (x - dst)) else m' x := by
  funext x
  unfold storeWord
  split
  · exact extractLsb'_loadWord hw m src (by omega)
  · rfl

/-- `k` blocks of `w` bits are read at `src`, and then written to `dst`. -/
def copyBlocks (w : ℕ) (m : Memory) (dst src : ℕ) : ℕ → Memory
  | 0 => m
  | k + 1 => storeWord (copyBlocks w m dst src k) (dst + w / 8 * k)
      (loadWord w m (src + w / 8 * k))

/-- Blocks make a copy. -/
theorem copyBlocks_eq {w : ℕ} (hw : 8 ∣ w) (m : Memory) (dst src k : ℕ) :
    copyBlocks w m dst src k = memcpy m dst src (w / 8 * k) := by
  induction k with
  | zero =>
    funext x
    exact (memcpy_of_outside m src (by omega)).symm
  | succ k ih =>
    rw [copyBlocks, ih, storeWord_loadWord hw]
    funext x
    rw [Nat.mul_succ]
    by_cases hlast : dst + w / 8 * k ≤ x ∧ x < dst + w / 8 * k + w / 8
    · rw [if_pos hlast, memcpy, if_pos (by omega)]
      congr 1
      omega
    · rw [if_neg hlast]
      unfold memcpy
      by_cases hearlier : dst ≤ x ∧ x < dst + w / 8 * k
      · rw [if_pos hearlier, if_pos (by omega)]
      · rw [if_neg hearlier, if_neg (by omega)]

/-- The last word of `n` bytes is copied. -/
def copyTail (w : ℕ) (m : Memory) (dst src n : ℕ) : Memory :=
  storeWord m (dst + n - w / 8) (loadWord w m (src + n - w / 8))

/-- **Blocks and a last word.** They make one copy, though the last word is read after the blocks
have been written. -/
theorem copyTail_copyBlocks {w v : ℕ} (hw : 8 ∣ w) (hv : 8 ∣ v) (m : Memory) {dst src n k : ℕ}
    (hle : w / 8 * k ≤ n) (hn : n ≤ w / 8 * k + v / 8) (hv' : v / 8 ≤ n)
    (hapart : (⟨dst, n⟩ : Span).Apart ⟨src, n⟩) :
    copyTail v (copyBlocks w m dst src k) dst src n = memcpy m dst src n := by
  simp only [Span.Apart, Span.stop] at hapart
  rw [copyTail, copyBlocks_eq hw, storeWord_loadWord hv]
  funext x
  by_cases htail : dst + n - v / 8 ≤ x ∧ x < dst + n - v / 8 + v / 8
  · rw [if_pos htail, memcpy_of_outside m src (by omega), memcpy, if_pos (by omega)]
    congr 1
    omega
  · rw [if_neg htail]
    unfold memcpy
    by_cases hblocks : dst ≤ x ∧ x < dst + w / 8 * k
    · rw [if_pos hblocks, if_pos (by omega)]
    · rw [if_neg hblocks, if_neg (by omega)]

end FfTest
