import Mathlib.Algebra.Order.Floor.Div
import Mathlib.Data.Finset.Lattice.Fold
import Mathlib.Data.Nat.Factorization.Basic
import Mathlib.Order.Lattice.Nat

/-! # Powers of two, and rounding up to a multiple

A positive number is an odd multiple of one power of two, the value of its lowest bit set. This file
isolates that bit in a machine word, says when it can be added without passing a multiple of a
greater power (`add_two_pow_le`), and which power the largest of several powers of two is. -/

namespace FfTest

/-! ## Odd multiples of powers of two -/

/-- A positive number is an odd multiple of a power of two. -/
theorem exists_odd_mul {w : ℕ} (hw : 0 < w) : ∃ t q, w = 2 ^ t * (2 * q + 1) := by
  obtain ⟨t, m, ⟨q, hq⟩, hm⟩ := Nat.exists_eq_two_pow_mul_odd hw.ne'
  exact ⟨t, q, hq ▸ hm⟩

/-- No greater power of two divides it. -/
theorem le_of_two_pow_dvd {k t q : ℕ} (h : 2 ^ k ∣ 2 ^ t * (2 * q + 1)) : k ≤ t := by
  by_contra hlt
  have hdvd : 2 ^ t * 2 ∣ 2 ^ t * (2 * q + 1) := by
    rw [← Nat.pow_succ]
    exact (Nat.pow_dvd_pow 2 (by omega)).trans h
  have htwo := Nat.dvd_of_mul_dvd_mul_left (Nat.two_pow_pos t) hdvd
  omega

/-- **The lowest bit set.** `w & ~(w - 1)` is the power of two of which `w` is an odd multiple. -/
theorem lowestBit_toNat {n : ℕ} {w : BitVec n} {t q : ℕ} (hw : w.toNat = 2 ^ t * (2 * q + 1)) :
    (w &&& ~~~(w - 1)).toNat = 2 ^ t := by
  have hpos : 0 < 2 ^ t := Nat.two_pow_pos t
  have hlt : 2 ^ t < 2 ^ (t + 1) := Nat.pow_lt_pow_right (by decide) (by omega)
  have hexpand : 2 ^ t * (2 * q + 1) = 2 ^ (t + 1) * q + 2 ^ t := by
    rw [Nat.pow_succ, Nat.mul_add, Nat.mul_one, Nat.mul_assoc]
  have htn : t < n := by
    have hle : 2 ^ t < 2 ^ n := by
      have := w.isLt
      omega
    exact (Nat.pow_lt_pow_iff_right (by decide)).mp hle
  have hone : (1 : BitVec n).toNat = 1 := BitVec.toNat_one (by omega)
  have hpred : (w - 1).toNat = 2 ^ (t + 1) * q + (2 ^ t - 1) := by
    rw [BitVec.toNat_sub_of_le (by rw [BitVec.le_def, hone]; omega), hone, hw, hexpand]
    omega
  -- the bits of `w` and of `w - 1` differ up to `t`, and agree above it
  apply Nat.eq_of_testBit_eq
  intro i
  rw [BitVec.testBit_toNat, BitVec.getLsbD_and, BitVec.getLsbD_not, ← BitVec.testBit_toNat,
    ← BitVec.testBit_toNat, hw, hexpand, hpred, Nat.testBit_two_pow_mul_add _ hlt,
    Nat.testBit_two_pow_mul_add _ (by omega), Nat.testBit_two_pow]
  by_cases hi : i < t + 1
  · rw [if_pos hi, if_pos hi, Nat.testBit_two_pow_sub_one]
    by_cases hti : t = i
    · simp [hti]
      omega
    · simp [hti]
  · rw [if_neg hi, if_neg hi]
    have hne : t ≠ i := by omega
    simp only [hne, decide_false]
    cases q.testBit (i - (t + 1)) <;> simp

/-! ## Multiples -/

/-- `w`, rounded up to a multiple of `a`. -/
def roundUp (w a : ℕ) : ℕ := a * (w ⌈/⌉ a)

theorem dvd_roundUp (w a : ℕ) : a ∣ roundUp w a := Nat.dvd_mul_right a _

theorem le_roundUp {a : ℕ} (ha : 0 < a) (w : ℕ) : w ≤ roundUp w a := le_smul_ceilDiv ha

/-- A multiple needs no rounding. -/
theorem roundUp_of_dvd {a w : ℕ} (h : a ∣ w) : roundUp w a = w := by
  obtain ⟨c, rfl⟩ := h
  rcases Nat.eq_zero_or_pos a with rfl | ha
  · rw [roundUp, Nat.zero_mul, Nat.zero_mul]
  · rw [roundUp, Nat.ceilDiv_eq_add_pred_div, Nat.add_sub_assoc ha, Nat.mul_add_div ha,
      Nat.div_eq_of_lt (by omega), Nat.add_zero]

/-- What is at most one step is rounded up to it. -/
theorem roundUp_of_le {a w : ℕ} (hw : 0 < w) (h : w ≤ a) : roundUp w a = a := by
  have hceil : w ⌈/⌉ a = 1 := by
    rw [Nat.ceilDiv_eq_add_pred_div]
    exact Nat.div_eq_of_lt_le (by omega) (by omega)
  rw [roundUp, hceil, Nat.mul_one]

/-- What is no multiple is rounded up to the next one. -/
theorem roundUp_of_not_dvd {a w : ℕ} (ha : 0 < a) (h : ¬ a ∣ w) :
    roundUp w a = a * (w / a + 1) := by
  have hmod : 0 < w % a := Nat.pos_of_ne_zero (mt Nat.dvd_of_mod_eq_zero h)
  have hlt := Nat.mod_lt w ha
  have hsum : w + a - 1 = a * (w / a + 1) + (w % a - 1) := by
    have hdivmod := Nat.div_add_mod w a
    rw [Nat.mul_succ]
    omega
  have hrest : (w % a - 1) / a = 0 := Nat.div_eq_of_lt (by omega)
  rw [roundUp, Nat.ceilDiv_eq_add_pred_div, hsum, Nat.mul_add_div ha, hrest, Nat.add_zero]

/-- Adding the lowest bit does not pass a multiple of a greater power of two. -/
theorem add_two_pow_le {a t q m : ℕ} (hta : t < a) (hm : 2 ^ a ∣ m)
    (hle : 2 ^ t * (2 * q + 1) ≤ m) : 2 ^ t * (2 * q + 1) + 2 ^ t ≤ m := by
  obtain ⟨c, rfl⟩ : 2 ^ t * 2 ∣ m := by
    rw [← Nat.pow_succ]
    exact (Nat.pow_dvd_pow 2 hta).trans hm
  have hodd : 2 * q + 1 ≤ 2 * c := by
    rw [Nat.mul_assoc] at hle
    exact Nat.le_of_mul_le_mul_left hle (Nat.two_pow_pos t)
  calc 2 ^ t * (2 * q + 1) + 2 ^ t = 2 ^ t * (2 * q + 1 + 1) := (Nat.mul_succ _ _).symm
    _ ≤ 2 ^ t * (2 * c) := Nat.mul_le_mul_left _ (by omega)
    _ = 2 ^ t * 2 * c := (Nat.mul_assoc _ _ _).symm

/-! ## The largest of several powers of two -/

section

variable {ι : Type*} {s : Finset ι} {f : ι → ℕ}

/-- The largest of some powers of two is one. -/
theorem exists_sup_eq_two_pow (hs : s.Nonempty) (hf : ∀ i ∈ s, ∃ k, f i = 2 ^ k) :
    ∃ k, s.sup f = 2 ^ k := by
  obtain ⟨i, hi, hsup⟩ := s.exists_mem_eq_sup hs f
  rw [hsup]
  exact hf i hi

/-- Each of some powers of two divides the largest. -/
theorem dvd_sup_of_two_pow (hf : ∀ i ∈ s, ∃ k, f i = 2 ^ k) {i : ι} (hi : i ∈ s) :
    f i ∣ s.sup f := by
  obtain ⟨k, hk⟩ := hf i hi
  obtain ⟨m, hm⟩ := exists_sup_eq_two_pow ⟨i, hi⟩ hf
  have hle : f i ≤ s.sup f := Finset.le_sup hi
  rw [hk, hm] at hle ⊢
  exact Nat.pow_dvd_pow 2 ((Nat.pow_le_pow_iff_right (by decide)).mp hle)

end

end FfTest
