import FfTest.Foundations.PowersOfTwo
import FfTest.FrameBuffers.FramePool

/-! # The alignment loop of `update_frame_pool`

`w += w & ~(w - 1)` clears the lowest bit set in `w`. So a positive width does not turn into 0 in
one round (`nextWidth_ne_zero`), but after 32 rounds it is 0, and stays 0: the rounds that the model
allows are enough (`alignLoop_alignRounds`). -/

namespace FfTest

variable {κ : Type*} {L : ImageLib κ}

/-! ## The next width -/

/-- The next width adds the lowest bit set. -/
theorem nextWidth_toNat {w : BitVec 32} {t q : ℕ} (hw : w.toNat = 2 ^ t * (2 * q + 1)) :
    (nextWidth w).toNat = (w.toNat + 2 ^ t) % 2 ^ 32 := by
  rw [nextWidth, BitVec.toNat_add, lowestBit_toNat hw]

/-- The next width clears the lowest bit set. -/
theorem nextWidth_mod {w : BitVec 32} {k : ℕ} (hk : k < 32) (hw : w.toNat % 2 ^ k = 0) :
    (nextWidth w).toNat % 2 ^ (k + 1) = 0 := by
  rcases Nat.eq_zero_or_pos w.toNat with hzero | hpos
  · rw [BitVec.eq_of_toNat_eq (y := 0) hzero]
    exact Nat.zero_mod _
  · obtain ⟨t, q, ht⟩ := exists_odd_mul hpos
    -- the bit is behind those that are clear, and is added once more
    have hkt : k ≤ t := le_of_two_pow_dvd (ht ▸ Nat.dvd_of_mod_eq_zero hw)
    have hsum : w.toNat + 2 ^ t = 2 ^ (t + 1) * (q + 1) := by
      rw [ht, ← Nat.mul_succ, Nat.pow_succ, Nat.mul_assoc]
      rfl
    rw [nextWidth_toNat ht, Nat.mod_mod_of_dvd _ (Nat.pow_dvd_pow 2 (by omega)), hsum]
    exact Nat.mod_eq_zero_of_dvd ((Nat.pow_dvd_pow 2 (by omega)).mul_right (q + 1))

/-- The values of a positive `int` are those below `2 ^ 31`. -/
theorem toNat_of_toInt_pos {w : BitVec 32} (hw : 0 < w.toInt) :
    0 < w.toNat ∧ w.toNat < 2 ^ 31 := by
  rw [BitVec.toInt_eq_toNat_cond] at hw
  have := w.isLt
  split at hw <;> omega

/-- A positive width does not turn into 0. -/
theorem nextWidth_ne_zero {w : BitVec 32} (hw : 0 < w.toInt) : nextWidth w ≠ 0 := by
  obtain ⟨hpos, hlt⟩ := toNat_of_toInt_pos hw
  obtain ⟨t, q, ht⟩ := exists_odd_mul hpos
  have hle : 2 ^ t ≤ w.toNat := ht ▸ Nat.le_mul_of_pos_right _ (Nat.succ_pos _)
  intro hzero
  have hsum : 0 = w.toNat + 2 ^ t := by
    have hnext := nextWidth_toNat ht
    rwa [hzero, Nat.mod_eq_of_lt (by omega)] at hnext
  exact absurd (Nat.eq_zero_of_add_eq_zero_left hsum.symm) (Nat.two_pow_pos t).ne'

/-! ## The rounds -/

/-- One round of the loop. -/
theorem alignLoop_succ (pixFmt : ℤ) (strideAlign : ℕ → ℤ) (rounds : ℕ) (w : BitVec 32) :
    alignLoop L pixFmt strideAlign (rounds + 1) w =
      let (ret, linesize) := L.fillLinesizes pixFmt w.toInt
      if ret < 0 then some (ret, linesize, w)
      else if unaligned linesize strideAlign then
        alignLoop L pixFmt strideAlign rounds (nextWidth w)
      else some (ret, linesize, nextWidth w) := rfl

/-- Two loops agree if they agree from the second round on. -/
theorem alignLoop_succ_congr {pixFmt : ℤ} {strideAlign : ℕ → ℤ} {m n : ℕ} {w : BitVec 32}
    (h : alignLoop L pixFmt strideAlign m (nextWidth w)
      = alignLoop L pixFmt strideAlign n (nextWidth w)) :
    alignLoop L pixFmt strideAlign (m + 1) w = alignLoop L pixFmt strideAlign (n + 1) w := by
  rw [alignLoop_succ, alignLoop_succ, h]

/-- With no bit set in `w` the first round decides. -/
theorem alignLoop_zero (pixFmt : ℤ) (strideAlign : ℕ → ℤ) (rounds : ℕ) :
    alignLoop L pixFmt strideAlign (rounds + 1) 0 = alignLoop L pixFmt strideAlign 1 0 := by
  have hnext : nextWidth 0 = 0 := by decide
  rw [alignLoop_succ, alignLoop_succ, hnext]
  dsimp only
  by_cases hneg : (L.fillLinesizes pixFmt (0 : BitVec 32).toInt).1 < 0
  · rw [if_pos hneg, if_pos hneg]
  rw [if_neg hneg, if_neg hneg]
  by_cases hunaligned :
      unaligned (L.fillLinesizes pixFmt (0 : BitVec 32).toInt).2 strideAlign = true
  · -- it stays unaligned for ever
    rw [if_pos hunaligned, if_pos hunaligned]
    induction rounds with
    | zero => rfl
    | succ rounds ih =>
      rw [alignLoop_succ, hnext]
      dsimp only
      rw [if_neg hneg, if_pos hunaligned]
      exact ih
  · rw [if_neg hunaligned, if_neg hunaligned]

/-- The loop at a width whose lowest bits are clear is left within as many rounds as there are other
bits, and one more, or never. -/
theorem alignLoop_rounds (pixFmt : ℤ) (strideAlign : ℕ → ℤ) {bits k : ℕ} (hk : bits + k = 32)
    {w : BitVec 32} (hw : w.toNat % 2 ^ k = 0) (extra : ℕ) :
    alignLoop L pixFmt strideAlign (bits + 1 + extra) w
      = alignLoop L pixFmt strideAlign (bits + 1) w := by
  induction bits generalizing k w with
  | zero =>
    have hzero : w = 0 := by
      obtain rfl : k = 32 := by omega
      rw [Nat.mod_eq_of_lt w.isLt] at hw
      exact BitVec.eq_of_toNat_eq hw
    rw [hzero, Nat.zero_add, Nat.add_comm]
    exact alignLoop_zero pixFmt strideAlign extra
  | succ bits ih =>
    rw [Nat.add_right_comm (bits + 1) 1 extra]
    apply alignLoop_succ_congr
    exact ih (by omega) (nextWidth_mod (by omega) hw)

/-- **`alignRounds` is enough**: a loop that is not left by then is never left. -/
theorem alignLoop_alignRounds (pixFmt : ℤ) (strideAlign : ℕ → ℤ) (w : BitVec 32) {rounds : ℕ}
    (h : alignRounds ≤ rounds) :
    alignLoop L pixFmt strideAlign rounds w = alignLoop L pixFmt strideAlign alignRounds w := by
  obtain ⟨extra, rfl⟩ := Nat.exists_eq_add_of_le h
  exact alignLoop_rounds pixFmt strideAlign (Nat.add_zero 32) (Nat.mod_one _) extra

end FfTest
