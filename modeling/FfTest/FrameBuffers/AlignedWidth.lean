import FfTest.FrameBuffers.AlignLoop
import Mathlib.Algebra.Order.Ring.Int
import Mathlib.Tactic.Ring

/-! # The width that the alignment loop ends with

Of a pixel format the loop needs the line sizes: for each plane so many bytes, or bits, for so many
pixels. All of them are aligned at a multiple of `PixelFormat.alignment`, which is a power of two.
In each round that finds them unaligned the power of two dividing `w` grows, and `w` stays below
every multiple of the alignment that it has not reached. So the loop is left at a width between the
first one and that one rounded up (`alignLoop_width`); the last round has added to `w` once more. -/

namespace FfTest

open Finset

variable {κ : Type*} {L : ImageLib κ}

/-! ## Line sizes of a pixel format -/

/-- A pixel format, as far as its line sizes go. -/
structure PixelFormat where
  /-- The number of planes. -/
  planes : ℕ
  /-- The bytes of a step in a plane; the bits, in a bitstream format. -/
  step : ℕ → ℕ
  /-- A step in a plane takes `2 ^ shift` pixels. -/
  shift : ℕ → ℕ
  /-- Whether lines are measured in bits. -/
  bitstream : Bool
  /-- There is a plane. -/
  planes_pos : 0 < planes
  /-- There are four at most. -/
  planes_le : planes ≤ 4

namespace PixelFormat

variable (f : PixelFormat)

/-- The bytes of a line of `w` pixels in the plane `i`. -/
def linesize (w i : ℕ) : ℕ :=
  if i < f.planes then
    let units := f.step i * (w ⌈/⌉ 2 ^ f.shift i)
    if f.bitstream then (units + 7) / 8 else units
  else 0

/-- The largest stride alignment times the largest step in pixels, times 8 if lines are measured in
bits. -/
def alignment (strideAlign : ℕ → ℤ) : ℕ :=
  (range 4).sup (fun i => (strideAlign i).toNat) * (range f.planes).sup (fun i => 2 ^ f.shift i) *
    if f.bitstream then 8 else 1

end PixelFormat

/-- The line sizes of the widths up to `bound` fit in an `int`: `av_image_fill_linesizes` succeeds
with those of the format. -/
def ImageLib.Fills (L : ImageLib κ) (pixFmt : ℤ) (f : PixelFormat) (bound : ℕ) : Prop :=
  ∀ w : ℕ, 0 < w → w ≤ bound → 0 ≤ (L.fillLinesizes pixFmt w).1 ∧
    ∀ i < 4, (L.fillLinesizes pixFmt w).2 i = f.linesize w i

/-- The stride alignments are powers of two. -/
def PowersOfTwo (strideAlign : ℕ → ℤ) : Prop := ∀ i < 4, ∃ k : ℕ, strideAlign i = 2 ^ k

/-- The loop is left with the aligned line sizes of the width `w`, to which it has added the lowest
bit set. -/
def PixelFormat.LeavesAt (f : PixelFormat) (strideAlign : ℕ → ℤ) (w : ℕ)
    (out : Option (ℤ × (ℕ → ℤ) × BitVec 32)) : Prop :=
  ∃ ret linesize, out = some (ret, linesize, nextWidth (BitVec.ofNat 32 w)) ∧ 0 ≤ ret ∧
    (∀ i < 4, linesize i = f.linesize w i) ∧ ∀ i < 4, strideAlign i ∣ linesize i

/-! ## Multiples of the alignment -/

theorem PowersOfTwo.toNat {strideAlign : ℕ → ℤ} (h : PowersOfTwo strideAlign) :
    ∀ i ∈ range 4, ∃ k, (strideAlign i).toNat = 2 ^ k := by
  intro i hi
  obtain ⟨k, hk⟩ := h i (mem_range.mp hi)
  refine ⟨k, ?_⟩
  rw [hk]
  exact Int.toNat_natCast (2 ^ k)

namespace PixelFormat

variable {f : PixelFormat} {strideAlign : ℕ → ℤ}

/-- The alignment is a power of two. -/
theorem alignment_eq (f : PixelFormat) (h : PowersOfTwo strideAlign) :
    ∃ a, f.alignment strideAlign = 2 ^ a := by
  obtain ⟨k, hk⟩ := exists_sup_eq_two_pow ⟨0, mem_range.mpr (by decide)⟩ h.toNat
  obtain ⟨s, hs⟩ := exists_sup_eq_two_pow (f := fun i => 2 ^ f.shift i)
    ⟨0, mem_range.mpr f.planes_pos⟩ fun i _ => ⟨f.shift i, rfl⟩
  rw [alignment, hk, hs, ← Nat.pow_add]
  cases f.bitstream with
  | false => exact ⟨k + s, Nat.mul_one _⟩
  | true => exact ⟨k + s + 3, (Nat.pow_add 2 (k + s) 3).symm⟩

/-- **Line sizes of multiples of the alignment** are aligned. -/
theorem dvd_linesize (h : PowersOfTwo strideAlign) {w : ℕ} (hw : f.alignment strideAlign ∣ w)
    {i : ℕ} (hi : i < 4) : strideAlign i ∣ f.linesize w i := by
  obtain ⟨k, hk⟩ := h i hi
  have hstride : 2 ^ k ∣ (range 4).sup fun i => (strideAlign i).toNat := by
    have hdvd := dvd_sup_of_two_pow h.toNat (mem_range.mpr hi)
    rwa [hk, show ((2 : ℤ) ^ k).toNat = 2 ^ k from Int.toNat_natCast (2 ^ k)] at hdvd
  suffices hline : 2 ^ k ∣ f.linesize w i by
    rw [hk]
    exact_mod_cast hline
  by_cases hplane : i < f.planes
  · have hshift : 2 ^ f.shift i ∣ (range f.planes).sup fun i => 2 ^ f.shift i :=
      dvd_sup_of_two_pow (fun i _ => ⟨f.shift i, rfl⟩) (mem_range.mpr hplane)
    -- `w` is so many whole steps, and their number a multiple of the stride alignment
    obtain ⟨c, rfl⟩ : 2 ^ f.shift i * (2 ^ k * if f.bitstream then 8 else 1) ∣ w := by
      refine (?_ : _ ∣ f.alignment strideAlign).trans hw
      rw [← Nat.mul_assoc, Nat.mul_comm (2 ^ f.shift i)]
      exact Nat.mul_dvd_mul (Nat.mul_dvd_mul hstride hshift) dvd_rfl
    have hsteps : (2 ^ f.shift i * (2 ^ k * if f.bitstream then 8 else 1) * c) ⌈/⌉ 2 ^ f.shift i
        = 2 ^ k * (if f.bitstream then 8 else 1) * c := by
      rw [Nat.mul_assoc]
      exact smul_ceilDiv (Nat.two_pow_pos _) _
    rw [linesize, if_pos hplane, hsteps]
    cases f.bitstream with
    | false =>
      refine ⟨f.step i * c, ?_⟩
      show f.step i * (2 ^ k * 1 * c) = _
      ring
    | true =>
      refine ⟨f.step i * c, ?_⟩
      show (f.step i * (2 ^ k * 8 * c) + 7) / 8 = _
      rw [show f.step i * (2 ^ k * 8 * c) = 8 * (2 ^ k * (f.step i * c)) by ring]
      omega
  · rw [linesize, if_neg hplane]
    exact dvd_zero _

end PixelFormat

/-- The line sizes are aligned, as the loop tests it. -/
theorem unaligned_eq_false_iff {linesize strideAlign : ℕ → ℤ} :
    unaligned linesize strideAlign = false ↔ ∀ i < 4, strideAlign i ∣ linesize i := by
  simp [unaligned, Int.dvd_iff_tmod_eq_zero]

/-! ## The loop -/

/-- The next width, of a width and its lowest bit set. -/
theorem nextWidth_ofNat {w t q : ℕ} (hlt : w < 2 ^ 32) (hw : w = 2 ^ t * (2 * q + 1)) :
    nextWidth (BitVec.ofNat 32 w) = BitVec.ofNat 32 (w + 2 ^ t) := by
  have htoNat : (BitVec.ofNat 32 w).toNat = w := by
    rw [BitVec.toNat_ofNat, Nat.mod_eq_of_lt hlt]
  apply BitVec.eq_of_toNat_eq
  rw [nextWidth_toNat (htoNat.trans hw), htoNat, BitVec.toNat_ofNat]

/-- **The loop from the width `w` on**, which `2 ^ k` divides: it is left within as many rounds as
powers of two are missing to the alignment, before `w` passes the multiple `m` of it. -/
theorem alignLoop_from {f : PixelFormat} {pixFmt : ℤ} {strideAlign : ℕ → ℤ}
    (hstride : PowersOfTwo strideAlign) {a m : ℕ} (ha : f.alignment strideAlign = 2 ^ a)
    (hm : 2 ^ a ∣ m) (hint : m < 2 ^ 31) (hfills : L.Fills pixFmt f m) {rounds k : ℕ} (hk : k ≤ a)
    (hrounds : a < rounds + k) {w : ℕ} (hpos : 0 < w) (hw : 2 ^ k ∣ w) (hle : w ≤ m) :
    ∃ w', w ≤ w' ∧ w' ≤ m ∧
      f.LeavesAt strideAlign w' (alignLoop L pixFmt strideAlign rounds (BitVec.ofNat 32 w)) := by
  induction rounds generalizing k w with
  | zero => omega
  | succ rounds ih =>
    obtain ⟨hret, hlinesize⟩ := hfills w hpos hle
    have htoNat : (BitVec.ofNat 32 w).toNat = w := by
      rw [BitVec.toNat_ofNat, Nat.mod_eq_of_lt (by omega)]
    have htoInt : (BitVec.ofNat 32 w).toInt = w := by
      rw [BitVec.toInt_eq_toNat_of_lt (by omega), htoNat]
    rw [alignLoop_succ, htoInt]
    rcases hfill : L.fillLinesizes pixFmt w with ⟨ret, linesize⟩
    rw [hfill] at hret hlinesize
    dsimp only at hret hlinesize ⊢
    rw [if_neg (by omega)]
    cases hunaligned : unaligned linesize strideAlign with
    | false =>
      exact ⟨w, le_rfl, hle, ret, linesize, rfl, hret, hlinesize,
        unaligned_eq_false_iff.mp hunaligned⟩
    | true =>
      -- the alignment does not divide `w`, so its lowest bit can be added
      have hnot : ¬ 2 ^ a ∣ w := by
        intro hdvd
        have haligned : ∀ i < 4, strideAlign i ∣ linesize i := by
          intro i hi
          rw [hlinesize i hi]
          exact PixelFormat.dvd_linesize hstride (ha ▸ hdvd) hi
        rw [unaligned_eq_false_iff.mpr haligned] at hunaligned
        cases hunaligned
      obtain ⟨t, q, ht⟩ := exists_odd_mul hpos
      have hkt : k ≤ t := le_of_two_pow_dvd (ht ▸ hw)
      have hta : t < a := by
        by_contra hat
        exact hnot (ht ▸ (Nat.pow_dvd_pow 2 (by omega)).mul_right _)
      have hnext : w + 2 ^ t ≤ m := by
        rw [ht] at hle ⊢
        exact add_two_pow_le hta hm hle
      have hsum : w + 2 ^ t = 2 ^ (t + 1) * (q + 1) := by
        rw [ht, ← Nat.mul_succ, Nat.pow_succ, Nat.mul_assoc]
        rfl
      have hgrows : 0 < 2 ^ t := Nat.two_pow_pos t
      rw [if_pos rfl, nextWidth_ofNat (by omega) ht]
      obtain ⟨w', hge, hle', hleaves⟩ := ih (k := t + 1) hta (by omega) (by omega)
        (hsum ▸ Nat.dvd_mul_right _ _) hnext
      exact ⟨w', by omega, hle', hleaves⟩

/-- **The width.** From every positive width that stays an `int` when it is rounded up to a multiple
of the alignment, the loop is left, with the aligned line sizes of a width that is not below the
first one, and not above that one rounded up. -/
theorem alignLoop_width {f : PixelFormat} {pixFmt : ℤ} {strideAlign : ℕ → ℤ}
    (hstride : PowersOfTwo strideAlign) {w : ℕ} (hpos : 0 < w)
    (hint : roundUp w (f.alignment strideAlign) < 2 ^ 31)
    (hfills : L.Fills pixFmt f (roundUp w (f.alignment strideAlign))) :
    ∃ w', w ≤ w' ∧ w' ≤ roundUp w (f.alignment strideAlign) ∧
      f.LeavesAt strideAlign w'
        (alignLoop L pixFmt strideAlign alignRounds (BitVec.ofNat 32 w)) := by
  obtain ⟨a, ha⟩ := f.alignment_eq hstride
  have hdvd := dvd_roundUp w (f.alignment strideAlign)
  have hle := le_roundUp (ha ▸ Nat.two_pow_pos a) w
  have ha31 : a < 31 := by
    have hpow : 2 ^ a < 2 ^ 31 := ha ▸ (Nat.le_of_dvd (by omega) hdvd).trans_lt hint
    exact (Nat.pow_lt_pow_iff_right (by decide)).mp hpow
  exact alignLoop_from hstride ha (ha ▸ hdvd) hint hfills (Nat.zero_le a)
    (by simp only [alignRounds]; omega) hpos (one_dvd w) hle

/-- Gray pictures of one byte a pixel. -/
def gray : PixelFormat := ⟨1, fun _ => 1, fun _ => 0, false, by decide, by decide⟩

/-- The geometry of gray pictures. -/
def grayLib : ImageLib Unit where
  alignDimensions2 _ _ width height := ⟨width, height, fun _ => 16⟩
  fillLinesizes _ width := (0, fun i => if i = 0 then width else 0)
  fillPointers _ height linesize := (linesize 0 * height, fun _ => 0)
  paletted _ := false

theorem grayLib_fills (bound : ℕ) : grayLib.Fills 8 gray bound := by
  intro w _ _
  refine ⟨le_rfl, fun i _ => ?_⟩
  by_cases hi : i = 0
  · simp [grayLib, PixelFormat.linesize, gray, hi]
  · simp [grayLib, PixelFormat.linesize, gray, hi]

/-- A gray line of 20 pixels, aligned to 16 bytes. -/
theorem alignLoop_width_gray :
    ∃ w', 20 ≤ w' ∧ w' ≤ roundUp 20 (gray.alignment fun _ => 16) ∧
      gray.LeavesAt (fun _ => 16) w'
        (alignLoop grayLib 8 (fun _ => 16) alignRounds (BitVec.ofNat 32 20)) :=
  alignLoop_width (fun i _ => ⟨4, rfl⟩) (by decide) (by decide) (grayLib_fills _)

/-- A gray line of 16 pixels is aligned at once, and the width still doubled: at the exit of the
loop `w` itself need not stay below the first width rounded up. -/
theorem not_alignLoop_exit_le :
    ¬ ∀ (L : ImageLib Unit) (f : PixelFormat) (pixFmt : ℤ) (strideAlign : ℕ → ℤ) (w : ℕ),
      PowersOfTwo strideAlign → 0 < w → roundUp w (f.alignment strideAlign) < 2 ^ 31 →
        L.Fills pixFmt f (roundUp w (f.alignment strideAlign)) →
          ∃ ret linesize w', alignLoop L pixFmt strideAlign alignRounds (BitVec.ofNat 32 w)
              = some (ret, linesize, w') ∧ (∀ i < 4, strideAlign i ∣ linesize i) ∧
            (w : ℤ) ≤ w'.toInt ∧ w'.toInt ≤ roundUp w (f.alignment strideAlign) := by
  intro hall
  obtain ⟨ret, linesize, w', hout, -, -, hle⟩ := hall grayLib gray 8 (fun _ => 16) 16
    (fun i _ => ⟨4, rfl⟩) (by decide) (by decide) (grayLib_fills _)
  have hexit : (alignLoop grayLib 8 (fun _ => 16) alignRounds (BitVec.ofNat 32 16)).map
      (fun out => out.2.2) = some 32 := by decide
  rw [hout] at hexit
  obtain rfl : w' = 32 := Option.some.inj hexit
  revert hle
  decide

end FfTest
