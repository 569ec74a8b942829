import FfTest.Files.MFile
import FfTest.Foundations.ByteMemory
import FfTest.FrameBuffers.FramePool
import Mathlib.Algebra.Order.Ring.Int

/-! # `on_recv_frame`

The callback of the decoder writes the luma plane of every frame to the output file: in one write
where the lines have no padding, and otherwise line by line, counted by a 16-bit counter.
`Writable` says for which frames the arithmetic holds out; for them, and for no others, the callback
returns and has appended the plane (`writesLuma_iff`). -/

namespace FfTest.Files

/-- The product of two `int`s, or `none` where it is no `int` and the behaviour is undefined. -/
def intMul (a b : ℤ) : Option ℤ :=
  if -2 ^ 31 ≤ a * b ∧ a * b < 2 ^ 31 then some (a * b) else none

/-- The bytes at `count` addresses from `src` on. -/
def bytesAt (mem : ℤ → Byte) (src : ℤ) (count : ℕ) : List Byte :=
  (List.range count).map fun k : ℕ => mem (src + k)

/-- `MFile::write` to a file with this content, where `write` of the system is complete. -/
def MFile.write (mem : ℤ → Byte) (src : ℤ) (count : BitVec 32) (content : List Byte) : List Byte :=
  content ++ bytesAt mem src count.toNat

/-- What comes of a call of `on_recv_frame`. -/
inductive RecvEnd
  /-- It returns, with this content in the file. -/
  | returned (ret : ℤ) (content : List Byte)
  /-- A product of two `int`s is no `int`. -/
  | overflow
  deriving DecidableEq

/-- The loop over the lines from `i` on, for so many rounds; it is `none` when they do not suffice.
The counter is a `uint16_t`, and is compared as an `int`. -/
def rowLoop (mem : ℤ → Byte) (frame : AVFrame) : ℕ → BitVec 16 → List Byte → Option RecvEnd
  | 0, _, _ => none
  | fuel + 1, i, content =>
    if i.toNat < frame.height then
      match intMul i.toNat (frame.linesize 0) with
      | none => some .overflow
      | some offset =>
        rowLoop mem frame fuel (i + 1)
          (MFile.write mem (frame.data 0 + offset) (BitVec.ofInt 32 frame.width) content)
    else some (.returned 0 content)

/-- `on_recv_frame`, with `m_fdout` of the task (`none` for `NULL`), the bytes in memory, the frame
and the content of the output file. -/
def onRecvFrame (mem : ℤ → Byte) (fdout : Option MFile) (frame : AVFrame) (fuel : ℕ)
    (content : List Byte) : Option RecvEnd :=
  match fdout with
  | none => some (.returned 0 content)
  | some f =>
    if f.isOpen = false then some (.returned 0 content)
    else if frame.width = frame.linesize 0 then
      match intMul frame.width frame.height with
      | none => some .overflow
      | some count =>
        some (.returned 0 (MFile.write mem (frame.data 0) (BitVec.ofInt 32 count) content))
    else rowLoop mem frame fuel 0 content

/-! ## The luma plane -/

/-- The pixels of row `r` of the luma plane. -/
def lumaRow (mem : ℤ → Byte) (frame : AVFrame) (r : ℕ) : List Byte :=
  bytesAt mem (frame.data 0 + r * frame.linesize 0) frame.width.toNat

/-- The luma plane, row by row. -/
def luma (mem : ℤ → Byte) (frame : AVFrame) : List Byte :=
  (List.range frame.height.toNat).flatMap (lumaRow mem frame)

/-- On the open file `f` the callback returns, and has appended the luma plane. -/
def WritesLuma (mem : ℤ → Byte) (f : MFile) (frame : AVFrame) : Prop :=
  ∀ content, ∃ fuel,
    onRecvFrame mem (some f) frame fuel content = some (.returned 0 (content ++ luma mem frame))

/-- The arithmetic holds out. Without padding the size of the plane is an `int`; with padding the
counter reaches the height, and the offsets of all rows are `int`s. -/
def Writable (frame : AVFrame) : Prop :=
  if frame.width = frame.linesize 0 then frame.width * frame.height < 2 ^ 31
  else frame.height < 2 ^ 16 ∧ ∀ r : ℕ, r < frame.height →
    -2 ^ 31 ≤ r * frame.linesize 0 ∧ r * frame.linesize 0 < 2 ^ 31

/-- Two frames show the same luma pixels. -/
def SameLuma (mem mem' : ℤ → Byte) (frame frame' : AVFrame) : Prop :=
  frame.width = frame'.width ∧ frame.height = frame'.height ∧
    ∀ r k : ℕ, r < frame.height → k < frame.width →
      mem (frame.data 0 + r * frame.linesize 0 + k)
        = mem' (frame'.data 0 + r * frame'.linesize 0 + k)

/-- The plane consists of the pixels that are shown, wherever they lie in memory. -/
theorem luma_congr {mem mem' : ℤ → Byte} {frame frame' : AVFrame}
    (h : SameLuma mem mem' frame frame') : luma mem frame = luma mem' frame' := by
  obtain ⟨hwidth, hheight, hpixel⟩ := h
  unfold luma
  rw [← hheight]
  apply List.flatMap_congr
  intro r hr
  unfold lumaRow bytesAt
  rw [← hwidth]
  apply List.map_congr_left
  intro k hk
  rw [List.mem_range] at hr hk
  exact hpixel r k (by omega) (by omega)

/-! ## Arithmetic -/

theorem intMul_eq_some_iff {a b c : ℤ} :
    intMul a b = some c ↔ (-2 ^ 31 ≤ a * b ∧ a * b < 2 ^ 31) ∧ a * b = c := by
  unfold intMul
  by_cases hfits : -2 ^ 31 ≤ a * b ∧ a * b < 2 ^ 31
  · rw [if_pos hfits, Option.some_inj, and_iff_right hfits]
  · rw [if_neg hfits]
    exact iff_of_false (by simp) fun h => hfits h.1

/-- A number of bytes that is not negative is passed on to `write`. -/
theorem toNat_ofInt {n : ℤ} (hn : 0 ≤ n) (hlt : n < 2 ^ 31) :
    (BitVec.ofInt 32 n).toNat = n.toNat := by
  rw [BitVec.toNat_ofInt]
  omega

/-- Bytes in a row can be read in two parts. -/
theorem bytesAt_add (mem : ℤ → Byte) (src : ℤ) (m n : ℕ) :
    bytesAt mem src (m + n) = bytesAt mem src m ++ bytesAt mem (src + m) n := by
  unfold bytesAt
  rw [List.range_add, List.map_append, List.map_map]
  congr 1
  apply List.map_congr_left
  intro k _
  show mem (src + (m + k : ℕ)) = mem (src + m + k)
  rw [Int.natCast_add, Int.add_assoc]

/-- Lines without padding lie one behind the other. -/
theorem bytesAt_mul (mem : ℤ → Byte) (src : ℤ) (width height : ℕ) :
    bytesAt mem src (width * height)
      = (List.range height).flatMap fun r : ℕ => bytesAt mem (src + r * width) width := by
  induction height with
  | zero => rfl
  | succ height ih =>
    rw [Nat.mul_succ, bytesAt_add, ih, List.range_succ, List.flatMap_append,
      List.flatMap_singleton, Int.natCast_mul, Int.mul_comm (width : ℤ)]

/-- The luma plane without padding. -/
theorem luma_of_unpadded (mem : ℤ → Byte) {frame : AVFrame} (hwidth : 0 ≤ frame.width)
    (hheight : 0 ≤ frame.height) (hunpadded : frame.width = frame.linesize 0) :
    luma mem frame = bytesAt mem (frame.data 0) (frame.width * frame.height).toNat := by
  obtain ⟨width, hw⟩ := Int.eq_ofNat_of_zero_le hwidth
  obtain ⟨height, hh⟩ := Int.eq_ofNat_of_zero_le hheight
  unfold luma lumaRow
  rw [← hunpadded, hw, hh, ← Int.natCast_mul, Int.toNat_natCast, Int.toNat_natCast,
    Int.toNat_natCast]
  exact (bytesAt_mul mem _ width height).symm

/-! ## The loop -/

/-- **The loop over the rows** writes those that are left, within as many rounds and one more. -/
theorem rowLoop_done {mem : ℤ → Byte} {frame : AVFrame} (hwidth : 0 ≤ frame.width)
    (hwidth' : frame.width < 2 ^ 31) (hheight : frame.height < 2 ^ 16)
    (hoffset : ∀ r : ℕ, r < frame.height →
      -2 ^ 31 ≤ r * frame.linesize 0 ∧ r * frame.linesize 0 < 2 ^ 31)
    {n i : ℕ} (hi : i + n = frame.height.toNat) (content : List Byte) :
    rowLoop mem frame (n + 1) (BitVec.ofNat 16 i) content
      = some (.returned 0 (content ++ (List.range' i n).flatMap (lumaRow mem frame))) := by
  have htoNat : (BitVec.ofNat 16 i).toNat = i := by
    rw [BitVec.toNat_ofNat, Nat.mod_eq_of_lt (by omega)]
  rw [rowLoop, htoNat]
  induction n generalizing i content with
  | zero =>
    rw [if_neg (by omega)]
    simp
  | succ n ih =>
    have hlt : i < frame.height := by omega
    have hmul := intMul_eq_some_iff.mpr ⟨hoffset i hlt, rfl⟩
    have hnext : BitVec.ofNat 16 i + 1 = BitVec.ofNat 16 (i + 1) := (BitVec.ofNat_add i 1).symm
    have htoNat' : (BitVec.ofNat 16 (i + 1)).toNat = i + 1 := by
      rw [BitVec.toNat_ofNat, Nat.mod_eq_of_lt (by omega)]
    rw [if_pos hlt, hmul, hnext]
    dsimp only
    rw [rowLoop, htoNat', ih (by omega) _ htoNat', List.range'_succ, List.flatMap_cons,
      MFile.write, toNat_ofInt hwidth hwidth', List.append_assoc]
    rfl

/-- A loop that is left has counted up to the height, and every offset was an `int`. -/
theorem rowLoop_returned {mem : ℤ → Byte} {frame : AVFrame} {fuel : ℕ} {i : BitVec 16}
    {content out : List Byte} {ret : ℤ}
    (h : rowLoop mem frame fuel i content = some (.returned ret out)) :
    frame.height < 2 ^ 16 ∧ ∀ r : ℕ, i.toNat ≤ r → r < frame.height →
      -2 ^ 31 ≤ r * frame.linesize 0 ∧ r * frame.linesize 0 < 2 ^ 31 := by
  induction fuel generalizing i content with
  | zero => cases h
  | succ fuel ih =>
    have hi := i.isLt
    rw [rowLoop] at h
    by_cases hlt : (i.toNat : ℤ) < frame.height
    · rw [if_pos hlt] at h
      cases hmul : intMul i.toNat (frame.linesize 0) with
      | none =>
        rw [hmul] at h
        cases h
      | some offset =>
        rw [hmul] at h
        obtain ⟨hheight, hrows⟩ := ih h
        -- below the height the counter does not wrap
        have hnext : (i + 1).toNat = i.toNat + 1 := by
          rw [BitVec.toNat_add, Nat.mod_eq_of_lt (by simp; omega)]
          rfl
        refine ⟨hheight, fun r hr hlt => ?_⟩
        rcases Nat.eq_or_lt_of_le hr with rfl | hr
        · exact (intMul_eq_some_iff.mp hmul).1
        · exact hrows r (by omega) hlt
    · exact ⟨by omega, fun r hr hlt' => by omega⟩

/-! ## The callback -/

/-- **Which planes are written.** For every frame whose width is an `int` that is not negative, and
an open output file: `on_recv_frame` returns and has appended the luma plane iff the arithmetic
holds out. What it appends are the pixels shown, with padding or without. -/
theorem writesLuma_iff {mem : ℤ → Byte} {f : MFile} (hopen : f.isOpen = true) {frame : AVFrame}
    (hwidth : 0 ≤ frame.width) (hwidth' : frame.width < 2 ^ 31) (hheight : 0 ≤ frame.height) :
    (WritesLuma mem f frame ↔ Writable frame) ∧
      ∀ mem' frame', SameLuma mem mem' frame frame' → luma mem frame = luma mem' frame' := by
  refine ⟨?_, fun mem' frame' => luma_congr⟩
  unfold WritesLuma onRecvFrame Writable
  simp only [hopen, Bool.true_eq_false, if_false]
  -- one `write` of the whole plane, or one for each line
  by_cases hunpadded : frame.width = frame.linesize 0
  · simp only [if_pos hunpadded]
    have hnonneg : 0 ≤ frame.width * frame.height := Int.mul_nonneg hwidth hheight
    constructor
    · intro hwrites
      obtain ⟨fuel, hret⟩ := hwrites []
      cases hmul : intMul frame.width frame.height with
      | none =>
        rw [hmul] at hret
        cases hret
      | some count => exact (intMul_eq_some_iff.mp hmul).1.2
    · intro hlt content
      have hmul := intMul_eq_some_iff.mpr ⟨⟨by omega, hlt⟩, rfl⟩
      refine ⟨0, ?_⟩
      rw [hmul, luma_of_unpadded mem hwidth hheight hunpadded, ← toNat_ofInt hnonneg hlt]
      rfl
  · simp only [if_neg hunpadded]
    constructor
    · intro hwrites
      obtain ⟨fuel, hret⟩ := hwrites []
      obtain ⟨hlt, hrows⟩ := rowLoop_returned hret
      exact ⟨hlt, fun r hr => hrows r (Nat.zero_le r) hr⟩
    · rintro ⟨hlt, hrows⟩ content
      refine ⟨frame.height.toNat + 1, ?_⟩
      have hdone : rowLoop mem frame (frame.height.toNat + 1) (BitVec.ofNat 16 0) content = _ :=
        rowLoop_done hwidth hwidth' hlt hrows (Nat.zero_add _) content
      rw [← List.range_eq_range'] at hdone
      exact hdone

/-- A frame with 16 pixels in a line of 32 bytes. -/
def paddedFrame (height : ℤ) : AVFrame :=
  ⟨0, 16, height, fun _ => 4096, fun _ => 32, fun _ => none⟩

/-- The output file. -/
def outputFile : MFile := ⟨3, "", 0⟩

/-- A picture of 16 by 1080 pixels is written. -/
theorem writesLuma_padded : WritesLuma (fun _ => 0) outputFile (paddedFrame 1080) := by
  refine (writesLuma_iff rfl (by decide) (by decide) (by decide)).1.mpr ?_
  refine ⟨by decide, fun r hr => ?_⟩
  show -2 ^ 31 ≤ (r : ℤ) * 32 ∧ (r : ℤ) * 32 < 2 ^ 31
  change (r : ℤ) < 1080 at hr
  omega

/-- With 65536 lines the counter never reaches the height: the callback does not return, and not
every plane is written. -/
theorem not_writesLuma :
    ¬ ∀ (mem : ℤ → Byte) (f : MFile) (frame : AVFrame), f.isOpen = true → 0 ≤ frame.width →
      frame.width < 2 ^ 31 → 0 ≤ frame.height → frame.height < 2 ^ 31 →
        frame.width ≤ (frame.linesize 0).natAbs → WritesLuma mem f frame := by
  intro hall
  obtain ⟨fuel, hret⟩ := hall (fun _ => 0) outputFile (paddedFrame 65536) rfl (by decide)
    (by decide) (by decide) (by decide) (by decide) []
  have hloop : rowLoop (fun _ => 0) (paddedFrame 65536) fuel 0 [] = some (.returned 0 _) := hret
  exact absurd (rowLoop_returned hloop).1 (by decide)

end FfTest.Files
