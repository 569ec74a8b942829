import FfTest.FrameBuffers.AlignLoop
import FfTest.FrameBuffers.Session
import Mathlib.Algebra.BigOperators.Intervals
import Mathlib.Algebra.Order.BigOperators.Group.Finset
import Mathlib.Algebra.Order.Ring.Int

/-! # The layout that `update_frame_pool` caches

`LaidOut` says what a layout of planes is; `ImageLib.Contract` is what the library promises about
the layouts it computes. The plane sizes that the code reads off the addresses are then those of the
planes (`fillSizes_eq`), and `PoolEffect` says what a call of `update_frame_pool` does to the cache:
it keeps it, replaces it by a fresh one, or fails and keeps all but the stride alignments. -/

namespace FfTest

open Finset

variable {κ : Type*} {L : ImageLib κ}

/-! ## Layouts of planes -/

/-- `n` planes of these sizes lie one behind the other, at the addresses `data` from 0 on; together
they take `tmpsize` bytes, an `int`, and each holds its rows. -/
structure LaidOut (linesize rows : ℕ → ℤ) (tmpsize : ℤ) (data : ℕ → ℤ) (n : ℕ) (sizes : ℕ → ℤ) :
    Prop where
  /-- There is a plane. -/
  pos_planes : 0 < n
  /-- There are four at most. -/
  planes_le : n ≤ 4
  /-- No plane is empty. -/
  pos : ∀ i < n, 0 < sizes i
  /-- Each plane starts where the one before it ends. -/
  data_eq : ∀ i < n, data i = ∑ j ∈ range i, sizes j
  /-- The other addresses are `NULL`. -/
  absent : ∀ i, n ≤ i → i < 4 → data i = 0
  /-- The planes make up the image. -/
  total : tmpsize = ∑ j ∈ range n, sizes j
  /-- The total is an `int`. -/
  total_lt : tmpsize < 2 ^ 31
  /-- A plane holds its rows. -/
  rows_le : ∀ i < n, linesize i * rows i ≤ sizes i

/-- What the library promises about the geometry of images, with `rows pixFmt height` the number of
rows of each plane. -/
structure ImageLib.Contract (L : ImageLib κ) (rows : ℤ → ℤ → ℕ → ℤ) : Prop where
  /-- Positive dimensions stay positive when they are aligned, and are values of `int`. -/
  aligned : ∀ codec pixFmt width height, 0 < width → 0 < height →
    0 < (L.alignDimensions2 codec pixFmt width height).width ∧
      (L.alignDimensions2 codec pixFmt width height).width < 2 ^ 31 ∧
      0 < (L.alignDimensions2 codec pixFmt width height).height
  /-- A negative width is refused. -/
  negative : ∀ pixFmt width, width < 0 → (L.fillLinesizes pixFmt width).1 < 0
  /-- The planes of an image of positive dimensions are laid out. -/
  planes : ∀ pixFmt width height, 0 < width → 0 < height →
    0 ≤ (L.fillLinesizes pixFmt width).1 →
    0 ≤ (L.fillPointers pixFmt height (L.fillLinesizes pixFmt width).2).1 →
      ∃ n sizes, LaidOut (L.fillLinesizes pixFmt width).2 (rows pixFmt height)
        (L.fillPointers pixFmt height (L.fillLinesizes pixFmt width).2).1
        (L.fillPointers pixFmt height (L.fillLinesizes pixFmt width).2).2 n sizes

namespace LaidOut

variable {linesize rows : ℕ → ℤ} {tmpsize : ℤ} {data : ℕ → ℤ} {n : ℕ} {sizes : ℕ → ℤ}

/-- The planes below `i` take no more than all planes. -/
theorem sum_le (h : LaidOut linesize rows tmpsize data n sizes) {i : ℕ} (hi : i ≤ n) :
    ∑ j ∈ range i, sizes j ≤ tmpsize := by
  rw [h.total]
  -- the planes left out only take more
  apply sum_le_sum_of_subset_of_nonneg
  · intro j hj
    rw [mem_range] at hj ⊢
    omega
  · intro j hj _
    exact (h.pos j (mem_range.mp hj)).le

/-- The planes below `i` take some room, if there are any. -/
theorem sum_pos (h : LaidOut linesize rows tmpsize data n sizes) {i : ℕ} (hi : i < n) :
    0 < ∑ j ∈ range (i + 1), sizes j := by
  apply Finset.sum_pos
  · intro j hj
    rw [mem_range] at hj
    exact h.pos j (by omega)
  · exact ⟨i, mem_range.mpr (Nat.lt_succ_self i)⟩

/-- A size of a plane is an `int`. -/
theorem toInt_size (h : LaidOut linesize rows tmpsize data n sizes) {i : ℕ} (hi : i < n) :
    toInt (sizes i) = sizes i := by
  have hpos := h.pos i hi
  have hsum := h.sum_le (Nat.succ_le_of_lt hi)
  have htotal := h.total_lt
  have hbefore : 0 ≤ ∑ j ∈ range i, sizes j := by
    apply sum_nonneg
    intro j hj
    rw [mem_range] at hj
    exact (h.pos j (by omega)).le
  rw [sum_range_succ] at hsum
  apply BitVec.toInt_ofInt_eq_self (by omega)
  · omega
  · omega

/-- **The plane sizes** read off the addresses are those of the planes, and 0 behind them. -/
theorem fillSizes_from (h : LaidOut linesize rows tmpsize data n sizes) (i : ℕ) (hi : i < n) :
    fillSizes data tmpsize i (fun j => if j < i then sizes j else 0)
      = fun j => if j < n then sizes j else 0 := by
  have hle := h.planes_le
  obtain ⟨k, hk⟩ : ∃ k, n - i = k := ⟨_, rfl⟩
  -- on the planes that are left
  induction k generalizing i with
  | zero => omega
  | succ k ih =>
    have hdata := h.data_eq i hi
    rw [fillSizes]
    by_cases hnext : i + 1 < n
    · -- the next plane starts behind this one
      have hstart := h.data_eq (i + 1) hnext
      have hpos := h.sum_pos hi
      have hdiff : data (i + 1) - data i = sizes i := by
        rw [hstart, hdata, sum_range_succ]
        omega
      rw [if_pos ⟨by omega, by rw [hstart]; exact ne_of_gt hpos⟩, hdiff, h.toInt_size hi,
        update_ite_lt sizes (fun _ => 0) i]
      exact ih (i + 1) hnext (by omega)
    · -- the last plane takes what is left of the image
      obtain rfl : n = i + 1 := by omega
      have hzero : data 0 = 0 := by
        rw [h.data_eq 0 h.pos_planes]
        rfl
      have hdiff : tmpsize - (data i - data 0) = sizes i := by
        rw [h.total, hdata, hzero, sum_range_succ]
        omega
      have hstop : ¬ (i < 3 ∧ data (i + 1) ≠ 0) := by
        rintro ⟨hlt, hne⟩
        exact hne (h.absent (i + 1) le_rfl (by omega))
      rw [if_neg hstop, hdiff, h.toInt_size hi, update_ite_lt sizes (fun _ => 0) i]

/-- The plane sizes, as `update_frame_pool` computes them. -/
theorem fillSizes_eq (h : LaidOut linesize rows tmpsize data n sizes) :
    fillSizes data tmpsize 0 (fun _ => 0) = fun j => if j < n then sizes j else 0 :=
  h.fillSizes_from 0 h.pos_planes

end LaidOut

/-! ## The alignment loop -/

/-- **The alignment loop.** Where it is left without an error, the line sizes are those of a
positive width, and aligned. -/
theorem alignLoop_ok {rows : ℤ → ℤ → ℕ → ℤ} (K : L.Contract rows) {pixFmt : ℤ}
    {strideAlign : ℕ → ℤ} {rounds : ℕ} {w : BitVec 32} (hw : w ≠ 0) {ret : ℤ} {linesize : ℕ → ℤ}
    {w' : BitVec 32} (h : alignLoop L pixFmt strideAlign rounds w = some (ret, linesize, w'))
    (hret : 0 ≤ ret) :
    (∃ width, 0 < width ∧ L.fillLinesizes pixFmt width = (ret, linesize)) ∧
      unaligned linesize strideAlign = false := by
  induction rounds generalizing w with
  | zero => cases h
  | succ rounds ih =>
    rcases hfill : L.fillLinesizes pixFmt w.toInt with ⟨ret₀, linesize₀⟩
    rw [alignLoop, hfill] at h
    simp only at h
    by_cases hneg : ret₀ < 0
    · rw [if_pos hneg] at h
      cases h
      omega
    · -- a negative width would have been refused, and 0 never comes up
      have hpos : 0 < w.toInt := by
        have hnonneg : 0 ≤ w.toInt := by
          by_contra hlt
          have hrefused := K.negative pixFmt w.toInt (by omega)
          rw [hfill] at hrefused
          exact hneg hrefused
        have hne : w.toInt ≠ 0 := by
          intro hzero
          exact hw (BitVec.eq_of_toInt_eq (by rw [hzero]; rfl))
        omega
      rw [if_neg hneg] at h
      by_cases hunaligned : unaligned linesize₀ strideAlign = true
      · rw [if_pos hunaligned] at h
        exact ih (nextWidth_ne_zero hpos) h
      · rw [if_neg hunaligned] at h
        cases h
        exact ⟨⟨w.toInt, hpos, hfill⟩, Bool.not_eq_true _ ▸ hunaligned⟩

/-! ## `update_frame_pool` -/

/-- The cache of a decoder that has not asked for a frame yet. -/
def FrameCache.zero : FrameCache := ⟨fun _ => 0, .zero⟩

/-- The cache holds the layout of the image: it is filled, and its key is the image's. -/
def FrameCache.Hit (c : FrameCache) (frame : AVFrame) : Prop :=
  c.pool.format = frame.format ∧ c.pool.width = frame.width ∧ c.pool.height = frame.height

/-- What a call of `update_frame_pool` does to the cache `c`. -/
inductive PoolEffect (L : ImageLib κ) (avctx : AVCodecContext κ) (frame : AVFrame)
    (c : FrameCache) : ℤ → FrameCache → Prop
  /-- The cached layout is kept. -/
  | hit (video : avctx.isVideo = true) (key : c.Hit frame) : PoolEffect L avctx frame c 0 c
  /-- The layout is computed as on an empty cache. -/
  | recomputed {c' : FrameCache}
      (fresh : updateFramePool L avctx frame .zero = some (0, c')) (key : c'.Hit frame) :
      PoolEffect L avctx frame c 0 c'
  /-- A call that fails keeps all but the stride alignments. -/
  | failed {ret : ℤ} (neg : ret < 0) (strideAlign : ℕ → ℤ) :
      PoolEffect L avctx frame c ret { c with pool.strideAlign := strideAlign }

/-- `update_frame_pool` from the end of the alignment loop on. -/
def storeLayout (L : ImageLib κ) (avctx : AVCodecContext κ) (frame : AVFrame) (height : ℤ)
    (c : FrameCache) : Option (ℤ × (ℕ → ℤ) × BitVec 32) → Option (ℤ × FrameCache)
  | none => none
  | some (ret, linesize, _) =>
    if ret < 0 then some (ret, c)
    else
      if (L.fillPointers avctx.pixFmt height linesize).1 < 0 then some (-1, c)
      else
        some (0, ⟨fillSizes (L.fillPointers avctx.pixFmt height linesize).2
            (L.fillPointers avctx.pixFmt height linesize).1 0 fun _ => 0,
          ⟨frame.format, frame.width, frame.height, c.pool.strideAlign, linesize⟩⟩)

/-- The cache that holds a computed layout. -/
def storedLayout (L : ImageLib κ) (avctx : AVCodecContext κ) (frame : AVFrame) (height : ℤ)
    (strideAlign linesize : ℕ → ℤ) : FrameCache :=
  ⟨fillSizes (L.fillPointers avctx.pixFmt height linesize).2
    (L.fillPointers avctx.pixFmt height linesize).1 0 fun _ => 0,
    ⟨frame.format, frame.width, frame.height, strideAlign, linesize⟩⟩

/-- The end of `update_frame_pool` fails, or stores the layout. -/
theorem storeLayout_cases {avctx : AVCodecContext κ} {frame : AVFrame} {height : ℤ}
    {c c' : FrameCache} {out : Option (ℤ × (ℕ → ℤ) × BitVec 32)} {ret : ℤ}
    (h : storeLayout L avctx frame height c out = some (ret, c')) :
    (ret < 0 ∧ c' = c) ∨
    (ret = 0 ∧ ∃ ret₀ linesize w, out = some (ret₀, linesize, w) ∧ 0 ≤ ret₀ ∧
      0 ≤ (L.fillPointers avctx.pixFmt height linesize).1 ∧
      c' = storedLayout L avctx frame height c.pool.strideAlign linesize) := by
  match out with
  | none => cases h
  | some (ret₀, linesize, w) =>
    simp only [storeLayout] at h
    by_cases hret : ret₀ < 0
    · rw [if_pos hret] at h
      cases h
      exact .inl ⟨hret, rfl⟩
    rw [if_neg hret] at h
    by_cases htmp : (L.fillPointers avctx.pixFmt height linesize).1 < 0
    · rw [if_pos htmp] at h
      cases h
      exact .inl ⟨by decide, rfl⟩
    rw [if_neg htmp] at h
    cases h
    exact .inr ⟨rfl, ret₀, linesize, w, rfl, by omega, by omega, rfl⟩

/-- The end of `update_frame_pool`, where nothing fails. -/
theorem storeLayout_ok {avctx : AVCodecContext κ} {frame : AVFrame} {height : ℤ}
    (c : FrameCache) {ret₀ : ℤ} {linesize : ℕ → ℤ} (w : BitVec 32) (hret : 0 ≤ ret₀)
    (htmp : 0 ≤ (L.fillPointers avctx.pixFmt height linesize).1) :
    storeLayout L avctx frame height c (some (ret₀, linesize, w))
      = some (0, storedLayout L avctx frame height c.pool.strideAlign linesize) := by
  simp only [storeLayout]
  rw [if_neg (by omega), if_neg (by omega)]
  rfl

/-- `update_frame_pool` where the cache does not hold the layout. -/
theorem updateFramePool_miss {avctx : AVCodecContext κ} {frame : AVFrame} {c : FrameCache}
    (video : avctx.isVideo = true) (miss : ¬ c.Hit frame) :
    updateFramePool L avctx frame c =
      let a := L.alignDimensions2 avctx.codec avctx.pixFmt frame.width frame.height
      storeLayout L avctx frame a.height { c with pool.strideAlign := a.strideAlign }
        (alignLoop L avctx.pixFmt a.strideAlign alignRounds (BitVec.ofInt 32 a.width)) := by
  unfold updateFramePool
  rw [if_neg (by rw [video]; decide)]
  refine (if_neg miss).trans ?_
  dsimp only
  cases alignLoop L avctx.pixFmt
    (L.alignDimensions2 avctx.codec avctx.pixFmt frame.width frame.height).strideAlign alignRounds
    (BitVec.ofInt 32 (L.alignDimensions2 avctx.codec avctx.pixFmt frame.width frame.height).width)
    with
  | none => rfl
  | some out => rfl

/-- The ways through `update_frame_pool`: no video, a layout that is cached, or one that is
computed. -/
theorem updateFramePool_cases {avctx : AVCodecContext κ} {frame : AVFrame} {c c' : FrameCache}
    {ret : ℤ} (h : updateFramePool L avctx frame c = some (ret, c')) :
    (avctx.isVideo = false ∧ ret = -1 ∧ c' = c) ∨
    (avctx.isVideo = true ∧ c.Hit frame ∧ ret = 0 ∧ c' = c) ∨
    (avctx.isVideo = true ∧ ¬ c.Hit frame ∧
      let a := L.alignDimensions2 avctx.codec avctx.pixFmt frame.width frame.height
      storeLayout L avctx frame a.height { c with pool.strideAlign := a.strideAlign }
        (alignLoop L avctx.pixFmt a.strideAlign alignRounds (BitVec.ofInt 32 a.width))
          = some (ret, c')) := by
  cases hvideo : avctx.isVideo with
  | false =>
    unfold updateFramePool at h
    rw [if_pos hvideo] at h
    cases h
    exact .inl ⟨rfl, rfl, rfl⟩
  | true =>
    by_cases hkey : c.Hit frame
    · unfold updateFramePool at h
      rw [if_neg (by rw [hvideo]; decide)] at h
      obtain ⟨rfl, rfl⟩ := Prod.mk.inj (Option.some.inj ((if_pos hkey).symm.trans h))
      exact .inr (.inl ⟨rfl, hkey, rfl, rfl⟩)
    · rw [updateFramePool_miss hvideo hkey] at h
      exact .inr (.inr ⟨rfl, hkey, h⟩)

/-- An image of some width is not held by an empty cache. -/
theorem not_hit_zero {frame : AVFrame} (hwidth : frame.width ≠ 0) :
    ¬ FrameCache.zero.Hit frame := by
  rintro ⟨-, hzero, -⟩
  exact hwidth hzero.symm

/-- **`update_frame_pool`** on an image of some width. -/
theorem updateFramePool_effect {avctx : AVCodecContext κ} {frame : AVFrame} {c c' : FrameCache}
    {ret : ℤ} (hwidth : frame.width ≠ 0) (h : updateFramePool L avctx frame c = some (ret, c')) :
    PoolEffect L avctx frame c ret c' := by
  rcases updateFramePool_cases h with ⟨-, rfl, rfl⟩ | ⟨hvideo, hkey, rfl, rfl⟩ | ⟨hvideo, -, hmiss⟩
  · exact .failed (by decide) c'.pool.strideAlign
  · exact .hit hvideo hkey
  · have hfresh := updateFramePool_miss (L := L) hvideo (not_hit_zero hwidth)
    dsimp only at hmiss hfresh
    rcases storeLayout_cases hmiss with
      ⟨hret, rfl⟩ | ⟨rfl, ret₀, linesize, w, hout, hret, htmp, rfl⟩
    · exact .failed hret _
    · -- the call on an empty cache goes the same way
      rw [hout, storeLayout_ok _ w hret htmp] at hfresh
      exact .recomputed hfresh ⟨rfl, rfl, rfl⟩

/-- **A fresh computation** stores the line sizes of a positive width, which are aligned, and the
planes that the library lays out for them. -/
theorem fresh_stored {rows : ℤ → ℤ → ℕ → ℤ} (K : L.Contract rows) {avctx : AVCodecContext κ}
    {frame : AVFrame} {c : FrameCache} (hwidth : 0 < frame.width) (hheight : 0 < frame.height)
    (h : updateFramePool L avctx frame .zero = some (0, c)) :
    let a := L.alignDimensions2 avctx.codec avctx.pixFmt frame.width frame.height
    ∃ width linesize, 0 < width ∧ 0 ≤ (L.fillLinesizes avctx.pixFmt width).1 ∧
      (L.fillLinesizes avctx.pixFmt width).2 = linesize ∧
      unaligned linesize a.strideAlign = false ∧
      0 ≤ (L.fillPointers avctx.pixFmt a.height linesize).1 ∧
      c = storedLayout L avctx frame a.height a.strideAlign linesize := by
  intro a
  obtain ⟨hw, hlt, -⟩ := K.aligned avctx.codec avctx.pixFmt _ _ hwidth hheight
  rcases updateFramePool_cases h with ⟨-, hret, -⟩ | ⟨-, hhit, -⟩ | ⟨-, -, hmiss⟩
  · omega
  · exact absurd hhit (not_hit_zero hwidth.ne')
  · dsimp only at hmiss
    have hne : BitVec.ofInt 32 a.width ≠ 0 := by
      intro hzero
      have hself := BitVec.toInt_ofInt_eq_self (w := 32) (by omega) (by omega) hlt
      rw [hzero] at hself
      change (0 : ℤ) = _ at hself
      omega
    rcases storeLayout_cases hmiss with ⟨hret, -⟩ | ⟨-, ret₀, linesize, w, hout, hret, htmp, hc⟩
    · omega
    · -- the loop was left with the line sizes of a positive width
      obtain ⟨⟨width, hpos, hfill⟩, haligned⟩ := alignLoop_ok K hne hout hret
      exact ⟨width, linesize, hpos, by rwa [hfill], by rw [hfill], haligned, htmp, hc⟩

/-- **A fresh layout.** Computed on an empty cache it is that of the library's planes. -/
theorem fresh_layout {rows : ℤ → ℤ → ℕ → ℤ} (K : L.Contract rows) {avctx : AVCodecContext κ}
    {frame : AVFrame} {c : FrameCache} (hwidth : 0 < frame.width) (hheight : 0 < frame.height)
    (h : updateFramePool L avctx frame .zero = some (0, c)) :
    let height := (L.alignDimensions2 avctx.codec avctx.pixFmt frame.width frame.height).height
    ∃ n sizes, LaidOut c.pool.linesize (rows avctx.pixFmt height)
        (L.fillPointers avctx.pixFmt height c.pool.linesize).1
        (L.fillPointers avctx.pixFmt height c.pool.linesize).2 n sizes ∧
      c.size = fun j => if j < n then sizes j else 0 := by
  intro height
  obtain ⟨-, -, hh⟩ := K.aligned avctx.codec avctx.pixFmt _ _ hwidth hheight
  obtain ⟨width, linesize, hpos, hret, rfl, -, htmp, rfl⟩ := fresh_stored K hwidth hheight h
  obtain ⟨n, sizes, hlaid⟩ := K.planes avctx.pixFmt width height hpos hh hret htmp
  exact ⟨n, sizes, hlaid, hlaid.fillSizes_eq⟩

/-! ## The planes of YUV 4:2:0 -/

/-- The rows of the planes of a YUV 4:2:0 image; other formats have none. -/
def yuv420Rows (pixFmt height : ℤ) (i : ℕ) : ℤ :=
  if pixFmt ≠ 0 then 0 else if i = 0 then height else if i < 3 then (height + 1) / 2 else 0

/-- The geometry of the images in the format 0, which is YUV 4:2:0, on a machine with lines aligned
to 16 bytes. Other formats are refused. -/
def yuv420 : ImageLib Unit where
  alignDimensions2 _ _ width height :=
    ⟨min ((width + 15) / 16 * 16) (2 ^ 31 - 16), (height + 31) / 32 * 32, fun _ => 16⟩
  fillLinesizes pixFmt width :=
    if pixFmt ≠ 0 ∨ width < 0 then (-22, fun _ => 0)
    else (0, fun i => if i = 0 then width else if i < 3 then (width + 1) / 2 else 0)
  fillPointers pixFmt height linesize :=
    let luma := linesize 0 * height
    let chroma := linesize 1 * ((height + 1) / 2)
    if pixFmt ≠ 0 ∨ 2 ^ 31 ≤ luma + 2 * chroma then (-22, fun _ => 0)
    else (luma + 2 * chroma, fun i => if i = 1 then luma else if i = 2 then luma + chroma else 0)
  paletted _ := false

/-- The YUV 4:2:0 images are laid out as promised. -/
theorem yuv420_contract : yuv420.Contract yuv420Rows where
  aligned _ _ width height hwidth hheight := by
    simp only [yuv420]
    omega
  negative pixFmt width hwidth := by
    simp only [yuv420, if_pos (Or.inr hwidth : pixFmt ≠ 0 ∨ width < 0)]
    decide
  planes pixFmt width height hwidth hheight hlinesizes hpointers := by
    by_cases hfmt : pixFmt = 0
    · have hlines : ¬ (pixFmt ≠ 0 ∨ width < 0) := by omega
      simp only [yuv420, if_neg hlines] at hpointers ⊢
      generalize hluma : width * height = luma at hpointers ⊢
      generalize hchroma : (width + 1) / 2 * ((height + 1) / 2) = chroma at hpointers ⊢
      have hluma_pos : 0 < luma := hluma ▸ mul_pos hwidth hheight
      have hchroma_pos : 0 < chroma := hchroma ▸ mul_pos (by omega) (by omega)
      by_cases htotal : pixFmt ≠ 0 ∨ 2 ^ 31 ≤ luma + 2 * chroma
      · simp only [↓reduceIte, show (1 : ℕ) ≠ 0 by decide, show (1 : ℕ) < 3 by decide, hluma,
          hchroma, if_pos htotal] at hpointers
        omega
      simp only [↓reduceIte, show (1 : ℕ) ≠ 0 by decide, show (1 : ℕ) < 3 by decide, hluma,
        hchroma, if_neg htotal]
      refine ⟨3, fun i => if i = 0 then luma else chroma, by omega, by omega, ?_, ?_, ?_, ?_, ?_,
        ?_⟩
      · intro i _
        show 0 < if i = 0 then luma else chroma
        split
        · exact hluma_pos
        · exact hchroma_pos
      · intro i hi
        obtain rfl | rfl | rfl : i = 0 ∨ i = 1 ∨ i = 2 := by omega
        · rfl
        · simp
        · simp [sum_range_succ]
      · intro i hi hlt
        obtain rfl : i = 3 := by omega
        rfl
      · simp only [sum_range_succ, sum_range_zero]
        simp
        omega
      · omega
      · intro i hi
        obtain rfl | rfl | rfl : i = 0 ∨ i = 1 ∨ i = 2 := by omega
        · simp [yuv420Rows, hfmt, hluma]
        · simp [yuv420Rows, hfmt, hchroma]
        · simp [yuv420Rows, hfmt, hchroma]
    · simp only [yuv420, if_pos (Or.inl hfmt : pixFmt ≠ 0 ∨ width < 0)] at hlinesizes
      omega

/-- A decoder of YUV 4:2:0 video. -/
def smallDecoder : FrameSession Unit := .start () true fun _ => 0

/-- A call for a YUV 4:2:0 frame of 16 by 16 pixels. There is memory for so many planes, from `base`
on, and `created` says where `av_buffer_create` succeeds. -/
def smallCall (base planes : ℕ) (created : ℕ → Bool) : GetFrameCall :=
  ⟨0, 0, 16, 16,
    ⟨fun i => if i < planes then some (base + 4096 * (i + 1)) else none, created⟩⟩

/-- The memory from `base` on is not in use if what is held lies below it. -/
theorem smallCall_fresh {s : FrameSession Unit} {base planes : ℕ} {created : ℕ → Bool}
    (h : ∀ ptr ∈ held s.calls, ptr ≤ base) :
    s.FreshAnswers (smallCall base planes created).answers := by
  have hmemalign : ∀ i ptr, (smallCall base planes created).answers.memalign i = some ptr →
      base + 4096 * (i + 1) = ptr := by
    intro i ptr hptr
    by_cases hi : i < planes
    · exact Option.some.inj ((if_pos hi).symm.trans hptr)
    · cases (if_neg hi).symm.trans hptr
  intro i ptr hptr
  have hi := hmemalign i ptr hptr
  refine ⟨by omega, ?_, ?_⟩
  · intro hheld
    have hle := h ptr hheld
    omega
  · intro j hj heq
    have hj' := hmemalign j ptr heq
    omega

end FfTest
