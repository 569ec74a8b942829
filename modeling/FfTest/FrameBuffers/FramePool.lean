import FfTest.Foundations.SystemHeap
import Mathlib.Data.Int.Notation
import Mathlib.Logic.Function.Basic

/-! # `update_frame_pool` and `lavc_GetFrame`

The geometry of images is the library's; it is a parameter `ImageLib`. The cache of
`update_frame_pool` is split over two objects: its key, the line sizes and the stride alignments are
in the codec's `FramePool`, and the plane sizes in `DecoderImpl::size`. What `memalign` and
`av_buffer_create` answer for each plane is passed in, and the calls of the system allocator are
recorded, newest first. Arrays are functions of the index; only the indices of the source are read.
-/

namespace FfTest

/-- Conversion to `int`. -/
def toInt (z : ℤ) : ℤ := (BitVec.ofInt 32 z).toInt

/-- `FramePool`, as far as it is used. -/
structure FramePool where
  /-- `format` of the cached layout. -/
  format : ℤ
  /-- `width` of the cached layout. -/
  width : ℤ
  /-- `height` of the cached layout. -/
  height : ℤ
  /-- `stride_align[]`. -/
  strideAlign : ℕ → ℤ
  /-- `linesize[4]`. -/
  linesize : ℕ → ℤ

/-- The pool of a new codec context. -/
def FramePool.zero : FramePool := ⟨0, 0, 0, fun _ => 0, fun _ => 0⟩

/-- The two objects that hold the cache. -/
structure FrameCache where
  /-- `DecoderImpl::size[4]`. -/
  size : ℕ → ℤ
  /-- `avctx->internal->pool`. -/
  pool : FramePool

/-- What `avcodec_align_dimensions2` writes. -/
structure AlignedDimensions where
  /-- `*width`. -/
  width : ℤ
  /-- `*height`. -/
  height : ℤ
  /-- `linesize_align[]`. -/
  strideAlign : ℕ → ℤ

/-- The geometry of images, as the library computes it for codecs `κ`. -/
structure ImageLib (κ : Type*) where
  /-- `avcodec_align_dimensions2`, of the codec, its `pix_fmt`, a width and a height. -/
  alignDimensions2 : κ → ℤ → ℤ → ℤ → AlignedDimensions
  /-- `av_image_fill_linesizes`: what is returned, and the line sizes. -/
  fillLinesizes : ℤ → ℤ → ℤ × (ℕ → ℤ)
  /-- `av_image_fill_pointers` over `NULL`: what is returned, and the addresses of the planes. -/
  fillPointers : ℤ → ℤ → (ℕ → ℤ) → ℤ × (ℕ → ℤ)
  /-- Whether `AV_PIX_FMT_FLAG_PAL` or `AV_PIX_FMT_FLAG_PSEUDOPAL` is set in the descriptor. -/
  paletted : ℤ → Bool

/-- `AVCodecContext`, as far as it is read here. -/
structure AVCodecContext (κ : Type*) where
  /-- The codec. -/
  codec : κ
  /-- `codec_type == AVMEDIA_TYPE_VIDEO`. -/
  isVideo : Bool
  /-- `pix_fmt`. -/
  pixFmt : ℤ

/-- An `AVBufferRef` with `lavc_ReleaseFrame` as its free callback. -/
structure AVBufferRef where
  /-- The data, which is also the callback's `opaque`. -/
  data : ℕ
  /-- The capacity. -/
  size : ℤ
  deriving DecidableEq

/-- `AVFrame`, as far as it is used. -/
@[ext]
structure AVFrame where
  /-- `format`. -/
  format : ℤ
  /-- `width`. -/
  width : ℤ
  /-- `height`. -/
  height : ℤ
  /-- `data[]`, with 0 for `NULL`. -/
  data : ℕ → ℕ
  /-- `linesize[]`. -/
  linesize : ℕ → ℤ
  /-- `buf[]`. -/
  buf : ℕ → Option AVBufferRef

/-- A frame as the codec passes it in: with its geometry and no buffer. -/
def AVFrame.blank (format width height : ℤ) : AVFrame :=
  ⟨format, width, height, fun _ => 0, fun _ => 0, fun _ => none⟩

/-- `AV_NUM_DATA_POINTERS`. -/
def avNumDataPointers : ℕ := 8

/-! ## `update_frame_pool` -/

section

variable {κ : Type*} (L : ImageLib κ)

/-- The bits accumulated in `unaligned` are not all zero. -/
def unaligned (linesize strideAlign : ℕ → ℤ) : Bool :=
  (List.range 4).any fun i => (linesize i).tmod (strideAlign i) ≠ 0

/-- `w += w & ~(w - 1)`. -/
def nextWidth (w : BitVec 32) : BitVec 32 := w + (w &&& ~~~(w - 1))

/-- The `do … while (unaligned)` loop, for so many rounds: what `av_image_fill_linesizes` returned
last, the line sizes, and `w`. It is `none` when the rounds do not suffice. -/
def alignLoop (pixFmt : ℤ) (strideAlign : ℕ → ℤ) :
    ℕ → BitVec 32 → Option (ℤ × (ℕ → ℤ) × BitVec 32)
  | 0, _ => none
  | rounds + 1, w =>
    let (ret, linesize) := L.fillLinesizes pixFmt w.toInt
    if ret < 0 then some (ret, linesize, w)
    else
      -- `w` grows before the line sizes are tested, also in the last round
      let w := nextWidth w
      if unaligned linesize strideAlign then alignLoop pixFmt strideAlign rounds w
      else some (ret, linesize, w)

/-- Rounds enough for the loop. Each clears the lowest bit set in `w`, so that 32 rounds make `w`
zero, where it stays: a loop that is not left by then is never left. -/
def alignRounds : ℕ := 33

/-- The loop that fills `size[]` from the addresses of the planes. -/
def fillSizes (data : ℕ → ℤ) (tmpsize : ℤ) (i : ℕ) (size : ℕ → ℤ) : ℕ → ℤ :=
  if i < 3 ∧ data (i + 1) ≠ 0 then
    fillSizes data tmpsize (i + 1) (Function.update size i (toInt (data (i + 1) - data i)))
  else Function.update size i (toInt (tmpsize - (data i - data 0)))
termination_by 3 - i

/-- `update_frame_pool`. It is `none` when the alignment loop is never left. -/
def updateFramePool (avctx : AVCodecContext κ) (frame : AVFrame) (c : FrameCache) :
    Option (ℤ × FrameCache) :=
  if avctx.isVideo = false then some (-1, c)
  else if c.pool.format = frame.format ∧ c.pool.width = frame.width ∧
      c.pool.height = frame.height then some (0, c)
  else
    let a := L.alignDimensions2 avctx.codec avctx.pixFmt frame.width frame.height
    -- `pool->stride_align` is written in place, before anything can fail
    let c := { c with pool.strideAlign := a.strideAlign }
    match alignLoop L avctx.pixFmt c.pool.strideAlign alignRounds (BitVec.ofInt 32 a.width) with
    | none => none
    | some (ret, linesize, _) =>
      if ret < 0 then some (ret, c)
      else
        let (tmpsize, data) := L.fillPointers avctx.pixFmt a.height linesize
        if tmpsize < 0 then some (-1, c)
        else
          let size := fillSizes data tmpsize 0 fun _ => 0
          some (0, ⟨size, { c.pool with
            linesize := linesize
            format := frame.format
            width := frame.width
            height := frame.height }⟩)

end

/-! ## `lavc_ReleaseFrame` and `lavc_GetFrame` -/

/-- `lavc_ReleaseFrame(opaque, data)`, the callback of every buffer. -/
def lavcReleaseFrame (ptr : ℕ) (calls : List SysCall) : List SysCall := .free ptr :: calls

/-- `av_buffer_unref(&frame->buf[i])`: the only reference goes, and the callback is called. -/
def avBufferUnref (i : ℕ) (frame : AVFrame) (calls : List SysCall) : AVFrame × List SysCall :=
  match frame.buf i with
  | none => (frame, calls)
  | some ref =>
    ({ frame with buf := Function.update frame.buf i none }, lavcReleaseFrame ref.data calls)

/-- `while (i > 0) av_buffer_unref(&frame->buf[--i])`. -/
def unrefBelow : ℕ → AVFrame → List SysCall → AVFrame × List SysCall
  | 0, frame, calls => (frame, calls)
  | i + 1, frame, calls =>
    let (frame, calls) := avBufferUnref i frame calls
    unrefBelow i frame calls

/-- The loop that clears `data[]` and `linesize[]` from `i` on. -/
def clearFrom (i : ℕ) (frame : AVFrame) : AVFrame :=
  { frame with
    data := fun j => if i ≤ j ∧ j < avNumDataPointers then 0 else frame.data j
    linesize := fun j => if i ≤ j ∧ j < avNumDataPointers then 0 else frame.linesize j }

/-- What the system and the library answer for the planes of one call. -/
structure PlaneAnswers where
  /-- `memalign`, with `none` for `NULL`. -/
  memalign : ℕ → Option ℕ
  /-- Whether `av_buffer_create` succeeds. -/
  bufferCreate : ℕ → Bool

/-- The loop over the planes from `i` on, with what follows it: whether the end is reached rather
than `error`, the frame, and the calls. -/
def getPlanes (c : FrameCache) (ans : PlaneAnswers) (i : ℕ) (frame : AVFrame)
    (calls : List SysCall) : Bool × AVFrame × List SysCall :=
  if i < 4 ∧ c.size i ≠ 0 then
    let frame := { frame with linesize := Function.update frame.linesize i (c.pool.linesize i) }
    let calls := .alloc (ans.memalign i) :: calls
    let frame := { frame with data := Function.update frame.data i ((ans.memalign i).getD 0) }
    match ans.memalign i with
    | none => (false, unrefBelow i frame calls)
    | some ptr =>
      if ans.bufferCreate i then
        let frame := { frame with buf := Function.update frame.buf i (some ⟨ptr, c.size i⟩) }
        getPlanes c ans (i + 1) frame calls
      else
        -- the buffers before `i` are dropped; the block just allocated is not freed
        let frame := { frame with buf := Function.update frame.buf i none }
        (false, unrefBelow i frame calls)
  else (true, clearFrom i frame, calls)
termination_by 4 - i

/-- What `lavc_GetFrame` returns and leaves behind. -/
structure GetFrameResult where
  /-- The result. -/
  ret : ℤ
  /-- The frame. -/
  frame : AVFrame
  /-- The cache. -/
  cache : FrameCache
  /-- The calls of the system allocator, newest first. -/
  calls : List SysCall
  /-- The address `avpriv_set_systematic_pal2` has written the palette to, if any. -/
  palette : Option ℕ

/-- `lavc_GetFrame`. It is `none` when `update_frame_pool` does not return. -/
def lavcGetFrame {κ : Type*} (L : ImageLib κ) (ctx : AVCodecContext κ) (frame : AVFrame)
    (ans : PlaneAnswers) (c : FrameCache) (calls : List SysCall) : Option GetFrameResult :=
  match updateFramePool L ctx frame c with
  | none => none
  | some (ret, c) =>
    if ret < 0 then some ⟨ret, frame, c, calls, none⟩
    else
      let frame := { frame with data := fun _ => 0 }
      match getPlanes c ans 0 frame calls with
      | (false, frame, calls) => some ⟨-1, frame, c, calls, none⟩
      | (true, frame, calls) =>
        some ⟨0, frame, c, calls, if L.paletted frame.format then some (frame.data 1) else none⟩

end FfTest
