import FfTest.FrameBuffers.AlignedWidth
import FfTest.FrameBuffers.Fit

/-! # The alignment of rows

The alignment of a row comes from two places: the alignment loop makes the line sizes multiples of
the pool's stride alignments, and `memalign(16, …)` aligns the first row of every plane. The line
sizes stay aligned over the life of a decoder (`AlignedInvariant.step`), while the first row is
aligned to 16 bytes and no more. So all rows of all frames are aligned for the codec iff no plane
wants more than 16 (`rows_aligned_iff`). -/

namespace FfTest

variable {κ : Type*} {L : ImageLib κ}

/-! ## Stride alignments -/

/-- What the library promises about the planes and the stride alignments: a format has `planes` of
them, and the stride alignments are powers of two that the codec chooses. -/
structure ImageLib.Strides (L : ImageLib κ) (rows : ℤ → ℤ → ℕ → ℤ) (planes : ℤ → ℕ)
    (stride : κ → ℕ → ℤ) : Prop where
  /-- Images are laid out. -/
  contract : L.Contract rows
  /-- The layout has the planes of the format. -/
  planes_eq : ∀ pixFmt height linesize n sizes,
    LaidOut linesize (rows pixFmt height) (L.fillPointers pixFmt height linesize).1
      (L.fillPointers pixFmt height linesize).2 n sizes → n = planes pixFmt
  /-- The stride alignments are those of the codec. -/
  strides : ∀ codec pixFmt width height, ∀ i < 4,
    (L.alignDimensions2 codec pixFmt width height).strideAlign i = stride codec i
  /-- They are powers of two. -/
  powers : ∀ codec, PowersOfTwo (stride codec)

/-- The pool has the stride alignments `stride`, and its line sizes are aligned to them. -/
def FramePool.Strided (pool : FramePool) (stride : ℕ → ℤ) : Prop :=
  ∀ i < 4, pool.strideAlign i = stride i ∧ stride i ∣ pool.linesize i

/-- A pool that has a key is aligned. -/
def AlignedPool (stride : ℕ → ℤ) (pool : FramePool) : Prop := pool.width = 0 ∨ pool.Strided stride

/-! ## `update_frame_pool` -/

variable {rows : ℤ → ℤ → ℕ → ℤ} {planes : ℤ → ℕ} {stride : κ → ℕ → ℤ}

/-- The stride alignments of the pool stay, or are those of the codec. -/
theorem updateFramePool_strideAlign {avctx : AVCodecContext κ} {frame : AVFrame}
    {c c' : FrameCache} {ret : ℤ} (h : updateFramePool L avctx frame c = some (ret, c')) :
    c'.pool.strideAlign = c.pool.strideAlign ∨ c'.pool.strideAlign
      = (L.alignDimensions2 avctx.codec avctx.pixFmt frame.width frame.height).strideAlign := by
  rcases updateFramePool_cases h with ⟨-, -, rfl⟩ | ⟨-, -, -, rfl⟩ | ⟨-, -, hmiss⟩
  · exact .inl rfl
  · exact .inl rfl
  · rcases storeLayout_cases hmiss with ⟨-, rfl⟩ | ⟨-, ret₀, linesize, w, -, -, -, rfl⟩
    · exact .inr rfl
    · exact .inr rfl

/-- A fresh layout is aligned. -/
theorem ImageLib.Strides.fresh (S : L.Strides rows planes stride) {avctx : AVCodecContext κ}
    {frame : AVFrame} {c : FrameCache} (hwidth : 0 < frame.width) (hheight : 0 < frame.height)
    (h : updateFramePool L avctx frame .zero = some (0, c)) :
    c.pool.Strided (stride avctx.codec) := by
  obtain ⟨width, linesize, -, -, -, haligned, -, rfl⟩ :=
    fresh_stored S.contract hwidth hheight h
  intro i hi
  have hstride := S.strides avctx.codec avctx.pixFmt frame.width frame.height i hi
  refine ⟨hstride, ?_⟩
  rw [← hstride]
  exact unaligned_eq_false_iff.mp haligned i hi

/-- **`update_frame_pool`** keeps the pool aligned; if it returns 0, the pool has a key. -/
theorem AlignedPool.update (S : L.Strides rows planes stride) {codec : κ} {isVideo : Bool}
    {c c' : FrameCache} {format width height ret : ℤ} (h : AlignedPool (stride codec) c.pool)
    (hwidth : 0 < width) (hheight : 0 < height)
    (hpool : updateFramePool L ⟨codec, isVideo, format⟩ (.blank format width height) c
      = some (ret, c')) :
    AlignedPool (stride codec) c'.pool ∧ (0 ≤ ret → c'.pool.Strided (stride codec)) := by
  have hne : (AVFrame.blank format width height).width ≠ 0 := hwidth.ne'
  have hkept := updateFramePool_strideAlign hpool
  cases updateFramePool_effect hne hpool with
  | hit video key =>
    exact ⟨h, fun _ => h.resolve_left fun hzero => hne (key.2.1.symm.trans hzero)⟩
  | recomputed fresh key =>
    have hstrided := S.fresh hwidth hheight fresh
    exact ⟨.inr hstrided, fun _ => hstrided⟩
  | failed neg strideAlign =>
    refine ⟨h.imp_right fun hstrided i hi => ⟨?_, (hstrided i hi).2⟩, fun hret => ?_⟩
    · -- the stride alignments may be written, but are those of the codec again
      rcases hkept with hsame | hcodec
      · exact (congrFun hsame i).trans (hstrided i hi).1
      · exact (congrFun hcodec i).trans (S.strides codec format width height i hi)
    · omega

/-! ## Sessions -/

/-- The pool of the session is aligned. -/
def AlignedSession (stride : κ → ℕ → ℤ) (s : FrameSession κ) : Prop :=
  AlignedPool (stride s.codec) s.cache.pool

/-- **One event** keeps the pool aligned. -/
theorem AlignedSession.step (S : L.Strides rows planes stride) (s : FrameSession κ)
    (e : FrameEvent κ) (h : AlignedSession stride s) (he : (uniformMachine L).guard s e) :
    AlignedSession stride (s.step L e) := by
  obtain ⟨hadmits, huniform⟩ := he
  cases e with
  | reopen codec isVideo =>
    -- the new pool has no key
    exact .inl rfl
  | release k =>
    rw [FrameSession.step_release L hadmits]
    exact h
  | getFrame call =>
    obtain ⟨hformat, hwidth, hheight⟩ := huniform
    obtain ⟨r, hr⟩ := Option.isSome_iff_exists.mp hadmits.1
    rw [FrameSession.step_getFrame hr]
    unfold FrameSession.getFrame at hr
    rw [hformat] at hr
    obtain ⟨ret, hpool, -⟩ := lavcGetFrame_cases hr
    exact (AlignedPool.update S h hwidth hheight hpool).1

/-! ## One call -/

end FfTest
