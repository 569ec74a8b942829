import FfTest.DecodeLoop.Effects
import FfTest.Lifecycle.DecoderObject

/-! # Which stream is decoded

`open_codec_ctx` asks `av_find_best_stream` for a video stream and a decoder for it, keeps the
decoder, and drops the index: it goes through the streams itself and takes the first one of a video.
The two searches agree when the best stream is the first of a video (`consistent_iff_first`). -/

namespace FfTest.Lifecycle

/-- The stream has parameters, and they are those of a video. -/
def Stream.isVideo (st : Stream) : Bool := st.codecpar.any (·.codecType = .video)

/-- What `av_find_best_stream` promises of the index it returns: a video stream is there. -/
def BestStream (streams : List Stream) (b : ℤ) : Prop :=
  0 ≤ b ∧ ∃ st, streams[b.toNat]? = some st ∧ st.isVideo = true

/-- `demux` hands over the packets of stream `idx` and no others. -/
def Forwards {B F : Type} {C : Codec.{0, 0, 0} (AVPacket B) F} (impl : DecoderImpl C) (idx : ℤ) :
    Prop :=
  ∀ clock read p, ((impl.demux clock read).1 = .ok ∧ (impl.demux clock read).2.pkt = p) ↔
    read.selected idx = some p

/-- The stream that was selected, with the decoder `dec`, is the one that is decoded. -/
structure Consistent (streams : List Stream) (b : ℤ) (dec : ℕ) (d : Decoder) : Prop where
  /-- `m_stream_idx` is its index. -/
  streamIdx : d.streamIdx = b
  /-- The codec context is made for the decoder, with the parameters of the stream. -/
  ctx : ∃ ctx st, d.codecCtx = some ctx ∧ streams[b.toNat]? = some st ∧ ctx.codec = dec ∧
    ctx.par = st.codecpar
  /-- `demux` hands over the packets of the stream and no others. -/
  forwards : ∀ {B F : Type} {C : Codec.{0, 0, 0} (AVPacket B) F} (impl : DecoderImpl C),
    impl.streamIdx = d.streamIdx → Forwards impl b

/-- `demux` hands over the packets of `m_stream_idx`. -/
theorem forwards_streamIdx {B F : Type} {C : Codec.{0, 0, 0} (AVPacket B) F}
    (impl : DecoderImpl C) : Forwards impl impl.streamIdx := by
  intro clock read p
  obtain ⟨cs, n, heffect, -, -, -, -⟩ := impl.demux_effect clock read
  generalize impl.demux clock read = out at heffect ⊢
  obtain ⟨ret, d⟩ := out
  dsimp only at heffect ⊢
  generalize d.pkt = q at heffect ⊢
  cases heffect with
  | ok selected => simp [selected]
  | again selected going fine => simp [selected]
  | eof read_eq empty => simp [read_eq, ReadRet.selected]
  | error read_eq => simp [read_eq, ReadRet.selected]

/-- The loop over the streams finds the first of a video. -/
theorem videoIndex_eq_iff {streams : List Stream} {b : ℕ} :
    videoIndex streams = b ↔ (∃ st, streams[b]? = some st ∧ st.isVideo = true) ∧
      ∀ i < b, ∀ st ∈ streams[i]?, st.isVideo = false := by
  have hfind : videoIndex streams = b ↔ streams.findIdx? Stream.isVideo = some b := by
    obtain ⟨found, hfound⟩ : ∃ found, streams.findIdx? Stream.isVideo = found := ⟨_, rfl⟩
    have hindex : streams.findIdx? (fun st => st.codecpar.any (·.codecType = .video)) = found :=
      hfound
    rw [videoIndex, hindex, hfound]
    cases found with
    | none => simp
    | some i => exact Int.ofNat_inj.trans Option.some_inj.symm
  rw [hfind, List.findIdx?_eq_some_iff_getElem]
  constructor
  · rintro ⟨hlt, hvideo, hfirst⟩
    refine ⟨⟨streams[b], List.getElem?_eq_getElem hlt, hvideo⟩, fun i hi st hst => ?_⟩
    have hget := List.getElem?_eq_getElem (Nat.lt_trans hi hlt)
    rw [hget] at hst
    obtain rfl := Option.some.inj hst
    simpa using hfirst i hi
  · rintro ⟨⟨st, hst, hvideo⟩, hfirst⟩
    obtain ⟨hlt, rfl⟩ := List.getElem?_eq_some_iff.mp hst
    refine ⟨hlt, hvideo, fun i hi => ?_⟩
    have hget := List.getElem?_eq_getElem (Nat.lt_trans hi hlt)
    simpa using hfirst i hi _ hget

/-- What `open_codec_ctx` leaves when it succeeds. -/
theorem openCodecCtx_ok {cfg : Config} {ans : OpenAnswers} {d : Decoder} {lib : Library}
    (h : 0 ≤ (openCodecCtx cfg ans d lib).1) :
    ∃ dec ctx, ans.dec = some dec ∧ ctx.codec = dec ∧
      ctx.par = ((d.fmtCtx.map FormatContext.streams).getD [])[(videoIndex
        ((d.fmtCtx.map FormatContext.streams).getD [])).toNat]?.bind Stream.codecpar ∧
      (openCodecCtx cfg ans d lib).2.1.codecCtx = some ctx ∧
      (openCodecCtx cfg ans d lib).2.1.streamIdx
        = videoIndex ((d.fmtCtx.map FormatContext.streams).getD []) := by
  -- each way out before the end returns a negative number
  simp only [openCodecCtx] at h ⊢
  by_cases hbest : ans.findBestStream < 0
  · rw [if_pos hbest] at h
    exact absurd h (Int.not_le.mpr hbest)
  rw [if_neg hbest] at h ⊢
  by_cases hvideo : videoIndex ((d.fmtCtx.map FormatContext.streams).getD []) < 0
  · rw [if_pos hvideo] at h
    exact absurd h (show ¬ (0 : ℤ) ≤ -1 by decide)
  rw [if_neg hvideo] at h ⊢
  cases hdec : ans.dec with
  | none =>
    rw [hdec] at h
    exact absurd h (show ¬ (0 : ℤ) ≤ -22 by decide)
  | some dec =>
    rw [hdec] at h
    cases halloc : ans.allocContext3 with
    | false =>
      rw [halloc] at h
      exact absurd h (show ¬ (0 : ℤ) ≤ -12 by decide)
    | true =>
      simp only [halloc, Bool.not_true, Bool.false_eq_true, if_false] at h ⊢
      by_cases hpar : ans.parametersToContext < 0
      · rw [if_pos hpar] at h
        exact absurd h (Int.not_le.mpr hpar)
      rw [if_neg hpar] at h ⊢
      by_cases hopen : ans.open2 < 0
      · rw [if_pos hopen] at h
        exact absurd h (Int.not_le.mpr hopen)
      rw [if_neg hopen]
      exact ⟨dec, _, rfl, rfl, rfl, rfl, rfl⟩

/-- **Which stream is decoded.** Let `open_codec_ctx` succeed on any streams, with `b` the index and
`dec` the decoder that `av_find_best_stream` has returned. Stream `b` is the one that is decoded iff
no stream before it is one of a video. -/
theorem consistent_iff_first {cfg : Config} {ans : OpenAnswers} {d : Decoder} {lib : Library}
    (hbest : BestStream ((d.fmtCtx.map FormatContext.streams).getD []) ans.findBestStream)
    (hopen : 0 ≤ (openCodecCtx cfg ans d lib).1) :
    ∃ dec, ans.dec = some dec ∧
      (Consistent ((d.fmtCtx.map FormatContext.streams).getD []) ans.findBestStream dec
          (openCodecCtx cfg ans d lib).2.1 ↔
        ∀ i < ans.findBestStream.toNat, ∀ st ∈ ((d.fmtCtx.map FormatContext.streams).getD [])[i]?,
          st.isVideo = false) := by
  obtain ⟨dec, ctx, hdec, hcodec, hpar, hctx, hidx⟩ := openCodecCtx_ok hopen
  obtain ⟨hnonneg, hvideo⟩ := hbest
  generalize (d.fmtCtx.map FormatContext.streams).getD [] = streams at hpar hidx hvideo ⊢
  generalize (openCodecCtx cfg ans d lib).2.1 = d' at hctx hidx ⊢
  obtain ⟨b, hb⟩ := Int.eq_ofNat_of_zero_le hnonneg
  rw [hb] at hvideo ⊢
  rw [Int.toNat_natCast] at hvideo ⊢
  refine ⟨dec, hdec, ?_⟩
  have hfirst : videoIndex streams = b ↔ ∀ i < b, ∀ st ∈ streams[i]?, st.isVideo = false :=
    videoIndex_eq_iff.trans (and_iff_right hvideo)
  rw [← hfirst, ← hidx]
  refine ⟨fun h => h.streamIdx, fun hsame => ?_⟩
  obtain ⟨st, hst, -⟩ := hvideo
  rw [← hidx, hsame, Int.toNat_natCast, hst, Option.bind_some] at hpar
  refine ⟨hsame, ⟨ctx, st, hctx, by rwa [Int.toNat_natCast], hcodec, hpar⟩, ?_⟩
  intro B F C impl himpl
  rw [← hsame, ← himpl]
  exact forwards_streamIdx impl

/-- The answers of libraries that succeed in everything, with `best` the stream selected. -/
def openAnswers (streams : List Stream) (best : ℤ) : OpenAnswers :=
  ⟨0, 0, streams, best, some 27, true, 0, 0, (640, 480)⟩

/-- A decoder whose input has been opened, with these streams. -/
def openedInput (streams : List Stream) : Decoder :=
  { Decoder.construct with fmtCtx := some ⟨⟨.formatContext, 0⟩, none, false, streams⟩ }

/-- A stream of audio, one without parameters, and one of a video. -/
def audioFirst : List Stream := [⟨some ⟨.audio, 1⟩⟩, ⟨none⟩, ⟨some ⟨.video, 27⟩⟩]

/-- With one stream of a video, that is the one that is decoded. -/
theorem consistent_audioFirst :
    ∃ dec, (openAnswers audioFirst 2).dec = some dec ∧
      Consistent audioFirst 2 dec
        (openCodecCtx ⟨0, 0⟩ (openAnswers audioFirst 2) (openedInput audioFirst) .start).2.1 := by
  have hbest : BestStream (((openedInput audioFirst).fmtCtx.map FormatContext.streams).getD [])
      (openAnswers audioFirst 2).findBestStream := ⟨by decide, _, rfl, by decide⟩
  have hopen : 0 ≤ (openCodecCtx ⟨0, 0⟩ (openAnswers audioFirst 2) (openedInput audioFirst)
      .start).1 := by decide
  obtain ⟨dec, hdec, hiff⟩ := consistent_iff_first hbest hopen
  refine ⟨dec, hdec, hiff.mpr ?_⟩
  show ∀ i < 2, ∀ st ∈ audioFirst[i]?, st.isVideo = false
  decide

/-- A preview, and the video itself, of one codec. -/
def previewFirst : List Stream := [⟨some ⟨.video, 27⟩⟩, ⟨some ⟨.video, 27⟩⟩]

/-- The second stream is selected, and the first one is decoded. -/
theorem previewFirst_not_consistent :
    BestStream previewFirst 1 ∧
      (openCodecCtx ⟨0, 0⟩ (openAnswers previewFirst 1) (openedInput previewFirst) .start).1 = 0 ∧
      ∀ dec, ¬ Consistent previewFirst 1 dec
        (openCodecCtx ⟨0, 0⟩ (openAnswers previewFirst 1) (openedInput previewFirst) .start).2.1 := by
  refine ⟨⟨by decide, _, rfl, by decide⟩, by decide, fun dec h => ?_⟩
  exact absurd h.streamIdx (by decide)

end FfTest.Lifecycle
