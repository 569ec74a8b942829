import FfTest.FrameBuffers.Layout

/-! # Frame buffers fit their frames

The key of the cached layout is in the codec's pool and the plane sizes are in `DecoderImpl`, which
outlives codec contexts. `SoundCache` ties the two together: a pool that has a key has the line
sizes, and the decoder the plane sizes, that a fresh computation gives for the key. It holds of
every session (`FitInvariant.step`), so every frame that `lavc_GetFrame` hands out fits
(`getFrame_fits`). -/

namespace FfTest

open Finset

variable {κ : Type*} {L : ImageLib κ}

/-- A call on a frame of positive dimensions whose format is that of the codec context. -/
def FrameEvent.Uniform : FrameEvent κ → Prop
  | .getFrame call => call.pixFmt = call.format ∧ 0 < call.width ∧ 0 < call.height
  | _ => True

/-- The sessions whose calls are `Uniform`. -/
def uniformMachine (L : ImageLib κ) : Machine (FrameSession κ) (FrameEvent κ) :=
  (frameMachine L).restrict fun _ e => e.Uniform

/-- What `lavc_GetFrame` has returned fits its frame: `c` is the freshly computed layout, of `n`
planes. -/
structure Fits (L : ImageLib κ) (rows : ℤ → ℤ → ℕ → ℤ) (ctx : AVCodecContext κ)
    (r : GetFrameResult) (c : FrameCache) (n : ℕ) : Prop where
  /-- `c` is what `update_frame_pool` computes for the frame on an empty cache. -/
  fresh : updateFramePool L ctx (.blank r.frame.format r.frame.width r.frame.height) .zero
    = some (0, c)
  /-- `DecoderImpl::size` is that of the fresh layout. -/
  size : r.cache.size = c.size
  /-- The line sizes of the pool are those of the fresh layout. -/
  linesize : r.cache.pool.linesize = c.pool.linesize
  /-- There is a plane, and there are four at most. -/
  planes : 0 < n ∧ n ≤ 4
  /-- Every plane has the fresh line size, and a buffer of the fresh size. -/
  present : ∀ i < n, 0 < c.size i ∧ r.frame.linesize i = c.pool.linesize i ∧
    r.frame.data i ≠ 0 ∧ r.frame.buf i = some ⟨r.frame.data i, c.size i⟩
  /-- The buffer of a plane holds its rows. -/
  rows_le : ∀ i < n, r.frame.linesize i * rows r.frame.format (L.alignDimensions2 ctx.codec
    r.frame.format r.frame.width r.frame.height).height i ≤ c.size i
  /-- The planes make up the image. -/
  total : (L.fillPointers r.frame.format (L.alignDimensions2 ctx.codec r.frame.format
    r.frame.width r.frame.height).height c.pool.linesize).1 = ∑ i ∈ range n, c.size i
  /-- Behind the planes nothing is set. -/
  absent : ∀ i, n ≤ i → i < avNumDataPointers →
    r.frame.data i = 0 ∧ r.frame.linesize i = 0 ∧ r.frame.buf i = none

/-- **The cache is sound.** A pool without a key has width 0; one with a key has the line sizes, and
the decoder the plane sizes, that are freshly computed for the key. -/
def SoundCache (L : ImageLib κ) (codec : κ) (isVideo : Bool) (cache : FrameCache) : Prop :=
  cache.pool.width = 0 ∨ ∃ c,
    updateFramePool L ⟨codec, isVideo, cache.pool.format⟩
        (.blank cache.pool.format cache.pool.width cache.pool.height) .zero = some (0, c) ∧
      cache.size = c.size ∧ cache.pool.linesize = c.pool.linesize

/-- What holds of every session. -/
structure FitInvariant (L : ImageLib κ) (rows : ℤ → ℤ → ℕ → ℤ) (s : FrameSession κ) : Prop where
  /-- The cache is sound. -/
  sound : SoundCache L s.codec s.isVideo s.cache
  /-- A frame that has just been handed out fits. -/
  fits : ∀ r, s.last = some r → r.ret = 0 →
    ∃ c n, Fits L rows ⟨s.codec, s.isVideo, r.frame.format⟩ r c n

/-- **`update_frame_pool`** keeps the cache sound, and if it returns 0 the cache holds the fresh
layout. -/
theorem SoundCache.update {codec : κ} {isVideo : Bool} {c c' : FrameCache}
    {format width height ret : ℤ} (h : SoundCache L codec isVideo c) (hwidth : 0 < width)
    (hpool : updateFramePool L ⟨codec, isVideo, format⟩ (.blank format width height) c
      = some (ret, c')) :
    SoundCache L codec isVideo c' ∧ (0 ≤ ret → ∃ fresh,
      updateFramePool L ⟨codec, isVideo, format⟩ (.blank format width height) .zero
          = some (0, fresh) ∧
        c'.size = fresh.size ∧ c'.pool.linesize = fresh.pool.linesize) := by
  have hne : (AVFrame.blank format width height).width ≠ 0 := hwidth.ne'
  cases updateFramePool_effect hne hpool with
  | hit video key =>
    -- the cached key is that of the frame, and its width not 0
    obtain ⟨hformat, hw, hh⟩ := key
    refine ⟨h, fun _ => ?_⟩
    rcases h with hzero | ⟨fresh, hfresh, hsize, hlinesize⟩
    · exact absurd (hw.symm.trans hzero) hne
    · rw [hformat, hw, hh] at hfresh
      exact ⟨fresh, hfresh, hsize, hlinesize⟩
  | recomputed fresh key =>
    obtain ⟨hformat, hw, hh⟩ := key
    refine ⟨.inr ⟨c', ?_, rfl, rfl⟩, fun _ => ⟨c', fresh, rfl, rfl⟩⟩
    rw [hformat, hw, hh]
    exact fresh
  | failed neg strideAlign =>
    -- the key, the line sizes and the plane sizes stay
    exact ⟨h, fun hret => absurd hret (by omega)⟩

/-- The loop over the planes of a layout stops behind the last one. -/
theorem Passed.eq_planes {linesize rows : ℕ → ℤ} {tmpsize : ℤ} {data : ℕ → ℤ} {m n : ℕ}
    {sizes : ℕ → ℤ} {c : FrameCache} {ans : PlaneAnswers} (passed : Passed c ans n)
    (stop : n = 4 ∨ c.size n = 0) (hlaid : LaidOut linesize rows tmpsize data m sizes)
    (hsize : c.size = fun j => if j < m then sizes j else 0) : n = m := by
  have hle : ¬ m < n := by
    intro hm
    refine (passed.2 m hm).1 ?_
    rw [hsize]
    exact if_neg (Nat.lt_irrefl m)
  have hge : ¬ n < m := by
    intro hn
    have hpos := hlaid.pos n hn
    have hplanes := hlaid.planes_le
    rcases stop with rfl | hzero
    · omega
    · rw [hsize] at hzero
      have hsame : sizes n = 0 := (if_pos hn).symm.trans hzero
      omega
  omega

/-- **A frame whose planes have all got their buffers** fits. -/
theorem fits_of_done {rows : ℤ → ℤ → ℕ → ℤ} (K : L.Contract rows) {codec : κ} {isVideo : Bool}
    {format width height : ℤ} (hwidth : 0 < width) (hheight : 0 < height) {r : GetFrameResult}
    {fresh : FrameCache} {ans : PlaneAnswers}
    (hfresh : updateFramePool L ⟨codec, isVideo, format⟩ (.blank format width height) .zero
      = some (0, fresh))
    (hsize : r.cache.size = fresh.size) (hlinesize : r.cache.pool.linesize = fresh.pool.linesize)
    {n : ℕ} (passed : Passed r.cache ans n) (stop : n = 4 ∨ r.cache.size n = 0)
    (hans : ∀ i ptr, ans.memalign i = some ptr → ptr ≠ 0)
    (hframe : r.frame = clearFrom n (filled r.cache ans n (.blank format width height))) :
    ∃ c n, Fits L rows ⟨codec, isVideo, r.frame.format⟩ r c n := by
  obtain ⟨m, sizes, hlaid, hfill⟩ := fresh_layout K hwidth hheight hfresh
  have hlt : ∀ j < m, fresh.size j = sizes j := by
    intro j hj
    rw [hfill]
    exact if_pos hj
  -- the loop over the planes ends where the layout does
  obtain rfl : n = m := passed.eq_planes stop hlaid (hsize.trans hfill)
  have hformat : r.frame.format = format := by rw [hframe]; rfl
  have hw : r.frame.width = width := by rw [hframe]; rfl
  have hh : r.frame.height = height := by rw [hframe]; rfl
  -- a plane below the end has the line size of the pool and a buffer of the size cached
  have hplane : ∀ i < n, r.frame.linesize i = fresh.pool.linesize i ∧ r.frame.data i ≠ 0 ∧
      r.frame.buf i = some ⟨r.frame.data i, fresh.size i⟩ := by
    intro i hi
    obtain ⟨ptr, hptr⟩ := Option.isSome_iff_exists.mp (passed.2 i hi).2.1
    have hclear : ¬ (n ≤ i ∧ i < avNumDataPointers) := by omega
    have hdata : r.frame.data i = ptr := by
      rw [hframe]
      show (if n ≤ i ∧ i < avNumDataPointers then 0
        else if i < n then (ans.memalign i).getD 0 else 0) = ptr
      rw [if_neg hclear, if_pos hi, hptr]
      rfl
    refine ⟨?_, ?_, ?_⟩
    · rw [hframe]
      show (if n ≤ i ∧ i < avNumDataPointers then 0
        else if i < n then r.cache.pool.linesize i else 0) = _
      rw [if_neg hclear, if_pos hi, hlinesize]
    · rw [hdata]
      exact hans i ptr hptr
    · rw [hdata, hframe, ← hsize]
      show (if i < n then (ans.memalign i).map (⟨·, r.cache.size i⟩ : ℕ → AVBufferRef) else none)
        = _
      rw [if_pos hi, hptr]
      rfl
  refine ⟨fresh, n, ?_, hsize, hlinesize, ⟨hlaid.pos_planes, hlaid.planes_le⟩, ?_, ?_, ?_, ?_⟩
  · rw [hformat, hw, hh]
    exact hfresh
  · intro i hi
    refine ⟨?_, hplane i hi⟩
    rw [hlt i hi]
    exact hlaid.pos i hi
  · intro i hi
    rw [(hplane i hi).1, hformat, hw, hh, hlt i hi]
    exact hlaid.rows_le i hi
  · rw [hformat, hw, hh]
    refine hlaid.total.trans (sum_congr rfl fun i hi => ?_)
    exact (hlt i (mem_range.mp hi)).symm
  · intro i hi hlt8
    rw [hframe]
    refine ⟨if_pos ⟨hi, hlt8⟩, if_pos ⟨hi, hlt8⟩, ?_⟩
    exact if_neg (Nat.not_lt.mpr hi)

/-- **One event** keeps the invariant. -/
theorem FitInvariant.step {rows : ℤ → ℤ → ℕ → ℤ} (K : L.Contract rows) (s : FrameSession κ)
    (e : FrameEvent κ) (h : FitInvariant L rows s) (he : (uniformMachine L).guard s e) :
    FitInvariant L rows (s.step L e) := by
  obtain ⟨hadmits, huniform⟩ := he
  cases e with
  | reopen codec isVideo =>
    -- the new pool has no key; the plane sizes left in the decoder do no harm
    exact ⟨.inl rfl, nofun⟩
  | release k =>
    show FitInvariant L rows (s.step L (.release k))
    rw [FrameSession.step_release L hadmits]
    exact ⟨h.sound, nofun⟩
  | getFrame call =>
    obtain ⟨hreturns, hanswers⟩ := hadmits
    obtain ⟨hformat, hwidth, hheight⟩ := huniform
    obtain ⟨r, hr⟩ := Option.isSome_iff_exists.mp hreturns
    rw [FrameSession.step_getFrame hr]
    unfold FrameSession.getFrame at hr
    rw [hformat] at hr
    obtain ⟨ret, hpool, -⟩ := lavcGetFrame_cases hr
    refine ⟨(h.sound.update hwidth hpool).1, ?_⟩
    intro q hq hret
    obtain rfl := Option.some.inj hq
    obtain ⟨ret, n, hpool, hnonneg, passed, stop, hframe⟩ := lavcGetFrame_done hr hret
    obtain ⟨fresh, hzero, hsize, hlinesize⟩ := (h.sound.update hwidth hpool).2 hnonneg
    exact fits_of_done K hwidth hheight hzero hsize hlinesize passed stop
      (fun i ptr hptr => (hanswers i ptr hptr).1) hframe

/-- The invariant holds of every session. -/
theorem FitInvariant.run {rows : ℤ → ℤ → ℕ → ℤ} (K : L.Contract rows) {codec : κ} {isVideo : Bool}
    {size : ℕ → ℤ} {es : List (FrameEvent κ)}
    (h : (uniformMachine L).Legal (.start codec isVideo size) es) :
    FitInvariant L rows ((uniformMachine L).run (.start codec isVideo size) es) := by
  have hstart : FitInvariant L rows (.start codec isVideo size) := ⟨.inl rfl, nofun⟩
  exact h.invariant (FitInvariant L rows) (FitInvariant.step K) hstart

/-- **Frame buffers always fit.** Whenever in the life of a decoder a call of `lavc_GetFrame`
returns 0, from the cache or not, its frame has the freshly computed line sizes and buffers. -/
theorem getFrame_fits {rows : ℤ → ℤ → ℕ → ℤ} (K : L.Contract rows) {codec : κ} {isVideo : Bool}
    {size : ℕ → ℤ} {es : List (FrameEvent κ)}
    (h : (uniformMachine L).Legal (.start codec isVideo size) es) {r : GetFrameResult}
    (hlast : ((uniformMachine L).run (.start codec isVideo size) es).last = some r)
    (hret : r.ret = 0) :
    ∃ c n, Fits L rows ⟨((uniformMachine L).run (.start codec isVideo size) es).codec,
      ((uniformMachine L).run (.start codec isVideo size) es).isVideo, r.frame.format⟩ r c n :=
  (FitInvariant.run K h).fits r hlast hret

/-- Two calls for frames of the same size; the second one finds the layout in the cache. -/
def twoCalls : List (FrameEvent Unit) :=
  [.getFrame (smallCall 0 4 fun _ => true), .getFrame (smallCall 65536 4 fun _ => true)]

/-- The calls are admitted. -/
theorem twoCalls_legal : (uniformMachine yuv420).Legal smallDecoder twoCalls := by
  refine ⟨⟨⟨?_, smallCall_fresh ?_⟩, rfl, by decide, by decide⟩,
    ⟨⟨?_, smallCall_fresh ?_⟩, rfl, by decide, by decide⟩, trivial⟩
  · decide +kernel
  · decide +kernel
  · decide +kernel
  · decide +kernel

/-- The second call has returned 0, and `getFrame_fits` applies. -/
theorem getFrame_fits_twoCalls :
    let s := (uniformMachine yuv420).run smallDecoder twoCalls
    ∃ r, s.last = some r ∧ r.ret = 0 ∧
      ∃ c n, Fits yuv420 yuv420Rows ⟨s.codec, s.isVideo, r.frame.format⟩ r c n := by
  intro s
  have hlast : s.last.map GetFrameResult.ret = some 0 := by decide +kernel
  obtain ⟨r, hr, hret⟩ := Option.map_eq_some_iff.mp hlast
  exact ⟨r, hr, hret, getFrame_fits yuv420_contract twoCalls_legal hr hret⟩

end FfTest
