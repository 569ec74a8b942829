import FfTest.Lifecycle.DecoderObject

/-! # What `init`, `open` and `release` do to the objects

One proposition for each function says how it can end: which objects are made, where they are
stored, and which are freed. Everything about the life of a decoder goes through these. What waits
to be freed is freed in the order of `release`, whatever is said of it (`KeptByFree`). -/

namespace FfTest.Lifecycle

/-! ## What the decoder holds -/

/-- An I/O context and its buffer. -/
def IOContext.objects (io : IOContext) : List Object := io.buffer.toList ++ [io.obj]

/-- The I/O context that only the format context knows. -/
def Decoder.ownPb (d : Decoder) : Option IOContext :=
  d.fmtCtx.bind fun fmt => if fmt.pb = d.ioCtx then none else fmt.pb

/-- The objects the decoder holds, in the order of `release`. -/
def Decoder.objects (d : Decoder) : List Object :=
  d.pkt.toList ++ (d.ioCtx.elim [] IOContext.objects ++
    ((d.codecCtx.map CodecContext.obj).toList ++ ((d.fmtCtx.map FormatContext.obj).toList ++
      (d.ownPb.elim [] IOContext.objects ++ d.swsCtx.toList))))

/-! ## What the functions do -/

/-- How `init` ends on a decoder. -/
inductive InitEffect (ans : InitAnswers) (d : Decoder) (lib : Library) :
    ℤ × Decoder × Library → Prop
  /-- There is no format context. -/
  | noFormat (hfmt : ans.formatContext = false) :
    InitEffect ans d lib (-1, { d with fmtCtx := none }, lib)
  /-- There is no buffer. -/
  | noBuffer {fmt : Object} {lib₁ : Library} (hfmt : ans.formatContext = true)
    (hmalloc : ans.malloc = false) (h₁ : lib.alloc .formatContext = (fmt, lib₁)) :
    InitEffect ans d lib (-1, { d with fmtCtx := some ⟨fmt, none, false, []⟩ }, lib₁)
  /-- There is no I/O context for the buffer. -/
  | noIoContext {fmt buffer : Object} {lib₁ lib₂ : Library} (hfmt : ans.formatContext = true)
    (hmalloc : ans.malloc = true) (hio : ans.ioContext = false)
    (h₁ : lib.alloc .formatContext = (fmt, lib₁)) (h₂ : lib₁.alloc .ioBuffer = (buffer, lib₂)) :
    InitEffect ans d lib
      (-1, { d with fmtCtx := some ⟨fmt, none, false, []⟩, ioCtx := none }, lib₂)
  /-- There is no packet. -/
  | noPacket {fmt buffer io : Object} {lib₁ lib₂ lib₃ : Library} (hfmt : ans.formatContext = true)
    (hmalloc : ans.malloc = true) (hio : ans.ioContext = true) (hpkt : ans.packet = false)
    (h₁ : lib.alloc .formatContext = (fmt, lib₁)) (h₂ : lib₁.alloc .ioBuffer = (buffer, lib₂))
    (h₃ : lib₂.alloc .ioContext = (io, lib₃)) :
    InitEffect ans d lib (-1, { d with
      ioCtx := some ⟨io, some buffer⟩
      fmtCtx := some ⟨fmt, some ⟨io, some buffer⟩, false, []⟩
      pkt := none }, lib₃)
  /-- Everything is there. -/
  | done {fmt buffer io pkt : Object} {lib₁ lib₂ lib₃ lib₄ : Library}
    (hfmt : ans.formatContext = true) (hmalloc : ans.malloc = true) (hio : ans.ioContext = true)
    (hpkt : ans.packet = true)
    (h₁ : lib.alloc .formatContext = (fmt, lib₁)) (h₂ : lib₁.alloc .ioBuffer = (buffer, lib₂))
    (h₃ : lib₂.alloc .ioContext = (io, lib₃)) (h₄ : lib₃.alloc .packet = (pkt, lib₄)) :
    InitEffect ans d lib (0, { d with
      ioCtx := some ⟨io, some buffer⟩
      fmtCtx := some ⟨fmt, some ⟨io, some buffer⟩, false, []⟩
      pkt := some pkt }, lib₄)

/-- `init` ends in one of these ways. -/
theorem init_effect (ans : InitAnswers) (d : Decoder) (lib : Library) :
    InitEffect ans d lib (init ans d lib) := by
  obtain ⟨formatContext, malloc, ioContext, packet⟩ := ans
  cases formatContext with
  | false => exact .noFormat rfl
  | true =>
    cases malloc with
    | false => exact .noBuffer rfl rfl rfl
    | true =>
      cases ioContext with
      | false => exact .noIoContext rfl rfl rfl rfl rfl
      | true =>
        cases packet with
        | false => exact .noPacket rfl rfl rfl rfl rfl rfl rfl
        | true => exact .done rfl rfl rfl rfl rfl rfl rfl rfl

/-- How `avformat_open_input` succeeds on a pointer. -/
inductive InputOpened (streams : List Stream) (lib : Library) :
    Option FormatContext → FormatContext × Library → Prop
  /-- The context has its `pb` already. -/
  | customPb {fmt : FormatContext} {io : IOContext} (hpb : fmt.pb = some io) :
    InputOpened streams lib (some fmt) (⟨fmt.obj, some io, true, streams⟩, lib)
  /-- The context gets a `pb`. -/
  | ownPb {fmt : FormatContext} {buffer io : Object} {lib₁ lib₂ : Library} (hpb : fmt.pb = none)
    (h₁ : lib.alloc .ioBuffer = (buffer, lib₁)) (h₂ : lib₁.alloc .ioContext = (io, lib₂)) :
    InputOpened streams lib (some fmt)
      (⟨fmt.obj, some ⟨io, some buffer⟩, false, streams⟩, lib₂)
  /-- A context is made, with a `pb`. -/
  | newContext {fmt buffer io : Object} {lib₁ lib₂ lib₃ : Library}
    (h₁ : lib.alloc .formatContext = (fmt, lib₁)) (h₂ : lib₁.alloc .ioBuffer = (buffer, lib₂))
    (h₃ : lib₂.alloc .ioContext = (io, lib₃)) :
    InputOpened streams lib none (⟨fmt, some ⟨io, some buffer⟩, false, streams⟩, lib₃)

/-- `avformat_open_input` succeeds in one of these ways. -/
theorem openInputDone_effect (streams : List Stream) (ps : Option FormatContext) (lib : Library) :
    InputOpened streams lib ps (openInputDone streams ps lib) := by
  cases ps with
  | none => exact .newContext rfl rfl rfl
  | some fmt =>
    obtain ⟨obj, pb, custom, old⟩ := fmt
    cases pb with
    | none => exact .ownPb rfl rfl rfl
    | some io => exact .customPb rfl

/-- How `open_codec_ctx` ends on a decoder. -/
inductive CodecEffect (d : Decoder) (lib : Library) : ℤ × Decoder × Library → Prop
  /-- There is no attempt at a codec context. -/
  | noCodec {ret : ℤ} (hret : ret < 0) : CodecEffect d lib (ret, d, lib)
  /-- `avcodec_alloc_context3` fails. -/
  | refused {ret : ℤ} (hret : ret < 0) : CodecEffect d lib (ret, { d with codecCtx := none }, lib)
  /-- There is a codec context, opened or not. -/
  | made {ret : ℤ} {ctx : CodecContext} {lib₁ : Library} (streamIdx : ℤ)
    (halloc : lib.alloc .codecContext = (ctx.obj, lib₁)) :
    CodecEffect d lib (ret, { d with codecCtx := some ctx, streamIdx }, lib₁)

/-- `open_codec_ctx` ends in one of these ways. -/
theorem openCodecCtx_effect (cfg : Config) (ans : OpenAnswers) (d : Decoder) (lib : Library) :
    CodecEffect d lib (openCodecCtx cfg ans d lib) := by
  simp only [openCodecCtx]
  by_cases hbest : ans.findBestStream < 0
  · simpa [hbest] using CodecEffect.noCodec hbest
  by_cases hvideo : videoIndex ((d.fmtCtx.map FormatContext.streams).getD []) < 0
  · simpa [hbest, hvideo] using CodecEffect.noCodec (by decide)
  simp only [hbest, hvideo, if_false]
  cases ans.dec with
  | none => exact .noCodec (by decide)
  | some dec =>
    cases ans.allocContext3 with
    | false => exact .refused (by decide)
    | true =>
      -- from here on there is a codec context, whatever fails
      simp only [Bool.not_true, Bool.false_eq_true, if_false]
      split
      · exact .made d.streamIdx rfl
      split
      · exact .made d.streamIdx rfl
      · exact .made _ rfl

/-- How `open` ends on a decoder. -/
inductive OpenEffect (streams : List Stream) (d : Decoder) (lib : Library) :
    Decoder × Library → Prop
  /-- `avformat_open_input` fails and frees the context. -/
  | inputFailed {fmt : FormatContext} (hps : d.fmtCtx = some fmt) :
    OpenEffect streams d lib ({ d with fmtCtx := none }, lib.free fmt.obj)
  /-- `avformat_open_input` fails on `NULL`. -/
  | nullFailed (hps : d.fmtCtx = none) : OpenEffect streams d lib ({ d with fmtCtx := none }, lib)
  /-- The input is open, and there is no attempt at a codec context. -/
  | noCodec {fmt : FormatContext} {lib₁ : Library}
    (hopen : InputOpened streams lib d.fmtCtx (fmt, lib₁)) :
    OpenEffect streams d lib ({ d with fmtCtx := some fmt }, lib₁)
  /-- The input is open, and `avcodec_alloc_context3` fails. -/
  | refused {fmt : FormatContext} {lib₁ : Library}
    (hopen : InputOpened streams lib d.fmtCtx (fmt, lib₁)) :
    OpenEffect streams d lib ({ d with fmtCtx := some fmt, codecCtx := none }, lib₁)
  /-- The input is open, and there is a codec context. -/
  | made {fmt : FormatContext} {ctx : CodecContext} {lib₁ lib₂ : Library}
    (streamIdx : ℤ) (width height : BitVec 16)
    (hopen : InputOpened streams lib d.fmtCtx (fmt, lib₁))
    (halloc : lib₁.alloc .codecContext = (ctx.obj, lib₂)) :
    OpenEffect streams d lib
      ({ d with fmtCtx := some fmt, codecCtx := some ctx, streamIdx, width, height }, lib₂)

/-- `open` ends in one of these ways. -/
theorem streamOpen_effect (cfg : Config) (ans : OpenAnswers) (d : Decoder) (lib : Library) :
    OpenEffect ans.streams d lib (streamOpen cfg ans d lib).2 := by
  unfold streamOpen avformatOpenInput
  by_cases hret : ans.openInput < 0
  · cases hps : d.fmtCtx with
    | none => simpa [hret] using OpenEffect.nullFailed hps
    | some fmt => simpa [hret] using OpenEffect.inputFailed hps
  simp only [hret, if_false]
  have hopen := openInputDone_effect ans.streams d.fmtCtx lib
  generalize openInputDone ans.streams d.fmtCtx lib = opened at hopen ⊢
  obtain ⟨fmt, lib₁⟩ := opened
  by_cases hfind : ans.findStreamInfo < 0
  · simpa [hfind] using OpenEffect.noCodec hopen
  simp only [hfind, if_false]
  have hcodec := openCodecCtx_effect cfg ans { d with fmtCtx := some fmt } lib₁
  generalize openCodecCtx cfg ans { d with fmtCtx := some fmt } lib₁ = coded at hcodec ⊢
  cases hcodec with
  | noCodec hneg => simpa [hneg] using OpenEffect.noCodec hopen
  | refused hneg => simpa [hneg] using OpenEffect.refused hopen
  | made streamIdx halloc =>
    dsimp only
    split
    · exact .made streamIdx d.width d.height hopen halloc
    · exact .made streamIdx _ _ hopen halloc

/-! ## Freeing what is held -/

/-- The libraries when `release` comes to the format context. -/
def beforeClose (d : Decoder) (lib : Library) : Library :=
  freeIf (d.codecCtx.map CodecContext.obj)
    (d.ioCtx.elim (freeIf d.pkt lib) (freeIoContext · (freeIf d.pkt lib)))

/-- `P` speaks of objects that wait to be freed, and freeing the first leaves the others to wait. -/
def KeptByFree (P : Library → List Object → Prop) : Prop :=
  ∀ ⦃lib o os⦄, P lib (o :: os) → P (lib.free o) os

namespace KeptByFree

variable {P : Library → List Object → Prop} {lib : Library} {os : List Object}

/-- `freeIf` frees an object that waits. -/
theorem freeIf (hP : KeptByFree P) {o : Option Object} (h : P lib (o.toList ++ os)) :
    P (freeIf o lib) os := by
  cases o with
  | none => exact h
  | some o => exact hP h

/-- `freeIoContext` frees a context that waits. -/
theorem freeIoContext (hP : KeptByFree P) {io : IOContext} (h : P lib (io.objects ++ os)) :
    P (freeIoContext io lib) os := by
  rw [IOContext.objects, List.append_assoc] at h
  exact hP (hP.freeIf h)

/-- `release` comes to the format context with the packet, the I/O context and the codec context
freed. -/
theorem beforeClose (hP : KeptByFree P) {d : Decoder}
    (h : P lib (d.pkt.toList ++ (d.ioCtx.elim [] IOContext.objects ++
      ((d.codecCtx.map CodecContext.obj).toList ++ os)))) : P (beforeClose d lib) os := by
  have hpkt := hP.freeIf h
  refine hP.freeIf ?_
  cases hio : d.ioCtx with
  | none =>
    rw [hio] at hpkt
    exact hpkt
  | some io =>
    rw [hio] at hpkt
    exact hP.freeIoContext hpkt

end KeptByFree

end FfTest.Lifecycle
