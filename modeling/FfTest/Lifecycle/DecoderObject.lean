import FfTest.Foundations.Ledger
import Mathlib.Data.Int.Notation

/-! # `Decoder::init`, `Decoder::open` and `Decoder::release`

The objects the decoder gets from the libraries, and the calls that hand them out and take them
back. Every allocation makes a new object, told apart by its serial number. The answers of the
libraries are passed in; the calls are recorded, newest first.

Of the libraries three things are taken for granted: `avformat_open_input` frees the context and
clears the pointer when it fails, and otherwise marks a context whose `pb` was set before as custom
I/O; `avformat_close_input` closes the `pb` of a context unless it is so marked. -/

namespace FfTest.Lifecycle

/-! ## Objects and calls -/

/-- What the libraries allocate. -/
inductive ObjectKind
  /-- `AVFormatContext`. -/
  | formatContext
  /-- The buffer of an `AVIOContext`. -/
  | ioBuffer
  /-- `AVIOContext`. -/
  | ioContext
  /-- `AVPacket`. -/
  | packet
  /-- `AVCodecContext`. -/
  | codecContext
  /-- `SwsContext`. -/
  | swsContext
  deriving DecidableEq, Repr

/-- An object of the libraries. -/
structure Object where
  /-- What it is. -/
  kind : ObjectKind
  /-- How many objects were allocated before it. -/
  serial : ℕ
  deriving DecidableEq, Repr

/-- A call that hands an object out or takes one back. -/
inductive Call
  /-- `o` is allocated. -/
  | alloc (o : Object)
  /-- `o` is freed. -/
  | free (o : Object)
  /-- `avformat_close_input` is called on `fmt`, whose `pb` is given. -/
  | closeInput (fmt : Object) (pb : Option Object)
  deriving DecidableEq, Repr

/-- What a call means for the ledger of objects. -/
def Call.entry : Call → Option (LedgerEntry Object)
  | .alloc o => some (.acquire o)
  | .free o => some (.release o)
  | .closeInput _ _ => none

/-- The ledger of objects. -/
def ledger (calls : List Call) : List (LedgerEntry Object) := calls.filterMap Call.entry

@[simp] theorem ledger_nil : ledger [] = [] := rfl

@[simp] theorem ledger_alloc (o : Object) (calls : List Call) :
    ledger (.alloc o :: calls) = .acquire o :: ledger calls := rfl

@[simp] theorem ledger_free (o : Object) (calls : List Call) :
    ledger (.free o :: calls) = .release o :: ledger calls := rfl

@[simp] theorem ledger_closeInput (fmt : Object) (pb : Option Object) (calls : List Call) :
    ledger (.closeInput fmt pb :: calls) = ledger calls := rfl

/-- The libraries: how many objects they have made, and the calls so far. -/
structure Library where
  /-- How many objects have been allocated. -/
  next : ℕ
  /-- The calls, newest first. -/
  calls : List Call

namespace Library

/-- Libraries that have not been called yet. -/
def start : Library := ⟨0, []⟩

/-- A new object. -/
def alloc (lib : Library) (kind : ObjectKind) : Object × Library :=
  (⟨kind, lib.next⟩, ⟨lib.next + 1, .alloc ⟨kind, lib.next⟩ :: lib.calls⟩)

/-- An object is freed. -/
def free (lib : Library) (o : Object) : Library := { lib with calls := .free o :: lib.calls }

end Library

/-- `AVIOContext`, as far as it is read. -/
structure IOContext where
  /-- The context itself. -/
  obj : Object
  /-- `buffer`. -/
  buffer : Option Object
  deriving DecidableEq, Repr

/-- `enum AVMediaType`. -/
inductive MediaType
  /-- `AVMEDIA_TYPE_VIDEO`. -/
  | video
  /-- `AVMEDIA_TYPE_AUDIO`. -/
  | audio
  /-- Any other type. -/
  | other
  deriving DecidableEq, Repr

/-- `AVCodecParameters`, as far as they are read. -/
structure CodecParameters where
  /-- `codec_type`. -/
  codecType : MediaType
  /-- `codec_id`. -/
  codecId : ℕ
  deriving DecidableEq, Repr

/-- `AVStream`, as far as it is read. -/
structure Stream where
  /-- `codecpar`, or `NULL`. -/
  codecpar : Option CodecParameters
  deriving DecidableEq, Repr

/-- `AVFormatContext`, as far as it is read. -/
structure FormatContext where
  /-- The context itself. -/
  obj : Object
  /-- `pb`, or `NULL`. -/
  pb : Option IOContext
  /-- `flags & AVFMT_FLAG_CUSTOM_IO`. -/
  customFlag : Bool
  /-- `streams`. -/
  streams : List Stream
  deriving DecidableEq, Repr

/-- `enum AVDiscard`, as far as it is used. -/
inductive Discard
  /-- `AVDISCARD_DEFAULT`. -/
  | default
  /-- `AVDISCARD_NONREF`. -/
  | nonref
  /-- `AVDISCARD_NONKEY`. -/
  | nonkey
  deriving DecidableEq, Repr

/-- `AVCodecContext`, as far as it is written here. -/
structure CodecContext where
  /-- The context itself. -/
  obj : Object
  /-- The `AVCodec` it was allocated for. -/
  codec : ℕ
  /-- Whether `get_buffer2` is `lavc_GetFrame`. -/
  getBuffer2 : Bool
  /-- `skip_frame`. -/
  skipFrame : Discard
  /-- The parameters copied into it. -/
  par : Option CodecParameters
  /-- `width` and `height`. -/
  size : ℤ × ℤ
  deriving DecidableEq, Repr

/-- `Decoder` with its `DecoderImpl`, as far as it takes part in the lifecycle. -/
structure Decoder where
  /-- `m_io_ctx`. -/
  ioCtx : Option IOContext
  /-- `m_codec_ctx`. -/
  codecCtx : Option CodecContext
  /-- `m_fmt_ctx`. -/
  fmtCtx : Option FormatContext
  /-- `m_pkt`. -/
  pkt : Option Object
  /-- `m_sws_ctx`. -/
  swsCtx : Option Object
  /-- `m_stream_idx`. -/
  streamIdx : ℤ
  /-- `m_decoded_frame_cnt`. -/
  decodedFrameCnt : BitVec 32
  /-- `m_width`. -/
  width : BitVec 16
  /-- `m_height`. -/
  height : BitVec 16

/-- `Decoder::Decoder` and `DecoderImpl::DecoderImpl`. -/
def Decoder.construct : Decoder := ⟨none, none, none, none, none, -1, 0, 0, 0⟩

/-! ## `Decoder::init` -/

/-- Which allocations of `init` succeed. -/
structure InitAnswers where
  /-- `avformat_alloc_context`. -/
  formatContext : Bool
  /-- `av_malloc`. -/
  malloc : Bool
  /-- `avio_alloc_context`. -/
  ioContext : Bool
  /-- `av_packet_alloc`. -/
  packet : Bool
  deriving DecidableEq, Repr

/-- `Decoder::init`. -/
def init (ans : InitAnswers) (d : Decoder) (lib : Library) : ℤ × Decoder × Library :=
  if !ans.formatContext then (-1, { d with fmtCtx := none }, lib)
  else
    let (fmt, lib) := lib.alloc .formatContext
    let d := { d with fmtCtx := some ⟨fmt, none, false, []⟩ }
    if !ans.malloc then (-1, d, lib)
    else
      let (buffer, lib) := lib.alloc .ioBuffer
      -- here `avio_ctx_buffer` is the only pointer to the buffer
      if !ans.ioContext then (-1, { d with ioCtx := none }, lib)
      else
        let (io, lib) := lib.alloc .ioContext
        let d := { d with
          ioCtx := some ⟨io, some buffer⟩
          fmtCtx := some ⟨fmt, some ⟨io, some buffer⟩, false, []⟩ }
        if !ans.packet then (-1, { d with pkt := none }, lib)
        else
          let (pkt, lib) := lib.alloc .packet
          (0, { d with pkt := some pkt }, lib)

/-! ## `Decoder::open` -/

/-- What the libraries answer in `open`. -/
structure OpenAnswers where
  /-- `avformat_open_input`. -/
  openInput : ℤ
  /-- `avformat_find_stream_info`. -/
  findStreamInfo : ℤ
  /-- The streams found. -/
  streams : List Stream
  /-- `av_find_best_stream`. -/
  findBestStream : ℤ
  /-- `*decoder_ret` of `av_find_best_stream`, or `NULL`. -/
  dec : Option ℕ
  /-- Whether `avcodec_alloc_context3` succeeds. -/
  allocContext3 : Bool
  /-- `avcodec_parameters_to_context`. -/
  parametersToContext : ℤ
  /-- `avcodec_open2`. -/
  open2 : ℤ
  /-- `width` and `height` of the codec context when it is open. -/
  size : ℤ × ℤ
  deriving DecidableEq, Repr

/-- `Config`, as far as `open_codec_ctx` reads it. -/
structure Config where
  /-- `m_get_buffer`. -/
  getBuffer : BitVec 16
  /-- `m_skip_frame`. -/
  skipFrame : BitVec 16
  deriving DecidableEq, Repr

/-- `avformat_open_input` that succeeds: on a context whose `pb` is set, on one whose `pb` is not,
or on `NULL`. Where no I/O is given, FFmpeg opens its own. -/
def openInputDone (streams : List Stream) (ps : Option FormatContext) (lib : Library) :
    FormatContext × Library :=
  let (obj, pb, lib) := match ps with
    | some fmt => (fmt.obj, fmt.pb, lib)
    | none =>
      let (fmt, lib) := lib.alloc .formatContext
      (fmt, none, lib)
  match pb with
  | some io => (⟨obj, some io, true, streams⟩, lib)
  | none =>
    let (buffer, lib) := lib.alloc .ioBuffer
    let (io, lib) := lib.alloc .ioContext
    (⟨obj, some ⟨io, some buffer⟩, false, streams⟩, lib)

/-- `avformat_open_input(&ps, NULL, NULL, NULL)`. -/
def avformatOpenInput (ret : ℤ) (streams : List Stream) (ps : Option FormatContext)
    (lib : Library) : Option FormatContext × Library :=
  if ret < 0 then
    match ps with
    | some fmt => (none, lib.free fmt.obj)
    | none => (none, lib)
  else
    let (fmt, lib) := openInputDone streams ps lib
    (some fmt, lib)

/-- The loop of `open_codec_ctx` over the streams: the first with parameters of a video, or -1. -/
def videoIndex (streams : List Stream) : ℤ :=
  match streams.findIdx? fun st => st.codecpar.any (·.codecType = .video) with
  | some i => i
  | none => -1

/-- The `switch` over `m_skip_frame`. -/
def skipFrameOf (skipFrame : BitVec 16) : Discard :=
  if skipFrame = 1 then .nonref else if skipFrame = 2 then .nonkey else .default

/-- `DecoderImpl::open_codec_ctx`, with `AVERROR(EINVAL)` and `AVERROR(ENOMEM)` as -22 and -12. -/
def openCodecCtx (cfg : Config) (ans : OpenAnswers) (d : Decoder) (lib : Library) :
    ℤ × Decoder × Library :=
  let streams := (d.fmtCtx.map FormatContext.streams).getD []
  if ans.findBestStream < 0 then (ans.findBestStream, d, lib)
  else if videoIndex streams < 0 then (-1, d, lib)
  else
    match ans.dec with
    | none => (-22, d, lib)
    | some dec =>
      if !ans.allocContext3 then (-12, { d with codecCtx := none }, lib)
      else
        let (obj, lib) := lib.alloc .codecContext
        let ctx : CodecContext :=
          ⟨obj, dec, cfg.getBuffer ≠ 0, skipFrameOf cfg.skipFrame, none, (0, 0)⟩
        let d := { d with codecCtx := some ctx }
        if ans.parametersToContext < 0 then (ans.parametersToContext, d, lib)
        else
          let par := streams[(videoIndex streams).toNat]?.bind Stream.codecpar
          if ans.open2 < 0 then (ans.open2, { d with codecCtx := some { ctx with par } }, lib)
          else
            (0, { d with
              codecCtx := some { ctx with par, size := ans.size }
              streamIdx := videoIndex streams }, lib)

/-- `DecoderImpl::stream_open`, which is all of `Decoder::open` that is kept here. -/
def streamOpen (cfg : Config) (ans : OpenAnswers) (d : Decoder) (lib : Library) :
    ℤ × Decoder × Library :=
  let (fmt, lib) := avformatOpenInput ans.openInput ans.streams d.fmtCtx lib
  let d := { d with fmtCtx := fmt }
  if ans.openInput < 0 then (-1, d, lib)
  else if ans.findStreamInfo < 0 then (-1, d, lib)
  else
    let (ret, d, lib) := openCodecCtx cfg ans d lib
    if ret < 0 then (-1, d, lib)
    else
      let size := (d.codecCtx.map CodecContext.size).getD (0, 0)
      (0, { d with width := BitVec.ofInt 16 size.1, height := BitVec.ofInt 16 size.2 }, lib)

/-! ## `Decoder::release` -/

/-- An object is freed if the pointer is set. -/
def freeIf (o : Option Object) (lib : Library) : Library := o.elim lib lib.free

/-- The buffer of the context is freed, if it is set, and then the context. -/
def freeIoContext (io : IOContext) (lib : Library) : Library := (freeIf io.buffer lib).free io.obj

/-- `avformat_close_input`. -/
def avformatCloseInput (fmt : FormatContext) (lib : Library) : Library :=
  let lib := { lib with calls := .closeInput fmt.obj (fmt.pb.map IOContext.obj) :: lib.calls }
  let lib := lib.free fmt.obj
  if fmt.customFlag then lib else fmt.pb.elim lib (freeIoContext · lib)

/-- `Decoder::release`. -/
def release (d : Decoder) (lib : Library) : Decoder × Library :=
  let lib := freeIf d.pkt lib
  -- the I/O context goes before the format context whose `pb` may point to it
  let lib := d.ioCtx.elim lib (freeIoContext · lib)
  let lib := freeIf (d.codecCtx.map CodecContext.obj) lib
  let lib := d.fmtCtx.elim lib (avformatCloseInput · lib)
  -- `m_sws_ctx` is freed but not cleared
  let lib := freeIf d.swsCtx lib
  ({ d with pkt := none, ioCtx := none, codecCtx := none, fmtCtx := none, decodedFrameCnt := 0 },
    lib)

end FfTest.Lifecycle
