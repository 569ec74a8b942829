import FfTest.Foundations.PushPullCodec
import Mathlib.Logic.Function.Basic

/-! # `DecoderImpl::demux` and `DecoderImpl::decode`

The two calls of the decoder that share the packet `m_pkt`. The codec is a parameter; what
`av_read_frame` and `av_frame_alloc` answer is passed in; every call of the library is recorded in
`calls`, so that what was sent, received, delivered and released can be read off. -/

namespace FfTest

/-- `AVPacket`, as far as the decoder reads it. -/
structure AVPacket (B : Type*) where
  /-- The data buffer, or `NULL`. -/
  data : Option B
  /-- Its size. -/
  size : ℤ
  /-- The stream the packet belongs to. -/
  streamIndex : ℤ
  deriving DecidableEq

/-- `m_pkt->data == NULL && m_pkt->size == 0`. -/
def AVPacket.isEmpty {B : Type*} (p : AVPacket B) : Bool := p.data.isNone && p.size == 0

/-- A packet after `av_packet_unref`, also after a following `av_init_packet`. -/
def AVPacket.blank {B : Type*} : AVPacket B := ⟨none, 0, 0⟩

/-- `struct timeval`. -/
structure Timeval where
  /-- Seconds. -/
  tvSec : ℤ
  /-- Microseconds. -/
  tvUsec : ℤ

/-- `util_diff_time_us`. -/
def utilDiffTimeUs (t1 t2 : Timeval) : BitVec 32 :=
  BitVec.ofInt 32 ((t2.tvSec - t1.tvSec) * 1000000 + t2.tvUsec - t1.tvUsec)

/-- Answer of `av_read_frame`. -/
inductive ReadRet (B : Type*)
  /-- A packet. -/
  | packet (p : AVPacket B)
  /-- `AVERROR(EAGAIN)`. -/
  | again
  /-- `AVERROR_EOF`. -/
  | eof
  /-- Any other error. -/
  | error (code : ℤ)

/-- Result of `demux` and `decode`. -/
inductive DecRet
  /-- `DEC_OK`. -/
  | ok
  /-- `DEC_AGAIN`. -/
  | again
  /-- `DEC_EOF`. -/
  | eof
  /-- `DEC_ERROR`. -/
  | error
  /-- The `-1` of `decode` without a frame. -/
  | fail
  deriving DecidableEq, Repr

/-- One call of the library, or of `m_cb_recv_frame`, with its answer. -/
inductive LibCall (B F : Type*)
  /-- `av_packet_unref`, of a packet with this content. -/
  | packetUnref (pkt : AVPacket B)
  /-- `av_read_frame`. -/
  | readFrame (ret : ReadRet B)
  /-- `avcodec_send_packet`, of `NULL` or a packet. -/
  | sendPacket (pkt : Option (AVPacket B)) (ret : SendRet)
  /-- `av_frame_alloc`, and whether it succeeded. -/
  | frameAlloc (ok : Bool)
  /-- `avcodec_receive_frame`. -/
  | receiveFrame (ret : RecvRet F)
  /-- `m_cb_recv_frame`. -/
  | cbRecvFrame (f : F)
  /-- `av_frame_unref`. -/
  | frameUnref
  /-- `av_frame_free`. -/
  | frameFree
  /-- `avcodec_flush_buffers`. -/
  | flushBuffers

/-- `DecoderImpl`, with the counter `decode_cnt` of its `Decoder`. -/
structure DecoderImpl {B F : Type*} (C : Codec (AVPacket B) F) where
  /-- `m_pkt`. -/
  pkt : AVPacket B
  /-- `m_codec_ctx`. -/
  codecCtx : C.State
  /-- `m_stream_idx`. -/
  streamIdx : ℤ
  /-- `m_decoded_frame_cnt`. -/
  decodedFrameCnt : BitVec 32
  /-- `m_decoder->decode_cnt`. -/
  decodeCnt : BitVec 32
  /-- `m_time_usage`. -/
  timeUsage : Fin 10 → BitVec 32
  /-- How many moments have passed: one for each clock reading, two for each
  `avcodec_receive_frame`, where it begins and where it ends. -/
  moment : ℕ
  /-- The calls so far, oldest first. -/
  calls : List (LibCall B F)

/-- How the receive loop of `decode` is left. -/
inductive LoopExit
  /-- By `break`, with the last reading of `t1`. -/
  | breaks (t1 : Timeval)
  /-- By `return`. -/
  | returns (ret : DecRet)

namespace DecoderImpl

variable {B F : Type*} {C : Codec (AVPacket B) F}

/-! ## Calls of the library -/

/-- Record a call. -/
def call (d : DecoderImpl C) (c : LibCall B F) : DecoderImpl C := { d with calls := d.calls ++ [c] }

/-- `gettimeofday`: the clock is read, a moment passes. -/
def tick (d : DecoderImpl C) : DecoderImpl C := { d with moment := d.moment + 1 }

/-- `m_time_usage[i] += util_diff_time_us(t1, t2)`. -/
def addTime (d : DecoderImpl C) (i : Fin 10) (t1 t2 : Timeval) : DecoderImpl C :=
  { d with timeUsage := Function.update d.timeUsage i (d.timeUsage i + utilDiffTimeUs t1 t2) }

/-- `av_packet_unref(m_pkt)`. -/
def packetUnref (d : DecoderImpl C) : DecoderImpl C :=
  { d.call (.packetUnref d.pkt) with pkt := .blank }

/-- `av_read_frame(m_fmt_ctx, m_pkt)`: on failure the packet is blank. -/
def readFrame (d : DecoderImpl C) (ret : ReadRet B) : DecoderImpl C :=
  { d.call (.readFrame ret) with
    pkt := match ret with
      | .packet p => p
      | _ => .blank }

/-- `avcodec_send_packet(m_codec_ctx, pkt)`. -/
def sendPacket (d : DecoderImpl C) (pkt : Option (AVPacket B)) : SendRet × DecoderImpl C :=
  ((C.send d.codecCtx pkt).1,
    { d.call (.sendPacket pkt (C.send d.codecCtx pkt).1) with
      codecCtx := (C.send d.codecCtx pkt).2 })

/-- `avcodec_receive_frame(m_codec_ctx, frame)` has answered `ret` and left the codec in `s`. -/
def received (d : DecoderImpl C) (ret : RecvRet F) (s : C.State) : DecoderImpl C :=
  { d.call (.receiveFrame ret) with codecCtx := s, moment := d.moment + 2 }

/-- The end of the loop's body: the frame is counted, passed to `m_cb_recv_frame` and dropped. -/
def deliver (d : DecoderImpl C) (f : F) : DecoderImpl C :=
  (({ d with decodeCnt := d.decodeCnt + 1 }).call (.cbRecvFrame f)).call .frameUnref

/-- `avcodec_flush_buffers(m_codec_ctx)`. -/
def flushBuffers (d : DecoderImpl C) : DecoderImpl C :=
  { d.call .flushBuffers with codecCtx := C.flush d.codecCtx }

/-! ## `demux` -/

/-- `DecoderImpl::demux`, where `av_read_frame` answers `read`. -/
def demux (clock : ℕ → Timeval) (d : DecoderImpl C) (read : ReadRet B) :
    DecRet × DecoderImpl C :=
  let t1 := clock d.moment
  let d := d.tick
  let d := d.packetUnref
  let d := d.readFrame read
  let t2 := clock d.moment
  let d := d.tick
  let d := d.addTime 0 t1 t2
  match read with
  | .again => (.again, d)
  | .eof => (.eof, { d with pkt := { d.pkt with data := none, size := 0 } })
  | .error _ => (.error, d)
  | .packet _ =>
    if d.pkt.streamIndex ≠ d.streamIdx then (.again, d.packetUnref)
    else (.ok, { d with decodedFrameCnt := d.decodedFrameCnt + 1 })

/-! ## `decode` -/

/-- The `do … while` loop of `decode`. Its condition `ret >= 0` is only reached with `ret == 0`, so
the loop is left in its body. -/
def receiveLoop (clock : ℕ → Timeval) (d : DecoderImpl C) : LoopExit × DecoderImpl C :=
  let t1 := clock d.moment
  let d' := d.tick
  match _h : C.receive d.codecCtx with
  | (.frame f, s) => receiveLoop clock ((d'.received (.frame f) s).deliver f)
  | (.again, s) => (.breaks t1, d'.received .again s)
  | (.eof, s) => (.returns .eof, ((d'.received .eof s).call .frameFree).flushBuffers)
  | (.error c, s) => (.returns .error, (d'.received (.error c) s).call .frameFree)
termination_by C.backlog d.codecCtx
decreasing_by exact C.backlog_lt _h

/-- What `decode` sends: `NULL` for an empty `m_pkt`, and otherwise `m_pkt`. -/
def toSend (d : DecoderImpl C) : Option (AVPacket B) :=
  if d.pkt.isEmpty then none else some d.pkt

/-- `DecoderImpl::decode`, where `av_frame_alloc` succeeds iff `frameAlloc`. -/
def decode (clock : ℕ → Timeval) (d : DecoderImpl C) (frameAlloc : Bool) :
    DecRet × DecoderImpl C :=
  let eof := d.pkt.isEmpty
  match d.tick.sendPacket d.toSend with
  | (.eof, d) => (.eof, d)
  | (.again, d) => (.again, d.packetUnref)
  | (.error _, d) => (.error, d)
  | (.ok, d) =>
    let d := d.call (.frameAlloc frameAlloc)
    if frameAlloc = false then (.fail, d)
    else
      match d.receiveLoop clock with
      | (.returns ret, d) => (ret, d)
      | (.breaks t1, d) =>
        let d := d.call .frameFree
        let t2 := clock d.moment
        let d := (d.tick).addTime 2 t1 t2
        (if eof then .eof else .ok, d)

/-- The state of `decode` once the codec has answered `ret` to the packet and is in `s`. -/
def sent (d : DecoderImpl C) (ret : SendRet) (s : C.State) : DecoderImpl C :=
  { d.tick.call (.sendPacket d.toSend ret) with codecCtx := s }

/-- `decode` from the codec's answer to the packet on. -/
def afterSend (clock : ℕ → Timeval) (d : DecoderImpl C) (frameAlloc : Bool) (s : C.State) :
    SendRet → DecRet × DecoderImpl C
  | .eof => (.eof, d.sent .eof s)
  | .again => (.again, (d.sent .again s).packetUnref)
  | .error c => (.error, d.sent (.error c) s)
  | .ok =>
    let d₁ := (d.sent .ok s).call (.frameAlloc frameAlloc)
    if frameAlloc = false then (.fail, d₁)
    else
      match d₁.receiveLoop clock with
      | (.returns ret, d₂) => (ret, d₂)
      | (.breaks t1, d₂) =>
        (if d.toSend.isNone then .eof else .ok,
          ((d₂.call .frameFree).tick).addTime 2 t1 (clock (d₂.call .frameFree).moment))

end DecoderImpl

end FfTest
