import FfTest.Foundations.SystemHeap
import Mathlib.Algebra.Group.Nat.Defs
import Mathlib.Data.Int.Basic

/-! # The allocation wrappers `jut_malloc`, `jut_realloc`, `jut_free`

The wrappers of `ff_mem.cpp`, which FFmpeg is linked against. Under policy 4 they put a header of
`ALIGN` bytes before each payload, write the payload's size into it and charge that size to the
decoder that is current on the calling thread; policy 5 keeps the shift and charges nobody; policy 1
hands every call on to the system allocator; any other value allocates nothing.

`size_t` is `BitVec w`, so `size + ALIGN` wraps as it does in the program, and the counters of a
decoder and the size in a header are 32 bits wide. A pointer is `Option ℕ`, `none` for `NULL`. -/

namespace FfTest

/-- `ALIGN`: the bytes between a block's start and its payload. -/
def align : ℕ := 64

/-- The counters of a `Decoder` that the allocator updates. -/
structure Decoder where
  /-- Bytes charged and not released, `m_mem_used`. -/
  memUsed : BitVec 32
  /-- Recorded maximum of `memUsed`, `memused_max`. -/
  memusedMax : BitVec 32
  deriving DecidableEq, Repr

/-- What the wrappers read and write: the system heap, and the counters of every decoder. -/
structure JutState (D : Type*) where
  /-- The system allocator and memory. -/
  sys : SysHeap
  /-- Counters of each decoder. -/
  dec : D → Decoder

variable {D : Type*} {w : ℕ}

namespace JutState

/-- Update the current decoder, if there is one: `if (dc) { … }`. -/
def onDecoder [DecidableEq D] (s : JutState D) (dc : Option D) (f : Decoder → Decoder) :
    JutState D :=
  match dc with
  | none => s
  | some d => { s with dec := fun x => if x = d then f (s.dec d) else s.dec x }

/-- `hdr->size`. -/
def hdrSize (s : JutState D) (hdr : ℕ) : BitVec 32 := load32 s.sys.mem hdr

/-- `hdr->size = v`. -/
def setHdrSize (s : JutState D) (hdr : ℕ) (v : BitVec 32) : JutState D :=
  { s with sys := s.sys.poke (store32 s.sys.mem hdr v) }

/-- `malloc(req)` and `memalign(_, req)`. -/
def sysAlloc (s : JutState D) (req : ℕ) (r : Option Grant) : Option ℕ × JutState D :=
  ((s.sys.alloc req r).1, { s with sys := (s.sys.alloc req r).2 })

/-- `realloc(arg, req)`. -/
def sysRealloc (s : JutState D) (arg : Option ℕ) (req : ℕ) (r : Option Grant) :
    Option ℕ × JutState D :=
  ((s.sys.realloc arg req r).1, { s with sys := (s.sys.realloc arg req r).2 })

/-- `free(arg)`. -/
def sysFree (s : JutState D) (arg : ℕ) (m : Memory) : JutState D :=
  { s with sys := s.sys.free arg m }

end JutState

/-- `dc->m_mem_used += size; if (dc->m_mem_used > dc->memused_max) dc->memused_max = …`. -/
def Decoder.grow (dc : Decoder) (size : BitVec 32) : Decoder :=
  { memUsed := dc.memUsed + size
    memusedMax := if dc.memusedMax < dc.memUsed + size then dc.memUsed + size else dc.memusedMax }

/-- `dc->m_mem_used += size`, the recorded maximum left alone. -/
def Decoder.add (dc : Decoder) (size : BitVec 32) : Decoder :=
  { dc with memUsed := dc.memUsed + size }

/-- `dc->m_mem_used -= size`. -/
def Decoder.sub (dc : Decoder) (size : BitVec 32) : Decoder :=
  { dc with memUsed := dc.memUsed - size }

section Wrappers

variable [DecidableEq D]

/-- `jut_malloc(size)` under `policy`, with `dc` the current decoder and `r` the answer of the
system allocator, if it is called. -/
def jutMalloc (policy : ℤ) (dc : Option D) (size : BitVec w) (r : Option Grant) (s : JutState D) :
    Option ℕ × JutState D :=
  match policy with
  | 1 => s.sysAlloc size.toNat r
  | 4 =>
    match s.sysAlloc (size + BitVec.ofNat w align).toNat r with
    | (none, s) => (none, s)
    | (some p, s) =>
      -- `hdr->size = size` and `m_mem_used += size` both truncate to 32 bits
      let s := s.setHdrSize p (size.setWidth 32)
      let s := s.onDecoder dc (·.grow (size.setWidth 32))
      (some (p + align), s)
  | 5 =>
    -- no header is written, though `jut_realloc` writes one
    if size = 0 then s.sysAlloc size.toNat r
    else
      match s.sysAlloc (size + BitVec.ofNat w align).toNat r with
      | (none, s) => (none, s)
      | (some p, s) => (some (p + align), s)
  | _ => (none, s)

/-- The tail of `jut_realloc` under policy 4: with the new block at `p`, write its header and charge
the size read back from it. -/
def jutReallocDone (dc : Option D) (size : BitVec w) : Option ℕ × JutState D → Option ℕ × JutState D
  | (none, s) => (none, s)
  | (some p, s) =>
    let s := s.setHdrSize p (size.setWidth 32)
    let s := s.onDecoder dc (·.add (s.hdrSize p))
    (some (p + align), s)

/-- `jut_realloc(ptr, size)` under `policy`. Under policy 4 the old size is taken off the counter
before the system allocator is asked. -/
def jutRealloc (policy : ℤ) (dc : Option D) (ptr : Option ℕ) (size : BitVec w) (r : Option Grant)
    (s : JutState D) : Option ℕ × JutState D :=
  match policy with
  | 1 => s.sysRealloc ptr size.toNat r
  | 4 =>
    match ptr with
    | some ptr =>
      let hdr := ptr - align
      let s := s.onDecoder dc (·.sub (s.hdrSize hdr))
      jutReallocDone dc size (s.sysRealloc (some hdr) (size + BitVec.ofNat w align).toNat r)
    | none =>
      if size ≠ 0 then
        jutReallocDone dc size (s.sysRealloc none (size + BitVec.ofNat w align).toNat r)
      else (none, s)
  | 5 =>
    let done : Option ℕ × JutState D → Option ℕ × JutState D
      | (none, s) => (none, s)
      | (some p, s) => (some (p + align), s.setHdrSize p (size.setWidth 32))
    match ptr with
    | some ptr =>
      done (s.sysRealloc (some (ptr - align)) (size + BitVec.ofNat w align).toNat r)
    | none =>
      if size ≠ 0 then done (s.sysRealloc none (size + BitVec.ofNat w align).toNat r)
      else (none, s)
  | _ => (none, s)

/-- `jut_free(ptr)` under `policy`; memory is `m` after the system's `free`, if it is called. -/
def jutFree (policy : ℤ) (dc : Option D) (ptr : Option ℕ) (m : Memory) (s : JutState D) :
    JutState D :=
  match ptr with
  | none => s
  | some ptr =>
    match policy with
    | 1 => s.sysFree ptr m
    | 4 =>
      let hdr := ptr - align
      let s := s.onDecoder dc (·.sub (s.hdrSize hdr))
      s.sysFree hdr m
    | 5 => s.sysFree (ptr - align) m
    | _ => s

end Wrappers

/-! ## What the wrappers do under policy 4 -/

variable [DecidableEq D]

@[simp] theorem JutState.onDecoder_sys (s : JutState D) (dc : Option D) (f : Decoder → Decoder) :
    (s.onDecoder dc f).sys = s.sys := by
  cases dc <;> rfl

/-- The counters after an update of the current decoder depend on the counters alone. -/
theorem JutState.onDecoder_dec (s : JutState D) (dc : Option D) (f : Decoder → Decoder) (x : D) :
    (s.onDecoder dc f).dec x = if dc = some x then f (s.dec x) else s.dec x := by
  cases dc with
  | none => rfl
  | some d =>
    by_cases h : x = d
    · subst h; simp [onDecoder]
    · simp [onDecoder, h, Ne.symm h]

/-- The request for a payload of `size` bytes and its header, when the sum does not wrap. -/
theorem toNat_add_align {size : BitVec w} (h : size.toNat + align < 2 ^ w) :
    (size + BitVec.ofNat w align).toNat = size.toNat + align := by
  have halign : align < 2 ^ w := by omega
  rw [BitVec.toNat_add, BitVec.toNat_ofNat, Nat.mod_eq_of_lt halign, Nat.mod_eq_of_lt h]

/-- A heap that has just granted the block at `g.base`, and the header there written: the blocks
`out` stay out, and `call` is the call that was answered. -/
def SysHeap.withPayload (h : SysHeap) (out : List Span) (call : SysCall) (g : Grant)
    (size : BitVec w) : SysHeap :=
  ⟨store32 g.mem g.base (size.setWidth 32), ⟨g.base, (size + BitVec.ofNat w align).toNat⟩ :: out,
    call :: h.calls⟩

/-- `jut_malloc` with the system allocator failing: `NULL`, and nothing is charged. -/
theorem jutMalloc_four_none (dc : Option D) (size : BitVec w) (s : JutState D) :
    jutMalloc 4 dc size none s =
      (none, { s with sys := { s.sys with calls := .alloc none :: s.sys.calls } }) := rfl

/-- `jut_malloc` with a block granted: the payload starts `ALIGN` bytes into it, the header holds
the size, and the current decoder is charged. -/
theorem jutMalloc_four_some (dc : Option D) (size : BitVec w) (g : Grant) (s : JutState D) :
    jutMalloc 4 dc size (some g) s =
      (some (g.base + align),
        { sys := s.sys.withPayload s.sys.blocks (.alloc (some g.base)) g size
          dec := (s.onDecoder dc (·.grow (size.setWidth 32))).dec }) := by
  cases dc <;> rfl

/-- `jut_realloc(NULL, 0)` does nothing. -/
theorem jutRealloc_four_null_zero (dc : Option D) (r : Option Grant) (s : JutState D) :
    jutRealloc 4 dc none (0 : BitVec w) r s = (none, s) := by
  simp [jutRealloc]

/-- `jut_realloc(NULL, size)` asks the system for a new block. -/
private theorem jutRealloc_four_null (dc : Option D) {size : BitVec w} (h : size ≠ 0)
    (r : Option Grant) (s : JutState D) :
    jutRealloc 4 dc none size r s =
      jutReallocDone dc size (s.sysRealloc none (size + BitVec.ofNat w align).toNat r) := if_pos h

/-- `jut_realloc(NULL, size)` with the system allocator failing. -/
theorem jutRealloc_four_null_none (dc : Option D) {size : BitVec w} (h : size ≠ 0)
    (s : JutState D) :
    jutRealloc 4 dc none size none s =
      (none, { s with sys := { s.sys with calls := .realloc none none :: s.sys.calls } }) := by
  rw [jutRealloc_four_null dc h]
  rfl

/-- The tail of `jut_realloc` with a block granted: the size read back from the header just written
is the size asked for. -/
private theorem jutReallocDone_some (dc : Option D) (size : BitVec w) (g : Grant)
    (out : List Span) (call : SysCall) (s : JutState D) :
    jutReallocDone dc size (some g.base, { s with sys :=
        ⟨g.mem, ⟨g.base, (size + BitVec.ofNat w align).toNat⟩ :: out, call :: s.sys.calls⟩ }) =
      (some (g.base + align),
        { sys := s.sys.withPayload out call g size
          dec := (s.onDecoder dc (·.add (size.setWidth 32))).dec }) := by
  cases dc with
  | none => rfl
  | some d =>
    simp only [jutReallocDone, JutState.onDecoder, JutState.setHdrSize, SysHeap.poke,
      SysHeap.withPayload, JutState.hdrSize, load32_store32]

/-- `jut_realloc(NULL, size)` with a block granted. -/
theorem jutRealloc_four_null_some (dc : Option D) {size : BitVec w} (h : size ≠ 0) (g : Grant)
    (s : JutState D) :
    jutRealloc 4 dc none size (some g) s =
      (some (g.base + align),
        { sys := s.sys.withPayload s.sys.blocks (.realloc none (some g.base)) g size
          dec := (s.onDecoder dc (·.add (size.setWidth 32))).dec }) := by
  rw [jutRealloc_four_null dc h]
  exact jutReallocDone_some dc size g _ _ s

/-- `jut_realloc(ptr, size)` with the system allocator failing: `NULL`, the block untouched, and its
size already taken off the counter. -/
theorem jutRealloc_four_live_none (dc : Option D) (ptr : ℕ) (size : BitVec w) (s : JutState D) :
    jutRealloc 4 dc (some ptr) size none s =
      (none,
        { sys := { s.sys with calls := .realloc (some (ptr - align)) none :: s.sys.calls }
          dec := (s.onDecoder dc (·.sub (s.hdrSize (ptr - align)))).dec }) := by
  cases dc <;> rfl

/-- `jut_realloc(ptr, size)` with a block granted: the counter of the current decoder loses the size
in the old header and gains the new one. -/
theorem jutRealloc_four_live_some (dc : Option D) (ptr : ℕ) (size : BitVec w) (g : Grant)
    (s : JutState D) :
    jutRealloc 4 dc (some ptr) size (some g) s =
      (some (g.base + align),
        { sys := s.sys.withPayload (s.sys.without (ptr - align))
            (.realloc (some (ptr - align)) (some g.base)) g size
          dec := (s.onDecoder dc
            fun x => (x.sub (s.hdrSize (ptr - align))).add (size.setWidth 32)).dec }) := by
  have h := jutReallocDone_some dc size g (s.sys.without (ptr - align))
    (.realloc (some (ptr - align)) (some g.base)) (s.onDecoder dc (·.sub (s.hdrSize (ptr - align))))
  rw [JutState.onDecoder_sys] at h
  -- the two updates of the counters, before and after the call of the system, are one
  refine Eq.trans (b := jutReallocDone dc size _) ?_ (h.trans ?_)
  · cases dc <;> rfl
  · simp only [Prod.mk.injEq, JutState.mk.injEq, true_and]
    funext x
    simp only [JutState.onDecoder_dec]
    split <;> rfl

/-- `jut_free(ptr)`: the size in the header comes off the counter and the block goes back. -/
theorem jutFree_four_some (dc : Option D) (ptr : ℕ) (m : Memory) (s : JutState D) :
    jutFree 4 dc (some ptr) m s =
      { sys := s.sys.free (ptr - align) m
        dec := (s.onDecoder dc (·.sub (s.hdrSize (ptr - align)))).dec } := by
  cases dc <;> rfl

/-! ## What the wrappers do under policy 5 -/

/-- `jut_malloc(0)` is `malloc(0)`, whose answer is returned as it is. -/
theorem jutMalloc_five_zero (dc : Option D) (r : Option Grant) (s : JutState D) :
    jutMalloc 5 dc (0 : BitVec w) r s = s.sysAlloc 0 r := by
  simp [jutMalloc]

/-- `jut_malloc` with the system allocator failing. -/
theorem jutMalloc_five_none (dc : Option D) (size : BitVec w) (s : JutState D) :
    jutMalloc 5 dc size none s =
      (none, { s with sys := { s.sys with calls := .alloc none :: s.sys.calls } }) := by
  by_cases h : size = 0
  · subst h
    exact jutMalloc_five_zero dc none s
  · simp only [jutMalloc, if_neg h]
    rfl

/-- `jut_malloc` of some bytes with a block granted: the payload starts `ALIGN` bytes into it, and
no header is written. -/
theorem jutMalloc_five_some (dc : Option D) {size : BitVec w} (h : size ≠ 0) (g : Grant)
    (s : JutState D) :
    jutMalloc 5 dc size (some g) s =
      (some (g.base + align),
        { s with sys := (s.sys.alloc (size + BitVec.ofNat w align).toNat (some g)).2 }) := by
  simp only [jutMalloc, if_neg h]
  rfl

/-- `jut_realloc(NULL, 0)` does nothing. -/
theorem jutRealloc_five_null_zero (dc : Option D) (r : Option Grant) (s : JutState D) :
    jutRealloc 5 dc none (0 : BitVec w) r s = (none, s) := by
  simp [jutRealloc]

/-- `jut_realloc(NULL, size)` with the system allocator failing. -/
theorem jutRealloc_five_null_none (dc : Option D) {size : BitVec w} (h : size ≠ 0)
    (s : JutState D) :
    jutRealloc 5 dc none size none s =
      (none, { s with sys := { s.sys with calls := .realloc none none :: s.sys.calls } }) := by
  simp only [jutRealloc, if_pos h]
  rfl

/-- `jut_realloc(NULL, size)` with a block granted. -/
theorem jutRealloc_five_null_some (dc : Option D) {size : BitVec w} (h : size ≠ 0) (g : Grant)
    (s : JutState D) :
    jutRealloc 5 dc none size (some g) s =
      (some (g.base + align),
        { s with sys := s.sys.withPayload s.sys.blocks (.realloc none (some g.base)) g size }) := by
  simp only [jutRealloc, if_pos h]
  rfl

/-- `jut_realloc(ptr, size)` with the system allocator failing. -/
theorem jutRealloc_five_live_none (dc : Option D) (ptr : ℕ) (size : BitVec w) (s : JutState D) :
    jutRealloc 5 dc (some ptr) size none s =
      (none, { s with
        sys := { s.sys with calls := .realloc (some (ptr - align)) none :: s.sys.calls } }) := rfl

/-- `jut_realloc(ptr, size)` with a block granted. -/
theorem jutRealloc_five_live_some (dc : Option D) (ptr : ℕ) (size : BitVec w) (g : Grant)
    (s : JutState D) :
    jutRealloc 5 dc (some ptr) size (some g) s =
      (some (g.base + align),
        ⟨s.sys.withPayload (s.sys.without (ptr - align))
          (.realloc (some (ptr - align)) (some g.base)) g size, s.dec⟩) := rfl

/-- `jut_free(ptr)`: the block `ALIGN` bytes before the pointer goes back. -/
theorem jutFree_five_some (dc : Option D) (ptr : ℕ) (m : Memory) (s : JutState D) :
    jutFree 5 dc (some ptr) m s = { s with sys := s.sys.free (ptr - align) m } := rfl

end FfTest
