import FfTest.Foundations.EventMachine
import FfTest.MemoryAccounting.JutMem

/-! # Clients of the wrappers

`Client` is the abstract view that a program linked against the wrappers has of its memory: the
pointers it may use, how many bytes it asked for, which bytes it has written and, for the
accounting, which decoder was current when the block was charged. It never mentions headers or
shifts.

`jutMachine` runs the wrappers and the client side by side, over arbitrary calls and writes and
arbitrary answers of the system allocator that keep its contract. -/

namespace FfTest

variable {D : Type*} {w : ℕ}

/-! ## The client -/

/-- A payload the client may use. -/
structure Payload (D : Type*) where
  /-- The pointer returned for it. -/
  ptr : ℕ
  /-- The size last requested. -/
  size : ℕ
  /-- The decoder that was current when that size was requested. -/
  owner : Option D
  /-- The byte last written at each offset, if any. -/
  written : ℕ → Option Byte

/-- A payload that was freed, or given up in a `jut_realloc`. -/
structure Release (D : Type*) where
  /-- The decoder that was current when its size was requested. -/
  charged : Option D
  /-- The decoder that was current when it was released. -/
  current : Option D
  /-- Its size. -/
  size : ℕ

/-- What the client knows of its memory. -/
structure Client (D : Type*) where
  /-- The live payloads. -/
  live : List (Payload D)
  /-- The payloads released so far, newest first. -/
  released : List (Release D)

/-- The addresses of the payload. -/
def Payload.span (p : Payload D) : Span := ⟨p.ptr, p.size⟩

/-- The system block the payload lies in: its header first. -/
def Payload.block (p : Payload D) : Span := ⟨p.ptr - align, p.size + align⟩

/-- The payload with the byte `b` written at offset `off`, if it is the one at `ptr`. -/
def Payload.writeAt (ptr off : ℕ) (b : Byte) (p : Payload D) : Payload D :=
  if p.ptr = ptr then { p with written := fun i => if i = off then some b else p.written i } else p

@[simp] theorem Payload.writeAt_ptr (ptr off : ℕ) (b : Byte) (p : Payload D) :
    (p.writeAt ptr off b).ptr = p.ptr := by
  unfold writeAt; split <;> rfl

@[simp] theorem Payload.writeAt_size (ptr off : ℕ) (b : Byte) (p : Payload D) :
    (p.writeAt ptr off b).size = p.size := by
  unfold writeAt; split <;> rfl

@[simp] theorem Payload.writeAt_owner (ptr off : ℕ) (b : Byte) (p : Payload D) :
    (p.writeAt ptr off b).owner = p.owner := by
  unfold writeAt; split <;> rfl

@[simp] theorem Payload.writeAt_block (ptr off : ℕ) (b : Byte) (p : Payload D) :
    (p.writeAt ptr off b).block = p.block := by
  rw [block, block, writeAt_ptr, writeAt_size]

/-- The bytes known after a write: the byte written, and elsewhere what was known before. -/
theorem Payload.writeAt_written (off : ℕ) (b : Byte) (p : Payload D) (i : ℕ) :
    (p.writeAt p.ptr off b).written i = if i = off then some b else p.written i := by
  rw [writeAt, if_pos rfl]

/-- Another payload is not written to. -/
theorem Payload.writeAt_of_ne {ptr off : ℕ} {b : Byte} {p : Payload D} (h : p.ptr ≠ ptr) :
    p.writeAt ptr off b = p := if_neg h

namespace Client

/-- The client before any call. -/
def start : Client D := ⟨[], []⟩

/-- The live payload at a pointer. -/
def find (c : Client D) (ptr : ℕ) : Option (Payload D) := c.live.find? (·.ptr == ptr)

/-- The live payloads without the one at a pointer. -/
def rest (c : Client D) (ptr : ℕ) : List (Payload D) := c.live.eraseP (·.ptr == ptr)

/-- `NULL`, or a pointer to a live payload. -/
def Live (c : Client D) (ptr : Option ℕ) : Prop := ∀ p ∈ ptr, ∃ b ∈ c.live, b.ptr = p

/-- A payload has become live. -/
def add (c : Client D) (p : Payload D) : Client D := { c with live := p :: c.live }

/-- The payload at `ptr` has been given up while `ctx` was current. -/
def release (c : Client D) (ctx : Option D) (ptr : ℕ) : Client D :=
  match c.find ptr with
  | none => c
  | some b => ⟨c.rest ptr, ⟨b.owner, ctx, b.size⟩ :: c.released⟩

/-- What is known of the bytes of the payload at `ptr` after it is resized. -/
def kept (c : Client D) (ptr size : ℕ) (i : ℕ) : Option Byte :=
  match c.find ptr with
  | none => none
  | some b => if i < min b.size size then b.written i else none

/-- After `jut_malloc(size)` has returned `ret`. -/
def afterMalloc (c : Client D) (ctx : Option D) (size : ℕ) : Option ℕ → Client D
  | none => c
  | some p => c.add ⟨p, size, ctx, fun _ => none⟩

/-- After `jut_realloc(ptr, size)` has returned `ret`; on `NULL` nothing has changed. -/
def afterRealloc (c : Client D) (ctx : Option D) (ptr : Option ℕ) (size : ℕ) :
    Option ℕ → Client D
  | none => c
  | some p =>
    match ptr with
    | none => c.add ⟨p, size, ctx, fun _ => none⟩
    | some q => (c.release ctx q).add ⟨p, size, ctx, c.kept q size⟩

/-- After `jut_free(ptr)`. -/
def afterFree (c : Client D) (ctx : Option D) : Option ℕ → Client D
  | none => c
  | some p => c.release ctx p

/-- After the byte `b` has been written at offset `off` of the payload at `ptr`. -/
def afterWrite (c : Client D) (ptr off : ℕ) (b : Byte) : Client D :=
  { c with live := c.live.map (Payload.writeAt ptr off b) }

/-- The payload found at a live pointer. -/
theorem exists_find {c : Client D} {ptr : ℕ} (h : ∃ b ∈ c.live, b.ptr = ptr) :
    ∃ b, c.find ptr = some b ∧ b ∈ c.live ∧ b.ptr = ptr := by
  obtain ⟨b, hb, hptr⟩ := h
  have hsome : (c.find ptr).isSome := by
    rw [find, List.find?_isSome]
    exact ⟨b, hb, beq_iff_eq.mpr hptr⟩
  obtain ⟨b', hb'⟩ := Option.isSome_iff_exists.mp hsome
  exact ⟨b', hb', List.mem_of_find?_eq_some hb', by simpa using List.find?_some hb'⟩

/-- Without the payload found at a pointer, the rest is left. -/
theorem perm_of_find {c : Client D} {ptr : ℕ} {b : Payload D} (h : c.find ptr = some b) :
    c.live.Perm (b :: c.rest ptr) := by
  have hfind : ∀ l : List (Payload D), l.find? (·.ptr == ptr) = some b →
      l.Perm (b :: l.eraseP (·.ptr == ptr)) := by
    intro l
    induction l with
    | nil => intro h; cases h
    | cons a l ih =>
      intro h
      rw [List.find?_cons] at h
      rw [List.eraseP_cons]
      cases ha : a.ptr == ptr with
      | true =>
        rw [ha] at h
        obtain rfl : a = b := Option.some.inj h
        simp
      | false =>
        rw [ha] at h
        simpa using (List.Perm.cons a (ih h)).trans (List.Perm.swap b a _)
  exact hfind c.live h

/-- Releasing a live payload, with the payload found. -/
theorem release_of_find {c : Client D} {ptr : ℕ} {b : Payload D} (h : c.find ptr = some b)
    (ctx : Option D) :
    c.release ctx ptr = ⟨c.rest ptr, ⟨b.owner, ctx, b.size⟩ :: c.released⟩ := by
  rw [release, h]

/-- What is left after a release was live before. -/
theorem mem_of_mem_rest {c : Client D} {ptr : ℕ} {b : Payload D} (h : b ∈ c.rest ptr) :
    b ∈ c.live := List.mem_of_mem_eraseP h

end Client

/-! ## The machine -/

/-- A call of a wrapper with the answer of the system, or a write into a live payload. -/
inductive Op (w : ℕ)
  /-- `jut_malloc(size)`. -/
  | malloc (size : BitVec w) (r : Option Grant)
  /-- `jut_realloc(ptr, size)`. -/
  | realloc (ptr : Option ℕ) (size : BitVec w) (r : Option Grant)
  /-- `jut_free(ptr)`, leaving the memory `m`. -/
  | free (ptr : Option ℕ) (m : Memory)
  /-- The byte `b` is written at `ptr + off`. -/
  | write (ptr off : ℕ) (b : Byte)

/-- An operation, and the decoder current on the thread that does it (`tls_get_ctx`). -/
structure Event (D : Type*) (w : ℕ) where
  /-- The current decoder. -/
  ctx : Option D
  /-- The operation. -/
  op : Op w

/-- The wrappers' state beside the client's. -/
structure Config (D : Type*) where
  /-- The state of the program. -/
  jut : JutState D
  /-- The view of the client. -/
  client : Client D

namespace Config

/-- No call made yet, over any memory and any counters. -/
def start (m : Memory) (dec : D → Decoder) : Config D := ⟨⟨SysHeap.empty m, dec⟩, Client.start⟩

/-- Memory. -/
def mem (cfg : Config D) : Memory := cfg.jut.sys.mem

end Config

/-- One operation under `policy`. -/
def jutStep [DecidableEq D] (policy : ℤ) (cfg : Config D) (e : Event D w) : Config D :=
  match e.op with
  | .malloc size r =>
    let ret := jutMalloc policy e.ctx size r cfg.jut
    ⟨ret.2, cfg.client.afterMalloc e.ctx size.toNat ret.1⟩
  | .realloc ptr size r =>
    let ret := jutRealloc policy e.ctx ptr size r cfg.jut
    ⟨ret.2, cfg.client.afterRealloc e.ctx ptr size.toNat ret.1⟩
  | .free ptr m => ⟨jutFree policy e.ctx ptr m cfg.jut, cfg.client.afterFree e.ctx ptr⟩
  | .write ptr off b =>
    ⟨{ cfg.jut with sys := cfg.jut.sys.poke (storeByte cfg.mem (ptr + off) b) },
      cfg.client.afterWrite ptr off b⟩

/-- The events considered: pointers are `NULL` or live, `size + ALIGN` does not wrap, writes stay
inside a live payload, and the system allocator keeps its contract for the call it receives. -/
def jutGuard (cfg : Config D) (e : Event D w) : Prop :=
  match e.op with
  | .malloc size r =>
    size.toNat + align < 2 ^ w ∧ cfg.jut.sys.AllocOk align (size.toNat + align) r
  | .realloc ptr size r =>
    cfg.client.Live ptr ∧ size.toNat + align < 2 ^ w ∧
      cfg.jut.sys.ReallocOk (ptr.map (· - align)) (size.toNat + align) r
  | .free ptr m => cfg.client.Live ptr ∧ ∀ p ∈ ptr, cfg.jut.sys.FreeOk (p - align) m
  | .write ptr off _ => ∃ b ∈ cfg.client.live, b.ptr = ptr ∧ off < b.size

/-- The wrappers under policy 4, with their clients. -/
def jutMachine (D : Type*) [DecidableEq D] (w : ℕ) : Machine (Config D) (Event D w) where
  step := jutStep 4
  guard := jutGuard

end FfTest
