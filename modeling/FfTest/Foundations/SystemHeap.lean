import FfTest.Foundations.ByteMemory
import Mathlib.Data.List.Count

/-! # The system allocator and the discipline of its callers

`SysHeap` is the C library's heap as its callers may rely on it: memory, the blocks handed out and
not given back, and the calls made so far. What the allocator answers is recorded in a `Grant`;
`AllocOk`, `ReallocOk` and `FreeOk` say which answers keep its contract: a fresh block is apart from
every block still out, the other blocks keep their bytes, and `realloc` keeps the common prefix of
the block it moves. Nothing is promised about memory outside the blocks.

The second half is about callers. `held` replays the calls and keeps the addresses that were handed
out and not passed back since; `WellUsed` asks that `free` and `realloc` are only ever called on
such an address. -/

namespace FfTest

/-- One call of the system allocator, with its answer (`none` for `NULL`). -/
inductive SysCall
  /-- `malloc` or `memalign`. -/
  | alloc (answer : Option ℕ)
  /-- `realloc`, of `NULL` or of an address. -/
  | realloc (arg answer : Option ℕ)
  /-- `free` of an address. -/
  | free (arg : ℕ)
  deriving DecidableEq, Repr

/-- A block the system allocator grants: where it starts, and what memory holds from then on. -/
structure Grant where
  /-- Address of the granted block. -/
  base : ℕ
  /-- Memory after the call. -/
  mem : Memory

/-- The system heap. -/
structure SysHeap where
  /-- Contents of memory. -/
  mem : Memory
  /-- Blocks handed out and not given back, each with the length asked for. -/
  blocks : List Span
  /-- The calls so far, newest first. -/
  calls : List SysCall

namespace SysHeap

/-- The empty heap over a memory. -/
def empty (m : Memory) : SysHeap := ⟨m, [], []⟩

/-- The blocks that stay out when the block at `a` is given back. -/
def without (h : SysHeap) (a : ℕ) : List Span := h.blocks.eraseP (·.base == a)

/-! ## The calls -/

/-- `malloc(req)` or `memalign(_, req)`, answered with a grant or `NULL`. -/
def alloc (h : SysHeap) (req : ℕ) : Option Grant → Option ℕ × SysHeap
  | none => (none, { h with calls := .alloc none :: h.calls })
  | some g => (some g.base, ⟨g.mem, ⟨g.base, req⟩ :: h.blocks, .alloc (some g.base) :: h.calls⟩)

/-- `realloc(arg, req)`, answered with a grant or `NULL`; on `NULL` the old block stays out. -/
def realloc (h : SysHeap) (arg : Option ℕ) (req : ℕ) : Option Grant → Option ℕ × SysHeap
  | none => (none, { h with calls := .realloc arg none :: h.calls })
  | some g => (some g.base, ⟨g.mem, ⟨g.base, req⟩ :: arg.elim h.blocks h.without,
      .realloc arg (some g.base) :: h.calls⟩)

/-- `free(a)`, after which memory is `m`. -/
def free (h : SysHeap) (a : ℕ) (m : Memory) : SysHeap := ⟨m, h.without a, .free a :: h.calls⟩

/-- The heap with the memory written by its owner. -/
def poke (h : SysHeap) (m : Memory) : SysHeap := { h with mem := m }

/-! ## The contract -/

/-- The grant is apart from the blocks `out` and leaves their bytes alone. -/
def Fresh (h : SysHeap) (out : List Span) (req : ℕ) (g : Grant) : Prop :=
  ∀ b ∈ out, (⟨g.base, req⟩ : Span).Apart b ∧ AgreeOn h.mem g.mem b

/-- An answer `malloc` (`align = 1`) or `memalign` may give. -/
def AllocOk (h : SysHeap) (align req : ℕ) (r : Option Grant) : Prop :=
  ∀ g ∈ r, align ∣ g.base ∧ h.Fresh h.blocks req g

/-- An answer `realloc` may give: as `malloc` for `NULL`; otherwise apart from the *other* blocks,
with the common prefix of the old block carried over. -/
def ReallocOk (h : SysHeap) (arg : Option ℕ) (req : ℕ) (r : Option Grant) : Prop :=
  ∀ g ∈ r, h.Fresh (arg.elim h.blocks h.without) req g ∧
    ∀ a ∈ arg, ∀ b ∈ h.blocks, b.base = a →
      ∀ i < min b.len req, g.mem (g.base + i) = h.mem (a + i)

/-- A memory `free(a)` may leave: the other blocks keep their bytes. -/
def FreeOk (h : SysHeap) (a : ℕ) (m : Memory) : Prop := ∀ b ∈ h.without a, AgreeOn h.mem m b

/-- With nothing out, any aligned address may be granted. -/
theorem allocOk_of_nil {h : SysHeap} (hout : h.blocks = []) {align req : ℕ} {g : Grant}
    (hdvd : align ∣ g.base) : h.AllocOk align req (some g) := by
  rintro _ ⟨⟩
  refine ⟨hdvd, fun b hb => ?_⟩
  rw [hout] at hb
  cases hb

/-- Where nothing is out, any aligned address may be granted, with memory left alone. -/
theorem allocOk_of_apart {h : SysHeap} {align req base : ℕ} (hdvd : align ∣ base)
    (hapart : ∀ b ∈ h.blocks, (⟨base, req⟩ : Span).Apart b) :
    h.AllocOk align req (some ⟨base, h.mem⟩) := by
  rintro _ ⟨⟩
  exact ⟨hdvd, fun b hb => ⟨hapart b hb, fun _ _ => rfl⟩⟩

/-- The only block that is out may be resized where it is, with its memory left alone. -/
theorem reallocOk_in_place {h : SysHeap} {a len : ℕ} (hout : h.blocks = [⟨a, len⟩]) (req : ℕ) :
    h.ReallocOk (some a) req (some ⟨a, h.mem⟩) := by
  rintro _ ⟨⟩
  constructor
  · intro b hb
    have hrest : h.without a = [] := by simp [without, hout]
    change b ∈ h.without a at hb
    rw [hrest] at hb
    cases hb
  · rintro _ ⟨⟩ b hb hba i hi
    rfl

end SysHeap

/-! ## Discipline of the caller -/

/-- The addresses handed out and not passed back since, after the calls (newest first). A failed
`realloc` passes nothing back: its block stays with the caller. -/
def held : List SysCall → List ℕ
  | [] => []
  | .alloc none :: cs => held cs
  | .alloc (some p) :: cs => p :: held cs
  | .realloc _ none :: cs => held cs
  | .realloc none (some p) :: cs => p :: held cs
  | .realloc (some a) (some p) :: cs => p :: (held cs).erase a
  | .free a :: cs => (held cs).erase a

/-- Every call of `free` and `realloc` passed `NULL` or an address held at that moment. -/
def WellUsed : List SysCall → Prop
  | [] => True
  | .alloc _ :: cs => WellUsed cs
  | .realloc none _ :: cs => WellUsed cs
  | .realloc (some a) _ :: cs => a ∈ held cs ∧ WellUsed cs
  | .free a :: cs => a ∈ held cs ∧ WellUsed cs

/-- An allocation adds the address it is answered with, if any. -/
theorem held_alloc (answer : Option ℕ) (cs : List SysCall) :
    held (.alloc answer :: cs) = answer.toList ++ held cs := by
  cases answer with
  | none => rfl
  | some p => rfl

/-- Freeing a held address leaves the others held. -/
theorem held_free {a : ℕ} {cs : List SysCall} {rest : List ℕ}
    (h : (held cs).Perm (a :: rest)) : (held (.free a :: cs)).Perm rest := by
  have herase := h.erase a
  rwa [List.erase_cons_head] at herase

/-- How often the address was handed out. -/
def timesOut (p : ℕ) : List SysCall → ℕ
  | [] => 0
  | .alloc r :: cs => timesOut p cs + if r = some p then 1 else 0
  | .realloc _ r :: cs => timesOut p cs + if r = some p then 1 else 0
  | .free _ :: cs => timesOut p cs

/-- How often the address was passed back: freed, or given up in a successful `realloc`. -/
def timesBack (p : ℕ) : List SysCall → ℕ
  | [] => 0
  | .alloc _ :: cs => timesBack p cs
  | .realloc _ none :: cs => timesBack p cs
  | .realloc a (some _) :: cs => timesBack p cs + if a = some p then 1 else 0
  | .free a :: cs => timesBack p cs + if a = p then 1 else 0

/-- Taking one occurrence of a member out of a list lowers exactly its own count, by one. -/
private theorem count_erase_add {a : ℕ} {l : List ℕ} (h : a ∈ l) (p : ℕ) :
    (l.erase a).count p + (if a = p then 1 else 0) = l.count p := by
  have hp := List.perm_cons_erase h
  rw [hp.count_eq, List.count_cons]
  simp

/-- **Conservation.** Under the discipline an address is out exactly as often as it was handed out
and not yet passed back. -/
theorem WellUsed.timesOut_eq {cs : List SysCall} (h : WellUsed cs) (p : ℕ) :
    timesOut p cs = timesBack p cs + (held cs).count p := by
  induction cs using held.induct with
  | case1 => rfl
  | case2 cs ih => simpa [timesOut, timesBack, held] using ih h
  | case3 q cs ih =>
    have := ih h
    simp only [timesOut, timesBack, held, List.count_cons, beq_iff_eq, Option.some.injEq]
    omega
  | case4 a cs ih =>
    -- a failed `realloc` is well used whether it passed an address or `NULL`
    have hcs : WellUsed cs := by
      cases a with
      | none => exact h
      | some a => exact h.2
    simpa [timesOut, timesBack, held] using ih hcs
  | case5 q cs ih =>
    have := ih h
    simp only [timesOut, timesBack, held, List.count_cons, beq_iff_eq, Option.some.injEq,
      reduceCtorEq, if_false]
    omega
  | case6 a q cs ih =>
    -- a successful `realloc` hands out `q` and takes `a` back
    have := ih h.2
    have hc := count_erase_add h.1 p
    simp only [timesOut, timesBack, held, List.count_cons, beq_iff_eq, Option.some.injEq]
    omega
  | case7 a cs ih =>
    have := ih h.2
    have hc := count_erase_add h.1 p
    simp only [timesOut, timesBack, held]
    omega

/-- Under the discipline nothing is passed back more often than it was handed out. -/
theorem WellUsed.timesBack_le {cs : List SysCall} (h : WellUsed cs) (p : ℕ) :
    timesBack p cs ≤ timesOut p cs := by
  rw [h.timesOut_eq p]
  exact Nat.le_add_right _ _

/-- The heap's blocks start exactly at the addresses its caller holds. -/
def SysHeap.Tracked (h : SysHeap) : Prop := held h.calls = h.blocks.map Span.base

namespace SysHeap

/-- Giving a block back takes its address out of the starts. -/
theorem map_base_without (h : SysHeap) (a : ℕ) :
    (h.without a).map Span.base = (h.blocks.map Span.base).erase a := by
  rw [List.erase_eq_eraseP', List.eraseP_map]
  rfl

/-- Whatever `malloc` answers, blocks and held addresses stay in step. -/
theorem Tracked.alloc {h : SysHeap} (ht : h.Tracked) (req : ℕ) (r : Option Grant) :
    (h.alloc req r).2.Tracked := by
  cases r with
  | none => exact ht
  | some g => simpa [SysHeap.alloc, Tracked, held] using ht

/-- Whatever `realloc` answers, blocks and held addresses stay in step. -/
theorem Tracked.realloc {h : SysHeap} (ht : h.Tracked) (arg : Option ℕ) (req : ℕ)
    (r : Option Grant) : (h.realloc arg req r).2.Tracked := by
  cases r with
  | none => cases arg <;> exact ht
  | some g =>
    cases arg with
    | none => simpa [SysHeap.realloc, Tracked, held] using ht
    | some a =>
      simp only [SysHeap.realloc, Tracked, held, Option.elim_some, List.map_cons,
        map_base_without]
      rw [ht]

/-- `free` keeps blocks and held addresses in step. -/
theorem Tracked.free {h : SysHeap} (ht : h.Tracked) (a : ℕ) (m : Memory) :
    (h.free a m).Tracked := by
  simp only [SysHeap.free, Tracked, held, map_base_without]
  rw [ht]

/-- A block that is out starts at a held address. -/
theorem Tracked.mem_held {h : SysHeap} (ht : h.Tracked) {b : Span} (hb : b ∈ h.blocks) :
    b.base ∈ held h.calls := by
  rw [ht]
  exact List.mem_map_of_mem hb

end SysHeap

end FfTest
