import FfTest.Foundations.EventMachine
import FfTest.Foundations.Parcels
import FfTest.Libaco.ShareStack

/-! # Coroutines on share stacks

All coroutines of a share stack run at the same addresses. `aco_resume` copies the stack of the one
that ran last to a block of its own, `save_stack`, and the stack of the one that is to run back from
its block, before it switches. This file models `aco_create`, `aco_resume`, `aco_yield`, `aco_exit`
and `aco_destroy` with the memory that they copy.

An `aco_t` or `aco_share_stack_t` is a record under the address of its block. What ends the program
ends the model with `none`: a failed assertion, an allocation that is refused, a pointer to nothing.
-/

namespace FfTest.Libaco

/-! ## Records -/

/-- `aco_save_stack_t`. -/
structure SaveStack where
  /-- `ptr`. -/
  ptr : Option ℕ
  /-- `sz`. -/
  sz : ℕ
  /-- `valid_sz`. -/
  validSz : ℕ
  /-- `max_cpsz`. -/
  maxCpsz : ℕ
  /-- `ct_save`. -/
  ctSave : ℕ
  /-- `ct_restore`. -/
  ctRestore : ℕ
  deriving DecidableEq, Repr

/-- `aco_t`. -/
structure Aco where
  /-- `reg`. -/
  reg : Regs
  /-- `main_co`, which only the main coroutine does not have. -/
  mainCo : Option ℕ
  /-- `arg`. -/
  arg : ℕ
  /-- `is_end`. -/
  isEnd : Bool
  /-- `fp`. -/
  fp : Word
  /-- `save_stack`. -/
  saveStack : SaveStack
  /-- `share_stack`. -/
  shareStack : Option ℕ
  deriving DecidableEq, Repr

/-- `sizeof(aco_t)`. -/
def sizeofAco : ℕ := 160

/-- `sizeof(aco_share_stack_t)`. -/
def sizeofShareStack : ℕ := 80

/-- A thread that uses the library. -/
structure State where
  /-- Memory, and the blocks that the library has. -/
  sys : SysHeap
  /-- The `aco_t`s. -/
  acos : ℕ → Option Aco
  /-- The `aco_share_stack_t`s. -/
  sstks : ℕ → Option ShareStack
  /-- `aco_gtls_co`. -/
  gtlsCo : Option ℕ
  /-- `aco_gtls_fpucw_mxcsr`. -/
  gtlsFpucwMxcsr : BitVec 16 × BitVec 32
  /-- The address of `aco_funcp_protector_asm`. -/
  protector : Word
  /-- What whoever is running would find kept if it called a function now. -/
  cpu : Regs

/-! ## Copies -/

/-- `aco_amd64_inline_short_aligned_memcpy_test_ok`. -/
def shortAligned (dst src sz : ℕ) : Bool :=
  src % 16 = 0 ∧ dst % 16 = 0 ∧ sz % 16 = 8 ∧ sz / 16 ≤ 8

/-- `aco_amd64_inline_short_aligned_memcpy`, where the test is passed: all blocks are read before
the first is written, and then the last eight bytes are copied. -/
def inlineShortAlignedMemcpy (m : Memory) (dst src sz : ℕ) : Memory :=
  copyTail 64 (copyBlocks 128 m dst src (sz / 16)) dst src sz

/-- `aco_amd64_optimized_memcpy_drop_in`. -/
def optimizedMemcpy (m : Memory) (dst src sz : ℕ) : Memory :=
  if shortAligned dst src sz then inlineShortAlignedMemcpy m dst src sz else memcpy m dst src sz

/-! ## The save stack -/

namespace SaveStack

/-- The loop that doubles `save_stack.sz`, for so many rounds; after 64 of them nothing is left. -/
def doubled (validSz : ℕ) : ℕ → ℕ → Option ℕ
  | 0, _ => none
  | rounds + 1, sz => do
    let sz := sz * 2 % 2 ^ 64
    assert (0 < sz)
    if validSz ≤ sz then some sz else doubled validSz rounds sz

/-- A save stack that is too small is freed, and a larger one allocated. -/
def grow (save : SaveStack) (sys : SysHeap) (m : Memory) (r : Option Grant) :
    Option (SaveStack × SysHeap) :=
  if save.sz < save.validSz then do
    let sys := save.ptr.elim sys (sys.free · m)
    let sz ← doubled save.validSz 64 save.sz
    let (ptr, sys) := sys.alloc sz r
    assert (ptr ≠ none)
    some ({ save with ptr, sz }, sys)
  else some (save, sys)

/-- `max_cpsz` is kept up. -/
def copied (save : SaveStack) : SaveStack :=
  { save with maxCpsz := if save.validSz > save.maxCpsz then save.validSz else save.maxCpsz }

/-- The stack above `rsp` is copied to the save stack. -/
def copyOut (save : SaveStack) (sys : SysHeap) (rsp : ℕ) : Option (SaveStack × SysHeap) :=
  if 0 < save.validSz then do
    let ptr ← save.ptr
    some ({ save with ctSave := save.ctSave + 1 }.copied,
      sys.poke (optimizedMemcpy sys.mem ptr rsp save.validSz))
  else some (save.copied, sys)

/-- The save stack is copied to where it came from. -/
def copyIn (save : SaveStack) (sys : SysHeap) (rsp : ℕ) : Option (SaveStack × SysHeap) :=
  if 0 < save.validSz then do
    let ptr ← save.ptr
    some ({ save with ctRestore := save.ctRestore + 1 }.copied,
      sys.poke (optimizedMemcpy sys.mem rsp ptr save.validSz))
  else some (save.copied, sys)

end SaveStack

/-- The share stack is taken from the handle if that is its owner. -/
def ShareStack.disown (k : ShareStack) (co : ℕ) : ShareStack :=
  if k.owner = some co then { k with owner := none, alignValidsz := 0 } else k

namespace State

/-! ## Making and destroying -/

/-- A thread that has called `aco_thread_init` only. -/
def fresh (m : Memory) (protector : Word) (cpu : Regs) : State where
  sys := .empty m
  acos _ := none
  sstks _ := none
  gtlsCo := none
  gtlsFpucwMxcsr := (cpu.fpucw, cpu.mxcsr)
  protector
  cpu

/-- `aco_share_stack_new2`; `r` and `area` are what the allocations return. -/
def shareStackNew2 (s : State) (sz : Word) (guardPageEnabled : Bool) (pgsz : Word)
    (r area : Option Grant) : Option (ℕ × State) := do
  let sz ← shareStackSize sz guardPageEnabled pgsz
  let (p, sys) := s.sys.alloc sizeofShareStack r
  let p ← p
  let (block, sys) := sys.alloc sz.toNat area
  let block ← block
  let k ← ShareStack.layout (BitVec.ofNat 64 block) sz guardPageEnabled pgsz
  some (p, { s with
    sys := sys.poke (storeWord sys.mem k.alignRetptr s.protector)
    sstks := Function.update s.sstks p (some k) })

/-- `aco_share_stack_destroy`; `m₁` and `m₂` are what the calls of `munmap` or `free` leave of
memory. -/
def shareStackDestroy (s : State) (sstk : ℕ) (m₁ m₂ : Memory) : Option State := do
  let k ← s.sstks sstk
  some { s with
    sys := (s.sys.free k.block.base m₁).free sstk m₂
    sstks := Function.update s.sstks sstk none }

/-- What a coroutine starts with. -/
def entry (s : State) (k : ShareStack) (fp : Word) : Regs where
  r12 := 0
  r13 := 0
  r14 := 0
  r15 := 0
  retaddr := fp
  rsp := BitVec.ofNat 64 k.alignRetptr
  rbx := 0
  rbp := 0
  fpucw := s.gtlsFpucwMxcsr.1
  mxcsr := s.gtlsFpucwMxcsr.2

/-- `aco_create(NULL, NULL, 0, fp, arg)`. -/
def createMain (s : State) (fp : Word) (arg : ℕ) (r : Option Grant) : Option (ℕ × State) := do
  let (p, sys) := s.sys.alloc sizeofAco r
  let p ← p
  some (p, { s with
    sys
    acos := Function.update s.acos p (some ⟨⟨0, 0, 0, 0, 0, 0, 0, 0, 0, 0⟩, none, arg, false, fp,
      ⟨none, 0, 0, 0, 0, 0⟩, none⟩) })

/-- `aco_create` with a `main_co`; `r` and `save` are what the calls of `malloc` return. -/
def create (s : State) (mainCo shareStack : ℕ) (saveStackSz fp : Word) (arg : ℕ)
    (r save : Option Grant) : Option (ℕ × State) := do
  let (p, sys) := s.sys.alloc sizeofAco r
  let p ← p
  let k ← s.sstks shareStack
  let sz := if saveStackSz = 0 then 64 else saveStackSz.toNat
  let (ptr, sys) := sys.alloc sz save
  assert (ptr ≠ none)
  some (p, { s with
    sys
    acos := Function.update s.acos p (some ⟨s.entry k fp, some mainCo, arg, false, fp,
      ⟨ptr, sz, 0, 0, 0, 0⟩, some shareStack⟩) })

/-- `aco_destroy`; `m₁` and `m₂` are what the calls of `free` leave of memory. -/
def destroy (s : State) (co : ℕ) (m₁ m₂ : Memory) : Option State := do
  let c ← s.acos co
  if c.mainCo = none then
    some { s with sys := s.sys.free co m₁, acos := Function.update s.acos co none }
  else do
    let sstk ← c.shareStack
    let k ← s.sstks sstk
    let ptr ← c.saveStack.ptr
    some { s with
      sys := (s.sys.free ptr m₁).free co m₂
      acos := Function.update s.acos co none
      sstks := Function.update s.sstks sstk (some (k.disown co)) }

/-! ## Switching -/

/-- `acosw`, on records. -/
def acosw (s : State) (fromCo toCo : ℕ) : Option State := do
  let f ← s.acos fromCo
  let acos := Function.update s.acos fromCo (some { f with reg := s.cpu })
  let t ← acos toCo
  some { s with acos, cpu := t.reg }

/-- What `aco_resume` does with the owner of the share stack, where this is another one. -/
def save (s : State) (sstk : ℕ) (m : Memory) (r : Option Grant) : Option State := do
  let k ← s.sstks sstk
  match k.owner with
  | none => some s
  | some o => do
    let c ← s.acos o
    let rsp := c.reg.rsp.toNat
    assert (c.shareStack = some sstk)
    assert (k.alignRetptr ≥ rsp ∧ k.low ≤ rsp)
    let (saveStack, sys) ←
      { c.saveStack with validSz := k.alignRetptr - rsp : SaveStack }.grow s.sys m r
    let (saveStack, sys) ← saveStack.copyOut sys rsp
    some { s with
      sys
      acos := Function.update s.acos o (some { c with saveStack })
      sstks := Function.update s.sstks sstk (some { k with owner := none, alignValidsz := 0 }) }

/-- What `aco_resume` does with the share stack before it switches. -/
def restore (s : State) (sstk co : ℕ) : Option State := do
  let k ← s.sstks sstk
  let c ← s.acos co
  assert (k.owner = none)
  assert (c.saveStack.validSz ≤ k.alignLimit - 8)
  let (saveStack, sys) ← c.saveStack.copyIn s.sys (k.alignRetptr - c.saveStack.validSz)
  some { s with
    sys
    acos := Function.update s.acos co (some { c with saveStack })
    sstks := Function.update s.sstks sstk
      (some { k with owner := some co, alignValidsz := c.saveStack.validSz + 8 }) }

/-- The share stack is made that of the handle. -/
def claim (s : State) (sstk co : ℕ) (m : Memory) (r : Option Grant) : Option State := do
  let k ← s.sstks sstk
  if k.owner ≠ some co then do
    let s ← s.save sstk m r
    s.restore sstk co
  else some s

/-- `aco_resume`, up to the switch; `m` and `r` are what `free` and `malloc` leave and return, if
the save stack of the owner has to grow. -/
def resume (s : State) (co : ℕ) (m : Memory) (r : Option Grant) : Option State := do
  let c ← s.acos co
  let main ← c.mainCo
  assert (c.isEnd = false)
  let sstk ← c.shareStack
  let s ← s.claim sstk co m r
  { s with gtlsCo := some co }.acosw main co

/-- `aco_yield1`, with the end of the `aco_resume` to which it switches. -/
def yield1 (s : State) (co : ℕ) : Option State := do
  let c ← s.acos co
  let main ← c.mainCo
  let s ← s.acosw co main
  some { s with gtlsCo := some main }

/-- `aco_yield`. -/
def yield (s : State) : Option State := do
  let co ← s.gtlsCo
  s.yield1 co

/-- `aco_exit`. -/
def exit (s : State) : Option State := do
  let co ← s.gtlsCo
  let c ← s.acos co
  let sstk ← c.shareStack
  let k ← s.sstks sstk
  assert (k.owner = some co)
  { s with
    acos := Function.update s.acos co (some { c with isEnd := true })
    sstks := Function.update s.sstks sstk (some (k.disown co)) }.yield1 co

end State

end FfTest.Libaco
