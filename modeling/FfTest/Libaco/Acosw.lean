import FfTest.Foundations.ByteCopy
import Mathlib.Logic.Function.Basic

/-! # The switch, instruction by instruction

`acosw` saves what a called function must keep, the return address and the two control words at the
start of one `aco_t`, and loads the same from another one. `run_acosw` says that this is all it
does; `acosw_returns` says what it means for the caller: whatever is executed in between, the switch
back goes on behind the call with everything kept. -/

namespace FfTest.Libaco

/-- `size_t`, `uintptr_t` and the registers of the processor. -/
abbrev Word := BitVec 64

/-! ## The processor -/

/-- The registers that the instructions name. -/
inductive Reg
  | rax | rbx | rcx | rdx | rsi | rdi | rbp | rsp | r12 | r13 | r14 | r15
  deriving DecidableEq, Repr

/-- The processor and memory. -/
structure Cpu where
  /-- The registers. -/
  reg : Reg → Word
  /-- Where the next instruction is. -/
  rip : Word
  /-- The control word of the x87 unit. -/
  fpucw : BitVec 16
  /-- `mxcsr`. -/
  mxcsr : BitVec 32
  /-- Memory. -/
  mem : Memory

/-- An instruction; a memory operand is `[base + off]`. -/
inductive Instr
  /-- `mov dst, src`. -/
  | mov (dst src : Reg)
  /-- `mov dst, QWORD PTR [base + off]`. -/
  | load (dst base : Reg) (off : Word)
  /-- `mov QWORD PTR [base + off], src`. -/
  | store (base : Reg) (off : Word) (src : Reg)
  /-- `lea dst, [base + off]`. -/
  | lea (dst base : Reg) (off : Word)
  /-- `fnstcw WORD PTR [base + off]`. -/
  | fnstcw (base : Reg) (off : Word)
  /-- `stmxcsr DWORD PTR [base + off]`. -/
  | stmxcsr (base : Reg) (off : Word)
  /-- `fldcw WORD PTR [base + off]`. -/
  | fldcw (base : Reg) (off : Word)
  /-- `ldmxcsr DWORD PTR [base + off]`. -/
  | ldmxcsr (base : Reg) (off : Word)
  /-- `jmp target`. -/
  | jmp (target : Reg)
  deriving DecidableEq, Repr

namespace Cpu

/-- The address of a memory operand. -/
def addr (c : Cpu) (base : Reg) (off : Word) : ℕ := (c.reg base + off).toNat

/-- A register is written. -/
def set (c : Cpu) (r : Reg) (v : Word) : Cpu := { c with reg := Function.update c.reg r v }

/-- One instruction. -/
def exec (c : Cpu) : Instr → Cpu
  | .mov dst src => c.set dst (c.reg src)
  | .load dst base off => c.set dst (loadWord 64 c.mem (c.addr base off))
  | .store base off src => { c with mem := storeWord c.mem (c.addr base off) (c.reg src) }
  | .lea dst base off => c.set dst (c.reg base + off)
  | .fnstcw base off => { c with mem := storeWord c.mem (c.addr base off) c.fpucw }
  | .stmxcsr base off => { c with mem := storeWord c.mem (c.addr base off) c.mxcsr }
  | .fldcw base off => { c with fpucw := loadWord 16 c.mem (c.addr base off) }
  | .ldmxcsr base off => { c with mxcsr := loadWord 32 c.mem (c.addr base off) }
  | .jmp target => { c with rip := c.reg target }

/-- Instructions in a row. -/
def run (c : Cpu) : List Instr → Cpu
  | [] => c
  | i :: is => (c.exec i).run is

end Cpu

/-- The first half of `acosw`: `rdi` is `from_co`. -/
def saveFrom : List Instr := [
  .load .rdx .rsp 0x0,  -- retaddr
  .lea .rcx .rsp 0x8,   -- rsp
  .store .rdi 0x0 .r12,
  .store .rdi 0x8 .r13,
  .store .rdi 0x10 .r14,
  .store .rdi 0x18 .r15,
  .store .rdi 0x20 .rdx,
  .store .rdi 0x28 .rcx,
  .store .rdi 0x30 .rbx,
  .store .rdi 0x38 .rbp,
  .fnstcw .rdi 0x40,
  .stmxcsr .rdi 0x44]

/-- The second half of `acosw`: `rsi` is `to_co`. -/
def loadTo : List Instr := [
  .load .r12 .rsi 0x0,
  .load .r13 .rsi 0x8,
  .load .r14 .rsi 0x10,
  .load .r15 .rsi 0x18,
  .load .rax .rsi 0x20,  -- retaddr
  .load .rcx .rsi 0x28,  -- rsp
  .load .rbx .rsi 0x30,
  .load .rbp .rsi 0x38,
  .fldcw .rsi 0x40,
  .ldmxcsr .rsi 0x44,
  .mov .rsp .rcx,
  .jmp .rax]

/-- `acosw`. -/
def acosw : List Instr := saveFrom ++ loadTo

/-! ## What is kept over a call -/

/-- What a function must keep for its caller, with the address to which it returns. -/
structure Regs where
  /-- `r12`. -/
  r12 : Word
  /-- `r13`. -/
  r13 : Word
  /-- `r14`. -/
  r14 : Word
  /-- `r15`. -/
  r15 : Word
  /-- The return address. -/
  retaddr : Word
  /-- `rsp`. -/
  rsp : Word
  /-- `rbx`. -/
  rbx : Word
  /-- `rbp`. -/
  rbp : Word
  /-- The control word of the x87 unit. -/
  fpucw : BitVec 16
  /-- `mxcsr`. -/
  mxcsr : BitVec 32
  deriving DecidableEq, Repr

/-- `reg` at the start of an `aco_t`. -/
def loadRegs (m : Memory) (co : ℕ) : Regs where
  r12 := loadWord 64 m co
  r13 := loadWord 64 m (co + 0x8)
  r14 := loadWord 64 m (co + 0x10)
  r15 := loadWord 64 m (co + 0x18)
  retaddr := loadWord 64 m (co + 0x20)
  rsp := loadWord 64 m (co + 0x28)
  rbx := loadWord 64 m (co + 0x30)
  rbp := loadWord 64 m (co + 0x38)
  fpucw := loadWord 16 m (co + 0x40)
  mxcsr := loadWord 32 m (co + 0x44)

/-- Memory with `reg` of an `aco_t` written. -/
def storeRegs (m : Memory) (co : ℕ) (r : Regs) : Memory :=
  let m := storeWord m co r.r12
  let m := storeWord m (co + 0x8) r.r13
  let m := storeWord m (co + 0x10) r.r14
  let m := storeWord m (co + 0x18) r.r15
  let m := storeWord m (co + 0x20) r.retaddr
  let m := storeWord m (co + 0x28) r.rsp
  let m := storeWord m (co + 0x30) r.rbx
  let m := storeWord m (co + 0x38) r.rbp
  let m := storeWord m (co + 0x40) r.fpucw
  storeWord m (co + 0x44) r.mxcsr

/-- `reg` of an `aco_t`. -/
def regSpan (co : ℕ) : Span := ⟨co, 72⟩

/-- What goes on at the instruction that is next. -/
def Cpu.live (c : Cpu) : Regs :=
  ⟨c.reg .r12, c.reg .r13, c.reg .r14, c.reg .r15, c.rip, c.reg .rsp, c.reg .rbx, c.reg .rbp,
    c.fpucw, c.mxcsr⟩

/-- What the caller of a function that has just been entered finds when it returns. -/
def Cpu.caller (c : Cpu) : Regs :=
  ⟨c.reg .r12, c.reg .r13, c.reg .r14, c.reg .r15, loadWord 64 c.mem (c.reg .rsp).toNat,
    c.reg .rsp + 8, c.reg .rbx, c.reg .rbp, c.fpucw, c.mxcsr⟩

/-! ## Records of registers in memory -/

/-- A word that was not written over is found. -/
theorem loadWord_storeWord_of_apart {v w : ℕ} (m : Memory) {a b : ℕ} (x : BitVec w)
    (h : (⟨a, v / 8⟩ : Span).Apart ⟨b, w / 8⟩) :
    loadWord v (storeWord m b x) a = loadWord v m a :=
  (agreeOn_storeWord m x h).loadWord_eq ⟨le_rfl, le_rfl⟩

/-- The registers are read back as they were written. -/
theorem loadRegs_storeRegs (m : Memory) (co : ℕ) (r : Regs) :
    loadRegs (storeRegs m co r) co = r := by
  have hkept : ∀ (v w : ℕ) (m : Memory) (i j : ℕ) (x : BitVec w),
      i + v / 8 ≤ j → loadWord v (storeWord m (co + j) x) (co + i) = loadWord v m (co + i) := by
    intro v w m i j x hij
    refine loadWord_storeWord_of_apart m x (Or.inl ?_)
    show co + i + v / 8 ≤ co + j
    omega
  have hself : ∀ (w : ℕ) (m : Memory) (a : ℕ) (x : BitVec w), 8 ∣ w →
      loadWord w (storeWord m a x) a = x := fun w m a x hw => loadWord_storeWord hw m a x
  have hfirst : ∀ (m : Memory), loadWord 64 m co = loadWord 64 m (co + 0) := fun _ => rfl
  unfold loadRegs storeRegs
  rw [hfirst]
  simp (disch := omega) only [hkept, hself]
  simp (disch := omega) only [Nat.add_zero, hself]

/-- Writing the registers changes nothing else. -/
theorem agreeOn_storeRegs (m : Memory) {co : ℕ} (r : Regs) {s : Span} (h : s.Apart (regSpan co)) :
    AgreeOn m (storeRegs m co r) s := by
  have hpart : ∀ (w : ℕ) (m' : Memory) (i : ℕ) (x : BitVec w), i + w / 8 ≤ 72 →
      AgreeOn m m' s → AgreeOn m (storeWord m' (co + i) x) s := by
    intro w m' i x hi hm
    refine hm.trans (agreeOn_storeWord m' x (h.mono ⟨le_rfl, le_rfl⟩ ⟨?_, ?_⟩))
    · exact Nat.le_add_right ..
    · show co + i + w / 8 ≤ co + 72
      omega
  have hstart : AgreeOn m (storeWord m co r.r12) s :=
    hpart 64 m 0 r.r12 (by decide) fun _ _ => rfl
  unfold storeRegs
  refine hpart _ _ _ _ (by decide) (hpart _ _ _ _ (by decide) (hpart _ _ _ _ (by decide)
    (hpart _ _ _ _ (by decide) (hpart _ _ _ _ (by decide) (hpart _ _ _ _ (by decide)
    (hpart _ _ _ _ (by decide) (hpart _ _ _ _ (by decide) (hpart _ _ _ _ (by decide)
    hstart))))))))

/-- The registers are the same in memories that agree on them. -/
theorem loadRegs_congr {m m' : Memory} {co : ℕ} (h : AgreeOn m m' (regSpan co)) :
    loadRegs m' co = loadRegs m co := by
  have hword : ∀ w i : ℕ, i + w / 8 ≤ 72 → loadWord w m' (co + i) = loadWord w m (co + i) := by
    intro w i hi
    refine h.loadWord_eq ⟨Nat.le_add_right .., ?_⟩
    show co + i + w / 8 ≤ co + 72
    omega
  have hfirst : loadWord 64 m' co = loadWord 64 m co := hword 64 0 (by decide)
  unfold loadRegs
  rw [hfirst]
  simp (disch := decide) only [hword]

/-! ## The switch -/

/-- The address of an operand in an `aco_t`. -/
theorem toNat_add_off {a off : Word} (ha : a.toNat + 72 ≤ 2 ^ 64) (hoff : off.toNat < 72) :
    (a + off).toNat = a.toNat + off.toNat := by
  rw [BitVec.toNat_add, Nat.mod_eq_of_lt (by omega)]

/-- Code can be run in two parts. -/
theorem Cpu.run_append (c : Cpu) (is js : List Instr) : c.run (is ++ js) = (c.run is).run js := by
  induction is generalizing c with
  | nil => rfl
  | cons i is ih => exact ih (c.exec i)

/-- The first half changes two registers that nobody keeps, and the memory of `from_co`. -/
theorem run_saveFrom {c : Cpu} (hfrom : (c.reg .rdi).toNat + 72 ≤ 2 ^ 64) :
    (c.run saveFrom).mem = storeRegs c.mem (c.reg .rdi).toNat c.caller ∧
      (c.run saveFrom).reg .rsi = c.reg .rsi := by
  have hrsp : (c.reg .rsp + 0x0).toNat = (c.reg .rsp).toNat := by
    rw [show (0x0 : Word) = 0#64 from rfl, BitVec.add_zero]
  have hmem : (c.run saveFrom).mem =
      let m := storeWord c.mem (c.reg .rdi + 0x0).toNat (c.reg .r12)
      let m := storeWord m (c.reg .rdi + 0x8).toNat (c.reg .r13)
      let m := storeWord m (c.reg .rdi + 0x10).toNat (c.reg .r14)
      let m := storeWord m (c.reg .rdi + 0x18).toNat (c.reg .r15)
      let m := storeWord m (c.reg .rdi + 0x20).toNat (loadWord 64 c.mem (c.reg .rsp + 0x0).toNat)
      let m := storeWord m (c.reg .rdi + 0x28).toNat (c.reg .rsp + 8)
      let m := storeWord m (c.reg .rdi + 0x30).toNat (c.reg .rbx)
      let m := storeWord m (c.reg .rdi + 0x38).toNat (c.reg .rbp)
      let m := storeWord m (c.reg .rdi + 0x40).toNat c.fpucw
      storeWord m (c.reg .rdi + 0x44).toNat c.mxcsr := rfl
  refine ⟨?_, rfl⟩
  rw [hmem, hrsp]
  simp (disch := decide) only [toNat_add_off hfrom]
  rfl

/-- The second half goes on with the registers of `to_co`. -/
theorem run_loadTo {c : Cpu} (hto : (c.reg .rsi).toNat + 72 ≤ 2 ^ 64) :
    (c.run loadTo).mem = c.mem ∧ (c.run loadTo).live = loadRegs c.mem (c.reg .rsi).toNat := by
  have hlive : (c.run loadTo).live =
      ⟨loadWord 64 c.mem (c.reg .rsi + 0x0).toNat, loadWord 64 c.mem (c.reg .rsi + 0x8).toNat,
        loadWord 64 c.mem (c.reg .rsi + 0x10).toNat, loadWord 64 c.mem (c.reg .rsi + 0x18).toNat,
        loadWord 64 c.mem (c.reg .rsi + 0x20).toNat, loadWord 64 c.mem (c.reg .rsi + 0x28).toNat,
        loadWord 64 c.mem (c.reg .rsi + 0x30).toNat, loadWord 64 c.mem (c.reg .rsi + 0x38).toNat,
        loadWord 16 c.mem (c.reg .rsi + 0x40).toNat,
        loadWord 32 c.mem (c.reg .rsi + 0x44).toNat⟩ := rfl
  refine ⟨rfl, ?_⟩
  rw [hlive]
  simp (disch := decide) only [toNat_add_off hto]
  rfl

/-- **What a switch does.** It writes the registers of the caller to `from_co`, and goes on with
those of `to_co`. -/
theorem run_acosw {c : Cpu} (hfrom : (c.reg .rdi).toNat + 72 ≤ 2 ^ 64)
    (hto : (c.reg .rsi).toNat + 72 ≤ 2 ^ 64)
    (hapart : (regSpan (c.reg .rsi).toNat).Apart (regSpan (c.reg .rdi).toNat)) :
    (c.run acosw).mem = storeRegs c.mem (c.reg .rdi).toNat c.caller ∧
      (c.run acosw).live = loadRegs c.mem (c.reg .rsi).toNat := by
  obtain ⟨hmem, hrsi⟩ := run_saveFrom hfrom
  obtain ⟨hkept, hlive⟩ := run_loadTo (c := c.run saveFrom) (by rwa [hrsi])
  rw [acosw, Cpu.run_append, hkept, hlive, hmem, hrsi]
  exact ⟨rfl, loadRegs_congr (agreeOn_storeRegs c.mem c.caller hapart)⟩

/-- **There and back.** Whatever has been executed since a switch, if it has left the registers
alone that the switch has written, the switch back goes on behind the call with all that the caller
must find kept. -/
theorem acosw_returns {c d : Cpu} (hfrom : (c.reg .rdi).toNat + 72 ≤ 2 ^ 64)
    (hto : (c.reg .rsi).toNat + 72 ≤ 2 ^ 64)
    (hapart : (regSpan (c.reg .rsi).toNat).Apart (regSpan (c.reg .rdi).toNat))
    (hkept : AgreeOn (c.run acosw).mem d.mem (regSpan (c.reg .rdi).toNat))
    (hback : d.reg .rsi = c.reg .rdi) (hother : (d.reg .rdi).toNat + 72 ≤ 2 ^ 64)
    (hapart' : (regSpan (d.reg .rsi).toNat).Apart (regSpan (d.reg .rdi).toNat)) :
    (d.run acosw).live = c.caller := by
  have hsaved := (run_acosw hfrom hto hapart).1
  have hloaded := (run_acosw hother (hback ▸ hfrom) hapart').2
  rw [hloaded, hback, loadRegs_congr hkept, hsaved, loadRegs_storeRegs]

/-- A processor about to switch. -/
def switching (rdi rsi : Word) (m : Memory) : Cpu where
  reg
    | .rdi => rdi
    | .rsi => rsi
    | .rsp => 64
    | _ => 7
  rip := 0
  fpucw := 1
  mxcsr := 2
  mem := m

theorem acosw_returns_switching :
    ((switching 8192 4096 ((switching 4096 8192 fun _ => 3).run acosw).mem).run acosw).live
      = (switching 4096 8192 fun _ => 3).caller :=
  acosw_returns (by decide) (by decide) (by decide) (fun _ _ => rfl) rfl (by decide) (by decide)

end FfTest.Libaco
