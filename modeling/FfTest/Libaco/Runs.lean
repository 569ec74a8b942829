import FfTest.Foundations.PrivateContexts
import FfTest.Libaco.Copying

/-! # Runs of coroutines

`libacoMachine` takes the calls of the library and, between them, whatever the main program and the
coroutines do to their registers and to memory. The guard has the rules of the library and of the
allocator: coroutines are resumed by the main program, each stays within its part of the share
stack, and nobody writes to a block of the library. `State.view` is what the parties see: registers
and stacks, wherever the library has put them. -/

namespace FfTest.Libaco

/-! ## Blocks -/

/-- What the library has blocks for. -/
inductive Role
  /-- An `aco_t`. -/
  | aco (co : ℕ)
  /-- A save stack. -/
  | save (co : ℕ)
  /-- An `aco_share_stack_t`. -/
  | sstk (sstk : ℕ)
  /-- A share stack, with its guard page. -/
  | area (sstk : ℕ)
  deriving DecidableEq, Repr

/-- An event of a run. -/
inductive Event
  /-- `aco_share_stack_new2`. -/
  | shareStackNew (sz : Word) (guardPageEnabled : Bool) (pgsz : Word) (r area : Option Grant)
  /-- `aco_share_stack_destroy`. -/
  | shareStackDestroy (sstk : ℕ) (m₁ m₂ : Memory)
  /-- `aco_create`. -/
  | create (mainCo sstk : ℕ) (saveStackSz fp : Word) (arg : ℕ) (r save : Option Grant)
  /-- `aco_resume`. -/
  | resume (co : ℕ) (m : Memory) (r : Option Grant)
  /-- Whoever is running goes on, up to its next call. -/
  | work (cpu : Regs) (m : Memory)
  /-- `aco_yield`. -/
  | yield
  /-- `aco_exit`. -/
  | exit
  /-- `aco_destroy`. -/
  | destroy (co : ℕ) (m₁ m₂ : Memory)

namespace State

/-- The block for something. -/
def span (s : State) : Role → Option Span
  | .aco co => (s.acos co).map fun _ => ⟨co, sizeofAco⟩
  | .save co => (s.acos co).bind fun c => c.saveStack.ptr.map fun ptr => ⟨ptr, c.saveStack.sz⟩
  | .sstk sstk => (s.sstks sstk).map fun _ => ⟨sstk, sizeofShareStack⟩
  | .area sstk => (s.sstks sstk).map ShareStack.block

/-- The coroutine that is running, if not the main program. -/
def running (s : State) : Option ℕ :=
  s.gtlsCo.filter fun co => ((s.acos co).bind Aco.mainCo).isSome

/-- The share stack of a coroutine. -/
def stackOf (s : State) (co : ℕ) : Option ShareStack :=
  (s.acos co).bind fun c => c.shareStack.bind s.sstks

/-! ## What the parties see -/

/-- The registers of a coroutine: those in its `aco_t`, unless it is running. -/
def regOf (s : State) (co : ℕ) (c : Aco) : Regs := if s.running = some co then s.cpu else c.reg

/-- The stack of a coroutine: on the share stack if it is the owner, and in its save stack if not.
-/
def bytesOf (s : State) (co : ℕ) (c : Aco) (k : ShareStack) : List Byte :=
  if k.owner = some co then
    bytes s.sys.mem (s.regOf co c).rsp.toNat (k.alignRetptr - (s.regOf co c).rsp.toNat)
  else bytes s.sys.mem (c.saveStack.ptr.getD 0) c.saveStack.validSz

/-- The context of a coroutine. -/
def context (s : State) (co : ℕ) : Option (Context Regs (List Byte)) :=
  (s.acos co).bind fun c => (c.shareStack.bind s.sstks).map fun k =>
    if c.isEnd then .ended else .alive (s.regOf co c) (s.bytesOf co c k)

/-- The registers of the main program. -/
def mainReg (s : State) (main : ℕ) : Regs :=
  if s.running = none then s.cpu else ((s.acos main).map Aco.reg).getD s.cpu

/-- What the parties see. -/
def view (s : State) (main : ℕ) : Private ℕ Regs (List Byte) where
  main := s.mainReg main
  ctx := s.context
  running := s.running

/-! ## Events -/

/-- What an event does. -/
def act (s : State) : Event → Option State
  | .shareStackNew sz guardPageEnabled pgsz r area =>
    (s.shareStackNew2 sz guardPageEnabled pgsz r area).map Prod.snd
  | .shareStackDestroy sstk m₁ m₂ => s.shareStackDestroy sstk m₁ m₂
  | .create mainCo sstk saveStackSz fp arg r save =>
    (s.create mainCo sstk saveStackSz fp arg r save).map Prod.snd
  | .resume co m r => s.resume co m r
  | .work cpu m => some { s with cpu, sys := s.sys.poke m }
  | .yield => s.yield
  | .exit => s.exit
  | .destroy co m₁ m₂ => s.destroy co m₁ m₂

/-- The same for the parties. -/
def action (s : State) : Event → Action ℕ Regs (List Byte)
  | .create _ sstk _ fp _ (some g) _ =>
    match s.sstks sstk with
    | some k => .create g.base (s.entry k fp) []
    | none => .idle
  | .resume co _ _ => .resume co
  | .work cpu m =>
    match s.running.bind s.stackOf with
    | some k => .work cpu (bytes m cpu.rsp.toNat (k.alignRetptr - cpu.rsp.toNat))
    | none => .work cpu []
  | .yield => .yield
  | .exit => .exit
  | .destroy co _ _ => .destroy co
  | .create _ _ _ _ _ none _ | .shareStackNew .. | .shareStackDestroy .. => .idle

/-- What may be done between the calls: the blocks of the library are left alone, but a coroutine
works on the share stack below the word that its function would return to. -/
def Works (s : State) (cpu : Regs) (m : Memory) : Prop :=
  (∀ {i b}, s.span i = some b →
    (∀ {co c sstk}, s.running = some co → s.acos co = some c → c.shareStack = some sstk →
      i ≠ .area sstk) → AgreeOn s.sys.mem m b) ∧
  ∀ {co k}, s.running = some co → s.stackOf co = some k →
    k.low ≤ cpu.rsp.toNat ∧ cpu.rsp.toNat ≤ k.alignRetptr ∧
      AgreeOn s.sys.mem m ⟨k.alignRetptr, k.block.stop - k.alignRetptr⟩

/-- What `free` and `malloc` may leave and return in `aco_resume`. -/
def SaveOk (s : State) (co : ℕ) (m : Memory) (r : Option Grant) : Prop :=
  ∀ {k o d}, s.stackOf co = some k → k.owner = some o → o ≠ co → s.acos o = some d →
    { d.saveStack with validSz := k.alignRetptr - d.reg.rsp.toNat : SaveStack }.GrowOk s.sys m r

/-- The rules of the library and of the allocator, which does not refuse memory. -/
def Admits (s : State) : Event → Prop
  | .shareStackNew sz guardPageEnabled pgsz r area =>
    ∃ n < 63, pgsz.toNat = 2 ^ n ∧ ∃ size, shareStackSize sz guardPageEnabled pgsz = some size ∧
      r ≠ none ∧ s.sys.AllocOk 16 sizeofShareStack r ∧
      ∃ a, area = some a ∧ (s.sys.alloc sizeofShareStack r).2.AllocOk 16 size.toNat area ∧
        a.base + size.toNat ≤ 2 ^ 63
  | .shareStackDestroy sstk m₁ m₂ =>
    (∀ {co c}, s.acos co = some c → c.shareStack ≠ some sstk) ∧ ∃ k, s.sstks sstk = some k ∧
      s.sys.FreeOk k.block.base m₁ ∧ (s.sys.free k.block.base m₁).FreeOk sstk m₂
  | .create mainCo sstk saveStackSz _ _ r save =>
    (∃ c, s.acos mainCo = some c ∧ c.mainCo = none) ∧ s.sstks sstk ≠ none ∧
      r ≠ none ∧ s.sys.AllocOk 16 sizeofAco r ∧ save ≠ none ∧
      (s.sys.alloc sizeofAco r).2.AllocOk 16
        (if saveStackSz = 0 then 64 else saveStackSz.toNat) save
  | .resume co m r =>
    s.running = none ∧ (∃ c, s.acos co = some c ∧ c.mainCo ≠ none ∧ c.isEnd = false) ∧
      s.SaveOk co m r
  | .work cpu m => s.Works cpu m
  | .yield | .exit => s.running ≠ none
  | .destroy co m₁ m₂ =>
    s.running ≠ some co ∧ ∃ c ptr, s.acos co = some c ∧ c.mainCo ≠ none ∧
      c.saveStack.ptr = some ptr ∧ s.sys.FreeOk ptr m₁ ∧ (s.sys.free ptr m₁).FreeOk co m₂

/-- The actions of a run. -/
def actions (s : State) : List Event → List (Action ℕ Regs (List Byte))
  | [] => []
  | e :: es =>
    s.action e :: match s.act e with
      | some s => s.actions es
      | none => []

/-- A thread that has made its main coroutine. -/
def start (m : Memory) (main : ℕ) (protector : Word) (cpu : Regs) : Option State :=
  ((fresh m protector cpu).createMain 0 0 (some ⟨main, m⟩)).map Prod.snd

end State

/-- The library, the main program and the coroutines. -/
def libacoMachine : Machine (Option State) Event where
  step s e := s.bind (·.act e)
  guard s e := ∃ t, s = some t ∧ t.Admits e

end FfTest.Libaco
