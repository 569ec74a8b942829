import FfTest.MemoryAccounting.Client
import Mathlib.Data.List.Pairwise

/-! # The heap invariant of policy 4

`Config.Ok` ties the wrappers to their client: every live payload lies `ALIGN` bytes into a system
block of its own, the header there still holds its size, memory holds what the client wrote, and the
system allocator is only ever given back pointers it has handed out. Each kind of event keeps it
(`Config.Ok.malloc`, `Config.Ok.realloc`, `Config.Ok.free`, `Config.Ok.write`), so it holds of every
run (`Config.ok_run`). -/

namespace FfTest

variable {D : Type*} {w : ℕ}

/-! ## Sound live payloads -/

/-- The live payloads lie in blocks apart from each other, each behind a header that holds its size,
and memory holds what was written to them. -/
structure LiveOk (m : Memory) (live : List (Payload D)) : Prop where
  /-- There is room for a header before each payload. -/
  shifted : ∀ b ∈ live, align ≤ b.ptr
  /-- The blocks are apart. -/
  apart : live.Pairwise fun a b => a.block.Apart b.block
  /-- Each header holds the size of its payload. -/
  header : ∀ b ∈ live, load32 m (b.ptr - align) = BitVec.ofNat 32 b.size
  /-- Memory holds the bytes written. -/
  content : ∀ b ∈ live, ∀ i < b.size, ∀ v ∈ b.written i, m (b.ptr + i) = v

/-- The state of the wrappers is that of the client, shifted by a header. -/
structure Config.Ok (cfg : Config D) : Prop where
  /-- The live payloads are sound. -/
  live : LiveOk cfg.mem cfg.client.live
  /-- The system blocks out are exactly the blocks of the live payloads. -/
  blocks : cfg.jut.sys.blocks = cfg.client.live.map Payload.block
  /-- The calls of the system allocator account for the blocks out. -/
  tracked : cfg.jut.sys.Tracked
  /-- The system allocator has only been given its own pointers. -/
  used : WellUsed cfg.jut.sys.calls

/-- The header of a payload's block. -/
theorem Payload.header_within (p : Payload D) :
    (⟨p.ptr - align, 4⟩ : Span).Within p.block := by
  simp only [Span.Within, Span.stop, Payload.block, align]
  omega

/-- A payload behind a header lies in its block. -/
theorem Payload.span_within {p : Payload D} (h : align ≤ p.ptr) : p.span.Within p.block := by
  simp only [Span.Within, Span.stop, Payload.block, Payload.span]
  omega

namespace LiveOk

variable {m m' : Memory} {live live' : List (Payload D)}

/-- No payloads are sound over any memory. -/
theorem nil (m : Memory) : LiveOk m ([] : List (Payload D)) := by
  constructor <;> simp

/-- Some of the live payloads are sound if all are. -/
theorem sublist (h : LiveOk m live) (hs : live'.Sublist live) : LiveOk m live' where
  shifted b hb := h.shifted b (hs.subset hb)
  apart := h.apart.sublist hs
  header b hb := h.header b (hs.subset hb)
  content b hb := h.content b (hs.subset hb)

/-- Memory may change outside the blocks. -/
theorem agree (h : LiveOk m live) (ha : ∀ b ∈ live, AgreeOn m m' b.block) : LiveOk m' live where
  shifted := h.shifted
  apart := h.apart
  header b hb := (load32_congr (ha b hb) b.header_within).trans (h.header b hb)
  content b hb i hi v hv := by
    have hin : b.block.Has (b.ptr + i) := by
      have := h.shifted b hb
      simp only [Span.Has, Span.stop, Payload.block]
      omega
    rw [ha b hb _ hin]
    exact h.content b hb i hi v hv

/-- **A granted block.** When the system grants a block beside the live ones and the header is
written at its start, the payload behind the header joins the live ones. -/
theorem grant {h : SysHeap} (hl : LiveOk h.mem live) {g : Grant} {size : BitVec w}
    (fresh : h.Fresh (live.map Payload.block) (size.toNat + align) g) (owner : Option D)
    {written : ℕ → Option Byte}
    (content : ∀ i < size.toNat, ∀ v ∈ written i, g.mem (g.base + align + i) = v) :
    LiveOk (store32 g.mem g.base (size.setWidth 32))
      (⟨g.base + align, size.toNat, owner, written⟩ :: live) := by
  have hnew : (⟨g.base + align, size.toNat, owner, written⟩ : Payload D).block
      = ⟨g.base, size.toNat + align⟩ := by simp [Payload.block]
  have hapart : ∀ b ∈ live, (⟨g.base, size.toNat + align⟩ : Span).Apart b.block :=
    fun b hb => (fresh _ (List.mem_map_of_mem hb)).1
  -- the new header lies in the new block, so the live payloads do not notice it
  have hold : LiveOk (store32 g.mem g.base (size.setWidth 32)) live := by
    refine hl.agree fun b hb => ((fresh _ (List.mem_map_of_mem hb)).2).trans ?_
    refine agreeOn_store32 _ _ ((hapart b hb).symm.mono ⟨le_rfl, le_rfl⟩ ?_)
    simp only [Span.Within, Span.stop, align]
    omega
  constructor
  · intro b hb
    rcases List.mem_cons.mp hb with rfl | hb
    · exact Nat.le_add_left _ _
    · exact hold.shifted b hb
  · refine List.pairwise_cons.mpr ⟨fun b hb => ?_, hold.apart⟩
    rw [hnew]
    exact hapart b hb
  · intro b hb
    rcases List.mem_cons.mp hb with rfl | hb
    · simp [BitVec.ofNat_toNat]
    · exact hold.header b hb
  · intro b hb i hi v hv
    rcases List.mem_cons.mp hb with rfl | hb
    · -- the header ends before the payload starts
      rw [store32_of_outside _ _ (Or.inr (by simp only [align]; omega))]
      exact content i hi v hv
    · exact hold.content b hb i hi v hv

/-- Different live payloads lie in blocks that are apart. -/
theorem apart_of_ne (h : LiveOk m live) {a b : Payload D} (ha : a ∈ live) (hb : b ∈ live)
    (hne : a ≠ b) : a.block.Apart b.block := by
  have : Std.Symm fun a b : Payload D => a.block.Apart b.block := ⟨fun _ _ => Span.Apart.symm⟩
  exact h.apart.forall ha hb hne

/-- Live payloads at one pointer are one payload. -/
theorem unique (h : LiveOk m live) {a b : Payload D} (ha : a ∈ live) (hb : b ∈ live)
    (hptr : a.ptr = b.ptr) : a = b := by
  by_contra hne
  -- blocks that are apart and not empty do not start at one address
  refine (h.apart_of_ne ha hb hne).base_ne ?_ ?_ ?_
  · exact Nat.lt_add_left _ (by decide)
  · exact Nat.lt_add_left _ (by decide)
  · exact congrArg (· - align) hptr

/-- A byte of a live payload lies in no other block. -/
theorem not_has (h : LiveOk m live) {b q : Payload D} (hb : b ∈ live) (hq : q ∈ live)
    (hne : q.ptr ≠ b.ptr) {off : ℕ} (hoff : off < b.size) : ¬ q.block.Has (b.ptr + off) := by
  have hapart : q.block.Apart b.block :=
    h.apart_of_ne hq hb fun heq => hne (congrArg Payload.ptr heq)
  have hshift := h.shifted b hb
  refine fun hin => hapart.not_has hin ?_
  simp only [Span.Has, Span.stop, Payload.block]
  omega

/-- **A write into a payload** changes no header and no other payload. -/
theorem write (h : LiveOk m live) {b : Payload D} (hb : b ∈ live) {off : ℕ} (hoff : off < b.size)
    (v : Byte) :
    LiveOk (storeByte m (b.ptr + off) v) (live.map (Payload.writeAt b.ptr off v)) := by
  constructor
  · intro p hp
    obtain ⟨q, hq, rfl⟩ := List.mem_map.mp hp
    rw [Payload.writeAt_ptr]
    exact h.shifted q hq
  · refine List.pairwise_map.mpr (h.apart.imp fun {p q} hpq => ?_)
    rwa [Payload.writeAt_block, Payload.writeAt_block]
  · intro p hp
    obtain ⟨q, hq, rfl⟩ := List.mem_map.mp hp
    rw [Payload.writeAt_ptr, Payload.writeAt_size, ← h.header q hq]
    refine load32_congr (s := ⟨q.ptr - align, 4⟩) (agreeOn_storeByte _ _ ?_) ⟨le_rfl, le_rfl⟩
    have hqshift := h.shifted q hq
    by_cases hqb : q.ptr = b.ptr
    · -- its own header ends before the payload starts
      simp only [Span.Has, Span.stop, align] at *
      omega
    · intro hin
      exact h.not_has hb hq hqb hoff ⟨hin.1, Nat.lt_of_lt_of_le hin.2 q.header_within.2⟩
  · intro p hp i hi u hu
    obtain ⟨q, hq, rfl⟩ := List.mem_map.mp hp
    rw [Payload.writeAt_size] at hi
    rw [Payload.writeAt_ptr]
    -- the payload written to, and the others
    by_cases hqb : q.ptr = b.ptr
    · obtain rfl : q = b := h.unique hq hb hqb
      rw [Payload.writeAt_written] at hu
      by_cases hi' : i = off
      · subst hi'
        rw [storeByte_self]
        simpa using hu
      · rw [if_neg hi'] at hu
        rw [storeByte_of_ne _ _ (by omega)]
        exact h.content q hq i hi u hu
    · rw [Payload.writeAt_of_ne hqb] at hu
      rw [storeByte_of_ne]
      · exact h.content q hq i hi u hu
      · intro heq
        refine h.not_has hb hq hqb hoff ?_
        rw [← heq]
        have hqshift := h.shifted q hq
        simp only [Span.Has, Span.stop, Payload.block]
        omega

end LiveOk

/-! ## Events keep the invariant -/

/-- The system is asked and answers `NULL`. -/
def Op.Refused : Op w → Prop
  | .malloc _ r | .realloc _ _ r => r = none
  | .free _ _ | .write _ _ _ => False

/-- The pointers passed to `jut_realloc` and `jut_free` are `NULL` or live. -/
def Op.LivePtrs (c : Client D) : Op w → Prop
  | .realloc ptr _ _ | .free ptr _ => c.Live ptr
  | .malloc _ _ | .write _ _ _ => True

/-- Admitted events pass pointers that are `NULL` or live. -/
theorem livePtrs_of_guard {cfg : Config D} {e : Event D w} (he : jutGuard cfg e) :
    e.op.LivePtrs cfg.client := by
  obtain ⟨ctx, op⟩ := e
  cases op with
  | malloc size r => trivial
  | realloc ptr size r => exact he.1
  | free ptr m => exact he.1
  | write ptr off b => trivial

namespace Config

variable {cfg : Config D}

/-- Nothing is live before the first call. -/
theorem ok_start (m : Memory) (dec : D → Decoder) : (start m dec).Ok where
  live := LiveOk.nil m
  blocks := rfl
  tracked := rfl
  used := trivial

/-- Equal tests on the members of a list take out the same member. -/
private theorem eraseP_congr {α : Type*} {p q : α → Bool} {l : List α}
    (h : ∀ a ∈ l, p a = q a) : l.eraseP p = l.eraseP q := by
  induction l with
  | nil => rfl
  | cons a l ih =>
    rw [List.eraseP_cons, List.eraseP_cons, h a (by simp), ih fun b hb => h b (by simp [hb])]

/-- Giving back the block behind a live payload leaves the blocks of the other payloads. -/
theorem Ok.without (h : cfg.Ok) {ptr : ℕ} (hptr : align ≤ ptr) :
    cfg.jut.sys.without (ptr - align) = (cfg.client.rest ptr).map Payload.block := by
  rw [SysHeap.without, h.blocks, List.eraseP_map, Client.rest]
  refine congrArg _ (eraseP_congr fun b hb => ?_)
  have := h.live.shifted b hb
  simp only [Function.comp, Payload.block, beq_eq_beq]
  omega

/-- The pointers a client passes on leave room for a header. -/
theorem Ok.align_le (h : cfg.Ok) {ptr : ℕ} (hptr : ∃ b ∈ cfg.client.live, b.ptr = ptr) :
    align ≤ ptr := by
  obtain ⟨b, hb, rfl⟩ := hptr
  exact h.live.shifted b hb

/-- A live pointer, shifted back, is an address the wrappers hold. -/
theorem Ok.mem_held (h : cfg.Ok) {ptr : ℕ} (hptr : ∃ b ∈ cfg.client.live, b.ptr = ptr) :
    ptr - align ∈ held cfg.jut.sys.calls := by
  obtain ⟨b, hb, rfl⟩ := hptr
  refine h.tracked.mem_held (b := b.block) ?_
  rw [h.blocks]
  exact List.mem_map_of_mem hb

/-- The header before a live payload holds its size. -/
theorem Ok.hdrSize (h : cfg.Ok) {b : Payload D} (hb : b ∈ cfg.client.live) :
    cfg.jut.hdrSize (b.ptr - align) = BitVec.ofNat 32 b.size := h.live.header b hb

/-- **A payload becomes live.** Beside the sound payloads `rest`, a block is granted and its header
written; the call that was answered must account for it. -/
theorem Ok.withPayload {sys : SysHeap} {rest : List (Payload D)} (hl : LiveOk sys.mem rest)
    {g : Grant} {size : BitVec w} (hw : size.toNat + align < 2 ^ w)
    (fresh : sys.Fresh (rest.map Payload.block) (size.toNat + align) g) (call : SysCall)
    (hheld : held (call :: sys.calls) = g.base :: (rest.map Payload.block).map Span.base)
    (hused : WellUsed (call :: sys.calls)) (dec : D → Decoder) (owner : Option D)
    {written : ℕ → Option Byte}
    (content : ∀ i < size.toNat, ∀ v ∈ written i, g.mem (g.base + align + i) = v)
    (released : List (Release D)) :
    Config.Ok ⟨⟨sys.withPayload (rest.map Payload.block) call g size, dec⟩,
      ⟨⟨g.base + align, size.toNat, owner, written⟩ :: rest, released⟩⟩ where
  live := hl.grant fresh owner content
  blocks := by simp [SysHeap.withPayload, toNat_add_align hw, Payload.block]
  tracked := hheld
  used := hused

/-- A call that the system refuses keeps the invariant, whatever its size. -/
theorem Ok.refused [DecidableEq D] (h : cfg.Ok) (op : Op w) (hop : op.Refused)
    (hptrs : op.LivePtrs cfg.client) (ctx : Option D) : (jutStep 4 cfg ⟨ctx, op⟩).Ok := by
  cases op with
  | malloc size r =>
    obtain rfl : r = none := hop
    simp only [jutStep, jutMalloc_four_none]
    exact ⟨h.live, h.blocks, h.tracked, h.used⟩
  | realloc ptr size r =>
    obtain rfl : r = none := hop
    cases ptr with
    | none =>
      by_cases hzero : size = 0
      · subst hzero
        simp only [jutStep, jutRealloc_four_null_zero]
        exact h
      · simp only [jutStep, jutRealloc_four_null_none ctx hzero]
        exact ⟨h.live, h.blocks, h.tracked, h.used⟩
    | some ptr =>
      -- the block is passed to the system, which leaves it with the client
      simp only [jutStep, jutRealloc_four_live_none]
      exact ⟨h.live, h.blocks, h.tracked, h.mem_held (hptrs ptr rfl), h.used⟩
  | free ptr m => exact hop.elim
  | write ptr off b => exact hop.elim

/-- `jut_malloc` keeps the invariant, whatever the system answers. -/
theorem Ok.malloc [DecidableEq D] (h : cfg.Ok) {size : BitVec w} {r : Option Grant}
    (hw : size.toNat + align < 2 ^ w)
    (hr : cfg.jut.sys.AllocOk align (size.toNat + align) r) (ctx : Option D) :
    (jutStep 4 cfg ⟨ctx, .malloc size r⟩).Ok := by
  cases r with
  | none => exact h.refused (.malloc size none) rfl trivial ctx
  | some g =>
    simp only [jutStep, jutMalloc_four_some, Client.afterMalloc, Client.add]
    have hfresh := (hr g rfl).2
    have hheld := h.tracked.alloc (size.toNat + align) (some g)
    rw [SysHeap.Tracked] at hheld
    rw [h.blocks] at hfresh ⊢
    refine Ok.withPayload h.live hw hfresh (.alloc (some g.base)) ?_ h.used _ ctx ?_ _
    · rw [← h.blocks]
      exact hheld
    · exact fun i _ v hv => by simp at hv

/-- `jut_realloc(NULL, size)` keeps the invariant, whatever the system answers. -/
theorem Ok.realloc_null [DecidableEq D] (h : cfg.Ok) {size : BitVec w} {r : Option Grant}
    (hw : size.toNat + align < 2 ^ w)
    (hr : cfg.jut.sys.ReallocOk none (size.toNat + align) r) (ctx : Option D) :
    (jutStep 4 cfg ⟨ctx, .realloc none size r⟩).Ok := by
  by_cases hzero : size = 0
  · subst hzero
    simp only [jutStep, jutRealloc_four_null_zero]
    exact h
  cases r with
  | none =>
    have hnull : cfg.client.Live none := by simp [Client.Live]
    exact h.refused (.realloc none size none) rfl hnull ctx
  | some g =>
    simp only [jutStep, jutRealloc_four_null_some ctx hzero, Client.afterRealloc, Client.add]
    have hfresh := (hr g rfl).1
    have hheld := h.tracked.realloc none (size.toNat + align) (some g)
    rw [SysHeap.Tracked] at hheld
    rw [Option.elim_none] at hfresh
    rw [h.blocks] at hfresh ⊢
    refine Ok.withPayload h.live hw hfresh (.realloc none (some g.base)) ?_ h.used _ ctx ?_ _
    · rw [← h.blocks]
      exact hheld
    · exact fun i _ v hv => by simp at hv

/-- The bytes that the client knows after a payload has moved are those it wrote before: `realloc`
carries the header and the common prefix of the payloads over. -/
theorem Ok.content_realloc (h : cfg.Ok) {ptr : ℕ} (hptr : ∃ b ∈ cfg.client.live, b.ptr = ptr)
    {size : BitVec w} {g : Grant}
    (hr : cfg.jut.sys.ReallocOk (some (ptr - align)) (size.toNat + align) (some g)) :
    ∀ i < size.toNat, ∀ v ∈ cfg.client.kept ptr size.toNat i, g.mem (g.base + align + i) = v := by
  obtain ⟨b, hfind, hb, rfl⟩ := Client.exists_find hptr
  intro i hi v hv
  simp only [Client.kept, hfind] at hv
  have hlt : i < min b.size size.toNat := by
    by_contra hge
    simp [hge] at hv
  rw [if_pos hlt] at hv
  have hblock : b.block ∈ cfg.jut.sys.blocks := by
    rw [h.blocks]
    exact List.mem_map_of_mem hb
  -- byte `i` of the payload is byte `align + i` of its block
  have hmove := (hr g rfl).2 _ rfl b.block hblock rfl (align + i)
    (by simp only [Payload.block]; omega)
  have hshift : b.ptr - align + (align + i) = b.ptr + i := by
    have := h.live.shifted b hb
    omega
  rw [hshift, ← Nat.add_assoc] at hmove
  rw [hmove]
  exact h.live.content b hb i (by omega) v hv

/-- `jut_realloc` of a live pointer keeps the invariant, whatever the system answers. -/
theorem Ok.realloc_live [DecidableEq D] (h : cfg.Ok) {ptr : ℕ}
    (hptr : ∃ b ∈ cfg.client.live, b.ptr = ptr) {size : BitVec w} {r : Option Grant}
    (hw : size.toNat + align < 2 ^ w)
    (hr : cfg.jut.sys.ReallocOk (some (ptr - align)) (size.toNat + align) r) (ctx : Option D) :
    (jutStep 4 cfg ⟨ctx, .realloc (some ptr) size r⟩).Ok := by
  cases r with
  | none =>
    have hlive : cfg.client.Live (some ptr) := by simpa [Client.Live] using hptr
    exact h.refused (.realloc (some ptr) size none) rfl hlive ctx
  | some g =>
    obtain ⟨b, hfind, -, -⟩ := Client.exists_find hptr
    -- the old block is given back, and the new payload joins those that are left
    have hout := h.without (h.align_le hptr)
    simp only [jutStep, jutRealloc_four_live_some, Client.afterRealloc, Client.add,
      Client.release_of_find hfind, hout]
    have hfresh := (hr g rfl).1
    rw [Option.elim_some, hout] at hfresh
    have hrest : LiveOk cfg.mem (cfg.client.rest ptr) := h.live.sublist List.eraseP_sublist
    have hheld := h.tracked.realloc (some (ptr - align)) (size.toNat + align) (some g)
    rw [SysHeap.Tracked] at hheld
    refine Ok.withPayload hrest hw hfresh (.realloc (some (ptr - align)) (some g.base)) ?_
      ⟨h.mem_held hptr, h.used⟩ _ ctx (h.content_realloc hptr hr) _
    rw [← hout]
    exact hheld

/-- `jut_free` keeps the invariant. -/
theorem Ok.free [DecidableEq D] (h : cfg.Ok) {ptr : Option ℕ} (hptr : cfg.client.Live ptr)
    {m : Memory} (hm : ∀ p ∈ ptr, cfg.jut.sys.FreeOk (p - align) m) (ctx : Option D) :
    (jutStep 4 cfg (⟨ctx, .free ptr m⟩ : Event D w)).Ok := by
  cases ptr with
  | none => exact h
  | some ptr =>
    have hlive := hptr ptr rfl
    obtain ⟨b, hfind, -, -⟩ := Client.exists_find hlive
    have hout := h.without (h.align_le hlive)
    have hfree := hm ptr rfl
    rw [SysHeap.FreeOk, hout] at hfree
    simp only [jutStep, jutFree_four_some, Client.afterFree, Client.release_of_find hfind]
    refine ⟨?_, hout, h.tracked.free _ _, h.mem_held hlive, h.used⟩
    exact (h.live.sublist List.eraseP_sublist).agree fun b hb => hfree _ (List.mem_map_of_mem hb)

/-- A write into a live payload keeps the invariant. -/
theorem Ok.write [DecidableEq D] (h : cfg.Ok) {ptr off : ℕ}
    (hptr : ∃ b ∈ cfg.client.live, b.ptr = ptr ∧ off < b.size) (v : Byte) (ctx : Option D) :
    (jutStep 4 cfg (⟨ctx, .write ptr off v⟩ : Event D w)).Ok := by
  obtain ⟨b, hb, rfl, hoff⟩ := hptr
  refine ⟨h.live.write hb hoff v, ?_, h.tracked, h.used⟩
  change cfg.jut.sys.blocks = (cfg.client.live.map (Payload.writeAt b.ptr off v)).map Payload.block
  rw [h.blocks, List.map_map]
  exact (List.map_congr_left fun p _ => p.writeAt_block b.ptr off v).symm

/-- Every admitted event keeps the invariant. -/
theorem Ok.step [DecidableEq D] (h : cfg.Ok) {e : Event D w} (he : jutGuard cfg e) :
    (jutStep 4 cfg e).Ok := by
  obtain ⟨ctx, op⟩ := e
  cases op with
  | malloc size r => exact h.malloc he.1 he.2 ctx
  | realloc ptr size r =>
    cases ptr with
    | none => exact h.realloc_null he.2.1 he.2.2 ctx
    | some ptr => exact h.realloc_live (he.1 ptr rfl) he.2.1 he.2.2 ctx
  | free ptr m => exact h.free he.1 he.2 ctx
  | write ptr off v => exact h.write he v ctx

/-- **The heap invariant holds of every run** of the wrappers under policy 4. -/
theorem ok_run [DecidableEq D] {m : Memory} {dec : D → Decoder} {es : List (Event D w)}
    (h : (jutMachine D w).Legal (start m dec) es) :
    ((jutMachine D w).run (start m dec) es).Ok :=
  h.invariant Config.Ok (fun _ _ hok he => hok.step he) (ok_start m dec)

end Config

end FfTest
