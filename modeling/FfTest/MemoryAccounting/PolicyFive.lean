import FfTest.MemoryAccounting.Counters
import Mathlib.Data.List.Forall2

/-! # What policy 5 passes to the system

Under policy 5 `jut_malloc(0)` returns what `malloc(0)` answers, and every other call returns a
pointer `ALIGN` bytes into its block; `jut_realloc` and `jut_free` take every pointer for one of the
second kind. A pointer of the first kind is recognised in the state by its block, which starts at
the pointer and has no bytes (`mem_blocks_zero`).

`FiveOk` ties the blocks that are out to the live payloads, one for one. It is kept by every event
that does not resize or free a pointer of the first kind, and then the system is only given back
what it has handed out, and every header is written into the block it belongs to
(`disciplined_run`). -/

namespace FfTest

variable {D : Type*} [DecidableEq D] {w : ℕ}

/-- The system hands out no address at which one of the blocks `out` starts. -/
def NewBase (out : List Span) (r : Option Grant) : Prop := ∀ g ∈ r, ∀ b ∈ out, b.base ≠ g.base

/-- The events considered under policy 5: pointers are `NULL` or live, `size + ALIGN` does not wrap,
writes stay inside a live payload, and the system tells its blocks apart. -/
def fiveGuard (cfg : Config D) (e : Event D w) : Prop :=
  match e.op with
  | .malloc size r => size.toNat + align < 2 ^ w ∧ NewBase cfg.jut.sys.blocks r
  | .realloc ptr size r =>
    cfg.client.Live ptr ∧ size.toNat + align < 2 ^ w ∧
      NewBase ((ptr.map (· - align)).elim cfg.jut.sys.blocks cfg.jut.sys.without) r
  | .free ptr _ => cfg.client.Live ptr
  | .write ptr off _ => ∃ b ∈ cfg.client.live, b.ptr = ptr ∧ off < b.size

/-- The wrappers under policy 5, with their clients. -/
def fiveMachine (D : Type*) [DecidableEq D] (w : ℕ) : Machine (Config D) (Event D w) where
  step := jutStep 5
  guard := fiveGuard

/-- The run of the wrappers and their client from no calls, under policy 5. -/
abbrev runFive (m : Memory) (dec : D → Decoder) (es : List (Event D w)) : Config D :=
  (fiveMachine D w).run (Config.start m dec) es

/-- No pointer that `jut_malloc(0)` returned is resized or freed: the block at the pointer is not
one of no bytes. -/
def ShiftedOnly (cfg : Config D) (e : Event D w) : Prop :=
  match e.op with
  | .realloc (some ptr) _ _ | .free (some ptr) _ => ⟨ptr, 0⟩ ∉ cfg.jut.sys.blocks
  | _ => True

/-- The block that the system grants in the call, if it is asked and does not refuse. -/
def Op.granted : Op w → Option Grant
  | .malloc _ r => r
  | .realloc ptr size r => if ptr = none ∧ size = 0 then none else r
  | .free _ _ | .write _ _ _ => none

/-- What the wrapper writes after the system has granted a block lies in that block. -/
def HeaderInBlock (cfg : Config D) (e : Event D w) : Prop :=
  ∀ g ∈ e.op.granted, ∃ b ∈ (jutStep 5 cfg e).jut.sys.blocks, b.base = g.base ∧
    ∀ a, (jutStep 5 cfg e).mem a ≠ g.mem a → b.Has a

/-! ## Blocks and payloads -/

/-- The block behind a payload: its header and it, or the answer of `malloc(0)`. -/
def Backing (p : Payload D) (b : Span) : Prop :=
  align ≤ p.ptr ∧ b = p.block ∨ p.size = 0 ∧ b = ⟨p.ptr, 0⟩

/-- The blocks that are out are those behind the live payloads, and the system has only been given
back its own addresses. -/
structure Config.FiveOk (cfg : Config D) : Prop where
  /-- Payload for payload, a block is out. -/
  backed : List.Forall₂ Backing cfg.client.live cfg.jut.sys.blocks
  /-- No two blocks start at one address. -/
  nodup : (cfg.jut.sys.blocks.map Span.base).Nodup
  /-- The calls of the system allocator account for the blocks out. -/
  tracked : cfg.jut.sys.Tracked
  /-- The system allocator has only been given its own addresses. -/
  used : WellUsed cfg.jut.sys.calls

/-- Two lists that correspond still do when the first entries that pass the same test are taken
out. -/
theorem forall₂_eraseP {α β : Type*} {R : α → β → Prop} {p : α → Bool} {q : β → Bool} {l : List α}
    {m : List β} (h : List.Forall₂ R l m)
    (hpq : ∀ a ∈ l, ∀ b ∈ m, R a b → p a = q b) :
    List.Forall₂ R (l.eraseP p) (m.eraseP q) := by
  induction h with
  | nil => exact .nil
  | @cons a b l m hab htail ih =>
    rw [List.eraseP_cons, List.eraseP_cons, hpq a (by simp) b (by simp) hab]
    cases q b with
    | true => exact htail
    | false =>
      exact .cons hab (ih fun a ha b hb => hpq a (List.mem_cons_of_mem _ ha) b
        (List.mem_cons_of_mem _ hb))

/-- In corresponding lists every entry of the first has a partner. -/
theorem exists_of_forall₂ {α β : Type*} {R : α → β → Prop} {l : List α} {m : List β}
    (h : List.Forall₂ R l m) {a : α} (ha : a ∈ l) : ∃ b ∈ m, R a b := by
  induction h with
  | nil => cases ha
  | cons hab _ ih =>
    rcases List.mem_cons.mp ha with rfl | ha
    · exact ⟨_, List.mem_cons_self, hab⟩
    · obtain ⟨b, hb, hR⟩ := ih ha
      exact ⟨b, List.mem_cons_of_mem _ hb, hR⟩

omit [DecidableEq D] in
/-- A payload behind a block of no bytes is one of `malloc(0)`. -/
theorem Backing.eq_of_shifted {p : Payload D} {b : Span} (h : Backing p b)
    (hblock : (⟨p.ptr, 0⟩ : Span) ≠ b) : align ≤ p.ptr ∧ b = p.block := by
  rcases h with h | ⟨-, h⟩
  · exact h
  · exact absurd h.symm hblock

namespace Config.FiveOk

variable {cfg : Config D}

omit [DecidableEq D] in
/-- The block behind a live pointer that did not come from `malloc(0)`. -/
theorem block_mem (h : cfg.FiveOk) {ptr : ℕ} (hptr : ∃ b ∈ cfg.client.live, b.ptr = ptr)
    (hshifted : ⟨ptr, 0⟩ ∉ cfg.jut.sys.blocks) :
    align ≤ ptr ∧ ∃ len, 0 < len ∧ ⟨ptr - align, len⟩ ∈ cfg.jut.sys.blocks := by
  obtain ⟨p, hp, rfl⟩ := hptr
  obtain ⟨b, hb, hback⟩ := exists_of_forall₂ h.backed hp
  obtain ⟨hle, rfl⟩ := hback.eq_of_shifted fun heq => hshifted (heq ▸ hb)
  exact ⟨hle, p.size + align, Nat.lt_add_left _ (by decide), hb⟩

omit [DecidableEq D] in
/-- **Giving a pointer back.** The system gets an address it has handed out, and the other payloads
keep their blocks. -/
theorem give_back (h : cfg.FiveOk) {ptr : ℕ} (hptr : ∃ b ∈ cfg.client.live, b.ptr = ptr)
    (hshifted : ⟨ptr, 0⟩ ∉ cfg.jut.sys.blocks) :
    ptr - align ∈ held cfg.jut.sys.calls ∧
      List.Forall₂ Backing (cfg.client.rest ptr) (cfg.jut.sys.without (ptr - align)) ∧
      ((cfg.jut.sys.without (ptr - align)).map Span.base).Nodup := by
  obtain ⟨hle, len, hlen, hblock⟩ := h.block_mem hptr hshifted
  refine ⟨h.tracked.mem_held hblock, ?_, ?_⟩
  · refine forall₂_eraseP h.backed fun p hp b hb hback => ?_
    rcases hback with ⟨hle', rfl⟩ | ⟨-, rfl⟩
    · simp only [Payload.block, beq_eq_beq]
      omega
    · -- a block of `malloc(0)` is neither the one given back nor behind its pointer
      have hne : p.ptr ≠ ptr := by
        rintro rfl
        exact hshifted hb
      have hbase : p.ptr ≠ ptr - align := by
        intro heq
        have hsame := List.inj_on_of_nodup_map h.nodup hb hblock heq
        have hzero := congrArg Span.len hsame
        change 0 = len at hzero
        omega
      simp [hne, hbase]
  · rw [SysHeap.map_base_without]
    exact h.nodup.erase _

omit [DecidableEq D] in
/-- **A payload becomes live** behind a block that starts where no other block does. -/
theorem grant {sys : SysHeap} {live : List (Payload D)} {out : List Span}
    (hback : List.Forall₂ Backing live out) (hnodup : (out.map Span.base).Nodup)
    {g : Grant} (hnew : ∀ b ∈ out, b.base ≠ g.base) {p : Payload D} {len : ℕ}
    (hp : Backing p ⟨g.base, len⟩) {call : SysCall} {m : Memory}
    (hheld : held (call :: sys.calls) = g.base :: out.map Span.base)
    (hused : WellUsed (call :: sys.calls)) (dec : D → Decoder) (released : List (Release D)) :
    Config.FiveOk ⟨⟨⟨m, ⟨g.base, len⟩ :: out, call :: sys.calls⟩, dec⟩, ⟨p :: live, released⟩⟩ where
  backed := .cons hp hback
  nodup := by
    refine List.nodup_cons.mpr ⟨fun hmem => ?_, hnodup⟩
    obtain ⟨b, hb, hbase⟩ := List.mem_map.mp hmem
    exact hnew b hb hbase
  tracked := hheld
  used := hused

omit [DecidableEq D] in
/-- Nothing is live before the first call. -/
theorem start (m : Memory) (dec : D → Decoder) : (Config.start m dec).FiveOk where
  backed := .nil
  nodup := List.nodup_nil
  tracked := rfl
  used := trivial

omit [DecidableEq D] in
/-- The payload behind a header. -/
theorem backing_shifted (base : ℕ) (size : BitVec w) (hw : size.toNat + align < 2 ^ w)
    (owner : Option D) (written : ℕ → Option Byte) :
    Backing ⟨base + align, size.toNat, owner, written⟩
      ⟨base, (size + BitVec.ofNat w align).toNat⟩ := by
  refine .inl ⟨Nat.le_add_left _ _, ?_⟩
  simp [Payload.block, toNat_add_align hw]

/-- `jut_malloc` keeps the invariant, whatever the system answers. -/
theorem malloc (h : cfg.FiveOk) {size : BitVec w} {r : Option Grant}
    (hw : size.toNat + align < 2 ^ w) (hr : NewBase cfg.jut.sys.blocks r) (ctx : Option D) :
    (jutStep 5 cfg ⟨ctx, .malloc size r⟩).FiveOk := by
  cases r with
  | none =>
    simp only [jutStep, jutMalloc_five_none]
    exact ⟨h.backed, h.nodup, h.tracked, h.used⟩
  | some g =>
    have hheld := h.tracked.alloc 0 (some g)
    by_cases hzero : size = 0
    · -- `malloc(0)`, of which the answer is returned as it is
      subst hzero
      simp only [jutStep, jutMalloc_five_zero]
      exact grant h.backed h.nodup (hr g rfl) (.inr ⟨by simp, rfl⟩) hheld h.used _ _
    · simp only [jutStep, jutMalloc_five_some ctx hzero]
      exact grant h.backed h.nodup (hr g rfl) (backing_shifted g.base size hw ctx _) hheld h.used
        _ _

/-- `jut_realloc` of `NULL`, or of a pointer that did not come from `malloc(0)`, keeps the
invariant, whatever the system answers. -/
theorem realloc (h : cfg.FiveOk) {ptr : Option ℕ} {size : BitVec w} {r : Option Grant}
    (hptr : cfg.client.Live ptr) (hshifted : ∀ p ∈ ptr, ⟨p, 0⟩ ∉ cfg.jut.sys.blocks)
    (hw : size.toNat + align < 2 ^ w)
    (hr : NewBase ((ptr.map (· - align)).elim cfg.jut.sys.blocks cfg.jut.sys.without) r)
    (ctx : Option D) : (jutStep 5 cfg ⟨ctx, .realloc ptr size r⟩).FiveOk := by
  cases ptr with
  | none =>
    by_cases hzero : size = 0
    · subst hzero
      simp only [jutStep, jutRealloc_five_null_zero]
      exact h
    cases r with
    | none =>
      simp only [jutStep, jutRealloc_five_null_none ctx hzero]
      exact ⟨h.backed, h.nodup, h.tracked, h.used⟩
    | some g =>
      have hheld := h.tracked.realloc none 0 (some g)
      simp only [jutStep, jutRealloc_five_null_some ctx hzero]
      exact grant h.backed h.nodup (hr g rfl) (backing_shifted g.base size hw ctx _) hheld h.used
        _ _
  | some ptr =>
    -- the old pointer goes back to the system as it came from there, shifted by `ALIGN`
    obtain ⟨hmem, hback, hnodup⟩ := h.give_back (hptr ptr rfl) (hshifted ptr rfl)
    cases r with
    | none =>
      simp only [jutStep, jutRealloc_five_live_none]
      exact ⟨h.backed, h.nodup, h.tracked, hmem, h.used⟩
    | some g =>
      obtain ⟨b, hfind, -, -⟩ := Client.exists_find (hptr ptr rfl)
      have hheld := h.tracked.realloc (some (ptr - align)) 0 (some g)
      simp only [jutStep, jutRealloc_five_live_some, Client.afterRealloc,
        Client.release_of_find hfind]
      exact grant hback hnodup (hr g rfl) (backing_shifted g.base size hw ctx _) hheld
        ⟨hmem, h.used⟩ _ _

/-- `jut_free` of `NULL`, or of a pointer that did not come from `malloc(0)`, keeps the
invariant. -/
theorem free (h : cfg.FiveOk) {ptr : Option ℕ} (hptr : cfg.client.Live ptr)
    (hshifted : ∀ p ∈ ptr, ⟨p, 0⟩ ∉ cfg.jut.sys.blocks) (m : Memory) (ctx : Option D) :
    (jutStep 5 cfg (⟨ctx, .free ptr m⟩ : Event D w)).FiveOk := by
  cases ptr with
  | none => exact h
  | some ptr =>
    obtain ⟨b, hfind, -, -⟩ := Client.exists_find (hptr ptr rfl)
    obtain ⟨hmem, hback, hnodup⟩ := h.give_back (hptr ptr rfl) (hshifted ptr rfl)
    simp only [jutStep, jutFree_five_some, Client.afterFree, Client.release_of_find hfind]
    exact ⟨hback, hnodup, h.tracked.free _ _, hmem, h.used⟩

/-- A write into a payload keeps the invariant. -/
theorem write (h : cfg.FiveOk) (ptr off : ℕ) (v : Byte) (ctx : Option D) :
    (jutStep 5 cfg (⟨ctx, .write ptr off v⟩ : Event D w)).FiveOk := by
  refine ⟨?_, h.nodup, h.tracked, h.used⟩
  refine List.forall₂_map_left_iff.mpr (h.backed.imp fun p b hback => ?_)
  rcases hback with ⟨hle, hb⟩ | ⟨hsize, hb⟩
  · exact .inl ⟨by rwa [Payload.writeAt_ptr], by rwa [Payload.writeAt_block]⟩
  · exact .inr ⟨by rwa [Payload.writeAt_size], by rwa [Payload.writeAt_ptr]⟩

/-- Every admitted event that gives no pointer of `malloc(0)` back keeps the invariant. -/
theorem step (h : cfg.FiveOk) {e : Event D w} (he : fiveGuard cfg e)
    (hshifted : ShiftedOnly cfg e) : (jutStep 5 cfg e).FiveOk := by
  obtain ⟨ctx, op⟩ := e
  cases op with
  | malloc size r => exact h.malloc he.1 he.2 ctx
  | realloc ptr size r =>
    refine h.realloc he.1 ?_ he.2.1 he.2.2 ctx
    rintro p rfl
    exact hshifted
  | free ptr m =>
    refine h.free he ?_ m ctx
    rintro p rfl
    exact hshifted
  | write ptr off v => exact h.write ptr off v ctx

end Config.FiveOk

/-! ## Headers, and blocks of no bytes -/

/-- A header written at the start of a block of the right length lies in it. -/
theorem header_in_block {size : BitVec w} (hw : size.toNat + align < 2 ^ w) {g : Grant} {a : ℕ}
    (ha : store32 g.mem g.base (size.setWidth 32) a ≠ g.mem a) :
    (⟨g.base, (size + BitVec.ofNat w align).toNat⟩ : Span).Has a := by
  rw [toNat_add_align hw]
  by_contra hout
  refine ha (store32_of_outside _ _ ?_)
  simp only [Span.Has, Span.stop, align] at hout
  omega

/-- **Headers.** Whatever an admitted call writes after the system has granted a block lies in
it. -/
theorem headerInBlock {cfg : Config D} {e : Event D w} (he : fiveGuard cfg e) :
    HeaderInBlock cfg e := by
  obtain ⟨ctx, op⟩ := e
  cases op with
  | malloc size r =>
    rintro g rfl
    by_cases hzero : size = 0
    · subst hzero
      simp only [jutStep, jutMalloc_five_zero]
      exact ⟨_, List.mem_cons_self, rfl, fun a ha => absurd rfl ha⟩
    · simp only [jutStep, jutMalloc_five_some ctx hzero]
      exact ⟨_, List.mem_cons_self, rfl, fun a ha => absurd rfl ha⟩
  | realloc ptr size r =>
    intro g hg
    by_cases hnull : ptr = none ∧ size = 0
    · simp [Op.granted, hnull] at hg
    simp only [Op.granted, if_neg hnull, Option.mem_def] at hg
    subst hg
    have hw := he.2.1
    cases ptr with
    | none =>
      have hzero : size ≠ 0 := fun hzero => hnull ⟨rfl, hzero⟩
      simp only [jutStep, jutRealloc_five_null_some ctx hzero]
      exact ⟨_, List.mem_cons_self, rfl, fun a ha => header_in_block hw ha⟩
    | some ptr =>
      simp only [jutStep, jutRealloc_five_live_some]
      exact ⟨_, List.mem_cons_self, rfl, fun a ha => header_in_block hw ha⟩
  | free ptr m => simp [HeaderInBlock, Op.granted]
  | write ptr off v => simp [HeaderInBlock, Op.granted]

/-- A block of no bytes comes from `jut_malloc(0)` and starts at the pointer returned. -/
theorem mem_blocks_zero {cfg : Config D} {e : Event D w} (he : fiveGuard cfg e) {ptr : ℕ}
    (hmem : ⟨ptr, 0⟩ ∈ (jutStep 5 cfg e).jut.sys.blocks) :
    ⟨ptr, 0⟩ ∈ cfg.jut.sys.blocks ∨ ∃ g, e.op = .malloc 0 (some g) ∧ g.base = ptr := by
  obtain ⟨ctx, op⟩ := e
  -- the block granted has room for a header, unless `malloc(0)` was called
  have hgrant : ∀ {size : BitVec w} {base : ℕ} {out : List Span}, size.toNat + align < 2 ^ w →
      ⟨ptr, 0⟩ ∈ ⟨base, (size + BitVec.ofNat w align).toNat⟩ :: out → (⟨ptr, 0⟩ : Span) ∈ out := by
    intro size base out hw hmem
    rcases List.mem_cons.mp hmem with heq | hmem
    · have hlen := congrArg Span.len heq
      rw [toNat_add_align hw] at hlen
      simp [align] at hlen
    · exact hmem
  have hwithout : ∀ a, (⟨ptr, 0⟩ : Span) ∈ cfg.jut.sys.without a →
      ⟨ptr, 0⟩ ∈ cfg.jut.sys.blocks := fun _ => List.mem_of_mem_eraseP
  cases op with
  | malloc size r =>
    cases r with
    | none =>
      simp only [jutStep, jutMalloc_five_none] at hmem
      exact .inl hmem
    | some g =>
      by_cases hzero : size = 0
      · subst hzero
        simp only [jutStep, jutMalloc_five_zero] at hmem
        rcases List.mem_cons.mp hmem with heq | hmem
        · exact .inr ⟨g, rfl, (congrArg Span.base heq).symm⟩
        · exact .inl hmem
      · simp only [jutStep, jutMalloc_five_some ctx hzero] at hmem
        exact .inl (hgrant he.1 hmem)
  | realloc p size r =>
    cases p with
    | none =>
      by_cases hzero : size = 0
      · subst hzero
        simp only [jutStep, jutRealloc_five_null_zero] at hmem
        exact .inl hmem
      cases r with
      | none =>
        simp only [jutStep, jutRealloc_five_null_none ctx hzero] at hmem
        exact .inl hmem
      | some g =>
        simp only [jutStep, jutRealloc_five_null_some ctx hzero] at hmem
        exact .inl (hgrant he.2.1 hmem)
    | some p =>
      cases r with
      | none =>
        simp only [jutStep, jutRealloc_five_live_none] at hmem
        exact .inl hmem
      | some g =>
        simp only [jutStep, jutRealloc_five_live_some] at hmem
        exact .inl (hwithout _ (hgrant he.2.1 hmem))
  | free p m =>
    cases p with
    | none => exact .inl hmem
    | some p => exact .inl (hwithout _ hmem)
  | write p off v => exact .inl hmem

/-! ## Whole runs -/

/-- **Pointer discipline of policy 5.** In every run that resizes and frees no pointer that
`jut_malloc(0)` returned, every address passed to the system's `realloc` or `free` had been handed
out by it and not been given back since, and every header was written into the block it belongs to.
-/
theorem disciplined_run {m : Memory} {dec : D → Decoder} {es : List (Event D w)}
    (h : ((fiveMachine D w).restrict ShiftedOnly).Legal (Config.start m dec) es) :
    WellUsed (runFive m dec es).jut.sys.calls ∧
      ∀ fs e, fs ++ [e] <+: es → HeaderInBlock (runFive m dec fs) e := by
  constructor
  · have hok : (runFive m dec es).FiveOk :=
      Machine.Legal.invariant (M := (fiveMachine D w).restrict ShiftedOnly) Config.FiveOk
        (fun _ _ hok he => hok.step he.1 he.2) h (Config.FiveOk.start m dec)
    exact hok.used
  · rintro fs e ⟨gs, rfl⟩
    exact headerInBlock ((Machine.legal_snoc _ _ _ _).mp h.of_append).2.1

/-- 10 bytes, resized to 20 in place and freed. -/
def resizedRun : List (Event Unit 64) :=
  [⟨none, .malloc 10 (some ⟨64, zeroMem⟩)⟩, ⟨none, .realloc (some 128) 20 (some ⟨64, zeroMem⟩)⟩,
    ⟨none, .free (some 128) zeroMem⟩]

/-- The run is admitted, and resizes and frees no pointer of `malloc(0)`. -/
theorem resizedRun_legal :
    ((fiveMachine Unit 64).restrict ShiftedOnly).Legal
      (Config.start zeroMem fun _ => freshDecoder) resizedRun := by
  refine ⟨⟨⟨by decide, ?_⟩, trivial⟩, ⟨⟨?_, by decide, ?_⟩, ?_⟩, ⟨?_, ?_⟩, trivial⟩
  · rintro g ⟨⟩ b ⟨⟩
  · rintro p ⟨⟩
    exact ⟨_, List.mem_singleton_self _, rfl⟩
  · rintro g ⟨⟩ b ⟨⟩
  · show (⟨128, 0⟩ : Span) ∉ [(⟨64, 74⟩ : Span)]
    decide
  · rintro p ⟨⟩
    exact ⟨_, List.mem_singleton_self _, rfl⟩
  · show (⟨128, 0⟩ : Span) ∉ [(⟨64, 84⟩ : Span)]
    decide

/-- In `resizedRun` the system is given back what it has handed out. -/
theorem disciplined_run_resizedRun :
    WellUsed (runFive zeroMem (fun _ => freshDecoder) resizedRun).jut.sys.calls :=
  (disciplined_run resizedRun_legal).1

/-- A pointer that `jut_malloc(0)` returned is freed: the system is passed an address `ALIGN` bytes
before the one it has handed out. The discipline is not kept in every run. -/
theorem not_disciplined :
    ¬ ∀ es : List (Event Unit 64),
      (fiveMachine Unit 64).Legal (Config.start zeroMem fun _ => freshDecoder) es →
        WellUsed (runFive zeroMem (fun _ => freshDecoder) es).jut.sys.calls := by
  intro hall
  have hused := hall [⟨none, .malloc 0 (some ⟨128, zeroMem⟩)⟩, ⟨none, .free (some 128) zeroMem⟩] ?_
  · revert hused
    show ¬ (64 ∈ [128] ∧ True)
    decide
  · refine ⟨⟨by decide, ?_⟩, ?_, trivial⟩
    · rintro g ⟨⟩ b ⟨⟩
    · rintro p ⟨⟩
      exact ⟨_, List.mem_singleton_self _, rfl⟩

end FfTest
