import FfTest.MemoryAccounting.Counters

/-! # The contract of the wrappers

What a client of `jut_malloc`, `jut_realloc` and `jut_free` may rely on under policy 4, for every
run over a system allocator that keeps its own contract: payloads lie behind their headers in blocks
of the system, apart from each other and from every header; they hold what was written to them; and
the system is only ever given back its own pointers, each at most once. -/

namespace FfTest

variable {D : Type*} [DecidableEq D] {w : ℕ}

/-- What a client may rely on in a state. -/
structure Config.Contract (cfg : Config D) (w : ℕ) : Prop where
  /-- A live payload lies in one system block, after its header. -/
  inside : ∀ p ∈ cfg.client.live, ∃ b ∈ cfg.jut.sys.blocks,
    p.ptr = b.base + align ∧ p.ptr + p.size ≤ b.stop
  /-- The live payloads are apart from each other. -/
  apart : cfg.client.live.Pairwise fun p q => p.span.Apart q.span
  /-- A live payload is apart from every header. -/
  clear : ∀ p ∈ cfg.client.live, ∀ b ∈ cfg.jut.sys.blocks, p.span.Apart ⟨b.base, align⟩
  /-- A live payload holds the bytes last written to it. -/
  content : ∀ p ∈ cfg.client.live, ∀ i < p.size, ∀ v ∈ p.written i, cfg.mem (p.ptr + i) = v
  /-- A successful `jut_realloc` of a live pointer carries the bytes of the payload over, as far as
  both sizes reach. -/
  preserved : ∀ p ∈ cfg.client.live, ∀ (ctx : Option D) (size : BitVec w) (g : Grant),
    jutGuard cfg ⟨ctx, .realloc (some p.ptr) size (some g)⟩ →
      ∃ q, (jutRealloc 4 ctx (some p.ptr) size (some g) cfg.jut).1 = some q ∧
        ∀ i < min p.size size.toNat,
          (jutStep 4 cfg ⟨ctx, .realloc (some p.ptr) size (some g)⟩).mem (q + i)
            = cfg.mem (p.ptr + i)
  /-- Every call of the system's `free` and `realloc` passed an address that the system had handed
  out and not been given back since. -/
  used : WellUsed cfg.jut.sys.calls
  /-- No address was given back more often than it was handed out. -/
  once : ∀ a, timesBack a cfg.jut.sys.calls ≤ timesOut a cfg.jut.sys.calls

namespace Config.Ok

variable {cfg : Config D}

omit [DecidableEq D] in
/-- The block behind a live payload is out. -/
theorem block_mem (h : cfg.Ok) {p : Payload D} (hp : p ∈ cfg.client.live) :
    p.block ∈ cfg.jut.sys.blocks := by
  rw [h.blocks]
  exact List.mem_map_of_mem hp

omit [DecidableEq D] in
/-- A live payload is apart from every header: its own comes before it, and the others lie in blocks
apart from its own. -/
theorem clear (h : cfg.Ok) {p : Payload D} (hp : p ∈ cfg.client.live) {b : Span}
    (hb : b ∈ cfg.jut.sys.blocks) : p.span.Apart ⟨b.base, align⟩ := by
  rw [h.blocks] at hb
  obtain ⟨q, hq, rfl⟩ := List.mem_map.mp hb
  have hshift := h.live.shifted p hp
  by_cases hpq : p = q
  · subst hpq
    refine Or.inr ?_
    simp only [Span.stop, Payload.span, Payload.block]
    omega
  · refine (h.live.apart_of_ne hp hq hpq).mono (Payload.span_within hshift) ?_
    simp only [Span.Within, Span.stop, Payload.block]
    omega

/-- Moving a payload carries its bytes over, as far as both sizes reach. -/
theorem preserved (h : cfg.Ok) {p : Payload D} (hp : p ∈ cfg.client.live) (ctx : Option D)
    {size : BitVec w} {g : Grant}
    (he : jutGuard cfg ⟨ctx, .realloc (some p.ptr) size (some g)⟩) :
    ∃ q, (jutRealloc 4 ctx (some p.ptr) size (some g) cfg.jut).1 = some q ∧
      ∀ i < min p.size size.toNat,
        (jutStep 4 cfg ⟨ctx, .realloc (some p.ptr) size (some g)⟩).mem (q + i)
          = cfg.mem (p.ptr + i) := by
  refine ⟨g.base + align, by rw [jutRealloc_four_live_some], fun i hi => ?_⟩
  have hshift := h.live.shifted p hp
  have hmove := (he.2.2 g rfl).2 _ rfl p.block (h.block_mem hp) rfl (align + i)
    (by simp only [Payload.block]; omega)
  have hptr : p.ptr - align + (align + i) = p.ptr + i := by omega
  simp only [jutStep, jutRealloc_four_live_some, Config.mem, SysHeap.withPayload]
  -- the new header ends before the payload starts
  rw [store32_of_outside _ _ (Or.inr (by simp only [align]; omega)), Nat.add_assoc, hmove, hptr]

end Config.Ok

/-- **The contract holds in every run** of calls on `NULL` and live pointers and of writes into live
payloads, in any order and under any current decoders, with any system call failing. -/
theorem contract_run {m : Memory} {dec : D → Decoder} {es : List (Event D w)}
    (h : (jutMachine D w).Legal (Config.start m dec) es) : (runJut m dec es).Contract w := by
  have hok : (runJut m dec es).Ok := Config.ok_run h
  constructor
  case inside =>
    intro p hp
    have hshift := hok.live.shifted p hp
    refine ⟨p.block, hok.block_mem hp, ?_, ?_⟩
    · simp only [Payload.block]
      omega
    · simp only [Payload.block, Span.stop]
      omega
  case apart =>
    refine hok.live.apart.imp_of_mem fun {p q} hp hq hpq => ?_
    exact hpq.mono (Payload.span_within (hok.live.shifted p hp))
      (Payload.span_within (hok.live.shifted q hq))
  case clear => exact fun p hp b hb => hok.clear hp hb
  case content => exact hok.live.content
  case preserved => exact fun p hp ctx size g he => hok.preserved hp ctx he
  case used => exact hok.used
  case once => exact hok.used.timesBack_le

/-- The contract holds after a payload has been written to and grown. -/
theorem contract_run_grownRun :
    (runJut zeroMem (fun _ => freshDecoder) grownRun).Contract 64 :=
  contract_run grownRun_legal.of_restrict.of_restrict

end FfTest
