import FfTest.Foundations.SystemHeap
import Mathlib.Logic.Function.Basic

/-! # Blocks with one owner each

A program gives each block that it gets from the allocator to one of its variables. `Parcels span h`
says that it has kept count: `span` tells which block belongs to which name, blocks of different
names are apart, every block that is out has a name, and nothing was ever freed but a block of a
name.
`Parcels.alloc` and `Parcels.free` are the rules for the two calls; both leave the blocks of the
other names alone (`agreeOn_alloc`, `agreeOn_free`). -/

namespace FfTest

/-- Every block that is out belongs to one name, and has done so since it was handed out. -/
structure Parcels {ι : Type*} (span : ι → Option Span) (h : SysHeap) : Prop where
  /-- A block that belongs to a name is out. -/
  out : ∀ {i b}, span i = some b → b ∈ h.blocks
  /-- A block that is out belongs to a name. -/
  named : ∀ {b}, b ∈ h.blocks → ∃ i, span i = some b
  /-- Blocks of different names are apart. -/
  apart : ∀ {i j b c}, i ≠ j → span i = some b → span j = some c → b.Apart c
  /-- No block is empty. -/
  pos : ∀ {i b}, span i = some b → 0 < b.len
  /-- No address is out twice. -/
  bases : (h.blocks.map Span.base).Nodup
  /-- The calls that were made tell what is out. -/
  tracked : h.Tracked
  /-- Only what was out has been freed. -/
  wellUsed : WellUsed h.calls

namespace Parcels

variable {ι : Type*} {span : ι → Option Span} {h : SysHeap}

/-- Nothing belongs to anybody in an empty heap. -/
theorem empty (m : Memory) : Parcels (fun _ : ι => none) (SysHeap.empty m) where
  out hb := nomatch hb
  named hb := nomatch hb
  apart _ hb := nomatch hb
  pos hb := nomatch hb
  bases := List.nodup_nil
  tracked := rfl
  wellUsed := trivial

/-- What memory holds does not matter. -/
theorem poke (hp : Parcels span h) (m : Memory) : Parcels span (h.poke m) :=
  ⟨hp.out, hp.named, hp.apart, hp.pos, hp.bases, hp.tracked, hp.wellUsed⟩

/-- Blocks of different names start at different addresses. -/
theorem base_ne (hp : Parcels span h) {i j : ι} {b c : Span} (hij : i ≠ j) (hb : span i = some b)
    (hc : span j = some c) : b.base ≠ c.base :=
  (hp.apart hij hb hc).base_ne (hp.pos hb) (hp.pos hc)

/-- A new block starts at an address of its own. -/
theorem base_ne_alloc (hp : Parcels span h) {align req : ℕ} (hreq : 0 < req) {g : Grant}
    (hok : h.AllocOk align req (some g)) {i : ι} {b : Span} (hb : span i = some b) :
    b.base ≠ g.base :=
  (((hok g rfl).2 b (hp.out hb)).1.symm).base_ne (hp.pos hb) hreq

/-- A new block for a name that has none. -/
theorem alloc [DecidableEq ι] (hp : Parcels span h) {i : ι} (hi : span i = none) {align req : ℕ}
    (hreq : 0 < req) {g : Grant} (hok : h.AllocOk align req (some g)) :
    Parcels (Function.update span i (some ⟨g.base, req⟩)) (h.alloc req (some g)).2 := by
  obtain ⟨-, hfresh⟩ := hok g rfl
  -- blocks of other names are as before, and the name has the new one
  have hold : ∀ {j b}, j ≠ i → Function.update span i (some ⟨g.base, req⟩) j = some b →
      span j = some b := by
    intro j b hne hb
    rwa [Function.update_of_ne hne] at hb
  have hnew : ∀ {b}, Function.update span i (some ⟨g.base, req⟩) i = some b →
      b = ⟨g.base, req⟩ := by
    intro b hb
    rw [Function.update_self] at hb
    exact (Option.some.inj hb).symm
  refine ⟨?_, ?_, ?_, ?_, ?_, hp.tracked.alloc req (some g), hp.wellUsed⟩
  · intro j b hb
    by_cases hj : j = i
    · subst hj
      rw [hnew hb]
      exact List.mem_cons_self
    · exact List.mem_cons_of_mem _ (hp.out (hold hj hb))
  · intro b hb
    rcases List.mem_cons.mp hb with rfl | hb
    · exact ⟨i, Function.update_self ..⟩
    · obtain ⟨j, hj⟩ := hp.named hb
      refine ⟨j, ?_⟩
      rwa [Function.update_of_ne]
      rintro rfl
      rw [hi] at hj
      cases hj
  · intro j k b c hjk hb hc
    by_cases hj : j = i
    · subst hj
      rw [hnew hb]
      exact (hfresh c (hp.out (hold (Ne.symm hjk) hc))).1
    · by_cases hk : k = i
      · subst hk
        rw [hnew hc]
        exact (hfresh b (hp.out (hold hj hb))).1.symm
      · exact hp.apart hjk (hold hj hb) (hold hk hc)
  · intro j b hb
    by_cases hj : j = i
    · subst hj
      rw [hnew hb]
      exact hreq
    · exact hp.pos (hold hj hb)
  · refine List.nodup_cons.mpr ⟨fun hmem => ?_, hp.bases⟩
    obtain ⟨b, hb, hbase⟩ := List.mem_map.mp hmem
    obtain ⟨j, hj⟩ := hp.named hb
    exact ((hfresh b hb).1.base_ne hreq (hp.pos hj)) hbase.symm

/-- A block of another name keeps its bytes when one is handed out. -/
theorem agreeOn_alloc (hp : Parcels span h) {align req : ℕ} {g : Grant}
    (hok : h.AllocOk align req (some g)) {i : ι} {b : Span} (hb : span i = some b) :
    AgreeOn h.mem g.mem b := ((hok g rfl).2 b (hp.out hb)).2

/-- The block of a name is given back. -/
theorem free [DecidableEq ι] (hp : Parcels span h) {i : ι} {b : Span} (hi : span i = some b)
    (m : Memory) : Parcels (Function.update span i none) (h.free b.base m) := by
  have hold : ∀ {j c}, Function.update span i none j = some c → j ≠ i ∧ span j = some c := by
    intro j c hc
    by_cases hj : j = i
    · subst hj
      rw [Function.update_self] at hc
      cases hc
    · rw [Function.update_of_ne hj] at hc
      exact ⟨hj, hc⟩
  have hbases : (h.without b.base).map Span.base = (h.blocks.map Span.base).erase b.base :=
    h.map_base_without b.base
  refine ⟨?_, ?_, ?_, ?_, ?_, hp.tracked.free b.base m,
    ⟨hp.tracked.mem_held (hp.out hi), hp.wellUsed⟩⟩
  · intro j c hc
    obtain ⟨hj, hc⟩ := hold hc
    refine (List.mem_eraseP_of_neg ?_).mpr (hp.out hc)
    rw [beq_iff_eq]
    exact hp.base_ne hj hc hi
  · intro c hc
    obtain ⟨j, hj⟩ := hp.named (List.mem_of_mem_eraseP hc)
    refine ⟨j, ?_⟩
    rwa [Function.update_of_ne]
    rintro rfl
    -- the block of `i` has left the list
    obtain rfl := Option.some.inj (hi.symm.trans hj)
    have hleft : b.base ∈ (h.blocks.map Span.base).erase b.base :=
      hbases ▸ List.mem_map_of_mem hc
    exact hp.bases.not_mem_erase hleft
  · intro j k c d hjk hc hd
    exact hp.apart hjk (hold hc).2 (hold hd).2
  · intro j c hc
    exact hp.pos (hold hc).2
  · show ((h.without b.base).map Span.base).Nodup
    rw [hbases]
    exact hp.bases.erase _

/-- A block of another name keeps its bytes when one is freed. -/
theorem agreeOn_free (hp : Parcels span h) {i j : ι} {b c : Span} (hij : j ≠ i)
    (hi : span i = some b) (hj : span j = some c) {m : Memory} (hok : h.FreeOk b.base m) :
    AgreeOn h.mem m c := by
  refine hok c ((List.mem_eraseP_of_neg ?_).mpr (hp.out hj))
  rw [beq_iff_eq]
  exact hp.base_ne hij hj hi

/-- Two new blocks, one after the other, for names that have none. -/
theorem alloc_two [DecidableEq ι] (hp : Parcels span h) {i j : ι} (hij : j ≠ i)
    (hi : span i = none) (hj : span j = none) {align req₁ req₂ : ℕ} (hreq₁ : 0 < req₁)
    (hreq₂ : 0 < req₂) {g₁ g₂ : Grant} (hok₁ : h.AllocOk align req₁ (some g₁))
    (hok₂ : (h.alloc req₁ (some g₁)).2.AllocOk align req₂ (some g₂)) :
    Parcels (Function.update (Function.update span i (some ⟨g₁.base, req₁⟩)) j
        (some ⟨g₂.base, req₂⟩)) ((h.alloc req₁ (some g₁)).2.alloc req₂ (some g₂)).2 ∧
      ∀ {k b}, span k = some b → AgreeOn h.mem g₂.mem b := by
  have hp₁ := hp.alloc hi hreq₁ hok₁
  have hj₁ : Function.update span i (some ⟨g₁.base, req₁⟩) j = none := by
    rw [Function.update_of_ne hij, hj]
  refine ⟨hp₁.alloc hj₁ hreq₂ hok₂, fun {k b} hb => ?_⟩
  have hk : k ≠ i := by
    rintro rfl
    rw [hi] at hb
    cases hb
  exact (hp.agreeOn_alloc hok₁ hb).trans
    (hp₁.agreeOn_alloc hok₂ ((Function.update_of_ne hk ..).trans hb))

/-- The blocks of two names are given back, one after the other. -/
theorem free_two [DecidableEq ι] (hp : Parcels span h) {i j : ι} (hij : j ≠ i) {b c : Span}
    (hi : span i = some b) (hj : span j = some c) {m₁ m₂ : Memory} (hok₁ : h.FreeOk b.base m₁)
    (hok₂ : (h.free b.base m₁).FreeOk c.base m₂) :
    Parcels (Function.update (Function.update span i none) j none)
        ((h.free b.base m₁).free c.base m₂) ∧
      ∀ {k d}, k ≠ i → k ≠ j → span k = some d → AgreeOn h.mem m₂ d := by
  have hp₁ := hp.free hi m₁
  have hj₁ : Function.update span i none j = some c := (Function.update_of_ne hij ..).trans hj
  refine ⟨hp₁.free hj₁ m₂, fun hki hkj hd => ?_⟩
  exact (hp.agreeOn_free hki hi hd hok₁).trans
    (hp₁.agreeOn_free hkj hj₁ ((Function.update_of_ne hki ..).trans hd) hok₂)

/-- **No leak.** An address is held exactly as long as it is that of the block of some name. -/
theorem mem_held_iff (hp : Parcels span h) {a : ℕ} :
    a ∈ held h.calls ↔ ∃ i b, span i = some b ∧ b.base = a := by
  have hheld : held h.calls = h.blocks.map Span.base := hp.tracked
  rw [hheld, List.mem_map]
  constructor
  · rintro ⟨b, hb, rfl⟩
    obtain ⟨i, hi⟩ := hp.named hb
    exact ⟨i, b, hi, rfl⟩
  · rintro ⟨i, b, hi, rfl⟩
    exact ⟨b, hp.out hi, rfl⟩

end Parcels

end FfTest
