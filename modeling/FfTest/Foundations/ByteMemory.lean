import Mathlib.Data.List.Basic

/-! # Byte memory, address spans and 32-bit words

Memory is a total map from addresses to bytes. A `Span` is a half-open range of addresses; two
memories *agree* on a span when they hold the same bytes there, which is how a caller states that
somebody else's writes have left its block alone. Words are stored least significant byte first. -/

namespace FfTest

/-- One byte. -/
abbrev Byte := BitVec 8

/-- The contents of every address. -/
abbrev Memory := ℕ → Byte

/-! ## Spans -/

/-- The addresses from `base` up to, and not including, `base + len`. -/
structure Span where
  /-- The first address. -/
  base : ℕ
  /-- How many addresses there are. -/
  len : ℕ
  deriving DecidableEq, Repr

namespace Span

/-- One past the last address. -/
def stop (s : Span) : ℕ := s.base + s.len

/-- The address lies in the span. -/
def Has (s : Span) (a : ℕ) : Prop := s.base ≤ a ∧ a < s.stop

/-- One span ends before the other one starts. -/
def Apart (s t : Span) : Prop := s.stop ≤ t.base ∨ t.stop ≤ s.base

/-- Every address of `s` lies between the ends of `t`. -/
def Within (s t : Span) : Prop := t.base ≤ s.base ∧ s.stop ≤ t.stop

instance (s : Span) (a : ℕ) : Decidable (s.Has a) := inferInstanceAs (Decidable (_ ∧ _))

instance (s t : Span) : Decidable (s.Apart t) := inferInstanceAs (Decidable (_ ∨ _))

instance (s t : Span) : Decidable (s.Within t) := inferInstanceAs (Decidable (_ ∧ _))

/-- Being apart does not depend on the order of the spans. -/
theorem Apart.symm {s t : Span} (h : s.Apart t) : t.Apart s := Or.symm h

/-- No address lies in two spans that are apart. -/
theorem Apart.not_has {s t : Span} (h : s.Apart t) {a : ℕ} (ha : s.Has a) : ¬ t.Has a := by
  simp only [Has, Apart, stop] at *
  omega

/-- Parts of spans that are apart are apart. -/
theorem Apart.mono {s t s' t' : Span} (h : s.Apart t) (hs : s'.Within s) (ht : t'.Within t) :
    s'.Apart t' := by
  simp only [Apart, Within, stop] at *
  omega

/-- Nonempty spans that are apart start at different addresses. -/
theorem Apart.base_ne {s t : Span} (h : s.Apart t) (hs : 0 < s.len) (ht : 0 < t.len) :
    s.base ≠ t.base := by
  simp only [Apart, stop] at h
  omega

end Span

/-! ## Agreement -/

/-- The two memories hold the same bytes in the span. -/
def AgreeOn (m m' : Memory) (s : Span) : Prop := ∀ a, s.Has a → m' a = m a

/-- Agreement passes on along two changes of memory. -/
theorem AgreeOn.trans {m m' m'' : Memory} {s : Span} (h : AgreeOn m m' s) (h' : AgreeOn m' m'' s) :
    AgreeOn m m'' s := fun a ha => (h' a ha).trans (h a ha)

/-! ## Writing one byte -/

/-- The memory with one byte replaced. -/
def storeByte (m : Memory) (a : ℕ) (b : Byte) : Memory := fun x => if x = a then b else m x

@[simp] theorem storeByte_self (m : Memory) (a : ℕ) (b : Byte) : storeByte m a b a = b := if_pos rfl

theorem storeByte_of_ne (m : Memory) {a x : ℕ} (b : Byte) (h : x ≠ a) : storeByte m a b x = m x :=
  if_neg h

/-- A byte written outside a span leaves the span alone. -/
theorem agreeOn_storeByte (m : Memory) {a : ℕ} (b : Byte) {s : Span} (h : ¬ s.Has a) :
    AgreeOn m (storeByte m a b) s := by
  intro x hx
  rw [storeByte_of_ne]
  rintro rfl
  exact h hx

/-! ## Reading and writing a 32-bit word -/

/-- The 32-bit word at `a`, least significant byte first. -/
def load32 (m : Memory) (a : ℕ) : BitVec 32 := m (a + 3) ++ m (a + 2) ++ m (a + 1) ++ m a

/-- The memory with the 32-bit word `v` at `a`. -/
def store32 (m : Memory) (a : ℕ) (v : BitVec 32) : Memory :=
  storeByte (storeByte (storeByte (storeByte m a (v.extractLsb' 0 8))
    (a + 1) (v.extractLsb' 8 8)) (a + 2) (v.extractLsb' 16 8)) (a + 3) (v.extractLsb' 24 8)

/-- A word is read back as it was written. -/
@[simp] theorem load32_store32 (m : Memory) (a : ℕ) (v : BitVec 32) :
    load32 (store32 m a v) a = v := by
  have h3 : store32 m a v (a + 3) = v.extractLsb' 24 8 := by simp [store32]
  have h2 : store32 m a v (a + 2) = v.extractLsb' 16 8 := by simp [store32, storeByte]
  have h1 : store32 m a v (a + 1) = v.extractLsb' 8 8 := by simp [store32, storeByte]
  have h0 : store32 m a v a = v.extractLsb' 0 8 := by simp [store32, storeByte]
  rw [load32, h3, h2, h1, h0]
  -- bit by bit, each bit of the word lies in one of the four bytes
  apply BitVec.eq_of_getLsbD_eq
  intro i hi
  simp only [BitVec.getLsbD_append, BitVec.getLsbD_extractLsb']
  grind

/-- A word write changes no byte outside its four. -/
theorem store32_of_outside (m : Memory) {a x : ℕ} (v : BitVec 32) (h : x < a ∨ a + 4 ≤ x) :
    store32 m a v x = m x := by
  rw [store32, storeByte_of_ne, storeByte_of_ne, storeByte_of_ne, storeByte_of_ne] <;> omega

/-- A word written outside a span leaves the span alone. -/
theorem agreeOn_store32 (m : Memory) {a : ℕ} (v : BitVec 32) {s : Span}
    (h : s.Apart ⟨a, 4⟩) : AgreeOn m (store32 m a v) s := by
  intro x hx
  apply store32_of_outside
  have := h.not_has hx
  simp only [Span.Has, Span.stop] at this
  omega

/-- A word is the same in two memories that agree on a span holding its four bytes. -/
theorem load32_congr {m m' : Memory} {s : Span} {a : ℕ} (h : AgreeOn m m' s)
    (ha : (⟨a, 4⟩ : Span).Within s) : load32 m' a = load32 m a := by
  have byte : ∀ k < 4, m' (a + k) = m (a + k) := by
    intro k hk
    apply h
    simp only [Span.Within, Span.Has, Span.stop] at *
    omega
  rw [load32, load32, byte 3 (by decide), byte 2 (by decide), byte 1 (by decide)]
  exact congrArg _ (byte 0 (by decide))

end FfTest
