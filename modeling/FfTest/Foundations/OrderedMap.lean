import Mathlib.Data.List.Perm.Basic
import Mathlib.Order.Lattice

/-! # Ordered maps

A map from keys to values as the list of its entries in the order of the keys, which the structure
carries as a field. `insert` leaves a key alone that is there already, and tells so; `erase` takes a
key out. What they do to a lookup and to the entries, up to their order, is all that programs need
to know of them. -/

namespace FfTest

universe u v

/-- A map whose entries are kept in the order of their keys. -/
structure OrderedMap (κ : Type u) (ν : Type v) [LinearOrder κ] where
  /-- The entries. -/
  entries : List (κ × ν)
  /-- They are in order, and no key occurs twice. -/
  sorted : entries.Pairwise fun a b => a.1 < b.1

namespace OrderedMap

variable {κ : Type u} {ν : Type v} [LinearOrder κ]

/-- The map without entries. -/
def empty : OrderedMap κ ν := ⟨[], List.Pairwise.nil⟩

/-- The value at a key. -/
def find? (m : OrderedMap κ ν) (k : κ) : Option ν :=
  (m.entries.find? fun e => e.1 = k).map Prod.snd

/-- Whether there are no entries. -/
def isEmpty (m : OrderedMap κ ν) : Bool := m.entries.isEmpty

/-- A value is found at a key iff that is one of the entries. -/
theorem find?_eq_some_iff {m : OrderedMap κ ν} {k : κ} {v : ν} :
    m.find? k = some v ↔ (k, v) ∈ m.entries := by
  obtain ⟨es, hsorted⟩ := m
  simp only [find?]
  induction es with
  | nil => simp
  | cons e es ih =>
    obtain ⟨hlt, hsorted⟩ := List.pairwise_cons.mp hsorted
    rw [List.find?_cons, List.mem_cons]
    by_cases he : e.1 = k
    · subst he
      have hnot : (e.1, v) ∉ es := fun hmem => lt_irrefl e.1 (hlt (e.1, v) hmem)
      simp [hnot, Prod.ext_iff, eq_comm]
    · have hne : (k, v) ≠ e := by
        rintro rfl
        exact he rfl
      simpa [he, hne] using ih hsorted

/-- Nothing is found at a key iff no entry has it. -/
theorem find?_eq_none_iff {m : OrderedMap κ ν} {k : κ} :
    m.find? k = none ↔ ∀ e ∈ m.entries, e.1 ≠ k := by
  simp [find?]

/-- Nothing is found in the empty map. -/
@[simp] theorem find?_empty (k : κ) : (empty : OrderedMap κ ν).find? k = none := rfl

/-- A map without entries finds nothing, and no other does. -/
theorem isEmpty_iff {m : OrderedMap κ ν} : m.isEmpty = true ↔ ∀ k, m.find? k = none := by
  simp only [isEmpty, List.isEmpty_iff, find?_eq_none_iff]
  constructor
  · intro h k e he
    simp [h] at he
  · intro h
    exact List.eq_nil_iff_forall_not_mem.mpr fun e he => h e.1 e he rfl

/-! ## Inserting -/

/-- An entry put at its place. -/
def place (k : κ) (v : ν) : List (κ × ν) → List (κ × ν)
  | [] => [(k, v)]
  | e :: es => if k < e.1 then (k, v) :: e :: es else e :: place k v es

/-- One entry more. -/
theorem place_perm (k : κ) (v : ν) (es : List (κ × ν)) :
    (place k v es).Perm ((k, v) :: es) := by
  induction es with
  | nil => exact List.Perm.refl _
  | cons e es ih =>
    unfold place
    split
    · exact List.Perm.refl _
    · exact (ih.cons e).trans (List.Perm.swap _ _ _)

/-- A new key keeps the order. -/
theorem place_sorted {k : κ} (v : ν) {es : List (κ × ν)}
    (hsorted : es.Pairwise fun a b => a.1 < b.1) (hnew : ∀ e ∈ es, e.1 ≠ k) :
    (place k v es).Pairwise fun a b => a.1 < b.1 := by
  induction es with
  | nil => exact List.pairwise_singleton _ _
  | cons e es ih =>
    obtain ⟨hlt, hrest⟩ := List.pairwise_cons.mp hsorted
    unfold place
    split
    · rename_i hke
      refine List.pairwise_cons.mpr ⟨fun e' he' => ?_, hsorted⟩
      rcases List.mem_cons.mp he' with rfl | he'
      · exact hke
      · exact lt_trans hke (hlt e' he')
    · rename_i hke
      have hek : e.1 < k := lt_of_le_of_ne (not_lt.mp hke) (hnew e List.mem_cons_self)
      refine List.pairwise_cons.mpr
        ⟨fun e' he' => ?_, ih hrest fun e' he' => hnew e' (List.mem_cons_of_mem _ he')⟩
      rcases List.mem_cons.mp ((place_perm k v es).mem_iff.mp he') with rfl | he'
      · exact hek
      · exact hlt e' he'

/-- Insert a value at a key that is not there yet; says whether it was inserted. -/
def insert (m : OrderedMap κ ν) (k : κ) (v : ν) : OrderedMap κ ν × Bool :=
  if h : m.find? k = none then
    (⟨place k v m.entries, place_sorted v m.sorted (find?_eq_none_iff.mp h)⟩, true)
  else (m, false)

/-- A value is inserted at a key that is not there. -/
theorem insert_snd (m : OrderedMap κ ν) (k : κ) (v : ν) :
    (m.insert k v).2 = (m.find? k).isNone := by
  unfold insert
  split
  · rename_i h
    simp [h]
  · rename_i h
    exact (Option.isNone_eq_false_iff.mpr (Option.isSome_iff_ne_none.mpr h)).symm

/-- A new key brings one entry more. -/
theorem insert_entries_perm {m : OrderedMap κ ν} {k : κ} (v : ν) (h : m.find? k = none) :
    (m.insert k v).1.entries.Perm ((k, v) :: m.entries) := by
  simpa only [insert, dif_pos h] using place_perm k v m.entries

/-- What is found after a new key. -/
theorem find?_insert {m : OrderedMap κ ν} {k : κ} (v : ν) (h : m.find? k = none) (k' : κ) :
    (m.insert k v).1.find? k' = if k' = k then some v else m.find? k' := by
  have hperm := insert_entries_perm v h
  refine Option.ext fun w => ?_
  rw [find?_eq_some_iff, hperm.mem_iff, List.mem_cons]
  by_cases hk : k' = k
  · subst hk
    have hnot : (k', w) ∉ m.entries := fun hmem => find?_eq_none_iff.mp h _ hmem rfl
    simp [hnot, eq_comm]
  · simp [hk, find?_eq_some_iff]

/-! ## Erasing -/

/-- Take a key out. -/
def erase (m : OrderedMap κ ν) (k : κ) : OrderedMap κ ν :=
  ⟨m.entries.filter fun e => e.1 ≠ k, m.sorted.filter _⟩

/-- What is found after a key is taken out. -/
theorem find?_erase (m : OrderedMap κ ν) (k k' : κ) :
    (m.erase k).find? k' = if k' = k then none else m.find? k' := by
  refine Option.ext fun w => ?_
  rw [find?_eq_some_iff]
  by_cases hk : k' = k
  · simp [erase, hk]
  · simp [erase, hk, find?_eq_some_iff]

/-- Taking a key out loses its entry and no other. -/
theorem entries_perm_erase {m : OrderedMap κ ν} {k : κ} {v : ν} (h : m.find? k = some v) :
    m.entries.Perm ((k, v) :: (m.erase k).entries) := by
  have hmem := find?_eq_some_iff.mp h
  obtain ⟨es, hsorted⟩ := m
  simp only [erase]
  induction es with
  | nil => exact absurd hmem List.not_mem_nil
  | cons e es ih =>
    obtain ⟨hlt, hrest⟩ := List.pairwise_cons.mp hsorted
    rcases List.mem_cons.mp hmem with rfl | hmem
    · have hall : es.filter (fun e => e.1 ≠ k) = es :=
        List.filter_eq_self.mpr fun e he => by simpa using ne_of_gt (hlt e he)
      rw [List.filter_cons_of_neg (by simp), hall]
    · have hne : e.1 ≠ k := ne_of_lt (hlt _ hmem)
      rw [List.filter_cons_of_pos (by simpa using hne)]
      refine ((ih hrest ?_ hmem).cons e).trans (List.Perm.swap _ _ _)
      exact find?_eq_some_iff.mpr hmem

end OrderedMap

end FfTest
