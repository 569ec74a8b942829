import FfTest.Coroutines.Handles
import Mathlib.Data.Nat.Notation

/-! # Round robin

The driver of the tests: it creates `N` coroutines under the keys `0, …, N - 1` and goes through the
keys again and again, resumes what it finds and removes it when it has stopped, until the factory is
empty. The function of coroutine `k` yields `y k` times and returns. However these numbers are
chosen, the driver comes to its end, and has by then run each function from its beginning to its
end, one segment for each resume. -/

namespace FfTest.Coroutines

/-! ## The driver -/

/-- The coroutine that is running has still to yield: its function yields as often as its argument
says. -/
def State.yieldsAgain (s : State ℤ) : Bool :=
  (s.lib.gtlsCo.bind s.lib.acos).any fun a =>
    (a.arg.bind s.objects).any fun c => a.segment < c.arg

/-- The function of the coroutine that is running goes on to its next yield, or to its end. -/
def State.runSegment (s : State ℤ) : State ℤ :=
  if s.yieldsAgain then s.yield else s.routineReturns

/-- `N` coroutines are created. -/
def created (y : ℕ → ℕ) : ℕ → State ℤ
  | 0 => .construct
  | N + 1 => ((created y N).crCreate 0 (y N) N).2

/-- The body of the loop, for the key `i`. -/
def State.visit (s : State ℤ) (i : ℕ) : State ℤ :=
  match s.crGet i with
  | none => s
  | some o =>
    if s.isStop o then s
    else
      let s := (s.resume o).runSegment
      if s.isStop o then (s.crRemove i).2 else s

/-- One round of the loop. -/
def iteration (N : ℕ) (l : State ℤ × ℕ) : State ℤ × ℕ :=
  (l.1.visit l.2, if l.2 + 1 = N then 0 else l.2 + 1)

/-- The loop, for a number of rounds at most; there is no result when it has not ended by then. -/
def driver (N : ℕ) : ℕ → State ℤ × ℕ → Option (State ℤ)
  | 0, l => if l.1.empty then some l.1 else none
  | fuel + 1, l => if l.1.empty then some l.1 else driver N fuel (iteration N l)

/-- The segments that a handle has run, in order. -/
def State.segmentsOf (s : State ℤ) (h : ℕ) : List ℕ :=
  ((s.lib.ran.filter fun e => e.1 = h).map Prod.snd).reverse

/-! ## One visit -/

/-- Coroutine `k` has been resumed `r k` times; it is there as long as it has not returned. -/
structure Progress (N : ℕ) (y r : ℕ → ℕ) (s : State ℤ) : Prop where
  /-- The map has the coroutines that have not returned. -/
  find : ∀ k : ℕ, s.map.find? (k : ℤ) = if k < N ∧ r k ≤ y k then some k else none
  /-- It has no other keys. -/
  keys : ∀ key o, s.map.find? key = some o → ∃ k : ℕ, key = k
  /-- The objects of these. -/
  objects : ∀ k < N, r k ≤ y k → s.objects k = some ⟨some (k + 1), 0, y k, 0, false⟩
  /-- Their handles, which go on where they have come to. -/
  acos : ∀ k < N, r k ≤ y k → s.lib.acos (k + 1) = some ⟨some 0, some k, false, r k⟩
  /-- The main program is running. -/
  context : s.lib.gtlsCo = none ∨ s.lib.gtlsCo = some 0
  /-- The main handle is there. -/
  main : ∃ a, s.lib.acos 0 = some a ∧ a.mainCo = none
  /-- Each coroutine has run its segments in order. -/
  segments : ∀ k < N, s.segmentsOf (k + 1) = List.range (r k)
  /-- No coroutine goes on after its end. -/
  le : ∀ k < N, r k ≤ y k + 1
  /-- No rule of the library has been broken. -/
  unbroken : s.lib.broken = none

namespace Progress

variable {N : ℕ} {y r : ℕ → ℕ} {s : State ℤ}

/-- The main program is running. -/
theorem running (hs : Progress N y r s) : s.lib.running = none := by
  obtain ⟨a, ha, hnone⟩ := hs.main
  rcases hs.context with hgtls | hgtls
  · simp [Libaco.running, hgtls]
  · simp [Libaco.running, hgtls, ha, hnone]

/-- A key that is not in the map is passed over. -/
theorem visit_none {i : ℕ} (hs : Progress N y r s) (hi : ¬ (i < N ∧ r i ≤ y i)) :
    s.visit i = s := by
  have hfind := hs.find i
  rw [if_neg hi] at hfind
  simp [State.visit, State.crGet, hfind]

/-- A coroutine that yields once more. -/
theorem visit_yields {i : ℕ} (hs : Progress N y r s) (hi : i < N) (hlt : r i < y i) :
    s.visit i = { s with lib := { s.lib with
      acos := Function.update s.lib.acos (i + 1) (some ⟨some 0, some i, false, r i + 1⟩)
      owner := some (i + 1)
      gtlsCo := some 0
      ran := (i + 1, r i) :: s.lib.ran } } := by
  have hfind := hs.find i
  rw [if_pos ⟨hi, Nat.le_of_lt hlt⟩] at hfind
  have hobject := hs.objects i hi (Nat.le_of_lt hlt)
  have haco := hs.acos i hi (Nat.le_of_lt hlt)
  simp [State.visit, State.crGet, hfind, State.isStop, hobject, State.resume, Libaco.resume, haco,
    hs.running, State.runSegment, State.yieldsAgain, hlt, State.yield, Libaco.yield]

/-- A coroutine that returns, and is removed. -/
theorem visit_returns {i : ℕ} (hs : Progress N y r s) (hi : i < N) (heq : r i = y i) :
    s.visit i = { s with
      objects := Function.update s.objects i none
      map := s.map.erase i
      lib := { s.lib with
        acos := Function.update s.lib.acos (i + 1) none
        owner := none
        gtlsCo := some 0
        ledger := .release (.handle (i + 1)) :: s.lib.ledger
        ran := (i + 1, r i) :: s.lib.ran } } := by
  have hfind := hs.find i
  rw [if_pos ⟨hi, Nat.le_of_eq heq⟩] at hfind
  have hobject := hs.objects i hi (Nat.le_of_eq heq)
  have haco := hs.acos i hi (Nat.le_of_eq heq)
  obtain ⟨a, hmain, hnone⟩ := hs.main
  have hsegment : (s.resume i).runSegment = { s with
      objects := Function.update s.objects i (some ⟨some (i + 1), 0, y i, 0, true⟩)
      lib := { s.lib with
        acos := Function.update s.lib.acos (i + 1) (some ⟨some 0, some i, true, r i⟩)
        owner := none
        gtlsCo := some 0
        ran := (i + 1, r i) :: s.lib.ran } } := by
    simp [State.resume, hobject, Libaco.resume, haco, hs.running, State.runSegment,
      State.yieldsAgain, heq, State.routineReturns, State.getArg, State.setObject, Libaco.exit]
  have hrunning : (s.resume i).runSegment.lib.running = none := by
    simp [hsegment, Libaco.running, hmain, hnone]
  rw [hsegment] at hrunning
  simp [State.visit, State.crGet, hfind, State.isStop, hobject, hsegment, State.crRemove,
    State.delete, State.setObject, Libaco.destroy, hrunning]

/-- Which segments have been run after the next one of coroutine `i`. -/
theorem segments_cons {i : ℕ} (hs : Progress N y r s) {s' : State ℤ}
    (hran : s'.lib.ran = (i + 1, r i) :: s.lib.ran) :
    ∀ k < N, s'.segmentsOf (k + 1) = List.range (Function.update r i (r i + 1) k) := by
  intro k hk
  have hsegments := hs.segments k hk
  unfold State.segmentsOf at hsegments ⊢
  rw [hran]
  by_cases hki : k = i
  · subst hki
    simp [hsegments, List.range_succ]
  · have hne : i ≠ k := Ne.symm hki
    simpa [hki, hne] using hsegments

/-- The bound on the segments is kept. -/
theorem le_update {i : ℕ} (hs : Progress N y r s) (hlive : r i ≤ y i) :
    ∀ k < N, Function.update r i (r i + 1) k ≤ y k + 1 := by
  intro k hk
  by_cases hki : k = i
  · subst hki
    simpa using hlive
  · simpa [hki] using hs.le k hk

/-- The visit of a coroutine that yields once more. -/
theorem yields {i : ℕ} (hs : Progress N y r s) (hi : i < N) (hlt : r i < y i) :
    Progress N y (Function.update r i (r i + 1)) (s.visit i) := by
  -- the same coroutines are there
  have hsame : ∀ k, Function.update r i (r i + 1) k ≤ y k ↔ r k ≤ y k := by
    intro k
    by_cases hki : k = i
    · subst hki
      simp only [Function.update_self]
      omega
    · simp [hki]
  rw [hs.visit_yields hi hlt]
  refine ⟨fun k => ?_, hs.keys, fun k hk hle => ?_, fun k hk hle => ?_, Or.inr rfl, ?_,
    hs.segments_cons rfl, hs.le_update (Nat.le_of_lt hlt), hs.unbroken⟩
  · simp only [hsame, hs.find k]
  · exact hs.objects k hk ((hsame k).mp hle)
  · by_cases hki : k = i
    · subst hki
      simp
    · simpa [hki] using hs.acos k hk ((hsame k).mp hle)
  · simpa using hs.main

/-- The visit of a coroutine that returns. -/
theorem returns {i : ℕ} (hs : Progress N y r s) (hi : i < N) (heq : r i = y i) :
    Progress N y (Function.update r i (r i + 1)) (s.visit i) := by
  -- all others stay, and this one is gone
  have hother : ∀ k, Function.update r i (r i + 1) k ≤ y k ↔ k ≠ i ∧ r k ≤ y k := by
    intro k
    by_cases hki : k = i
    · subst hki
      simp [heq]
    · simp [hki]
  rw [hs.visit_returns hi heq]
  refine ⟨fun k => ?_, fun key o hkey => ?_, fun k hk hle => ?_, fun k hk hle => ?_, Or.inr rfl, ?_,
    hs.segments_cons rfl, hs.le_update (Nat.le_of_eq heq), hs.unbroken⟩
  · rw [OrderedMap.find?_erase, hs.find k]
    by_cases hki : k = i
    · subst hki
      simp [heq]
    · have hne : (k : ℤ) ≠ i := by omega
      simp [hki, hne]
  · rw [OrderedMap.find?_erase] at hkey
    split at hkey
    · simp at hkey
    · exact hs.keys key o hkey
  · obtain ⟨hki, hle⟩ := (hother k).mp hle
    simpa [hki] using hs.objects k hk hle
  · obtain ⟨hki, hle⟩ := (hother k).mp hle
    simpa [hki] using hs.acos k hk hle
  · simpa using hs.main

/-- **Visit lemma.** A visit runs one segment of the coroutine it finds, and none else. -/
theorem visit {i : ℕ} (hs : Progress N y r s) (hi : i < N) :
    Progress N y (Function.update r i (min (y i + 1) (r i + 1))) (s.visit i) := by
  have hle := hs.le i hi
  by_cases hlive : r i ≤ y i
  · have hnext : min (y i + 1) (r i + 1) = r i + 1 := by omega
    rw [hnext]
    rcases Nat.lt_or_eq_of_le hlive with hlt | heq
    · exact hs.yields hi hlt
    · exact hs.returns hi heq
  · have hsame : min (y i + 1) (r i + 1) = r i := by omega
    rw [hsame, Function.update_eq_self, hs.visit_none fun h => hlive h.2]
    exact hs

/-- Only the coroutines created count. -/
theorem congr {r' : ℕ → ℕ} (hs : Progress N y r s) (h : ∀ k < N, r k = r' k) :
    Progress N y r' s where
  find k := by
    rw [hs.find k]
    by_cases hk : k < N
    · simp only [h k hk]
    · simp [hk]
  keys := hs.keys
  objects k hk hle := hs.objects k hk (h k hk ▸ hle)
  acos k hk hle := h k hk ▸ hs.acos k hk (h k hk ▸ hle)
  context := hs.context
  main := hs.main
  segments k hk := h k hk ▸ hs.segments k hk
  le k hk := h k hk ▸ hs.le k hk
  unbroken := hs.unbroken

/-- The factory is empty iff all coroutines have returned. -/
theorem empty_iff (hs : Progress N y r s) : s.empty = true ↔ ∀ k < N, r k = y k + 1 := by
  rw [State.empty, OrderedMap.isEmpty_iff]
  constructor
  · intro hnone k hk
    have hfind := hs.find k
    rw [hnone] at hfind
    have hle := hs.le k hk
    by_contra hne
    rw [if_pos ⟨hk, by omega⟩] at hfind
    simp at hfind
  · intro hall key
    by_contra hfound
    obtain ⟨o, hkey⟩ := Option.ne_none_iff_exists'.mp hfound
    obtain ⟨k, rfl⟩ := hs.keys key o hkey
    rw [hs.find k] at hkey
    split at hkey
    · rename_i hk
      have heq := hall k hk.1
      omega
    · simp at hkey

end Progress

/-! ## Round after round -/

/-- How often coroutine `k` has been resumed after `p` rounds and `i` visits of the next. -/
def turns (y : ℕ → ℕ) (p i k : ℕ) : ℕ := min (y k + 1) (if k < i then p + 1 else p)

/-- The coroutines that have just been created have not run. -/
theorem created_progress (y : ℕ → ℕ) (N : ℕ) :
    Progress N y (fun _ => 0) (created y N) ∧ (created y N).next = N ∧
      (created y N).lib.next = N + 1 ∧ (created y N).hwnd = 0 ∧ (created y N).lib.ran = [] := by
  induction N with
  | zero =>
    refine ⟨⟨fun k => by simp [created, State.construct], fun key o h => ?_, fun k hk => ?_,
      fun k hk => ?_, Or.inl rfl, ⟨⟨none, none, false, 0⟩, rfl, rfl⟩, fun k hk => ?_,
      fun k hk => ?_, rfl⟩, rfl, rfl, rfl, rfl⟩
    · simp [created, State.construct] at h
    all_goals exact absurd hk (Nat.not_lt_zero k)
  | succ N ih =>
    obtain ⟨hs, hnext, hlibNext, hhwnd, hran⟩ := ih
    -- keys are handed out in order, so the next one is new
    have hkey : (created y N).map.find? (N : ℤ) = none := by simp [hs.find]
    simp only [created]
    rw [Paired.crCreate_eq hkey, hnext, hlibNext, hhwnd]
    refine ⟨⟨fun k => ?_, fun key o h => ?_, fun k hk _ => ?_, fun k hk _ => ?_, ?_, ?_,
      fun k hk => ?_, fun k hk => Nat.zero_le _, hs.unbroken⟩, rfl, ?_, rfl, hran⟩
    · rw [OrderedMap.find?_insert _ hkey, hs.find k]
      by_cases hk : k = N
      · simp [hk]
      · have hne : (k : ℤ) ≠ N := by omega
        have hlt : k < N + 1 ↔ k < N := by omega
        simp [hne, hlt]
    · rw [OrderedMap.find?_insert _ hkey] at h
      split at h
      · rename_i hkeyN
        exact ⟨N, hkeyN⟩
      · exact hs.keys key o h
    · by_cases hkN : k = N
      · simp [hkN]
      · simpa [hkN] using hs.objects k (by omega) (Nat.zero_le _)
    · by_cases hkN : k = N
      · simp [hkN, Libaco.create, hlibNext]
      · simpa [hkN, Libaco.create, hlibNext] using hs.acos k (by omega) (Nat.zero_le _)
    · exact hs.context
    · simpa [Libaco.create, hlibNext] using hs.main
    · simp [State.segmentsOf, Libaco.create, hran]
    · simp [Libaco.create, hlibNext]

/-- **Run lemma.** Where the loop is after `n` rounds of its body. -/
theorem progress_iterate {N : ℕ} (hN : 0 < N) (y : ℕ → ℕ) (n : ℕ) :
    ∃ p i, p * N + i = n ∧ i < N ∧ ((iteration N)^[n] (created y N, 0)).2 = i ∧
      Progress N y (turns y p i) ((iteration N)^[n] (created y N, 0)).1 := by
  induction n with
  | zero =>
    refine ⟨0, 0, by simp, hN, rfl, (created_progress y N).1.congr fun k _ => ?_⟩
    simp [turns]
  | succ n ih =>
    obtain ⟨p, i, hn, hi, hsnd, hs⟩ := ih
    rw [Function.iterate_succ_apply']
    generalize (iteration N)^[n] (created y N, 0) = l at hsnd hs
    obtain ⟨s, i'⟩ := l
    simp only at hsnd hs
    subst hsnd
    have hvisit : Progress N y (turns y p (i' + 1)) (s.visit i') := by
      refine (hs.visit hi).congr fun k _ => ?_
      by_cases hk : k = i'
      · subst hk
        simp only [Function.update_self, turns, Nat.lt_irrefl, if_false, Nat.lt_succ_self, if_true]
        omega
      · have hlt : k < i' + 1 ↔ k < i' := by omega
        simp only [Function.update_of_ne hk, turns, hlt]
    by_cases hlast : i' + 1 = N
    · refine ⟨p + 1, 0, ?_, hN, by simp [iteration, hlast], hvisit.congr fun k hk => ?_⟩
      · rw [Nat.succ_mul]
        omega
      · simp [turns, hlast, hk]
    · exact ⟨p, i' + 1, by omega, by omega, by simp [iteration, hlast], hvisit⟩

/-- The loop ends when its body has once emptied the factory. -/
theorem driver_eq {N fuel : ℕ} {l : State ℤ × ℕ}
    (h : ∃ n ≤ fuel, ((iteration N)^[n] l).1.empty = true) :
    ∃ n, ((iteration N)^[n] l).1.empty = true ∧
      driver N fuel l = some ((iteration N)^[n] l).1 := by
  induction fuel generalizing l with
  | zero =>
    obtain ⟨n, hn, hempty⟩ := h
    obtain rfl := Nat.le_zero.mp hn
    exact ⟨0, hempty, if_pos hempty⟩
  | succ fuel ih =>
    by_cases hempty : l.1.empty = true
    · exact ⟨0, hempty, if_pos hempty⟩
    · obtain ⟨n, hn, hend⟩ := h
      cases n with
      | zero => exact absurd hend hempty
      | succ n =>
        obtain ⟨m, hm, heq⟩ := ih (l := iteration N l) ⟨n, Nat.le_of_succ_le_succ hn, hend⟩
        exact ⟨m + 1, hm, (if_neg hempty).trans heq⟩

/-- Finitely many numbers have a bound. -/
theorem exists_bound (y : ℕ → ℕ) (N : ℕ) : ∃ P, ∀ k < N, y k < P := by
  induction N with
  | zero => exact ⟨0, fun k hk => absurd hk (Nat.not_lt_zero k)⟩
  | succ N ih =>
    obtain ⟨P, hP⟩ := ih
    refine ⟨P + y N + 1, fun k hk => ?_⟩
    rcases Nat.lt_succ_iff_lt_or_eq.mp hk with hk | rfl
    · have hlt := hP k hk
      omega
    · omega

/-- **Round robin completes.** For every number of coroutines and every choice of how often each
yields, the driver comes to its end with an empty factory and has broken no rule of the library;
each coroutine has been resumed once for each of its segments, from the first to the last. -/
theorem round_robin (N : ℕ) (y : ℕ → ℕ) :
    ∃ fuel s, driver N fuel (created y N, 0) = some s ∧ s.empty = true ∧ s.lib.broken = none ∧
      ∀ k < N, ∃ h, (created y N).handleOf k = some h ∧ (created y N).segmentsOf h = [] ∧
        s.segmentsOf h = List.range (y k + 1) := by
  have hstart := (created_progress y N).1
  rcases Nat.eq_zero_or_pos N with rfl | hN
  · have hempty := hstart.empty_iff.mpr fun k hk => absurd hk (Nat.not_lt_zero k)
    exact ⟨0, _, if_pos hempty, hempty, hstart.unbroken, fun k hk => absurd hk (Nat.not_lt_zero k)⟩
  · -- as many rounds as the longest function has segments empty the factory
    obtain ⟨P, hP⟩ := exists_bound y N
    have hfuel : ((iteration N)^[P * N] (created y N, 0)).1.empty = true := by
      obtain ⟨p, i, hn, hi, -, hs⟩ := progress_iterate hN y (P * N)
      refine hs.empty_iff.mpr fun k hk => ?_
      have hp : P ≤ p := by
        by_contra hlt
        have hle : (p + 1) * N ≤ P * N := Nat.mul_le_mul_right N (by omega)
        rw [Nat.succ_mul] at hle
        omega
      have hyk := hP k hk
      unfold turns
      split <;> omega
    obtain ⟨n, hempty, hdriver⟩ := driver_eq ⟨P * N, Nat.le_refl _, hfuel⟩
    obtain ⟨p, i, -, -, -, hs⟩ := progress_iterate hN y n
    refine ⟨P * N, _, hdriver, hempty, hs.unbroken, fun k hk => ⟨k + 1, ?_, ?_, ?_⟩⟩
    · simp [State.handleOf, hstart.find, hk, hstart.objects k hk (Nat.zero_le _)]
    · simpa using hstart.segments k hk
    · rw [hs.segments k hk, hs.empty_iff.mp hempty k hk]

end FfTest.Coroutines
