import Mathlib.Data.Int.Notation
import Mathlib.Data.List.DropRight
import Mathlib.Data.Nat.Notation

/-! # Texts of C, and texts put together from fields

A string is a sequence of bytes, each written as a character. This file has the functions of the C
library on strings, `printf` with its conversions `%s` and `%d`, and what can be said of the texts
that come out:

* `append_sep_inj` and `append_sep_inj_right`: fields can be read back from either end as far as
  they are free of the separator;
* `commonPrefix`: how far two texts agree, with `take_eq_take_iff` for texts that are cut off. -/

namespace FfTest

universe u

variable {α : Type u}

/-! ## How far two lists agree -/

/-- How many elements two lists have in common at their beginning. -/
def commonPrefix [DecidableEq α] : List α → List α → ℕ
  | a :: as, b :: bs => if a = b then commonPrefix as bs + 1 else 0
  | _, _ => 0

section CommonPrefix

variable [DecidableEq α]

@[simp] theorem commonPrefix_nil (bs : List α) : commonPrefix [] bs = 0 := by
  cases bs <;> rfl

@[simp] theorem commonPrefix_cons_self (a : α) (as bs : List α) :
    commonPrefix (a :: as) (a :: bs) = commonPrefix as bs + 1 := if_pos rfl

/-- A part that both lists begin with counts in full. -/
@[simp] theorem commonPrefix_append (cs as bs : List α) :
    commonPrefix (cs ++ as) (cs ++ bs) = cs.length + commonPrefix as bs := by
  induction cs with
  | nil => exact (Nat.zero_add _).symm
  | cons c cs ih =>
    rw [List.cons_append, List.cons_append, commonPrefix_cons_self, ih, List.length_cons]
    omega

/-- **Lists cut off.** Two lists are the same in their first `n` elements iff they are the same, or
agree as far as that. -/
theorem take_eq_take_iff {as bs : List α} {n : ℕ} :
    as.take n = bs.take n ↔ as = bs ∨ n ≤ commonPrefix as bs := by
  induction as generalizing bs n with
  | nil =>
    cases n with
    | zero => simp
    | succ n => cases bs <;> simp
  | cons a as ih =>
    cases n with
    | zero => simp
    | succ n =>
      cases bs with
      | nil => simp [commonPrefix]
      | cons b bs =>
        rw [List.take_succ_cons, List.take_succ_cons, List.cons.injEq, List.cons.injEq]
        by_cases hab : a = b
        · subst hab
          rw [commonPrefix_cons_self, ih, Nat.succ_le_succ_iff]
          simp only [true_and]
        · rw [commonPrefix, if_neg hab]
          simp [hab]

end CommonPrefix

/-! ## Fields and separators -/

/-- What stands before the first separator can be read back, and what stands behind it. -/
theorem append_sep_inj {s : α} {as bs xs ys : List α} (ha : s ∉ as) (hb : s ∉ bs) :
    as ++ s :: xs = bs ++ s :: ys ↔ as = bs ∧ xs = ys := by
  induction as generalizing bs with
  | nil =>
    cases bs with
    | nil => simp
    | cons b bs =>
      have hne : s ≠ b := fun h => hb (h ▸ List.mem_cons_self)
      simp [hne]
  | cons a as ih =>
    cases bs with
    | nil =>
      have hne : a ≠ s := fun h => ha (h ▸ List.mem_cons_self)
      simp [hne]
    | cons b bs =>
      rw [List.cons_append, List.cons_append, List.cons.injEq, List.cons.injEq,
        ih (List.not_mem_of_not_mem_cons ha) (List.not_mem_of_not_mem_cons hb), and_assoc]

/-- What stands behind the last separator can be read back, and what stands before it. -/
theorem append_sep_inj_right {s : α} {as bs xs ys : List α} (hx : s ∉ xs) (hy : s ∉ ys) :
    as ++ s :: xs = bs ++ s :: ys ↔ as = bs ∧ xs = ys := by
  have hrev : ∀ cs zs : List α, (cs ++ s :: zs).reverse = zs.reverse ++ s :: cs.reverse := by
    intro cs zs
    rw [List.reverse_append, List.reverse_cons, List.append_assoc]
    rfl
  rw [← List.reverse_inj, hrev, hrev,
    append_sep_inj (mt List.mem_reverse.mp hx) (mt List.mem_reverse.mp hy), List.reverse_inj,
    List.reverse_inj, and_comm]

/-! ## Strings of C -/

/-- `c_str`: the characters before the first `NUL`. -/
def cStr (s : String) : List Char := s.toList.takeWhile (· ≠ Char.ofNat 0)

/-- No `NUL` is left in it. -/
theorem nul_not_mem_cStr (s : String) : Char.ofNat 0 ∉ cStr s := by
  intro hmem
  have hne := List.mem_takeWhile_imp hmem
  exact absurd rfl (of_decide_eq_true hne)

/-- A string without `NUL` is kept whole. -/
theorem cStr_ofList {as : List Char} (h : Char.ofNat 0 ∉ as) : cStr (String.ofList as) = as := by
  rw [cStr, String.toList_ofList, List.takeWhile_eq_self_iff]
  exact fun c hc => decide_eq_true fun heq => h (heq ▸ hc)

/-- `strrchr`: the string from the last `c` on, or `none` for `NULL`. -/
def strrchr : List Char → Char → Option (List Char)
  | [], _ => none
  | a :: as, c =>
    match strrchr as c with
    | some p => some p
    | none => if a = c then some (a :: as) else none

/-- `strrchr` finds nothing iff there is nothing to find. -/
theorem strrchr_eq_none_iff {as : List Char} {c : Char} : strrchr as c = none ↔ c ∉ as := by
  induction as with
  | nil => simp [strrchr]
  | cons a as ih =>
    rw [List.mem_cons, not_or, ← ih, strrchr]
    cases hp : strrchr as c with
    | some p => simp
    | none =>
      by_cases hac : a = c
      · simp [hac]
      · simp [hac, Ne.symm hac]

/-- What `strrchr` finds begins with `c`, and `c` does not occur in it again. -/
theorem strrchr_eq_some {as p : List Char} {c : Char} (h : strrchr as c = some p) :
    ∃ cs ds, as = cs ++ c :: ds ∧ p = c :: ds ∧ c ∉ ds := by
  induction as with
  | nil => cases h
  | cons a as ih =>
    rw [strrchr] at h
    cases hp : strrchr as c with
    | some q =>
      rw [hp] at h
      obtain ⟨cs, ds, rfl, hq, hds⟩ := ih (hp.trans h)
      exact ⟨a :: cs, ds, rfl, hq, hds⟩
    | none =>
      rw [hp] at h
      by_cases hac : a = c
      · subst hac
        rw [if_pos rfl] at h
        cases h
        exact ⟨[], as, rfl, rfl, strrchr_eq_none_iff.mp hp⟩
      · rw [if_neg hac] at h
        cases h

/-- What stands behind the last separator, read from the end. -/
theorem rtakeWhile_append_sep [DecidableEq α] {s : α} (as : List α) {xs : List α} (hx : s ∉ xs) :
    (as ++ s :: xs).rtakeWhile (· ≠ s) = xs := by
  have hpos : ∀ x ∈ xs.reverse, decide (x ≠ s) = true := by
    intro x hmem
    exact decide_eq_true fun h => hx (h ▸ List.mem_reverse.mp hmem)
  rw [List.rtakeWhile, List.reverse_append, List.reverse_cons, List.append_assoc,
    List.takeWhile_append_of_pos hpos]
  simp

/-- Behind the `c` that `strrchr` finds is all that stands behind the last `c`. -/
theorem elim_strrchr (as : List Char) (c : Char) :
    (strrchr as c).elim as List.tail = as.rtakeWhile (· ≠ c) := by
  cases hp : strrchr as c with
  | some p =>
    obtain ⟨cs, ds, rfl, rfl, hds⟩ := strrchr_eq_some hp
    exact (rtakeWhile_append_sep cs hds).symm
  | none =>
    have hmem := strrchr_eq_none_iff.mp hp
    refine (List.rtakeWhile_eq_self_iff.mpr fun x hx => ?_).symm
    exact decide_eq_true fun h => hmem (h ▸ hx)

/-! ## `printf` -/

/-- The digits that `%d` writes. -/
def decimal (n : ℤ) : List Char :=
  if n < 0 then '-' :: Nat.toDigits 10 n.natAbs else Nat.toDigits 10 n.natAbs

/-- An argument of `printf`. -/
inductive PrintfArg
  /-- A string, for `%s`. -/
  | str (s : List Char)
  /-- An `int`, for `%d`. -/
  | int (n : ℤ)

/-- What `printf` writes for this format. -/
def printf : List Char → List PrintfArg → List Char
  | '%' :: 's' :: fmt, .str s :: args => s ++ printf fmt args
  | '%' :: 'd' :: fmt, .int n :: args => decimal n ++ printf fmt args
  | c :: fmt, args => c :: printf fmt args
  | [], _ => []

/-- The string that `snprintf` leaves in a buffer of this size. -/
def snprintf (size : ℕ) (fmt : String) (args : List PrintfArg) : List Char :=
  (printf fmt.toList args).take (size - 1)

/-- The digits of a number that is not negative. -/
theorem decimal_natCast (n : ℕ) : decimal n = Nat.toDigits 10 n := by
  rw [decimal, if_neg (by omega), Int.natAbs_natCast]

/-- Nothing but digits is written for a number that is not negative. -/
theorem not_mem_decimal {c : Char} (hc : c.isDigit = false) (n : ℕ) : c ∉ decimal n := by
  intro hmem
  rw [decimal_natCast] at hmem
  have hdigit := Nat.isDigit_of_mem_toDigits (by decide) (by decide) hmem
  rw [hc] at hdigit
  cases hdigit

/-- Different numbers are written differently. -/
theorem decimal_inj {m n : ℕ} : decimal m = decimal n ↔ m = n := by
  constructor
  · intro h
    rw [decimal_natCast, decimal_natCast] at h
    have hvalue := congrArg (Nat.ofDigitChars 10 · 0) h
    simpa only [Nat.ofDigitChars_ten_toDigits] using hvalue
  · rintro rfl
    rfl

end FfTest
