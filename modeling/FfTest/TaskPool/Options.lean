import FfTest.Foundations.Text
import FfTest.TaskPool.CommandLine

/-! # Command lines, written and read

`parse_eq` says what a command line means: each member has the value of the last option that sets
it, and of the old value where none does. A configuration can be written down as options; `atoi`
reads the numbers back (`atoi_shown`), and `Config::parse` the whole configuration, whatever the
order of the options, and whatever has been given before (`parse_options`). -/

namespace FfTest.TaskPool

/-! ## Numbers -/

/-- A text as an argument of the program. -/
def argv (cs : List Char) : List Byte := cs.map fun c => BitVec.ofNat 8 c.toNat

/-- A number as an argument of the program. -/
def shown (n : ℤ) : List Byte := argv (decimal n)

section Digits

variable {cs : List Char} (hcs : ∀ c ∈ cs, c.isDigit = true)

include hcs

/-- The bytes of digits are digits. -/
theorem isDigit_of_mem_argv {b : Byte} (hb : b ∈ argv cs) : isDigit b = true := by
  obtain ⟨c, hc, rfl⟩ := List.mem_map.mp hb
  obtain ⟨hlow, hhigh⟩ := Char.isDigit_iff_toNat.mp (hcs c hc)
  change 48 ≤ c.toNat at hlow
  change c.toNat ≤ 57 at hhigh
  simp only [isDigit, BitVec.toNat_ofNat, Bool.and_eq_true, decide_eq_true_eq]
  omega

/-- The loop over the digits. -/
theorem foldl_argv (init : ℕ) :
    (argv cs).foldl (fun n c => 10 * n + (c.toNat - 48 : ℤ)) (init : ℤ)
      = (Nat.ofDigitChars 10 cs init : ℤ) := by
  induction cs generalizing init with
  | nil => rfl
  | cons c cs ih =>
    obtain ⟨hlow, hhigh⟩ := Char.isDigit_iff_toNat.mp (hcs c List.mem_cons_self)
    change 48 ≤ c.toNat at hlow
    change c.toNat ≤ 57 at hhigh
    have hbyte : (BitVec.ofNat 8 c.toNat).toNat = c.toNat := by
      rw [BitVec.toNat_ofNat, Nat.mod_eq_of_lt (by omega)]
    have hnext : 10 * (init : ℤ) + ((BitVec.ofNat 8 c.toNat).toNat - 48)
        = ((10 * init + (c.toNat - 48) : ℕ) : ℤ) := by
      rw [hbyte]
      omega
    rw [argv, List.map_cons, List.foldl_cons, Nat.ofDigitChars_cons, hnext]
    exact ih (fun d hd => hcs d (List.mem_cons_of_mem _ hd)) _

/-- Digits are no signs, and no space. -/
theorem not_sign_of_mem_argv {b : Byte} (hb : b ∈ argv cs) :
    isSpace b = false ∧ b ≠ 45 ∧ b ≠ 43 := by
  have hdigit := isDigit_of_mem_argv hcs hb
  simp only [isDigit, Bool.and_eq_true, decide_eq_true_eq] at hdigit
  refine ⟨?_, ?_, ?_⟩
  · have hne : b ≠ 32 := by
      rintro rfl
      exact absurd hdigit (by decide)
    simp only [isSpace, hne, decide_false, Bool.false_or, Bool.and_eq_false_iff,
      decide_eq_false_iff_not]
    omega
  · rintro rfl
    exact absurd hdigit (by decide)
  · rintro rfl
    exact absurd hdigit (by decide)

end Digits

/-- The digits of a number are digits, and read as the number. -/
theorem digitsValue_toDigits (n : ℕ) : digitsValue (argv (Nat.toDigits 10 n)) = n := by
  have hdigits : ∀ c ∈ Nat.toDigits 10 n, c.isDigit = true := fun c hc =>
    Nat.isDigit_of_mem_toDigits (by decide) (by decide) hc
  have hfold := foldl_argv hdigits 0
  rw [Nat.ofDigitChars_ten_toDigits] at hfold
  exact hfold

/-- All digits are read. -/
theorem takeWhile_toDigits (n : ℕ) :
    (argv (Nat.toDigits 10 n)).takeWhile isDigit = argv (Nat.toDigits 10 n) := by
  rw [List.takeWhile_eq_self_iff]
  exact fun b hb => isDigit_of_mem_argv
    (fun c hc => Nat.isDigit_of_mem_toDigits (by decide) (by decide) hc) hb

/-- **A number that was written is read back**, if it is a `long`. -/
theorem strtol_shown {n : ℤ} (hlow : -2 ^ 63 ≤ n) (hhigh : n < 2 ^ 63) : strtol (shown n) = n := by
  have hvalue := digitsValue_toDigits n.natAbs
  have htake := takeWhile_toDigits n.natAbs
  by_cases hneg : n < 0
  · have hspace : isSpace 45 = false := rfl
    have hshown : shown n = 45 :: argv (Nat.toDigits 10 n.natAbs) := by
      rw [shown, decimal, if_pos hneg]
      rfl
    rw [hshown, strtol, List.dropWhile_cons, hspace]
    simp only [Bool.false_eq_true, if_false, if_true, htake, hvalue]
    rw [if_pos (by omega)]
    omega
  · have hshown : shown n = argv (Nat.toDigits 10 n.natAbs) := by
      rw [shown, decimal, if_neg hneg]
    obtain ⟨b, bs, hcons⟩ : ∃ b bs, argv (Nat.toDigits 10 n.natAbs) = b :: bs :=
      List.exists_cons_of_ne_nil (by simp [argv, Nat.toDigits_ne_nil])
    obtain ⟨hspace, hminus, hplus⟩ := not_sign_of_mem_argv
      (fun c hc => Nat.isDigit_of_mem_toDigits (by decide) (by decide) hc)
      (hcons ▸ List.mem_cons_self : b ∈ argv (Nat.toDigits 10 n.natAbs))
    rw [hcons] at hvalue htake hshown
    rw [hshown, strtol, List.dropWhile_cons, hspace]
    simp only [Bool.false_eq_true, if_false, hminus, hplus, htake, hvalue]
    rw [if_pos (by omega)]
    omega

/-- The same for an `int`. -/
theorem atoi_shown {n : ℤ} (hlow : -2 ^ 31 ≤ n) (hhigh : n < 2 ^ 31) : atoi (shown n) = n := by
  rw [atoi, strtol_shown (by omega) (by omega)]
  exact BitVec.toInt_ofInt_eq_self (by decide) hlow hhigh

/-- A `uint16_t` is read back. -/
theorem atoi_shown_uint16 (w : BitVec 16) : BitVec.ofInt 16 (atoi (shown w.toNat)) = w := by
  have hlt := w.isLt
  rw [atoi_shown (by omega) (by omega), BitVec.ofInt_natCast, BitVec.ofNat_toNat,
    BitVec.setWidth_eq]

/-! ## Lists of pairs -/

section Lookup

variable {α β : Type*} [BEq α] [LawfulBEq α] {l : List (α × β)} {a : α}

/-- What is found where no first component occurs twice. -/
theorem lookup_eq_some_iff_mem (hl : (l.map Prod.fst).Nodup) {b : β} :
    l.lookup a = some b ↔ (a, b) ∈ l := by
  induction l with
  | nil => simp
  | cons x l ih =>
    obtain ⟨c, d⟩ := x
    obtain ⟨hc, hl⟩ := List.nodup_cons.mp hl
    by_cases hac : a = c
    · subst hac
      have hout : (a, b) ∉ l := fun hb => hc (List.mem_map.mpr ⟨(a, b), hb, rfl⟩)
      simp [hout, eq_comm]
    · have hbeq : (a == c) = false := beq_eq_false_iff_ne.mpr hac
      simp [List.lookup_cons, hbeq, ih hl, hac]

/-- Pairs whose first component is another one make no difference. -/
theorem lookup_filter (p : α → Bool) (ha : p a = true) :
    (l.filter fun x => p x.1).lookup a = l.lookup a := by
  induction l with
  | nil => rfl
  | cons x l ih =>
    obtain ⟨c, d⟩ := x
    by_cases hac : a = c
    · subst hac
      simp [ha]
    · have hbeq : (a == c) = false := beq_eq_false_iff_ne.mpr hac
      cases hpc : p c <;> simp [List.lookup_cons, hpc, hbeq, ih]

end Lookup

namespace Config

/-! ## What a command line means -/

/-- The argument of the last option `c`, if it is given. -/
def argument (c : Char) (opts : List (Char × List Byte)) : Option (List Byte) :=
  opts.reverse.lookup c

/-- What is given later counts. -/
theorem argument_append (c : Char) (os ps : List (Char × List Byte)) :
    argument c (os ++ ps) = (argument c ps).or (argument c os) := by
  rw [argument, List.reverse_append, List.lookup_append]
  rfl

theorem argument_singleton (c : Char) (o : Char × List Byte) :
    argument c [o] = if o.1 = c then some o.2 else none := by
  obtain ⟨d, s⟩ := o
  by_cases hc : c = d
  · simp [argument, hc]
  · simp [argument, hc, Ne.symm hc]

/-- The options in two parts. -/
theorem parse_append (os ps : List (Char × List Byte)) (cfg : Config) :
    parse (os ++ ps) cfg = parse ps (parse os cfg).2 := by
  induction os generalizing cfg with
  | nil => rfl
  | cons o os ih => exact ih _

/-- The configuration that the options set. -/
def setBy (opts : List (Char × List Byte)) (cfg : Config) : Config where
  sFilePath := (argument 'f' opts).getD cfg.sFilePath
  sDirPath := (argument 'd' opts).getD cfg.sDirPath
  sOutputPath := (argument 'o' opts).getD cfg.sOutputPath
  vecCore := (argument 'c' opts).elim cfg.vecCore (List.map coreOf)
  skipFrame := (argument 's' opts).elim cfg.skipFrame fun s => BitVec.ofInt 16 (atoi s)
  getBuffer := (argument 'b' opts).elim cfg.getBuffer fun s => BitVec.ofInt 16 (atoi s)
  help := (argument 'h' opts).elim cfg.help fun _ => 1
  seclive := (argument 'l' opts).elim cfg.seclive atoi
  nProgramme := (argument 'p' opts).elim cfg.nProgramme fun s => BitVec.ofInt 16 (atoi s)

/-- One more option. -/
theorem parseOption_setBy (opts : List (Char × List Byte)) (cfg : Config) (opt : Char)
    (optarg : List Byte) :
    (setBy opts cfg).parseOption opt optarg = setBy (opts ++ [(opt, optarg)]) cfg := by
  unfold parseOption
  split <;> simp_all [setBy, argument_append, argument_singleton, pushCores_eq]

/-- **What a command line means.** -/
theorem parse_eq (opts : List (Char × List Byte)) (cfg : Config) :
    parse opts cfg = (true, setBy opts cfg) := by
  induction opts using List.reverseRecOn with
  | nil => rfl
  | append_singleton opts o ih =>
    obtain ⟨opt, optarg⟩ := o
    rw [parse_append, ih, ← parseOption_setBy]
    rfl

/-! ## Configurations as command lines -/

/-- The options that set a member. -/
def letters : List Char := ['h', 'o', 'c', 'p', 'f', 'd', 's', 'b', 'l']

/-- The character that stands for a core. -/
def coreChar (core : ℤ) : Byte := BitVec.ofInt 8 (core + 48)

/-- The configuration, written down as options. -/
def options (cfg : Config) : List (Char × List Byte) :=
  [('f', cfg.sFilePath), ('d', cfg.sDirPath), ('o', cfg.sOutputPath),
    ('c', cfg.vecCore.map coreChar), ('p', shown cfg.nProgramme.toNat),
    ('s', shown cfg.skipFrame.toNat), ('b', shown cfg.getBuffer.toNat), ('l', shown cfg.seclive)]
    ++ if cfg.help = 0 then [] else [('h', [])]

/-- The members have values that options can give them. -/
structure Expressible (cfg : Config) : Prop where
  /-- Each core is a character. -/
  cores : ∀ core ∈ cfg.vecCore, -128 ≤ core + 48 ∧ core + 48 < 128
  /-- `m_seclive` is an `int`. -/
  seclive : -2 ^ 31 ≤ cfg.seclive ∧ cfg.seclive < 2 ^ 31
  /-- `m_help` is a flag. -/
  help : cfg.help = 0 ∨ cfg.help = 1
  /-- No argument has a NUL in it. -/
  nul : 0 ∉ cfg.sFilePath ∧ 0 ∉ cfg.sDirPath ∧ 0 ∉ cfg.sOutputPath ∧ -48 ∉ cfg.vecCore

/-- The cores are read back. -/
theorem map_coreOf {cores : List ℤ} (h : ∀ core ∈ cores, -128 ≤ core + 48 ∧ core + 48 < 128) :
    (cores.map coreChar).map coreOf = cores := by
  rw [List.map_map]
  refine (List.map_congr_left fun core hcore => ?_).trans (List.map_id cores)
  obtain ⟨hlow, hhigh⟩ := h core hcore
  show (BitVec.ofInt 8 (core + 48)).toInt - 48 = core
  rw [BitVec.toInt_ofInt_eq_self (by decide) hlow hhigh, Int.add_sub_cancel]

/-- No option is written down twice. -/
theorem nodup_options (cfg : Config) : (cfg.options.map Prod.fst).Nodup := by
  unfold options
  split <;> simp

/-- Each option that is written down once is found, in any order and among others. -/
theorem argument_eq_lookup {os ps : List (Char × List Byte)}
    (hperm : (os.filter fun o => o.1 ∈ letters).Perm ps) (hps : (ps.map Prod.fst).Nodup)
    {c : Char} (hc : c ∈ letters) : argument c os = ps.lookup c := by
  have hread : (os.reverse.filter fun o => o.1 ∈ letters).Perm ps := by
    rw [List.filter_reverse]
    exact (List.reverse_perm _).trans hperm
  have hnodup : ((os.reverse.filter fun o => o.1 ∈ letters).map Prod.fst).Nodup :=
    (hread.map Prod.fst).nodup_iff.mpr hps
  rw [argument, ← lookup_filter (fun c => decide (c ∈ letters)) (decide_eq_true hc)]
  ext s
  rw [lookup_eq_some_iff_mem hnodup, lookup_eq_some_iff_mem hps, hread.mem_iff]

/-- **Round trip.** A configuration that options can express is written down as options. These are
given in any order, possibly with others that `parse` ignores, and behind any earlier ones (only
`-h` cannot be taken back). Then `parse` gives the configuration, whatever `m_nProgramme` held
before. -/
theorem parse_options {cfg : Config} (h : cfg.Expressible) {earlier later : List (Char × List Byte)}
    (hlater : (later.filter fun o => o.1 ∈ letters).Perm cfg.options)
    (hearlier : cfg.help = 0 → ∀ o ∈ earlier, o.1 ≠ 'h') (nProgramme : BitVec 16) :
    parse (earlier ++ later) (construct nProgramme) = (true, cfg) := by
  have hfound : ∀ {c s}, c ∈ letters → cfg.options.lookup c = some s →
      argument c (earlier ++ later) = some s := by
    intro c s hc hs
    rw [argument_append, argument_eq_lookup hlater (nodup_options cfg) hc, hs]
    rfl
  have hhelp : (argument 'h' (earlier ++ later)).elim 0 (fun _ => 1) = cfg.help := by
    rcases h.help with h0 | h1
    · have hlast : argument 'h' later = none := by
        rw [argument_eq_lookup hlater (nodup_options cfg) (by decide)]
        simp [options, h0]
      have hfirst : argument 'h' earlier = none := by
        rw [argument, List.lookup_eq_none_iff]
        intro o ho
        exact bne_iff_ne.mpr (hearlier h0 o (List.mem_reverse.mp ho)).symm
      rw [argument_append, hlast, hfirst, h0]
      rfl
    · have hlast : cfg.options.lookup 'h' = some [] := by
        rw [options, h1]
        rfl
      rw [hfound (by decide) hlast, h1]
      rfl
  have hf := hfound (c := 'f') (by decide) rfl
  have hd := hfound (c := 'd') (by decide) rfl
  have ho := hfound (c := 'o') (by decide) rfl
  have hc := hfound (c := 'c') (by decide) rfl
  have hp := hfound (c := 'p') (by decide) rfl
  have hs := hfound (c := 's') (by decide) rfl
  have hb := hfound (c := 'b') (by decide) rfl
  have hl := hfound (c := 'l') (by decide) rfl
  have hconstructed : (construct nProgramme).help = 0 := rfl
  rw [parse_eq, setBy, hf, hd, ho, hc, hp, hs, hb, hl, hconstructed, hhelp]
  simp only [Option.getD_some, Option.elim_some, map_coreOf h.cores, atoi_shown_uint16,
    atoi_shown h.seclive.1 h.seclive.2]

/-- `-l 2 -t x -c 8`, and behind them the options of a configuration with `-l -5` and `-c 07`. -/
theorem parse_options_overridden :
    parse ([('l', shown 2), ('t', [120]), ('c', [56])] ++
        options ⟨[47, 97], [], [47], [0, 7], 3, 65535, 0, -5, 9⟩) (construct 77)
      = (true, ⟨[47, 97], [], [47], [0, 7], 3, 65535, 0, -5, 9⟩) :=
  parse_options ⟨by decide, by decide, Or.inl rfl, by decide⟩ (.refl _) (fun _ => by decide) 77

end Config

end FfTest.TaskPool
