import FfTest.Foundations.ByteMemory
import Mathlib.Algebra.Order.Ring.Int

/-! # `Config::parse`

`getopt` hands over the options one by one, each with its argument; a string is given here by the
bytes before its `NUL`, and `char` is a signed byte. Every character of the argument of `-c` is put
into `m_vecCore` as a core (`parse_vecCore`), whatever it is. -/

namespace FfTest.TaskPool

/-! ## Characters and numbers -/

/-- `isspace`. -/
def isSpace (c : Byte) : Bool := c = 32 || (9 ≤ c.toNat && c.toNat ≤ 13)

/-- Whether a byte is a decimal digit. -/
def isDigit (c : Byte) : Bool := 48 ≤ c.toNat && c.toNat ≤ 57

/-- The number that decimal digits spell. -/
def digitsValue (digits : List Byte) : ℤ := digits.foldl (fun n c => 10 * n + (c.toNat - 48)) 0

/-- `strtol` to the base of 10, which stops at the ends of `long`. -/
def strtol (s : List Byte) : ℤ :=
  let s := s.dropWhile isSpace
  -- a minus, a plus, or no sign
  let (negative, s) := match s with
    | c :: cs => if c = 45 then (true, cs) else if c = 43 then (false, cs) else (false, s)
    | [] => (false, s)
  let n := digitsValue (s.takeWhile isDigit)
  if negative then if n ≤ 2 ^ 63 then -n else -2 ^ 63
  else if n < 2 ^ 63 then n else 2 ^ 63 - 1

/-- `atoi`: what `strtol` returns, as an `int`. -/
def atoi (s : List Byte) : ℤ := (BitVec.ofInt 32 (strtol s)).toInt

/-! ## The source -/

/-- `Config`. -/
structure Config where
  /-- `m_sFilePath`. -/
  sFilePath : List Byte
  /-- `m_sDirPath`. -/
  sDirPath : List Byte
  /-- `m_sOutputPath`. -/
  sOutputPath : List Byte
  /-- `m_vecCore`. -/
  vecCore : List ℤ
  /-- `m_skip_frame`. -/
  skipFrame : BitVec 16
  /-- `m_get_buffer`. -/
  getBuffer : BitVec 16
  /-- `m_help`. -/
  help : BitVec 16
  /-- `m_seclive`. -/
  seclive : ℤ
  /-- `m_nProgramme`. -/
  nProgramme : BitVec 16
  deriving DecidableEq, Repr

namespace Config

/-- `Config::Config`, in memory that holds `nProgramme`: this is not initialised. -/
def construct (nProgramme : BitVec 16) : Config :=
  ⟨[], [], [], [1], 0, 0, 0, 0, nProgramme⟩

/-- The loop over the argument of `-c`. -/
def pushCores : List Byte → List ℤ → List ℤ
  | [], vecCore => vecCore
  | c :: cs, vecCore => pushCores cs (vecCore ++ [c.toInt - 48])

/-- One round of the loop in `parse`: `getopt` returns `opt`. -/
def parseOption (cfg : Config) (opt : Char) (optarg : List Byte) : Config :=
  match opt with
  | 'h' => { cfg with help := 1 }
  | 'o' => { cfg with sOutputPath := optarg }
  | 't' => cfg
  | 'c' => { cfg with vecCore := pushCores optarg [] }
  | 'p' => { cfg with nProgramme := BitVec.ofInt 16 (atoi optarg) }
  | 'f' => { cfg with sFilePath := optarg }
  | 'd' => { cfg with sDirPath := optarg }
  | 's' => { cfg with skipFrame := BitVec.ofInt 16 (atoi optarg) }
  | 'b' => { cfg with getBuffer := BitVec.ofInt 16 (atoi optarg) }
  | 'l' => { cfg with seclive := atoi optarg }
  | _ => cfg

/-- `Config::parse`, where `getopt` returns these options with these arguments. -/
def parse : List (Char × List Byte) → Config → Bool × Config
  | [], cfg => (true, cfg)
  | (opt, optarg) :: opts, cfg => parse opts (cfg.parseOption opt optarg)

/-- The argument of the last `-c`, if there is one. -/
def coreArgument : List (Char × List Byte) → Option (List Byte)
  | [] => none
  | (opt, optarg) :: opts => (coreArgument opts).or (if opt = 'c' then some optarg else none)

/-! ## The cores -/

/-- The number that a character of the argument stands for. -/
def coreOf (c : Byte) : ℤ := c.toInt - 48

/-- Every character is put behind those already there. -/
theorem pushCores_eq (cs : List Byte) (vecCore : List ℤ) :
    pushCores cs vecCore = vecCore ++ cs.map coreOf := by
  induction cs generalizing vecCore with
  | nil => exact (List.append_nil vecCore).symm
  | cons c cs ih =>
    rw [pushCores, ih, List.map_cons, List.append_assoc]
    rfl

/-- Of the options only `-c` changes the cores. -/
theorem parseOption_vecCore (cfg : Config) (opt : Char) (optarg : List Byte) :
    (cfg.parseOption opt optarg).vecCore =
      if opt = 'c' then optarg.map coreOf else cfg.vecCore := by
  unfold parseOption
  split <;> simp_all [pushCores_eq]

/-- **The cores of a command line.** They are the characters of the last `-c`; without one they stay
as they are. -/
theorem parse_vecCore (opts : List (Char × List Byte)) (cfg : Config) :
    (parse opts cfg).2.vecCore = (coreArgument opts).elim cfg.vecCore (List.map coreOf) := by
  induction opts generalizing cfg with
  | nil => rfl
  | cons o opts ih =>
    obtain ⟨opt, optarg⟩ := o
    rw [parse, ih, coreArgument, parseOption_vecCore]
    cases coreArgument opts with
    | some s => rfl
    | none =>
      by_cases hopt : opt = 'c'
      · simp [hopt]
      · simp [hopt]

end Config

end FfTest.TaskPool
