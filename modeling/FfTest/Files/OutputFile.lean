import FfTest.Files.MFile
import FfTest.Foundations.Text
import FfTest.Lifecycle.DecoderObject

/-! # `output_file_create`

An output file is named after the core, the input file and the size of the pictures. Written out,
the name tells all four of them (`fileName_injective`); but the path goes through a buffer of 256
bytes, and what does not fit is cut off. `created_ne_iff` says which files are still told apart. A
character of a string stands for a byte. -/

namespace FfTest.Files

/-! ## The source -/

/-- `get_file_name`. -/
def getFileName (path : String) : String :=
  match strrchr (cStr path) '/' with
  | some p => String.ofList p.tail
  | none => path

/-- `output_file_create` with object `i`, where `m_sOutputPath` of the configuration is given and
`open` of the system returns `fd`. -/
def outputFileCreate (outputPath : String) (core : BitVec 8) (i : ℕ) (f : MFile) (path : String)
    (dc : Lifecycle.Decoder) (fd : ℤ) (sys : System) : ℤ × MFile × System :=
  let fname := getFileName path
  if fname = "" ∨ outputPath = "" then (-1, f, sys)
  else
    let fullpath := snprintf 256 "%s/%d_%s_%dx%d.yuv" [.str (cStr outputPath), .int core.toNat,
      .str (cStr fname), .int dc.width.toNat, .int dc.height.toNat]
    f.create i (String.ofList fullpath) fd sys

/-- A call of `output_file_create`: its arguments, and where it is made. -/
structure OutputCall where
  /-- `core`. -/
  core : BitVec 8
  /-- The number of the object `f`. -/
  i : ℕ
  /-- The object `f`. -/
  f : MFile
  /-- `path`. -/
  path : String
  /-- `dc`. -/
  dc : Lifecycle.Decoder
  /-- What `open` of the system returns. -/
  fd : ℤ
  /-- The system. -/
  sys : System

/-- The call, with this `m_sOutputPath`. -/
def OutputCall.run (outputPath : String) (c : OutputCall) : ℤ × MFile × System :=
  outputFileCreate outputPath c.core c.i c.f c.path c.dc c.fd c.sys

/-- The path that was to be opened last, when the call has been made. -/
def OutputCall.created (outputPath : String) (c : OutputCall) : Option String :=
  (c.run outputPath).2.2.paths.head?

/-! ## What a file is named after -/

/-- The base name of a path: what stands behind the last `/`. -/
def baseName (path : String) : List Char := (cStr path).rtakeWhile (· ≠ '/')

/-- What an output file is named after. -/
structure OutputKey where
  /-- The core. -/
  core : BitVec 8
  /-- The base name of the input path. -/
  base : List Char
  /-- The width of the decoder. -/
  width : BitVec 16
  /-- The height of the decoder. -/
  height : BitVec 16
  deriving DecidableEq, Repr

/-- What the output file of a call is named after. -/
def OutputCall.key (c : OutputCall) : OutputKey :=
  ⟨c.core, baseName c.path, c.dc.width, c.dc.height⟩

/-- The part of the name for the size of the pictures. -/
def OutputKey.size (k : OutputKey) : List Char :=
  decimal k.width.toNat ++ 'x' :: (decimal k.height.toNat ++ ".yuv".toList)

/-- The name of the file in the directory, written out. -/
def OutputKey.fileName (k : OutputKey) : List Char :=
  decimal k.core.toNat ++ '_' :: (k.base ++ '_' :: k.size)

/-- `get_file_name` gives the base name. -/
theorem cStr_getFileName (path : String) : cStr (getFileName path) = baseName path := by
  have helim := elim_strrchr (cStr path) '/'
  rw [getFileName, baseName, ← helim]
  cases hp : strrchr (cStr path) '/' with
  | none => rfl
  | some p =>
    -- a part of a string of C holds no `NUL`
    obtain ⟨cs, ds, hpath, rfl, -⟩ := strrchr_eq_some hp
    refine cStr_ofList fun hmem => nul_not_mem_cStr path ?_
    rw [hpath]
    exact List.mem_append_right cs (List.mem_cons_of_mem '/' hmem)

/-- There is no `_` in the size. -/
theorem OutputKey.not_mem_size (k : OutputKey) : '_' ∉ k.size := by
  intro hmem
  rw [size, List.mem_append, List.mem_cons, List.mem_append] at hmem
  rcases hmem with hmem | hmem | hmem | hmem
  · exact not_mem_decimal rfl _ hmem
  · cases hmem
  · exact not_mem_decimal rfl _ hmem
  · revert hmem
    decide

/-- The size can be read back. -/
theorem OutputKey.size_inj {k l : OutputKey} :
    k.size = l.size ↔ k.width = l.width ∧ k.height = l.height := by
  rw [size, size, append_sep_inj (not_mem_decimal rfl _) (not_mem_decimal rfl _),
    List.append_left_inj, decimal_inj, decimal_inj, BitVec.toNat_inj, BitVec.toNat_inj]

/-- **A name written out tells what the file is named after**: the core is read from the left, and
the size from the right, so that underscores in the base name do not matter. -/
theorem OutputKey.fileName_injective : Function.Injective OutputKey.fileName := by
  rintro ⟨core, base, width, height⟩ l heq
  rw [fileName, fileName, append_sep_inj (not_mem_decimal rfl _) (not_mem_decimal rfl _),
    append_sep_inj_right (not_mem_size _) (not_mem_size _), decimal_inj, BitVec.toNat_inj,
    size_inj] at heq
  obtain ⟨hcore, hbase, hwidth, hheight⟩ := heq
  cases l
  cases hcore
  cases hbase
  cases hwidth
  cases hheight
  rfl

/-- Names for the same core and the same base name agree as far as the size. -/
theorem OutputKey.commonPrefix_fileName {k l : OutputKey} (hcore : k.core = l.core)
    (hbase : k.base = l.base) :
    commonPrefix k.fileName l.fileName =
      (decimal k.core.toNat).length + 1 + (k.base.length + 1 + commonPrefix k.size l.size) := by
  rw [fileName, fileName, hcore, hbase, FfTest.commonPrefix_append, commonPrefix_cons_self,
    FfTest.commonPrefix_append, commonPrefix_cons_self]
  omega

/-- A path without a slash is its own base name. -/
theorem baseName_ofList {as : List Char} (hnul : Char.ofNat 0 ∉ as) (hslash : '/' ∉ as) :
    baseName (String.ofList as) = as := by
  rw [baseName, cStr_ofList hnul, List.rtakeWhile_eq_self_iff]
  exact fun c hc => decide_eq_true fun h => hslash (h ▸ hc)

/-! ## The path -/

/-- What the format gives, before it is cut off. -/
theorem printf_fullpath (dir base : List Char) (core width height : ℤ) :
    printf "%s/%d_%s_%dx%d.yuv".toList
        [.str dir, .int core, .str base, .int width, .int height] =
      dir ++ '/' :: (decimal core ++ '_' :: (base ++ '_' :: (decimal width ++ 'x' ::
        (decimal height ++ ".yuv".toList)))) := by
  rfl

/-- A call succeeds where there is a directory and a base name, and the system opens the file. -/
theorem OutputCall.run_of_open {outputPath : String} {c : OutputCall} (hdir : outputPath ≠ "")
    (hbase : baseName c.path ≠ []) (hfd : 0 ≤ c.fd) : (c.run outputPath).1 = 0 := by
  have hname : getFileName c.path ≠ "" := by
    intro h
    rw [← cStr_getFileName, h] at hbase
    exact hbase rfl
  rw [run, outputFileCreate, if_neg (not_or.mpr ⟨hname, hdir⟩)]
  simp only [MFile.create, if_neg (Int.not_lt.mpr hfd)]

/-- **What a call opens.** A call that succeeds has opened the path of the file, cut off after 255
bytes. -/
theorem OutputCall.created_of_run {outputPath : String} {c : OutputCall}
    (h : (c.run outputPath).1 = 0) :
    c.created outputPath =
      some (String.ofList ((cStr outputPath ++ '/' :: c.key.fileName).take 255)) := by
  rw [run, outputFileCreate] at h
  rw [created, run, outputFileCreate]
  by_cases hempty : getFileName c.path = "" ∨ outputPath = ""
  · rw [if_pos hempty] at h
    cases h
  · rw [if_neg hempty] at h ⊢
    simp only [MFile.create, System.open] at h ⊢
    by_cases hfd : c.fd < 0
    · rw [if_pos hfd] at h
      cases h
    · simp only [if_neg hfd, List.head?_cons]
      rw [snprintf, printf_fullpath, cStr_getFileName]
      rfl

/-- **Which output files are told apart.** For every output directory and any two calls that
succeed and are to be named after something different: the calls create different paths iff, with
the directory and the slash before it, what their names have in common ends within 254 bytes. -/
theorem created_ne_iff {outputPath : String} {a b : OutputCall} (ha : (a.run outputPath).1 = 0)
    (hb : (b.run outputPath).1 = 0) (hne : a.key ≠ b.key) :
    a.created outputPath ≠ b.created outputPath ↔
      (cStr outputPath).length + 1 + commonPrefix a.key.fileName b.key.fileName < 255 := by
  have hname : a.key.fileName ≠ b.key.fileName := OutputKey.fileName_injective.ne hne
  have hpath : cStr outputPath ++ '/' :: a.key.fileName ≠
      cStr outputPath ++ '/' :: b.key.fileName := by
    intro heq
    exact hname (List.cons.inj (List.append_cancel_left heq)).2
  rw [OutputCall.created_of_run ha, OutputCall.created_of_run hb, Ne, Option.some_inj,
    String.ofList_inj, take_eq_take_iff, or_iff_right hpath, commonPrefix_append,
    commonPrefix_cons_self, not_le, ← Nat.add_assoc, Nat.add_right_comm]

/-- A call for pictures of 480 lines. -/
def pictureCall (core : BitVec 8) (path : String) (width : BitVec 16) : OutputCall :=
  ⟨core, 0, .construct, path, { Lifecycle.Decoder.construct with width, height := 480 }, 3,
    ⟨[], [], []⟩⟩

/-- Two tasks have different files for the same input. -/
theorem created_ne_twoCores :
    (pictureCall 0 "in/a_1.h264" 640).created "out" ≠
      (pictureCall 1 "in/a_1.h264" 640).created "out" :=
  (created_ne_iff (by decide) (by decide) (by decide)).mpr (by decide)

/-- A base name of 250 bytes. -/
def longName : List Char := List.replicate 250 'a'

/-- It is the base name of the path that consists of nothing else. -/
theorem baseName_longName : baseName (String.ofList longName) = longName := by
  refine baseName_ofList (fun h => ?_) (fun h => ?_)
  · exact absurd (List.eq_of_mem_replicate h) (by decide)
  · exact absurd (List.eq_of_mem_replicate h) (by decide)

/-- A call with this name succeeds. -/
theorem run_longName (width : BitVec 16) :
    ((pictureCall 1 (String.ofList longName) width).run "out").1 = 0 := by
  refine OutputCall.run_of_open (by decide) ?_ (Int.natCast_nonneg 3)
  rw [pictureCall, baseName_longName]
  exact List.cons_ne_nil _ _

/-- With such a name the size is cut off: pictures of 640 and of 1280 columns go to the same
file. -/
theorem not_created_ne :
    ¬ ∀ (outputPath : String) (a b : OutputCall), (a.run outputPath).1 = 0 →
      (b.run outputPath).1 = 0 → a.key ≠ b.key → a.created outputPath ≠ b.created outputPath := by
  intro hall
  refine hall "out" _ _ (run_longName 640) (run_longName 1280) (fun hkey => ?_) ?_
  · exact absurd (congrArg OutputKey.width hkey) (by decide)
  · rw [OutputCall.created_of_run (run_longName 640), OutputCall.created_of_run (run_longName 1280),
      Option.some_inj, String.ofList_inj, take_eq_take_iff, commonPrefix_append,
      commonPrefix_cons_self]
    right
    have hcommon := OutputKey.commonPrefix_fileName
      (k := (pictureCall 1 (String.ofList longName) 640).key)
      (l := (pictureCall 1 (String.ofList longName) 1280).key) rfl rfl
    have hbase : (pictureCall 1 (String.ofList longName) 640).key.base.length = 250 := by
      rw [OutputCall.key, pictureCall, baseName_longName, longName, List.length_replicate]
    have hdir : (cStr "out").length = 3 := rfl
    have hcore : (decimal (pictureCall 1 (String.ofList longName) 640).key.core.toNat).length = 1 :=
      rfl
    omega

end FfTest.Files
