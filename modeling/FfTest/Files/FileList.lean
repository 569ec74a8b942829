import Mathlib.Data.Int.Notation
import Mathlib.Data.List.Forall2
import Mathlib.Data.Nat.Notation

/-! # `FileList::search` with `ff_filter`

The files of a directory are collected under paths put together as `name + d_name`, in `search` and
once more in `ff_filter`. Where `name` does not end in a slash such a path leads beside the
directory instead of into it; and the number that `search` returns is never counted.
`search_effect` says what is collected, and `collects_iff` when that is what a collection of the
directory should give. -/

namespace FfTest.Files

/-! ## Directories and paths -/

/-- `st_mode & S_IFMT`, as far as `ff_filter` tells its values apart. -/
inductive FileType
  /-- `S_IFREG`. -/
  | regular
  /-- Any other value. -/
  | other
  deriving DecidableEq, Repr

/-- The file system as far as it is looked at. -/
structure FileSystem where
  /-- `opendir`, and the names that `readdir` then returns, or `none` if it fails. -/
  opendir : String → Option (List String)
  /-- The file that a path leads to. -/
  resolve : String → Option ℕ
  /-- The type of a file. -/
  fileType : ℕ → FileType

namespace FileSystem

variable (fs : FileSystem)

/-- `stat`, or `none` if it fails. -/
def stat (path : String) : Option FileType := (fs.resolve path).map fs.fileType

/-- The path leads to a regular file. -/
def IsRegular (path : String) : Prop := fs.stat path = some .regular

instance (path : String) : Decidable (fs.IsRegular path) :=
  inferInstanceAs (Decidable (_ = _))

end FileSystem

/-- `.` and `..`. -/
def IsDots (dName : String) : Prop := dName = "." ∨ dName = ".."

instance (dName : String) : Decidable (IsDots dName) := inferInstanceAs (Decidable (_ ∨ _))

/-! ## The source -/

/-- `filter_t`: whether the entry with this `d_name` of the directory is left out. -/
abbrev Filter := String → String → Bool

/-- `FileList`. -/
structure FileList where
  /-- `m_lstFiles`. -/
  files : List String
  /-- `m_filter`. -/
  filter : Filter

/-- `filter_default`. -/
def filterDefault : Filter := fun _ _ => false

/-- `ff_filter`. -/
def ffFilter (fs : FileSystem) : Filter := fun cwd dName =>
  match fs.stat (cwd ++ dName) with
  | none => true
  | some .regular => false
  | some .other => true

namespace FileList

/-- `FileList::FileList()`. -/
def construct : FileList := ⟨[], filterDefault⟩

/-- `FileList::set_filter`. -/
def setFilter (filter : Filter) (l : FileList) : FileList := { l with filter }

/-- `FileList::add`. -/
def add (name : String) (l : FileList) : Bool × FileList :=
  (true, { l with files := l.files ++ [name] })

/-- The loop of `search` over what `readdir` returns. -/
def readEntries (name : String) : List String → FileList → FileList
  | [], l => l
  | dName :: ds, l =>
    if IsDots dName then readEntries name ds l
    else if l.filter name dName then readEntries name ds l
    else readEntries name ds { l with files := l.files ++ [name ++ dName] }

/-- `FileList::search`. -/
def search (fs : FileSystem) (name : String) (l : FileList) : ℤ × FileList :=
  -- `nFile` is returned as it was initialised
  let nFile := 0
  match fs.opendir name with
  | none => (-1, l)
  | some ds => (nFile, readEntries name ds l)

end FileList

/-- `intput_collect`, with `m_sDirPath` and `m_sFilePath` of the configuration. -/
def intputCollect (fs : FileSystem) (dirPath filePath : String) (l : FileList) : ℤ × FileList :=
  let l := l.setFilter (ffFilter fs)
  let l := if dirPath ≠ "" then (l.search fs dirPath).2 else l
  let l := if filePath ≠ "" then (l.add filePath).2 else l
  if l.files = [] then (-1, l) else (0, l)

/-! ## What a collection should give -/

/-- Of the names `ds`, `.` and `..` apart, those whose paths lead to regular files. -/
def regularAt (fs : FileSystem) (path : String → String) (ds : List String) : List String :=
  ds.filter fun d => ¬ IsDots d ∧ fs.IsRegular (path d)

/-- The names of the regular files in the directory `name`, of which `readdir` returns `ds`. -/
abbrev regularFiles (fs : FileSystem) (name : String) (ds : List String) : List String :=
  regularAt fs (name ++ "/" ++ ·) ds

/-- A call of `search` that has turned `l` into `out` has collected the directory `name`: to the
list it has added one path for each regular file, in order, which leads to that file, and it has
returned their number. If the directory cannot be opened it has returned -1 and added nothing. -/
def Collects (fs : FileSystem) (name : String) (l : FileList) (out : ℤ × FileList) : Prop :=
  match fs.opendir name with
  | none => out.1 = -1 ∧ out.2.files = l.files
  | some ds => ∃ paths, out.2.files = l.files ++ paths ∧ out.1 = paths.length ∧
      List.Forall₂ (fun path d => fs.resolve path = fs.resolve (name ++ "/" ++ d)) paths
        (regularFiles fs name ds)

/-! ## What `search` does -/

/-- `ff_filter` leaves out whatever `name + d_name` does not lead to a regular file for. -/
theorem ffFilter_eq_true_iff (fs : FileSystem) (cwd dName : String) :
    ffFilter fs cwd dName = true ↔ ¬ fs.IsRegular (cwd ++ dName) := by
  unfold ffFilter FileSystem.IsRegular
  cases fs.stat (cwd ++ dName) with
  | none => simp
  | some t => cases t <;> simp

/-- **The loop** adds the paths of the entries that the filter passes, in order. -/
theorem readEntries_eq (name : String) (ds : List String) (l : FileList) :
    l.readEntries name ds = { l with
      files := l.files ++ (ds.filter fun d => ¬ IsDots d ∧ l.filter name d = false).map
        (name ++ ·) } := by
  induction ds generalizing l with
  | nil => simp [FileList.readEntries]
  | cons d ds ih =>
    rw [FileList.readEntries]
    by_cases hdots : IsDots d
    · rw [if_pos hdots, ih, List.filter_cons_of_neg (by simp [hdots])]
    rw [if_neg hdots]
    by_cases hfilter : l.filter name d = true
    · rw [if_pos hfilter, ih, List.filter_cons_of_neg (by simp [hfilter])]
    · rw [if_neg hfilter, ih, List.filter_cons_of_pos (by simpa [hdots] using hfilter),
        List.map_cons, List.append_assoc]
      rfl

/-- **`search` with `ff_filter`** of a directory that can be opened. -/
theorem search_effect {fs : FileSystem} {name : String} {ds : List String}
    (hopen : fs.opendir name = some ds) (files : List String) :
    FileList.search fs name ⟨files, ffFilter fs⟩
      = (0, ⟨files ++ (regularAt fs (name ++ ·) ds).map (name ++ ·), ffFilter fs⟩) := by
  unfold FileList.search
  rw [hopen]
  dsimp only
  rw [readEntries_eq]
  have hsame : (ds.filter fun d => ¬ IsDots d ∧ ffFilter fs name d = false)
      = regularAt fs (name ++ ·) ds := by
    apply List.filter_congr
    intro d _
    have hfilter := ffFilter_eq_true_iff fs name d
    by_cases hregular : fs.IsRegular (name ++ d)
    · simp [Bool.eq_false_iff, hfilter, hregular]
    · simp [Bool.eq_false_iff, hfilter, hregular]
  rw [hsame]

/-- No name is left where no path leads to a regular file. -/
theorem regularAt_eq_nil_iff {fs : FileSystem} {path : String → String} {ds : List String} :
    regularAt fs path ds = [] ↔ ∀ d ∈ ds, ¬ IsDots d → ¬ fs.IsRegular (path d) := by
  unfold regularAt
  simp

/-- Under a path in which one slash more makes no difference, `search` adds one path for each
regular file of the directory. Only the number returned is wrong. -/
theorem search_of_slash {fs : FileSystem} {name : String} {ds : List String}
    (hopen : fs.opendir name = some ds)
    (hslash : ∀ d, fs.resolve (name ++ "/" ++ d) = fs.resolve (name ++ d)) (files : List String) :
    FileList.search fs name ⟨files, ffFilter fs⟩
      = (0, ⟨files ++ (regularFiles fs name ds).map (name ++ ·), ffFilter fs⟩) := by
  have hregular : ∀ d, fs.IsRegular (name ++ "/" ++ d) ↔ fs.IsRegular (name ++ d) := by
    intro d
    unfold FileSystem.IsRegular FileSystem.stat
    rw [hslash]
  have hsame : regularFiles fs name ds = regularAt fs (name ++ ·) ds := by
    apply List.filter_congr
    intro d _
    simp only [hregular]
  rw [search_effect hopen, hsame]

/-- What `intput_collect` leaves in the list, whatever filter that had before. -/
theorem intputCollect_files {fs : FileSystem} {dirPath : String} (hdir : dirPath ≠ "")
    {ds : List String} (hopen : fs.opendir dirPath = some ds) (filePath : String) (l : FileList) :
    (intputCollect fs dirPath filePath l).2.files
      = l.files ++ (regularAt fs (dirPath ++ ·) ds).map (dirPath ++ ·)
        ++ if filePath ≠ "" then [filePath] else [] := by
  have hsearch := search_effect hopen l.files
  simp only [intputCollect, FileList.setFilter, if_pos hdir, hsearch]
  by_cases hfile : filePath ≠ ""
  · rw [if_pos hfile, if_pos hfile]
    split <;> rfl
  · rw [if_neg hfile, if_neg hfile, List.append_nil]
    split <;> rfl

/-- **When the directory is collected.** For every file system, directory path and initial list:
`search` with `ff_filter` collects the directory iff it cannot be opened, or none of its names is
that of a regular file, neither in the directory nor at `name + d_name`. -/
theorem collects_iff (fs : FileSystem) (name : String) (files : List String) :
    Collects fs name ⟨files, ffFilter fs⟩ (FileList.search fs name ⟨files, ffFilter fs⟩) ↔
      ∀ ds, fs.opendir name = some ds → ∀ d ∈ ds, ¬ IsDots d →
        ¬ fs.IsRegular (name ++ "/" ++ d) ∧ ¬ fs.IsRegular (name ++ d) := by
  cases hopen : fs.opendir name with
  | none =>
    have hsearch : FileList.search fs name ⟨files, ffFilter fs⟩ = (-1, ⟨files, ffFilter fs⟩) := by
      unfold FileList.search
      rw [hopen]
    unfold Collects
    rw [hopen, hsearch]
    exact iff_of_true ⟨rfl, rfl⟩ (by simp)
  | some ds =>
    unfold Collects
    rw [hopen, search_effect hopen]
    dsimp only
    constructor
    · -- the number returned is 0, so nothing may have been there to be added
      rintro ⟨paths, hfiles, hcount, hpaths⟩ ds' hds
      obtain rfl := Option.some.inj hds
      obtain rfl : paths = [] := by
        apply List.eq_nil_of_length_eq_zero
        exact_mod_cast hcount.symm
      have hregular := regularAt_eq_nil_iff.mp (List.forall₂_nil_left_iff.mp hpaths)
      have hfound : regularAt fs (name ++ ·) ds = [] := by simpa using hfiles
      intro d hd hdots
      exact ⟨hregular d hd hdots, regularAt_eq_nil_iff.mp hfound d hd hdots⟩
    · intro hnone
      -- nothing is added and nothing is to be added
      have hempty := hnone ds rfl
      have hregular : regularFiles fs name ds = [] :=
        regularAt_eq_nil_iff.mpr fun d hd hdots => (hempty d hd hdots).1
      have hfound : regularAt fs (name ++ ·) ds = [] :=
        regularAt_eq_nil_iff.mpr fun d hd hdots => (hempty d hd hdots).2
      rw [hregular, hfound]
      exact ⟨[], by simp, rfl, .nil⟩

/-- A directory `videos` with one file, `a`. -/
def oneFile : FileSystem where
  opendir path := if path = "videos" ∨ path = "videos/" then some [".", "..", "a"] else none
  resolve path := if path = "videos/a" ∨ path = "videos//a" then some 7 else none
  fileType _ := .regular

/-- Neither `videos` nor `videos/` is collected: under the first the file is not found, and under
both its number is not counted. -/
theorem not_collects :
    (FileList.search oneFile "videos" ⟨[], ffFilter oneFile⟩).2.files = [] ∧
      (FileList.search oneFile "videos/" ⟨[], ffFilter oneFile⟩).2.files = ["videos/a"] ∧
      (FileList.search oneFile "videos/" ⟨[], ffFilter oneFile⟩).1 = 0 ∧
      ∀ name, name = "videos" ∨ name = "videos/" → ¬ Collects oneFile name ⟨[], ffFilter oneFile⟩
        (FileList.search oneFile name ⟨[], ffFilter oneFile⟩) := by
  refine ⟨by decide, by decide, by decide, ?_⟩
  rintro name (rfl | rfl) ⟨paths, hfiles, hcount, hpaths⟩
  · -- the path `videosa` leads nowhere
    have hnone : [] = paths := hfiles
    have hone : regularFiles oneFile "videos" [".", "..", "a"] = ["a"] := by decide
    rw [← hnone, hone] at hpaths
    cases hpaths
  · have hadded : ["videos/a"] = paths := hfiles
    rw [← hadded] at hcount
    exact absurd hcount (by decide)

end FfTest.Files
