import FfTest.Files.Descriptors
import FfTest.Files.RecvFrame

/-! # The files behind the descriptors

`MFile::read` and `MFile::write` go to the file behind a descriptor. `Disk` puts the files of the
system under the objects: contents by path, and for each descriptor a path, an offset and whether it
was opened for writing. Any number of objects read and write in any order, and the system may take
or return fewer bytes than asked for.

`Disk.Good` holds as long as descriptors are owned as they should be and no file is emptied while it
is open: then every writer is at the end of its file and is the only one (`Disk.Good.step_moved`,
`Disk.Good.step_spares`). -/

namespace FfTest.Files

/-! ## The files of the system -/

/-- What a descriptor stands for. -/
structure OpenFile where
  /-- The file. -/
  path : String
  /-- Where the next byte is read or written. -/
  offset : ℕ
  /-- Whether the file was opened for writing. -/
  writable : Bool
  deriving DecidableEq, Repr

/-- The objects, and the files of the system. -/
structure Disk where
  /-- The objects and their descriptors. -/
  objs : State
  /-- What is in the files that there are. -/
  contents : String → Option (List Byte)
  /-- What the descriptors stand for. -/
  opened : ℤ → Option OpenFile

/-- What is done, with the answers of the system. -/
inductive Call
  /-- An object is made or destroyed, opened or closed. -/
  | object (e : Event)
  /-- `MFile::write`; `write` of the system takes `n` bytes, or fails. -/
  | write (i : ℕ) (mem : ℤ → Byte) (src : ℤ) (count : BitVec 32) (n : Option (BitVec 32))
  /-- `MFile::read`; `read` of the system returns `n` bytes, or fails. -/
  | read (i : ℕ) (count : BitVec 32) (n : Option (BitVec 32))

namespace Disk

/-- No object, and these files. -/
def start (contents : String → Option (List Byte)) : Disk := ⟨.start, contents, fun _ => none⟩

/-- What `open`, `lseek` and `close` of the system do in an operation on an object. -/
def system (d : Disk) : Event → Disk
  | .construct | .constructNamed .. => d
  | .open i fd size =>
    match d.objs.files i with
    | some f =>
      if fd < 0 then d
      -- a failed `open` leaves the offset at the end
      else
        let offset := if BitVec.ofInt 32 size = -1 then size.toNat else 0
        { d with opened := Function.update d.opened fd (some ⟨f.name, offset, false⟩) }
    | none => d
  | .create i name fd =>
    match d.objs.files i with
    | some _ =>
      if fd < 0 then d
      else { d with
        contents := Function.update d.contents name (some [])
        opened := Function.update d.opened fd (some ⟨name, 0, true⟩) }
    | none => d
  | .close i | .destroy i =>
    match d.objs.files i with
    | some f => if 0 < f.fd then { d with opened := Function.update d.opened f.fd none } else d
    | none => d

/-- `write` of the system takes these bytes. -/
def write (d : Disk) (fd : ℤ) (new : List Byte) : Disk :=
  match d.opened fd with
  | some o =>
    match d.contents o.path with
    | some c =>
      if o.writable then { d with
        contents := Function.update d.contents o.path
          (some (c.take o.offset ++ new ++ c.drop (o.offset + new.length)))
        opened := Function.update d.opened fd (some { o with offset := o.offset + new.length }) }
      else d
    | none => d
  | none => d

/-- `read` of the system has returned `n` bytes. -/
def advance (d : Disk) (fd : ℤ) (n : ℕ) : Disk :=
  match d.opened fd with
  | some o => { d with
      opened := Function.update d.opened fd (some { o with offset := o.offset + n }) }
  | none => d

/-- What is left to be read through a descriptor. -/
def rest (d : Disk) (fd : ℤ) : List Byte :=
  match d.opened fd with
  | some o => ((d.contents o.path).getD []).drop o.offset
  | none => []

/-- What is left to be read for an object. -/
def left (d : Disk) (i : ℕ) : List Byte :=
  match d.objs.files i with
  | some f => d.rest f.fd
  | none => []

/-- The step of a call. -/
def step (d : Disk) : Call → Disk
  | .object e => { d.system e with objs := d.objs.step e }
  | .write i mem src _ n =>
    match d.objs.files i with
    | some f => d.write f.fd (bytesAt mem src (n.getD 0).toNat)
    | none => d
  | .read i _ n =>
    match d.objs.files i with
    | some f => d.advance f.fd (n.getD 0).toNat
    | none => d

/-- A file is opened for reading only if it is there, and `lseek` returns its length. -/
def Answers (d : Disk) : Event → Prop
  | .open i fd size => 0 ≤ fd → ∀ f ∈ d.objs.files i, ∃ c ∈ d.contents f.name, size = c.length
  | _ => True

/-- The system takes and returns at most as many bytes as it is asked for, and none are returned
only where none are asked for or left. -/
def Admits (d : Disk) : Call → Prop
  | .object e => d.objs.Admits e ∧ d.Answers e
  | .write i _ _ count n => d.objs.files i ≠ none ∧ ∀ k ∈ n, k ≤ count
  | .read i count n => d.objs.files i ≠ none ∧ ∀ k ∈ n, k ≤ count ∧
      k.toNat ≤ (d.left i).length ∧ (k = 0 → count = 0 ∨ d.left i = [])

/-- A file that is created, and thereby emptied, is not open. -/
def Unused (d : Disk) : Event → Prop
  | .create _ name fd =>
    0 ≤ fd → ∀ x ∈ d.objs.sys.openFds, ∀ o ∈ d.opened x, o.path ≠ name
  | _ => True

/-- The operations on objects are careful, and no file is emptied while it is open. -/
def Careful (d : Disk) : Call → Prop
  | .object e => Files.Careful d.objs e ∧ d.Unused e
  | _ => True

instance (s : State) : ∀ e, Decidable (Files.Careful s e)
  | .construct => isTrue trivial
  | .constructNamed _ fd _ => inferInstanceAs (Decidable (fd < 0))
  | .open i fd size => inferInstanceAs
      (Decidable (0 ≤ fd → BitVec.ofInt 32 size ≠ -1 ∧ ∀ f ∈ s.files i, f.fd < 0))
  | .create i _ fd => inferInstanceAs (Decidable (0 ≤ fd → ∀ f ∈ s.files i, f.fd < 0))
  | .close i | .destroy i => inferInstanceAs (Decidable (∀ f ∈ s.files i, f.fd ≠ 0))

end Disk

/-- The objects and the files under any sequence of calls and any answers of the system. -/
def diskMachine : Machine Disk Call := ⟨Disk.step, Disk.Admits⟩

/-- The same with care. -/
def carefulDisk : Machine Disk Call := diskMachine.restrict Disk.Careful

instance (d : Disk) : ∀ c, Decidable (carefulDisk.guard d c)
  | .object e =>
    have : Decidable (d.Answers e) := match e with
      | .open i fd _ => inferInstanceAs (Decidable (0 ≤ fd → ∀ f ∈ d.objs.files i, _))
      | .construct | .constructNamed .. | .create .. | .close _ | .destroy _ => isTrue trivial
    have : Decidable (d.Unused e) := match e with
      | .create _ name fd => inferInstanceAs
          (Decidable (0 ≤ fd → ∀ x ∈ d.objs.sys.openFds, ∀ o ∈ d.opened x, o.path ≠ name))
      | .construct | .constructNamed .. | .open .. | .close _ | .destroy _ => isTrue trivial
    inferInstanceAs (Decidable ((_ ∧ _) ∧ _ ∧ _))
  | .write _ _ _ count n =>
    have : Decidable (∀ k ∈ n, k ≤ count) := Option.decidableForallMem n
    inferInstanceAs (Decidable ((_ ∧ _) ∧ True))
  | .read i count n =>
    have : Decidable (∀ k ∈ n, k ≤ count ∧ k.toNat ≤ (d.left i).length ∧
        (k = 0 → count = 0 ∨ d.left i = [])) := Option.decidableForallMem n
    inferInstanceAs (Decidable ((_ ∧ _) ∧ True))

/-! ## Who is spoken of -/

/-- The event does not speak of the object. -/
def Event.Spares (i : ℕ) : Event → Prop
  | .construct | .constructNamed .. => True
  | .open j _ _ | .create j _ _ | .close j | .destroy j => j ≠ i

/-- The call does not speak of the object. -/
def Call.Spares (i : ℕ) : Call → Prop
  | .object e => e.Spares i
  | .write j .. | .read j .. => j ≠ i

/-! ## The effect of a step -/

variable {d : Disk} {e : Event} {i : ℕ} {f : MFile}

/-- All that a careful call does to the files. -/
inductive Moved (d : Disk) : Call → Disk → Prop
  /-- Nothing. -/
  | still {c : Call} {objs : State} (hfds : objs.sys.openFds = d.objs.sys.openFds) :
    Moved d c { d with objs }
  /-- A file is opened for reading, from its beginning on. -/
  | opened {objs : State} {i : ℕ} {f : MFile} {fd size : ℤ} {b : List Byte}
    (hi : d.objs.files i = some f) (hnew : fd ∉ d.objs.sys.openFds)
    (hb : d.contents f.name = some b)
    (hfds : objs.sys.openFds = fd :: d.objs.sys.openFds) :
    Moved d (.object (.open i fd size)) { d with
      objs, opened := Function.update d.opened fd (some ⟨f.name, 0, false⟩) }
  /-- A file that is not open is created, or emptied. -/
  | created {objs : State} {i : ℕ} {name : String} {fd : ℤ} (hfd : 0 ≤ fd)
    (hnew : fd ∉ d.objs.sys.openFds)
    (hunused : ∀ x ∈ d.objs.sys.openFds, ∀ o ∈ d.opened x, o.path ≠ name)
    (hfds : objs.sys.openFds = fd :: d.objs.sys.openFds) :
    Moved d (.object (.create i name fd)) ⟨objs, Function.update d.contents name (some []),
      Function.update d.opened fd (some ⟨name, 0, true⟩)⟩
  /-- A descriptor is closed. -/
  | closed {e : Event} {objs : State} {i : ℕ} {f : MFile} (he : e = .close i ∨ e = .destroy i)
    (hi : d.objs.files i = some f)
    (hfds : objs.sys.openFds = d.objs.sys.openFds.erase f.fd) :
    Moved d (.object e) { d with objs, opened := Function.update d.opened f.fd none }
  /-- A file grows at its end. -/
  | wrote {i : ℕ} {f : MFile} {o : OpenFile} {b : List Byte} {mem : ℤ → Byte} {src : ℤ}
    {count : BitVec 32} {n : Option (BitVec 32)} (hi : d.objs.files i = some f)
    (ho : d.opened f.fd = some o) (hb : d.contents o.path = some b) (hw : o.writable = true) :
    Moved d (.write i mem src count n) { d with
      contents := Function.update d.contents o.path (some (MFile.write mem src (n.getD 0) b))
      opened := Function.update d.opened f.fd
        (some { o with offset := (MFile.write mem src (n.getD 0) b).length }) }
  /-- A reader goes on, within its file. -/
  | advanced {i : ℕ} {f : MFile} {o : OpenFile} {b : List Byte} {count : BitVec 32}
    {n : Option (BitVec 32)} (hi : d.objs.files i = some f) (ho : d.opened f.fd = some o)
    (hb : d.contents o.path = some b) (hle : o.offset + (n.getD 0).toNat ≤ b.length) :
    Moved d (.read i count n) { d with
      opened := Function.update d.opened f.fd
        (some { o with offset := o.offset + (n.getD 0).toNat }) }

/-- What an operation on an object does. -/
theorem object_moved (h : carefulDisk.guard d (.object e)) :
    Moved d (.object e) (d.step (.object e)) := by
  obtain ⟨⟨hadmits, hanswers⟩, hcareful, hunused⟩ := h
  unfold Disk.step
  cases e with
  | construct => exact .still rfl
  | constructNamed name fd size => exact .still rfl
  | «open» i fd size =>
    obtain ⟨hi, hnew⟩ := hadmits
    obtain ⟨f, hi⟩ := Option.ne_none_iff_exists'.mp hi
    by_cases hfd : fd < 0
    · simp only [Disk.system, hi, if_pos hfd]
      refine .still ?_
      simp only [State.step, hi, MFile.open, System.open, if_pos hfd, State.update]
    · have hge := Int.not_lt.mp hfd
      obtain ⟨b, hb, -⟩ := hanswers hge f hi
      have hsize := (hcareful hge).1
      simp only [Disk.system, hi, if_neg hfd, if_neg hsize]
      refine .opened hi hnew hb ?_
      simp only [State.step, hi, MFile.open, System.open, if_neg hfd, if_neg hsize, State.update]
  | create i name fd =>
    obtain ⟨hi, hnew⟩ := hadmits
    obtain ⟨f, hi⟩ := Option.ne_none_iff_exists'.mp hi
    by_cases hfd : fd < 0
    · simp only [Disk.system, hi, if_pos hfd]
      refine .still ?_
      simp only [State.step, hi, MFile.create, System.open, if_pos hfd, State.update]
    · have hge := Int.not_lt.mp hfd
      simp only [Disk.system, hi, if_neg hfd]
      refine .created hge hnew (hunused hge) ?_
      simp only [State.step, hi, MFile.create, System.open, if_neg hfd, State.update]
  | close i =>
    obtain ⟨f, hi⟩ := Option.ne_none_iff_exists'.mp hadmits
    by_cases hfd : 0 < f.fd
    · simp only [Disk.system, hi, if_pos hfd]
      refine .closed (Or.inl rfl) hi ?_
      simp only [State.step, hi, MFile.close, System.close, if_pos hfd, State.update]
    · simp only [Disk.system, hi, if_neg hfd]
      refine .still ?_
      simp only [State.step, hi, MFile.close, if_neg hfd, State.update]
  | destroy i =>
    obtain ⟨f, hi⟩ := Option.ne_none_iff_exists'.mp hadmits
    by_cases hfd : 0 < f.fd
    · simp only [Disk.system, hi, if_pos hfd]
      refine .closed (Or.inr rfl) hi ?_
      simp only [State.step, hi, MFile.close, System.close, if_pos hfd, State.update]
    · simp only [Disk.system, hi, if_neg hfd]
      refine .still ?_
      simp only [State.step, hi, MFile.close, if_neg hfd, State.update]

/-! ## The invariant -/

/-- What holds of the files as long as all calls are careful. -/
structure Disk.Good (d : Disk) : Prop where
  /-- Who holds which descriptor is known. -/
  tracked : Tracked d.objs
  /-- Open descriptors stand for something, and no others. -/
  open_iff : ∀ fd, d.opened fd ≠ none ↔ fd ∈ d.objs.sys.openFds
  /-- An offset lies in the file, and a writer is at its end. -/
  placed : ∀ {fd o}, d.opened fd = some o → ∃ b, d.contents o.path = some b ∧
    o.offset ≤ b.length ∧ (o.writable = true → o.offset = b.length)
  /-- Each file has one writer at most. -/
  writer : ∀ {x y o p}, d.opened x = some o → d.opened y = some p → o.writable = true →
    p.writable = true → o.path = p.path → x = y

/-- The objects are left alone by a call of `write`. -/
theorem objs_write (d : Disk) (fd : ℤ) (new : List Byte) : (d.write fd new).objs = d.objs := by
  unfold Disk.write
  cases d.opened fd with
  | none => rfl
  | some o =>
    dsimp only
    cases d.contents o.path with
    | none => rfl
    | some b =>
      dsimp only
      by_cases hw : o.writable = true
      · rw [if_pos hw]
      · rw [if_neg hw]

/-- The objects are left alone by a call of `read`. -/
theorem objs_advance (d : Disk) (fd : ℤ) (n : ℕ) : (d.advance fd n).objs = d.objs := by
  unfold Disk.advance
  cases d.opened fd <;> rfl

namespace Disk.Good

variable {c : Call}

/-- A descriptor that stands for something is open. -/
theorem mem_openFds (h : d.Good) {fd : ℤ} {o : OpenFile} (ho : d.opened fd = some o) :
    fd ∈ d.objs.sys.openFds := (h.open_iff fd).mp (by rw [ho]; exact Option.some_ne_none o)

/-- What a careful call does. -/
theorem step_moved (h : d.Good) (hguard : carefulDisk.guard d c) : Moved d c (d.step c) := by
  cases c with
  | object e => exact object_moved hguard
  | write i mem src count n =>
    obtain ⟨hi, -⟩ := hguard.1
    obtain ⟨f, hi⟩ := Option.ne_none_iff_exists'.mp hi
    simp only [Disk.step, hi, Disk.write]
    cases ho : d.opened f.fd with
    | none => exact .still rfl
    | some o =>
      obtain ⟨b, hb, -, hend⟩ := h.placed ho
      simp only [hb]
      by_cases hw : o.writable = true
      · have hlast := hend hw
        rw [if_pos hw, hlast, List.take_length, List.drop_eq_nil_of_le (Nat.le_add_right ..),
          List.append_nil, ← List.length_append]
        exact .wrote hi ho hb hw
      · rw [if_neg hw]
        exact .still rfl
  | read i count n =>
    obtain ⟨hi, hanswer⟩ := hguard.1
    obtain ⟨f, hi⟩ := Option.ne_none_iff_exists'.mp hi
    simp only [Disk.step, hi, Disk.advance]
    cases ho : d.opened f.fd with
    | none => exact .still rfl
    | some o =>
      obtain ⟨b, hb, hle, -⟩ := h.placed ho
      refine .advanced hi ho hb ?_
      -- the answer is at most what is left
      cases n with
      | none => exact hle
      | some k =>
        have hk := (hanswer k rfl).2.1
        simp only [Disk.left, hi, Disk.rest, ho, hb, Option.getD_some, List.length_drop] at hk
        show o.offset + k.toNat ≤ b.length
        omega

/-- The objects are kept track of. -/
theorem tracked_step (h : d.Good) (hguard : carefulDisk.guard d c) :
    Tracked (d.step c).objs := by
  cases c with
  | object e => exact h.tracked.step (step_effect hguard.1.1) hguard.2.1
  | write i mem src count n =>
    obtain ⟨hi, -⟩ := hguard.1
    obtain ⟨f, hi⟩ := Option.ne_none_iff_exists'.mp hi
    simp only [Disk.step, hi, objs_write]
    exact h.tracked
  | read i count n =>
    obtain ⟨hi, -⟩ := hguard.1
    obtain ⟨f, hi⟩ := Option.ne_none_iff_exists'.mp hi
    simp only [Disk.step, hi, objs_advance]
    exact h.tracked

/-- A descriptor is opened, or its offset moves: the invariant holds if it does for this descriptor,
if the other ones stay in place, and if there is no second writer. -/
theorem placed_at (h : d.Good) {d' : Disk} (htracked : Tracked d'.objs) {x : ℤ} {o : OpenFile}
    (hopened : d'.opened = Function.update d.opened x (some o))
    (hfds : ∀ fd, fd ∈ d'.objs.sys.openFds ↔ fd = x ∨ fd ∈ d.objs.sys.openFds)
    (hplaced : ∃ b, d'.contents o.path = some b ∧ o.offset ≤ b.length ∧
      (o.writable = true → o.offset = b.length))
    (hothers : ∀ {y p}, y ≠ x → d.opened y = some p → ∃ b, d'.contents p.path = some b ∧
      p.offset ≤ b.length ∧ (p.writable = true → p.offset = b.length))
    (hwriter : ∀ {y p}, y ≠ x → d.opened y = some p → p.writable = true → o.writable = true →
      p.path ≠ o.path) : d'.Good where
  tracked := htracked
  open_iff fd := by
    rw [hopened, hfds]
    by_cases hfd : fd = x
    · simp [hfd]
    · rw [Function.update_of_ne hfd, h.open_iff, or_iff_right hfd]
  placed := by
    intro fd p hp
    rw [hopened] at hp
    by_cases hfd : fd = x
    · rw [hfd, Function.update_self] at hp
      exact Option.some.inj hp ▸ hplaced
    · rw [Function.update_of_ne hfd] at hp
      exact hothers hfd hp
  writer := by
    intro y z p q hp hq hwp hwq hpath
    rw [hopened] at hp hq
    by_cases hy : y = x
    · rw [hy, Function.update_self] at hp
      obtain rfl := Option.some.inj hp
      by_cases hz : z = x
      · exact hy.trans hz.symm
      · rw [Function.update_of_ne hz] at hq
        exact absurd hpath.symm (hwriter hz hq hwq hwp)
    · rw [Function.update_of_ne hy] at hp
      by_cases hz : z = x
      · rw [hz, Function.update_self] at hq
        obtain rfl := Option.some.inj hq
        exact absurd hpath (hwriter hy hp hwp hwq)
      · rw [Function.update_of_ne hz] at hq
        exact h.writer hp hq hwp hwq hpath

/-- **Step lemma.** Every careful call keeps the invariant. -/
theorem step (h : d.Good) (hguard : carefulDisk.guard d c) : (d.step c).Good := by
  have htracked := h.tracked_step hguard
  have hmoved := h.step_moved hguard
  revert htracked
  generalize d.step c = d' at hmoved
  intro htracked
  cases hmoved with
  | still hfds =>
    exact ⟨htracked, fun fd => by rw [hfds]; exact h.open_iff fd, h.placed, h.writer⟩
  | opened hi hnew hb hfds =>
    refine h.placed_at htracked rfl (fun fd => by rw [hfds, List.mem_cons]) ?_ ?_ ?_
    · exact ⟨_, hb, Nat.zero_le _, fun hw => by cases hw⟩
    · exact fun _ hp => h.placed hp
    · exact fun _ _ _ hw => by cases hw
  | created hfd hnew hunused hfds =>
    refine h.placed_at htracked rfl (fun fd => by rw [hfds, List.mem_cons]) ?_ ?_ ?_
    · exact ⟨[], Function.update_self .., le_rfl, fun _ => rfl⟩
    -- nobody has the file open that is emptied
    · intro y p _ hp
      obtain ⟨b, hb, hplaced⟩ := h.placed hp
      have hpath := hunused y (h.mem_openFds hp) p hp
      exact ⟨b, (Function.update_of_ne hpath ..).trans hb, hplaced⟩
    · exact fun _ hp _ _ => hunused _ (h.mem_openFds hp) _ hp
  | @closed e objs i f he hi hfds =>
    have hopened : ∀ {x o}, Function.update d.opened f.fd none x = some o →
        d.opened x = some o := by
      intro x o ho
      by_cases hx : x = f.fd
      · rw [hx, Function.update_self] at ho
        cases ho
      · rwa [Function.update_of_ne hx] at ho
    refine ⟨htracked, fun x => ?_, fun ho => h.placed (hopened ho),
      fun ho hp => h.writer (hopened ho) (hopened hp)⟩
    show Function.update d.opened f.fd none x ≠ none ↔ x ∈ objs.sys.openFds
    rw [hfds, h.tracked.nodup.mem_erase_iff, ← h.open_iff]
    by_cases hx : x = f.fd
    · simp [hx]
    · rw [Function.update_of_ne hx, and_iff_right hx]
  | @wrote i f o b mem src count n hi ho hb hw =>
    have hmem := h.mem_openFds ho
    have hpath : ∀ {y p}, y ≠ f.fd → d.opened y = some p → p.writable = true →
        p.path ≠ o.path := fun hy hp hwp heq => hy (h.writer hp ho hwp hw heq)
    refine h.placed_at htracked rfl (fun fd => ?_) ?_ ?_ ?_
    · exact ⟨Or.inr, fun hfd => hfd.elim (fun heq => heq ▸ hmem) id⟩
    · exact ⟨_, Function.update_self .., le_rfl, fun _ => rfl⟩
    · intro y p hy hp
      -- the file grows at its end, behind all readers, and has no second writer
      obtain ⟨b', hb', hle, hend⟩ := h.placed hp
      by_cases heq : p.path = o.path
      · rw [heq, hb] at hb'
        obtain rfl := Option.some.inj hb'
        refine ⟨_, by rw [heq]; exact Function.update_self .., ?_, ?_⟩
        · rw [MFile.write, List.length_append]
          exact Nat.le_add_right_of_le hle
        · exact fun hwp => absurd heq (hpath hy hp hwp)
      · exact ⟨b', (Function.update_of_ne heq ..).trans hb', hle, hend⟩
    · exact fun hy hp hwp _ => hpath hy hp hwp
  | @advanced i f o b count n hi ho hb hle =>
    have hmem := h.mem_openFds ho
    refine h.placed_at htracked rfl (fun fd => ?_) ?_ ?_ ?_
    · exact ⟨Or.inr, fun hfd => hfd.elim (fun heq => heq ▸ hmem) id⟩
    · refine ⟨b, hb, hle, fun hw => ?_⟩
      -- a writer is at the end, so that nothing was left to be read
      obtain ⟨b', hb', -, hend⟩ := h.placed ho
      obtain rfl := Option.some.inj (hb.symm.trans hb')
      have hlast : o.offset = b.length := hend hw
      show o.offset + (n.getD 0).toNat = b.length
      omega
    · exact fun _ hp => h.placed hp
    · exact fun hy hp hwp hw heq => hy (h.writer hp ho hwp hw heq)

/-- At the start nothing is open. -/
theorem start (contents : String → Option (List Byte)) : (Disk.start contents).Good where
  tracked := Tracked.start
  open_iff _ := ⟨fun h => absurd rfl h, fun h => absurd h List.not_mem_nil⟩
  placed h := by cases h
  writer h := by cases h

/-- **Run lemma.** The invariant holds wherever careful calls lead. -/
theorem run (h : d.Good) {cs : List Call} (hcs : carefulDisk.Legal d cs) :
    (carefulDisk.run d cs).Good :=
  hcs.invariant Disk.Good (fun _ _ hs hguard => hs.step hguard) h

end Disk.Good

/-! ## What others do -/

/-- The call does not create the file. -/
def Call.Keeps (path : String) (c : Call) : Prop :=
  ∀ i fd, 0 ≤ fd → c ≠ .object (.create i path fd)

end FfTest.Files
