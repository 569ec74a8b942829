import FfTest.Files.MFile
import Mathlib.Data.List.Infix
import Mathlib.Tactic.ByContra

/-! # Who owns which descriptor

An `MFile` closes in its destructor what it holds in `m_fd`. Whether that is a descriptor it was
given, and its only one, depends on four things the class does not see to: `MFile(name)` leaves
`m_fd` as it finds it; `open` drops the descriptor when `lseek` fails; `open` and `create` drop the
descriptor the object held before; and `close` takes descriptor 0 for no descriptor. As long as none
of them happens, ownership is exact. -/

namespace FfTest.Files

/-! ## What the class is for -/

/-- `m_fd` of object `i`, which is alive, is `fd`. -/
def Holds (s : State) (i : ℕ) (fd : ℤ) : Prop := ∃ f, s.files i = some f ∧ f.fd = fd

/-- The system has handed out `fd`. -/
def HandedOut (s : State) (fd : ℤ) : Prop := ∃ i, 0 < timesAcquired (i, fd) s.sys.ledger

/-- Ownership of descriptors is exact. -/
structure Owned (s : State) : Prop where
  /-- A descriptor that was handed out is open iff exactly one object alive holds it. -/
  open_iff : ∀ fd, HandedOut s fd → (fd ∈ s.sys.openFds ↔ ∃! i, Holds s i fd)
  /-- `is_open` tells whether the object holds a descriptor that was handed out and is open. -/
  isOpen_iff : ∀ i f, s.files i = some f → (f.isOpen = true ↔ f.fd ∈ s.sys.openFds)
  /-- No object has closed a descriptor that it was not given, or closed before. -/
  wellReleased : WellReleased s.sys.ledger

/-- From `s` to `s'` object `i` has come to be closed, and what it held has been released. -/
def Released (i : ℕ) (s s' : State) : Prop :=
  (∀ f, s'.files i = some f → f.isOpen = false) ∧ ∀ fd, Holds s i fd → fd ∉ s'.sys.openFds

/-- An event that none of the four oversights meets. -/
def Careful (s : State) : Event → Prop
  | .construct => True
  | .constructNamed _ fd _ => fd < 0
  | .open i fd size =>
    0 ≤ fd → BitVec.ofInt 32 size ≠ -1 ∧ ∀ f, s.files i = some f → f.fd < 0
  | .create i _ fd => 0 ≤ fd → ∀ f, s.files i = some f → f.fd < 0
  | .close i | .destroy i => ∀ f, s.files i = some f → f.fd ≠ 0

/-- What an object that is there holds. -/
theorem holds_iff {s : State} {i : ℕ} {f : MFile} (hi : s.files i = some f) (fd : ℤ) :
    Holds s i fd ↔ f.fd = fd := by
  simp [Holds, hi]

/-- An object holds one descriptor. -/
theorem Holds.fd_unique {s : State} {i : ℕ} {x y : ℤ} (hx : Holds s i x) (hy : Holds s i y) :
    x = y := by
  obtain ⟨f, hf, rfl⟩ := hx
  obtain ⟨g, hg, rfl⟩ := hy
  rw [Option.some.inj (hf.symm.trans hg)]

/-- What is held after object `i` was replaced. -/
theorem holds_update (s : State) (i : ℕ) (o : Option MFile) (sys : System) (j : ℕ) (fd : ℤ) :
    Holds (s.update i o sys) j fd ↔
      if j = i then ∃ f, o = some f ∧ f.fd = fd else Holds s j fd := by
  by_cases hj : j = i
  · simp [Holds, State.update, hj]
  · simp [Holds, State.update, hj]

/-- What is held after an object was made. -/
theorem holds_made (s : State) (f : MFile) (j : ℕ) (fd : ℤ) :
    Holds (s.made f) j fd ↔ if j = s.next then f.fd = fd else Holds s j fd := by
  by_cases hj : j = s.next
  · simp [Holds, State.made, State.update, hj]
  · simp [Holds, State.made, State.update, hj]

/-! ## The effect of a step -/

/-- All that a step can do. -/
inductive Effect (s : State) : Event → State → Prop
  /-- An object is constructed. -/
  | made {e : Event} (f : MFile)
    (he : e = .construct ∧ f.fd = -1 ∨ ∃ name size, e = .constructNamed name f.fd size) :
    Effect s e (s.made f)
  /-- The system has no descriptor, or `close` finds none. -/
  | kept {e : Event} {paths : List String}
    (he : (∃ i fd size, e = .open i fd size ∧ fd < 0) ∨
      (∃ i name fd, e = .create i name fd ∧ fd < 0) ∨
      ∃ i f, e = .close i ∧ s.files i = some f ∧ f.fd ≤ 0) :
    Effect s e { s with sys := { s.sys with paths } }
  /-- `lseek` fails: the descriptor is not kept. -/
  | dropped {i : ℕ} {fd size : ℤ} {paths : List String} (hfd : 0 ≤ fd) (hnew : fd ∉ s.sys.openFds)
    (hsize : BitVec.ofInt 32 size = -1) :
    Effect s (.open i fd size)
      { s with sys := ⟨fd :: s.sys.openFds, .acquire (i, fd) :: s.sys.ledger, paths⟩ }
  /-- An object takes a descriptor. -/
  | taken {e : Event} {i : ℕ} {f f' : MFile} {paths : List String} (hi : s.files i = some f)
    (hfd : 0 ≤ f'.fd) (hnew : f'.fd ∉ s.sys.openFds)
    (he : (∃ size, e = .open i f'.fd size ∧ BitVec.ofInt 32 size ≠ -1) ∨
      ∃ name, e = .create i name f'.fd) :
    Effect s e (s.update i (some f')
      ⟨f'.fd :: s.sys.openFds, .acquire (i, f'.fd) :: s.sys.ledger, paths⟩)
  /-- An object that holds a descriptor is closed, or closed and destroyed. -/
  | closed {e : Event} {i : ℕ} {f : MFile} {o : Option MFile} (hi : s.files i = some f)
    (hfd : 0 < f.fd)
    (he : e = .close i ∧ o = some { f with fd := -1 } ∨ e = .destroy i ∧ o = none) :
    Effect s e (s.update i o (s.sys.close i f.fd))
  /-- An object without a descriptor, or with descriptor 0, is destroyed. -/
  | gone {i : ℕ} {f : MFile} (hi : s.files i = some f) (hfd : f.fd ≤ 0) :
    Effect s (.destroy i) (s.update i none s.sys)

/-- Nothing changes when an object is replaced by itself. -/
theorem update_self {s : State} {i : ℕ} {f : MFile} (hi : s.files i = some f) (sys : System) :
    s.update i (some f) sys = { s with sys } := by
  simp only [State.update, ← hi, Function.update_eq_self]

/-- Every admitted step has one of these effects. -/
theorem step_effect {s : State} {e : Event} (h : s.Admits e) : Effect s e (s.step e) := by
  cases e with
  | construct => exact .made .construct (Or.inl ⟨rfl, rfl⟩)
  | constructNamed name fd size => exact .made ⟨fd, name, size⟩ (Or.inr ⟨name, size, rfl⟩)
  | «open» i fd size =>
    obtain ⟨hi, hnew⟩ := h
    obtain ⟨f, hi⟩ := Option.ne_none_iff_exists'.mp hi
    by_cases hfd : fd < 0
    · simp only [State.step, hi, MFile.open, System.open, if_pos hfd, update_self hi]
      exact .kept (Or.inl ⟨i, fd, size, rfl, hfd⟩)
    · by_cases hsize : BitVec.ofInt 32 size = -1
      · simp only [State.step, hi, MFile.open, System.open, if_neg hfd, if_pos hsize,
          update_self hi]
        exact .dropped (Int.not_lt.mp hfd) hnew hsize
      · simp only [State.step, hi, MFile.open, System.open, if_neg hfd, if_neg hsize]
        exact .taken hi (Int.not_lt.mp hfd) hnew (Or.inl ⟨size, rfl, hsize⟩)
  | create i name fd =>
    obtain ⟨hi, hnew⟩ := h
    obtain ⟨f, hi⟩ := Option.ne_none_iff_exists'.mp hi
    by_cases hfd : fd < 0
    · simp only [State.step, hi, MFile.create, System.open, if_pos hfd, update_self hi]
      exact .kept (Or.inr (Or.inl ⟨i, name, fd, rfl, hfd⟩))
    · simp only [State.step, hi, MFile.create, System.open, if_neg hfd]
      exact .taken hi (Int.not_lt.mp hfd) hnew (Or.inr ⟨name, rfl⟩)
  | close i =>
    obtain ⟨f, hi⟩ := Option.ne_none_iff_exists'.mp h
    by_cases hfd : 0 < f.fd
    · simp only [State.step, hi, MFile.close, if_pos hfd]
      exact .closed hi hfd (Or.inl ⟨rfl, rfl⟩)
    · simp only [State.step, hi, MFile.close, if_neg hfd, update_self hi]
      exact .kept (Or.inr (Or.inr ⟨i, f, rfl, hi, Int.not_lt.mp hfd⟩))
  | destroy i =>
    obtain ⟨f, hi⟩ := Option.ne_none_iff_exists'.mp h
    by_cases hfd : 0 < f.fd
    · simp only [State.step, hi, MFile.close, if_pos hfd]
      exact .closed hi hfd (Or.inr ⟨rfl, rfl⟩)
    · simp only [State.step, hi, MFile.close, if_neg hfd]
      exact .gone hi (Int.not_lt.mp hfd)

/-! ## The invariant -/

/-- What holds as long as all events are careful. -/
structure Tracked (s : State) : Prop where
  /-- Numbers not given yet have no object. -/
  fresh : ∀ i, s.next ≤ i → s.files i = none
  /-- No descriptor is handed out twice at a time. -/
  nodup : s.sys.openFds.Nodup
  /-- The open descriptors are those that some object holds. -/
  mem_openFds : ∀ fd, fd ∈ s.sys.openFds ↔ 0 ≤ fd ∧ ∃ i, Holds s i fd
  /-- No two objects hold the same descriptor. -/
  unique : ∀ i j fd, 0 ≤ fd → Holds s i fd → Holds s j fd → i = j
  /-- What an object holds it was given, and has not closed since. -/
  outstanding : ∀ i fd, 0 ≤ fd → Holds s i fd → (i, fd) ∈ outstanding s.sys.ledger
  /-- Only what was given is closed. -/
  wellReleased : WellReleased s.sys.ledger
  /-- Descriptors are not negative. -/
  nonneg : ∀ i fd, 0 < timesAcquired (i, fd) s.sys.ledger → 0 ≤ fd

namespace Tracked

variable {s s' : State} {e : Event}

/-- The invariant makes ownership exact. -/
theorem owned (h : Tracked s) : Owned s where
  open_iff fd hout := by
    obtain ⟨i, hi⟩ := hout
    have hfd := h.nonneg i fd hi
    rw [h.mem_openFds fd, and_iff_right hfd]
    constructor
    · rintro ⟨j, hj⟩
      exact ⟨j, hj, fun k hk => h.unique k j fd hfd hk hj⟩
    · rintro ⟨j, hj, -⟩
      exact ⟨j, hj⟩
  isOpen_iff i f hi := by
    rw [h.mem_openFds]
    constructor
    · intro hopen
      exact ⟨by simpa [MFile.isOpen] using hopen, i, f, hi, rfl⟩
    · rintro ⟨hfd, -⟩
      simpa [MFile.isOpen] using hfd
  wellReleased := h.wellReleased

/-- Nothing changes hands. -/
theorem same (h : Tracked s) (hfresh : ∀ i, s'.next ≤ i → s'.files i = none)
    (hfds : s'.sys.openFds = s.sys.openFds) (hledger : s'.sys.ledger = s.sys.ledger)
    (hholds : ∀ j fd, 0 ≤ fd → (Holds s' j fd ↔ Holds s j fd)) : Tracked s' where
  fresh := hfresh
  nodup := hfds ▸ h.nodup
  mem_openFds fd := by
    rw [hfds, h.mem_openFds]
    exact and_congr_right fun hfd => exists_congr fun j => (hholds j fd hfd).symm
  unique i j fd hfd hi hj := h.unique i j fd hfd ((hholds i fd hfd).mp hi) ((hholds j fd hfd).mp hj)
  outstanding i fd hfd hi := hledger ▸ h.outstanding i fd hfd ((hholds i fd hfd).mp hi)
  wellReleased := hledger ▸ h.wellReleased
  nonneg i fd hi := h.nonneg i fd (hledger ▸ hi)

/-- Object `i`, which holds nothing, takes a descriptor that is not open. -/
theorem take {i : ℕ} {x : ℤ} (h : Tracked s) (hfresh : ∀ i, s'.next ≤ i → s'.files i = none)
    (hfds : s'.sys.openFds = x :: s.sys.openFds)
    (hledger : s'.sys.ledger = .acquire (i, x) :: s.sys.ledger) (hx : 0 ≤ x)
    (hnew : x ∉ s.sys.openFds)
    (hholds : ∀ j fd, 0 ≤ fd → (Holds s' j fd ↔ j = i ∧ fd = x ∨ Holds s j fd)) : Tracked s' where
  fresh := hfresh
  nodup := hfds ▸ List.nodup_cons.mpr ⟨hnew, h.nodup⟩
  mem_openFds fd := by
    rw [hfds, List.mem_cons, h.mem_openFds]
    constructor
    · rintro (rfl | ⟨hfd, j, hj⟩)
      · exact ⟨hx, i, (hholds i fd hx).mpr (Or.inl ⟨rfl, rfl⟩)⟩
      · exact ⟨hfd, j, (hholds j fd hfd).mpr (Or.inr hj)⟩
    · rintro ⟨hfd, j, hj⟩
      rcases (hholds j fd hfd).mp hj with ⟨-, hfdx⟩ | hj
      · exact Or.inl hfdx
      · exact Or.inr ⟨hfd, j, hj⟩
  unique j k fd hfd hj hk := by
    -- nobody held the new descriptor: it was not open
    have hnone : ∀ l, ¬ Holds s l x := fun l hl => hnew ((h.mem_openFds x).mpr ⟨hx, l, hl⟩)
    rcases (hholds j fd hfd).mp hj with ⟨rfl, rfl⟩ | hj
    · rcases (hholds k fd hfd).mp hk with ⟨rfl, -⟩ | hk
      · rfl
      · exact absurd hk (hnone k)
    · rcases (hholds k fd hfd).mp hk with ⟨rfl, rfl⟩ | hk
      · exact absurd hj (hnone j)
      · exact h.unique j k fd hfd hj hk
  outstanding j fd hfd hj := by
    rw [hledger, outstanding_acquire, List.mem_cons]
    rcases (hholds j fd hfd).mp hj with ⟨rfl, rfl⟩ | hj
    · exact Or.inl rfl
    · exact Or.inr (h.outstanding j fd hfd hj)
  wellReleased := hledger ▸ h.wellReleased
  nonneg j fd hj := by
    rw [hledger, timesAcquired_acquire] at hj
    by_cases heq : (i, x) = (j, fd)
    · obtain ⟨-, rfl⟩ := Prod.mk.inj heq
      exact hx
    · exact h.nonneg j fd (by simpa [heq] using hj)

/-- Object `i` closes what it holds. -/
theorem give {i : ℕ} {x : ℤ} (h : Tracked s) (hfresh : ∀ i, s'.next ≤ i → s'.files i = none)
    (hfds : s'.sys.openFds = s.sys.openFds.erase x)
    (hledger : s'.sys.ledger = .release (i, x) :: s.sys.ledger) (hx : 0 ≤ x) (hi : Holds s i x)
    (hholds : ∀ j fd, 0 ≤ fd → (Holds s' j fd ↔ j ≠ i ∧ Holds s j fd)) : Tracked s' where
  fresh := hfresh
  nodup := hfds ▸ h.nodup.erase x
  mem_openFds fd := by
    rw [hfds, h.nodup.mem_erase_iff, h.mem_openFds]
    constructor
    · rintro ⟨hne, hfd, j, hj⟩
      refine ⟨hfd, j, (hholds j fd hfd).mpr ⟨?_, hj⟩⟩
      rintro rfl
      exact hne (Holds.fd_unique hj hi)
    · rintro ⟨hfd, j, hj⟩
      obtain ⟨hne, hj⟩ := (hholds j fd hfd).mp hj
      refine ⟨?_, hfd, j, hj⟩
      rintro rfl
      exact hne (h.unique j i fd hfd hj hi)
  unique j k fd hfd hj hk :=
    h.unique j k fd hfd ((hholds j fd hfd).mp hj).2 ((hholds k fd hfd).mp hk).2
  outstanding j fd hfd hj := by
    obtain ⟨hne, hj⟩ := (hholds j fd hfd).mp hj
    rw [hledger, mem_outstanding_release_of_ne fun heq => hne (Prod.mk.inj heq).1]
    exact h.outstanding j fd hfd hj
  wellReleased := hledger ▸ ⟨h.outstanding i x hx hi, h.wellReleased⟩
  nonneg j fd hj := h.nonneg j fd (by rwa [hledger] at hj)

/-- Numbers stay free when an object that is there is replaced or taken away. -/
theorem fresh_update (h : Tracked s) {i : ℕ} {f : MFile} (hi : s.files i = some f)
    (o : Option MFile) (sys : System) : ∀ j, s.next ≤ j → (s.update i o sys).files j = none := by
  intro j hj
  have hne : j ≠ i := by
    rintro rfl
    simp [h.fresh j hj] at hi
  exact (Function.update_of_ne hne ..).trans (h.fresh j hj)

/-- **Step lemma.** Every careful step keeps the invariant. -/
theorem step (h : Tracked s) (he : Effect s e s') (hcareful : Careful s e) : Tracked s' := by
  cases he with
  | made f he =>
    -- a new object holds nothing, unless it was made by name over an uninitialised descriptor
    have hneg : f.fd < 0 := by
      rcases he with ⟨-, hfd⟩ | ⟨name, size, rfl⟩
      · omega
      · exact hcareful
    refine h.same (fun j hj => ?_) rfl rfl fun j fd hfd => ?_
    · have hne : j ≠ s.next := Nat.ne_of_gt hj
      exact (Function.update_of_ne hne ..).trans (h.fresh j (Nat.le_of_lt hj))
    · rw [holds_made]
      split
      · rename_i hj
        constructor
        · intro heq
          omega
        · rintro ⟨g, hg, -⟩
          simp [hj, h.fresh s.next (Nat.le_refl _)] at hg
      · exact Iff.rfl
  | kept => exact h.same h.fresh rfl rfl fun _ _ _ => Iff.rfl
  | dropped hfd _ hsize => exact absurd hsize (hcareful hfd).1
  | taken hi hfd hnew he =>
    rename_i i f f' paths
    -- with care an object is only opened when it holds nothing
    have hneg : f.fd < 0 := by
      rcases he with ⟨size, rfl, -⟩ | ⟨name, rfl⟩
      · exact (hcareful hfd).2 f hi
      · exact hcareful hfd f hi
    refine h.take (h.fresh_update hi _ _) rfl rfl hfd hnew fun j fd hfd' => ?_
    rw [holds_update]
    by_cases hj : j = i
    · subst hj
      have hnot : ¬ Holds s j fd := by
        rw [holds_iff hi]
        omega
      simp [hnot, eq_comm]
    · simp [hj]
  | closed hi hfd he =>
    rename_i i f o
    refine h.give (h.fresh_update hi _ _) rfl rfl (Int.le_of_lt hfd) ⟨f, hi, rfl⟩
      fun j fd hfd' => ?_
    rw [holds_update]
    by_cases hj : j = i
    · rcases he with ⟨-, rfl⟩ | ⟨-, rfl⟩
      · have hne : (-1 : ℤ) ≠ fd := by omega
        simp [hj, hne]
      · simp [hj]
    · simp [hj]
  | gone hi hfd =>
    rename_i i f
    -- nothing is closed, and with care the descriptor was not 0
    have hne := hcareful f hi
    refine h.same (h.fresh_update hi _ _) rfl rfl fun j fd hfd' => ?_
    rw [holds_update]
    by_cases hj : j = i
    · subst hj
      have hnot : ¬ Holds s j fd := by
        rw [holds_iff hi]
        omega
      simp [hnot]
    · simp [hj]

/-- No object, no descriptor. -/
theorem start : Tracked .start where
  fresh _ _ := rfl
  nodup := List.nodup_nil
  mem_openFds fd := ⟨fun hfd => absurd hfd List.not_mem_nil, fun ⟨_, _, _, hf, _⟩ => by cases hf⟩
  unique _ _ _ _ := fun ⟨_, hf, _⟩ => by cases hf
  outstanding _ _ _ := fun ⟨_, hf, _⟩ => by cases hf
  wellReleased := trivial
  nonneg _ _ h := absurd h (Nat.lt_irrefl 0)

/-! ## What careful events do, and what others do -/

/-- A careful `close` releases the descriptor. -/
theorem released (h : Tracked s) {i : ℕ} (he : Effect s (.close i) s')
    (hcareful : Careful s (.close i)) : Released i s s' := by
  cases he with
  | made f he => simp at he
  | taken _ _ _ he => simp at he
  | kept he =>
    obtain ⟨j, f, heq, hi, hfd⟩ :
        ∃ j f, Event.close i = .close j ∧ s.files j = some f ∧ f.fd ≤ 0 := by
      simpa using he
    obtain rfl := Event.close.inj heq
    have hneg : f.fd < 0 := by
      have := hcareful f hi
      omega
    constructor
    · intro g hg
      obtain rfl := Option.some.inj (hi.symm.trans hg)
      simpa [MFile.isOpen] using hneg
    · rintro fd ⟨g, hg, rfl⟩ hmem
      obtain rfl := Option.some.inj (hi.symm.trans hg)
      have := ((h.mem_openFds _).mp hmem).1
      omega
  | @closed _ j f o hi hfd he =>
    obtain ⟨heq, rfl⟩ : Event.close i = .close j ∧ o = some { f with fd := -1 } := by
      simpa using he
    obtain rfl := Event.close.inj heq
    constructor
    · intro g hg
      have hg : some { f with fd := -1 } = some g := by simpa [State.update] using hg
      rw [← Option.some.inj hg]
      rfl
    · intro fd hholds hmem
      obtain rfl := Holds.fd_unique hholds ⟨f, hi, rfl⟩
      exact h.nodup.not_mem_erase hmem

/-- An open descriptor was handed out. -/
theorem handedOut (h : Tracked s) {i : ℕ} {fd : ℤ} (hfd : 0 ≤ fd) (hi : Holds s i fd) :
    HandedOut s fd :=
  ⟨i, timesAcquired_pos_of_mem_outstanding (h.outstanding i fd hfd hi)⟩

/-- A descriptor that stays open when the object that held it holds it no longer is lost. -/
theorem not_owned_of_lost (h : Tracked s) {i : ℕ} {f : MFile} {o : Option MFile} {sys : System}
    (hi : s.files i = some f) (hfd : 0 ≤ f.fd) (ho : ∀ g, o = some g → g.fd ≠ f.fd)
    (hopen : f.fd ∈ sys.openFds) (hout : HandedOut (s.update i o sys) f.fd) :
    ¬ Owned (s.update i o sys) := by
  intro howned
  obtain ⟨k, hk, -⟩ := (howned.open_iff f.fd hout).mp hopen
  rw [holds_update] at hk
  split at hk
  · obtain ⟨g, hg, hgfd⟩ := hk
    exact ho g hg hgfd
  · rename_i hki
    exact hki (h.unique k i f.fd hfd hk ⟨f, hi, rfl⟩)

/-- An event that is not careful breaks ownership at once, or is a `close` that does not release. -/
theorem not_owned_of_careless (h : Tracked s) (he : Effect s e s') (hnot : ¬ Careful s e) :
    ¬ Owned s' ∨ ∃ i, e = .close i ∧ ¬ Released i s s' := by
  cases he with
  | made f he =>
    refine Or.inl fun howned => ?_
    rcases he with ⟨rfl, -⟩ | ⟨name, size, rfl⟩
    · exact hnot trivial
    · have hfd : 0 ≤ f.fd := Int.not_lt.mp hnot
      have hnew : Holds (s.made f) s.next f.fd := (holds_made ..).mpr (by simp)
      -- the garbage in `m_fd` counts as a descriptor, so another object must have been given it
      have hmem : f.fd ∈ s.sys.openFds :=
        (howned.isOpen_iff s.next f (Function.update_self ..)).mp
          (by simpa [MFile.isOpen] using hfd)
      obtain ⟨-, i, hi⟩ := (h.mem_openFds f.fd).mp hmem
      have hne : i ≠ s.next := by
        rintro rfl
        obtain ⟨g, hg, -⟩ := hi
        simp [h.fresh s.next (Nat.le_refl _)] at hg
      have hold : Holds (s.made f) i f.fd := (holds_made ..).mpr (by simpa [hne] using hi)
      exact hne (((howned.open_iff f.fd (h.handedOut hfd hi)).mp hmem).unique hold hnew)
  | kept he =>
    rcases he with ⟨i, fd, size, rfl, hfd⟩ | ⟨i, name, fd, rfl, hfd⟩ | ⟨i, f, rfl, hi, hfd⟩
    · exact absurd (fun hge => absurd hfd (Int.not_lt.mpr hge)) hnot
    · exact absurd (fun hge => absurd hfd (Int.not_lt.mpr hge)) hnot
    · refine Or.inr ⟨i, rfl, fun hreleased => hnot fun g hg hzero => ?_⟩
      simpa [MFile.isOpen, hzero] using hreleased.1 g hg
  | @dropped i fd size paths hfd hnew hsize =>
    refine Or.inl fun howned => ?_
    obtain ⟨j, hj, -⟩ := (howned.open_iff fd ⟨i, by simp⟩).mp List.mem_cons_self
    exact hnew ((h.mem_openFds fd).mpr ⟨hfd, j, hj⟩)
  | @taken _ i f f' paths hi hfd hnew he =>
    have hold : 0 ≤ f.fd := by
      by_contra hneg
      have hnone : ∀ g, s.files i = some g → g.fd < 0 := by
        intro g hg
        obtain rfl := Option.some.inj (hi.symm.trans hg)
        omega
      rcases he with ⟨size, rfl, hsize⟩ | ⟨name, rfl⟩
      · exact hnot fun _ => ⟨hsize, hnone⟩
      · exact hnot fun _ => hnone
    -- the descriptor held before is still open, and nobody holds it
    have hmem : f.fd ∈ s.sys.openFds := (h.mem_openFds f.fd).mpr ⟨hold, i, f, hi, rfl⟩
    obtain ⟨j, hj⟩ := h.handedOut hold ⟨f, hi, rfl⟩
    refine Or.inl (h.not_owned_of_lost hi hold ?_ (List.mem_cons_of_mem _ hmem)
      ⟨j, Nat.lt_of_lt_of_le hj (Nat.le_add_right _ _)⟩)
    rintro g ⟨⟩ heq
    exact hnew (heq ▸ hmem)
  | @closed _ i f o hi hfd he =>
    have hcareful : ∀ g, s.files i = some g → g.fd ≠ 0 := by
      intro g hg
      obtain rfl := Option.some.inj (hi.symm.trans hg)
      omega
    rcases he with ⟨rfl, -⟩ | ⟨rfl, -⟩
    · exact absurd hcareful hnot
    · exact absurd hcareful hnot
  | @gone i f hi hfd =>
    have hzero : f.fd = 0 := by
      by_contra hne
      refine hnot fun g hg => ?_
      obtain rfl := Option.some.inj (hi.symm.trans hg)
      exact hne
    -- descriptor 0 goes with its object, and stays open
    have hold : 0 ≤ f.fd := Int.le_of_eq hzero.symm
    exact Or.inl (h.not_owned_of_lost hi hold (by simp)
      ((h.mem_openFds f.fd).mpr ⟨hold, i, f, hi, rfl⟩) (h.handedOut hold ⟨f, hi, rfl⟩))

end Tracked

/-! ## Whole runs -/

/-- **Run lemma.** The invariant holds wherever a run of careful events ends. -/
theorem tracked_run {es : List Event} (h : (fileMachine.restrict Careful).Legal .start es) :
    Tracked (fileMachine.run .start es) :=
  Machine.Legal.invariant (M := fileMachine.restrict Careful) Tracked
    (fun _ _ hs hguard => hs.step (step_effect hguard.1) hguard.2) h Tracked.start

/-- **Ownership is exact iff every event is careful.** In every run of any operations on any number
of objects, with any answers of the system: at every moment ownership of descriptors is exact and
every `close` releases its descriptor, iff no event meets one of the four oversights. -/
theorem owned_iff_careful {es : List Event} (h : fileMachine.Legal .start es) :
    ((∀ fs, fs <+: es → Owned (fileMachine.run .start fs)) ∧
      ∀ fs i, fs ++ [.close i] <+: es →
        Released i (fileMachine.run .start fs) (fileMachine.run .start (fs ++ [.close i]))) ↔
    (fileMachine.restrict Careful).Legal .start es := by
  -- both sides event by event
  have hevents : ((∀ fs, fs <+: es → Owned (fileMachine.run .start fs)) ∧
      ∀ fs i, fs ++ [.close i] <+: es →
        Released i (fileMachine.run .start fs) (fileMachine.run .start (fs ++ [.close i]))) ↔
      ∀ fs e, fs ++ [e] <+: es → Owned (fileMachine.run .start (fs ++ [e])) ∧ ∀ i, e = .close i →
        Released i (fileMachine.run .start fs) (fileMachine.run .start (fs ++ [e])) := by
    constructor
    · rintro ⟨howned, hreleased⟩ fs e hfs
      refine ⟨howned _ hfs, ?_⟩
      rintro i rfl
      exact hreleased fs i hfs
    · intro hall
      refine ⟨forall_prefix_iff.mpr ⟨Tracked.start.owned, fun fs e hfs => (hall fs e hfs).1⟩, ?_⟩
      exact fun fs i hfs => (hall fs _ hfs).2 i rfl
  rw [hevents]
  refine h.restrict_iff fun fs e hfs hguard _ => ?_
  have htracked := tracked_run hfs
  have heffect := step_effect hguard
  rw [Machine.run_snoc]
  constructor
  · rintro ⟨howned, hreleased⟩
    by_contra hnot
    rcases htracked.not_owned_of_careless heffect hnot with hbad | ⟨i, rfl, hbad⟩
    · exact hbad howned
    · exact hbad (hreleased i rfl)
  · intro hcareful
    refine ⟨(htracked.step heffect hcareful).owned, ?_⟩
    rintro i rfl
    exact htracked.released heffect hcareful

/-- Two files, one read and one written, opened, closed and destroyed with care. -/
theorem owned_iff_careful_two :
    let es : List Event := [.construct, .construct, .open 0 3 1000, .create 1 "out" 4, .close 0,
      .open 0 3 500, .destroy 1, .destroy 0]
    ((∀ fs, fs <+: es → Owned (fileMachine.run .start fs)) ∧
      ∀ fs i, fs ++ [.close i] <+: es →
        Released i (fileMachine.run .start fs) (fileMachine.run .start (fs ++ [.close i]))) ↔
    (fileMachine.restrict Careful).Legal .start es :=
  owned_iff_careful (by decide)

/-- `lseek` fails after `open` was given descriptor 3: it stays open, and no object holds it. -/
theorem lseek_failed_not_owned :
    fileMachine.Legal .start [.construct, .open 0 3 (-1)] ∧
      ¬ Owned (fileMachine.run .start [.construct, .open 0 3 (-1)]) := by
  refine ⟨by decide, fun howned => ?_⟩
  obtain ⟨i, ⟨f, hf, hfd⟩, -⟩ := (howned.open_iff 3 ⟨0, by decide⟩).mp (by decide)
  cases i with
  | zero =>
    have hf : some MFile.construct = some f := hf
    rw [← Option.some.inj hf] at hfd
    exact absurd hfd (by decide)
  | succ i => cases hf

end FfTest.Files
