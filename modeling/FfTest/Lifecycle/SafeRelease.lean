import FfTest.Foundations.EventMachine
import FfTest.Lifecycle.Effects

/-! # Releasing a decoder in every state of its life

`lifecycleMachine` runs construction, `init`, `open`, `release` and destruction in any order, with
every answer of the libraries open. A run is `Safe` when no object is freed twice and no format
context is closed while its `pb` is an I/O context that is already freed.

`release` frees the I/O context before it closes the format context. It is safe exactly where the
two are `Apart`: the `pb` of the one is not the other (`safe_iff_released_apart`). -/

namespace FfTest.Lifecycle

/-! ## The machine -/

/-- One step in the life of decoders. -/
inductive Event
  /-- `Decoder::Decoder`. -/
  | construct
  /-- `Decoder::init`. -/
  | init (ans : InitAnswers)
  /-- `Decoder::open`. -/
  | open (ans : OpenAnswers)
  /-- `Decoder::release`. -/
  | release
  /-- `Decoder::~Decoder`. -/
  | destroy
  deriving DecidableEq, Repr

/-- A decoder, if there is one, and the libraries. -/
structure State where
  /-- The libraries. -/
  lib : Library
  /-- The decoder. -/
  decoder : Option Decoder
  /-- How many successful calls of `init` have not been followed by their `open`. -/
  opens : ℕ

namespace State

/-- Before the first decoder. -/
def start : State := ⟨.start, none, 0⟩

/-- The step of an event on a decoder. -/
def onDecoder (cfg : Config) (s : State) (d : Decoder) : Event → State
  | .construct => s
  | .init ans =>
    let (ret, d, lib) := Lifecycle.init ans d s.lib
    ⟨lib, some d, if ret = 0 then s.opens + 1 else s.opens⟩
  | .open ans =>
    let (_, d, lib) := streamOpen cfg ans d s.lib
    ⟨lib, some d, s.opens - 1⟩
  | .release =>
    let (d, lib) := Lifecycle.release d s.lib
    ⟨lib, some d, s.opens⟩
  | .destroy =>
    let (_, lib) := Lifecycle.release d s.lib
    ⟨lib, none, 0⟩

/-- The step of an event. -/
def step (cfg : Config) (s : State) (e : Event) : State :=
  match s.decoder with
  | none => if e = .construct then ⟨s.lib, some .construct, 0⟩ else s
  | some d => s.onDecoder cfg d e

/-- A decoder is constructed where there is none, and used where there is one; each `open` belongs
to a successful `init`. -/
def Admits (s : State) : Event → Prop
  | .construct => s.decoder = none
  | .open _ => s.decoder ≠ none ∧ 0 < s.opens
  | _ => s.decoder ≠ none

instance (s : State) : ∀ e, Decidable (s.Admits e)
  | .construct => inferInstanceAs (Decidable (_ = _))
  | .open _ => inferInstanceAs (Decidable (_ ∧ _))
  | .init _ | .release | .destroy => inferInstanceAs (Decidable (_ ≠ _))

end State

/-- The life of decoders under a configuration. -/
def lifecycleMachine (cfg : Config) : Machine State Event := ⟨State.step cfg, State.Admits⟩

instance (cfg : Config) (s : State) (e : Event) : Decidable ((lifecycleMachine cfg).guard s e) :=
  inferInstanceAs (Decidable (s.Admits e))

/-! ## Safety -/

/-- No format context was closed with a `pb` that had been freed. -/
def SafeCloses : List Call → Prop
  | [] => True
  | .closeInput _ pb :: calls =>
    (∀ io ∈ pb, timesReleased io (ledger calls) = 0) ∧ SafeCloses calls
  | _ :: calls => SafeCloses calls

/-- Nothing was freed twice, and no format context was closed over a freed `pb`. -/
structure Safe (calls : List Call) : Prop where
  /-- No object was freed twice. -/
  freedOnce : ∀ o, timesReleased o (ledger calls) ≤ 1
  /-- No format context was closed over a freed `pb`. -/
  safeCloses : SafeCloses calls

/-- The `pb` of the format context is not the I/O context of the decoder. -/
def Decoder.Apart (d : Decoder) : Prop :=
  ∀ fmt io, d.fmtCtx = some fmt → d.ioCtx = some io → fmt.pb ≠ some io

/-- Whatever the event releases is apart. -/
def ReleasesApart (s : State) : Event → Prop
  | .release | .destroy => ∀ d, s.decoder = some d → d.Apart
  | _ => True

/-! ## Objects in the decoder's hands -/

/-- The objects `os` can each be freed once more, and all has been safe so far. -/
structure Holds (lib : Library) (os : List Object) : Prop where
  /-- The objects are in custody. -/
  custody : Custody (ledger lib.calls) os
  /-- Objects yet to be allocated have not been. -/
  numbered : ∀ o, 0 < timesAcquired o (ledger lib.calls) → o.serial < lib.next
  /-- The format contexts were closed safely. -/
  safeCloses : SafeCloses lib.calls

namespace Holds

variable {lib : Library} {os : List Object}

/-- Untouched libraries hold nothing for anybody. -/
theorem start : Holds .start [] :=
  ⟨Custody.empty, fun _ h => absurd h (Nat.lt_irrefl 0), trivial⟩

/-- Where objects are held all has been safe. -/
theorem safe (h : Holds lib os) : Safe lib.calls :=
  ⟨h.custody.wellReleased.timesReleased_le_one h.custody.freshlyNamed, h.safeCloses⟩

/-- Objects may be lost, or taken in another order. -/
theorem lose {os' : List Object} (h : Holds lib os) (hle : ∀ o, os'.count o ≤ os.count o) :
    Holds lib os' where
  custody := h.custody.lose (List.subperm_ext_iff.mpr fun o _ => hle o)
  numbered := h.numbered
  safeCloses := h.safeCloses

/-- A new object is held. -/
theorem alloc_fst (h : Holds lib os) (kind : ObjectKind) :
    Holds (lib.alloc kind).2 ((lib.alloc kind).1 :: os) where
  custody := by
    apply h.custody.acquire
    rw [← Nat.le_zero, ← Nat.not_lt]
    exact fun hacq => Nat.lt_irrefl _ (h.numbered _ hacq)
  numbered o hacq := by
    simp only [Library.alloc, ledger_alloc, timesAcquired_acquire] at hacq ⊢
    by_cases ho : (⟨kind, lib.next⟩ : Object) = o
    · subst ho
      exact Nat.lt_succ_self _
    · rw [if_neg ho] at hacq
      exact Nat.lt_succ_of_lt (h.numbered o hacq)
  safeCloses := h.safeCloses

/-- A new object is held. -/
theorem alloc (h : Holds lib os) {kind : ObjectKind} {o : Object} {lib' : Library}
    (halloc : lib.alloc kind = (o, lib')) : Holds lib' (o :: os) := by
  have hnew := h.alloc_fst kind
  rwa [halloc] at hnew

/-- The first object held can be freed. -/
theorem free {o : Object} (h : Holds lib (o :: os)) : Holds (lib.free o) os where
  custody := h.custody.release
  numbered := h.numbered
  safeCloses := h.safeCloses

/-- Freeing the first object held leaves the others held. -/
theorem keptByFree : KeptByFree Holds := fun _ _ _ h => h.free

/-- `avformat_close_input` frees the context, and the `pb` unless that is custom I/O. -/
theorem close {fmt : FormatContext}
    (h : Holds lib (fmt.obj :: (fmt.pb.elim [] IOContext.objects ++ os))) :
    Holds (avformatCloseInput fmt lib) os := by
  have hclosed : Holds
      { lib with calls := .closeInput fmt.obj (fmt.pb.map IOContext.obj) :: lib.calls }
      (fmt.obj :: (fmt.pb.elim [] IOContext.objects ++ os)) := by
    refine ⟨h.custody, h.numbered, fun io hio => ?_, h.safeCloses⟩
    obtain ⟨pb, hpb, rfl⟩ := Option.map_eq_some_iff.mp hio
    apply h.custody.timesReleased_eq_zero
    simp [hpb, IOContext.objects]
  have hfreed := hclosed.free
  simp only [avformatCloseInput]
  cases hpb : fmt.pb with
  | none =>
    rw [hpb] at hfreed
    simpa using hfreed
  | some io =>
    rw [hpb] at hfreed
    split
    · exact hfreed.lose fun o => by simp [List.count_append]
    · exact keptByFree.freeIoContext hfreed

end Holds

/-! ## Each step keeps what is held -/

/-- The decoder holds its objects. No step makes a scaler. -/
structure Sound (d : Decoder) (lib : Library) : Prop where
  /-- The objects are held. -/
  holds : Holds lib d.objects
  /-- There is no scaler. -/
  noScaler : d.swsCtx = none

/-- Whatever succeeds in `init`, the decoder holds its objects: they are some of those it had, and
some of those it has just been given. -/
theorem Sound.init {d : Decoder} {lib : Library} (h : Sound d lib) (ans : InitAnswers) :
    Sound (init ans d lib).2.1 (init ans d lib).2.2 := by
  have heffect := init_effect ans d lib
  generalize Lifecycle.init ans d lib = result at heffect ⊢
  have hsws := h.noScaler
  cases heffect with
  | noFormat =>
    refine ⟨h.holds.lose fun o => ?_, hsws⟩
    simp [Decoder.objects, Decoder.ownPb]
    omega
  | noBuffer _ _ h₁ =>
    refine ⟨(h.holds.alloc h₁).lose fun o => ?_, hsws⟩
    simp [Decoder.objects, Decoder.ownPb, List.count_cons]
    omega
  | noIoContext _ _ _ h₁ h₂ =>
    refine ⟨((h.holds.alloc h₁).alloc h₂).lose fun o => ?_, hsws⟩
    simp [Decoder.objects, Decoder.ownPb, List.count_cons]
    omega
  | noPacket _ _ _ _ h₁ h₂ h₃ =>
    refine ⟨(((h.holds.alloc h₁).alloc h₂).alloc h₃).lose fun o => ?_, hsws⟩
    simp [Decoder.objects, Decoder.ownPb, IOContext.objects, List.count_cons]
    omega
  | done _ _ _ _ h₁ h₂ h₃ h₄ =>
    refine ⟨((((h.holds.alloc h₁).alloc h₂).alloc h₃).alloc h₄).lose fun o => ?_, hsws⟩
    simp [Decoder.objects, Decoder.ownPb, IOContext.objects, List.count_cons]
    omega

/-- Opening the input keeps the context held, with the `pb` it gets. -/
theorem Sound.openInput {streams : List Stream} {d : Decoder} {fmt : FormatContext}
    {lib lib₁ : Library} (h : Sound d lib) (hopen : InputOpened streams lib d.fmtCtx (fmt, lib₁)) :
    Sound { d with fmtCtx := some fmt } lib₁ := by
  have hsws := h.noScaler
  have hholds := h.holds
  unfold Decoder.objects Decoder.ownPb at hholds
  generalize d.fmtCtx = ps at hholds hopen
  cases hopen with
  | customPb hpb =>
    refine ⟨hholds.lose fun o => ?_, hsws⟩
    simp [Decoder.objects, Decoder.ownPb, hpb]
  | ownPb hpb h₁ h₂ =>
    refine ⟨((hholds.alloc h₁).alloc h₂).lose fun o => ?_, hsws⟩
    simp [Decoder.objects, Decoder.ownPb, hpb, List.count_cons]
    split <;> simp [IOContext.objects, List.count_cons] <;> omega
  | newContext h₁ h₂ h₃ =>
    refine ⟨(((hholds.alloc h₁).alloc h₂).alloc h₃).lose fun o => ?_, hsws⟩
    simp [Decoder.objects, Decoder.ownPb, List.count_cons]
    split <;> simp [IOContext.objects, List.count_cons] <;> omega

/-- Whatever `open` meets, the decoder holds its objects. -/
theorem Sound.streamOpen {d : Decoder} {lib : Library} (h : Sound d lib) (cfg : Config)
    (ans : OpenAnswers) :
    Sound (streamOpen cfg ans d lib).2.1 (streamOpen cfg ans d lib).2.2 := by
  have heffect := streamOpen_effect cfg ans d lib
  generalize Lifecycle.streamOpen cfg ans d lib = result at heffect ⊢
  obtain ⟨ret, d', lib'⟩ := result
  have hsws := h.noScaler
  cases heffect with
  | inputFailed hps =>
    refine ⟨Holds.free (h.holds.lose fun o => ?_), hsws⟩
    simp [Decoder.objects, Decoder.ownPb, hps, List.count_cons]
    omega
  | nullFailed hps =>
    refine ⟨h.holds.lose fun o => ?_, hsws⟩
    simp [Decoder.objects, Decoder.ownPb, hps]
  | noCodec hopen => exact h.openInput hopen
  | refused hopen =>
    refine ⟨(h.openInput hopen).holds.lose fun o => ?_, hsws⟩
    simp [Decoder.objects, Decoder.ownPb]
  | made streamIdx width height hopen halloc =>
    refine ⟨((h.openInput hopen).holds.alloc halloc).lose fun o => ?_, hsws⟩
    simp [Decoder.objects, Decoder.ownPb, List.count_cons]
    omega

/-- **Release of a decoder whose contexts are apart** frees everything it holds, each once. -/
theorem Sound.release {d : Decoder} {lib : Library} (h : Sound d lib) (hapart : d.Apart) :
    Holds (release d lib).2 [] := by
  have hsws := h.noScaler
  -- the format context knows its `pb` alone
  have hown : ∀ fmt, d.fmtCtx = some fmt → d.ownPb = fmt.pb := by
    intro fmt hfmt
    simp only [Decoder.ownPb, hfmt, Option.bind_some]
    split
    · rename_i heq
      cases hio : d.ioCtx with
      | none => rw [heq, hio]
      | some io => exact absurd (heq.trans hio) (hapart fmt io hfmt hio)
    · rfl
  have hcodec := Holds.keptByFree.beforeClose h.holds
  simp only [Lifecycle.release, hsws]
  cases hfmt : d.fmtCtx with
  | none => exact hcodec.lose fun o => by simp
  | some fmt =>
    rw [hown fmt hfmt, hfmt, hsws] at hcodec
    exact hcodec.close

/-! ## Calls are only added -/

/-- A format context closed over a freed `pb` stays so. -/
theorem SafeCloses.of_suffix {calls calls' : List Call} (h : SafeCloses calls')
    (hsuffix : calls <:+ calls') : SafeCloses calls := by
  obtain ⟨new, rfl⟩ := hsuffix
  induction new with
  | nil => exact h
  | cons c new ih =>
    cases c with
    | alloc o => exact ih h
    | free o => exact ih h
    | closeInput fmt pb => exact ih h.2

/-- An allocation adds a call. -/
theorem suffix_alloc {lib lib' : Library} {kind : ObjectKind} {o : Object}
    (halloc : lib.alloc kind = (o, lib')) : lib.calls <:+ lib'.calls := by
  obtain ⟨-, rfl⟩ := Prod.mk.inj halloc
  exact List.suffix_cons _ _

/-- Freeing adds a call. -/
theorem suffix_freeIf (o : Option Object) (lib : Library) :
    lib.calls <:+ (freeIf o lib).calls := by
  cases o with
  | none => exact List.suffix_rfl
  | some o => exact List.suffix_cons _ _

/-- Freeing an I/O context adds calls. -/
theorem suffix_freeIoContext (io : IOContext) (lib : Library) :
    lib.calls <:+ (freeIoContext io lib).calls :=
  (suffix_freeIf io.buffer lib).trans (List.suffix_cons _ _)

/-- `init` adds calls. -/
theorem suffix_init (ans : InitAnswers) (d : Decoder) (lib : Library) :
    lib.calls <:+ (init ans d lib).2.2.calls := by
  have heffect := init_effect ans d lib
  generalize Lifecycle.init ans d lib = result at heffect ⊢
  cases heffect with
  | noFormat => exact List.suffix_rfl
  | noBuffer _ _ h₁ => exact suffix_alloc h₁
  | noIoContext _ _ _ h₁ h₂ => exact (suffix_alloc h₁).trans (suffix_alloc h₂)
  | noPacket _ _ _ _ h₁ h₂ h₃ =>
    exact ((suffix_alloc h₁).trans (suffix_alloc h₂)).trans (suffix_alloc h₃)
  | done _ _ _ _ h₁ h₂ h₃ h₄ =>
    exact (((suffix_alloc h₁).trans (suffix_alloc h₂)).trans (suffix_alloc h₃)).trans
      (suffix_alloc h₄)

/-- Opening an input adds calls. -/
theorem InputOpened.suffix {streams : List Stream} {ps : Option FormatContext}
    {fmt : FormatContext} {lib lib₁ : Library} (h : InputOpened streams lib ps (fmt, lib₁)) :
    lib.calls <:+ lib₁.calls := by
  cases h with
  | customPb => exact List.suffix_rfl
  | ownPb _ h₁ h₂ => exact (suffix_alloc h₁).trans (suffix_alloc h₂)
  | newContext h₁ h₂ h₃ =>
    exact ((suffix_alloc h₁).trans (suffix_alloc h₂)).trans (suffix_alloc h₃)

/-- `open` adds calls. -/
theorem suffix_streamOpen (cfg : Config) (ans : OpenAnswers) (d : Decoder) (lib : Library) :
    lib.calls <:+ (streamOpen cfg ans d lib).2.2.calls := by
  have heffect := streamOpen_effect cfg ans d lib
  generalize Lifecycle.streamOpen cfg ans d lib = result at heffect ⊢
  obtain ⟨ret, d', lib'⟩ := result
  cases heffect with
  | inputFailed => exact List.suffix_cons _ _
  | nullFailed => exact List.suffix_rfl
  | noCodec hopen => exact hopen.suffix
  | refused hopen => exact hopen.suffix
  | made _ _ _ hopen halloc => exact hopen.suffix.trans (suffix_alloc halloc)

/-- Closing a format context adds calls, first the one that says so. -/
theorem suffix_avformatCloseInput (fmt : FormatContext) (lib : Library) :
    .closeInput fmt.obj (fmt.pb.map IOContext.obj) :: lib.calls
      <:+ (avformatCloseInput fmt lib).calls := by
  simp only [avformatCloseInput]
  split
  · exact List.suffix_cons _ _
  · cases fmt.pb with
    | none => exact List.suffix_cons _ _
    | some io =>
      exact (List.suffix_cons (.free fmt.obj) _).trans
        (suffix_freeIoContext io
          ⟨lib.next, .free fmt.obj :: .closeInput fmt.obj (some io.obj) :: lib.calls⟩)

/-- `release` adds calls. -/
theorem suffix_release (d : Decoder) (lib : Library) : lib.calls <:+ (release d lib).2.calls := by
  have hio : lib.calls <:+
      (d.ioCtx.elim (freeIf d.pkt lib) (freeIoContext · (freeIf d.pkt lib))).calls := by
    cases d.ioCtx with
    | none => exact suffix_freeIf d.pkt lib
    | some io => exact (suffix_freeIf d.pkt lib).trans (suffix_freeIoContext io _)
  have hbefore : lib.calls <:+ (beforeClose d lib).calls := hio.trans (suffix_freeIf _ _)
  have hclose : lib.calls <:+
      (d.fmtCtx.elim (beforeClose d lib) (avformatCloseInput · (beforeClose d lib))).calls := by
    cases d.fmtCtx with
    | none => exact hbefore
    | some fmt =>
      exact (hbefore.trans (List.suffix_cons _ _)).trans (suffix_avformatCloseInput fmt _)
  exact hclose.trans (suffix_freeIf d.swsCtx _)

/-- What was freed stays freed. -/
theorem timesReleased_le_of_suffix {calls calls' : List Call} (h : calls <:+ calls') (o : Object) :
    timesReleased o (ledger calls) ≤ timesReleased o (ledger calls') := by
  obtain ⟨new, rfl⟩ := h
  induction new with
  | nil => exact Nat.le_refl _
  | cons c new ih =>
    cases c with
    | alloc o' => exact ih
    | free o' => exact Nat.le_trans ih (Nat.le_add_right _ _)
    | closeInput fmt pb => exact ih

/-- **Release of a decoder whose contexts are not apart** closes the format context over the I/O
context just freed. -/
theorem not_safeCloses_release {d : Decoder} {lib : Library} (h : ¬ d.Apart) :
    ¬ SafeCloses (release d lib).2.calls := by
  simp only [Decoder.Apart, not_forall, not_not] at h
  obtain ⟨fmt, io, hfmt, hio, hpb⟩ := h
  intro hsafe
  have hclosed : .closeInput fmt.obj (some io.obj) :: (beforeClose d lib).calls
      <:+ (release d lib).2.calls := by
    have hclose := suffix_avformatCloseInput fmt (beforeClose d lib)
    rw [hpb] at hclose
    have hrelease : (release d lib).2
        = freeIf d.swsCtx (avformatCloseInput fmt (beforeClose d lib)) := by
      simp only [release, hfmt]
      rfl
    rw [hrelease]
    exact hclose.trans (suffix_freeIf d.swsCtx _)
  have hfreed : .free io.obj :: (freeIf io.buffer (freeIf d.pkt lib)).calls
      <:+ (beforeClose d lib).calls := by
    simp only [beforeClose, hio]
    exact suffix_freeIf _ (freeIoContext io (freeIf d.pkt lib))
  have hzero := (hsafe.of_suffix hclosed).1 io.obj rfl
  have hle := timesReleased_le_of_suffix hfreed io.obj
  rw [hzero, ledger_free, timesReleased_release, if_pos rfl] at hle
  exact absurd hle (Nat.not_succ_le_zero _)

/-! ## Whole runs -/

/-- If there is a decoder it holds its objects. -/
def State.Sound (s : State) : Prop :=
  s.decoder.elim (Holds s.lib []) (Lifecycle.Sound · s.lib)

/-- A state in which the decoder holds its objects is safe. -/
theorem State.Sound.safe {s : State} (h : s.Sound) : Safe s.lib.calls := by
  obtain ⟨lib, decoder, opens⟩ := s
  cases decoder with
  | none => exact Holds.safe h
  | some d => exact (Lifecycle.Sound.holds h).safe

variable {cfg : Config}

/-- **Step lemma.** A step that releases only what is apart keeps what is held. -/
theorem State.Sound.step {s : State} {e : Event} (h : s.Sound) (happart : ReleasesApart s e) :
    ((lifecycleMachine cfg).step s e).Sound := by
  obtain ⟨lib, decoder, opens⟩ := s
  cases decoder with
  | none =>
    by_cases he : e = .construct
    · subst he
      exact ⟨h, rfl⟩
    · simpa [lifecycleMachine, State.step, he] using h
  | some d =>
    have hd : Lifecycle.Sound d lib := h
    cases e with
    | construct => exact h
    | init ans => exact hd.init ans
    | «open» ans => exact hd.streamOpen cfg ans
    | release =>
      refine ⟨?_, hd.noScaler⟩
      show Holds (release d lib).2 (Option.toList d.swsCtx)
      rw [hd.noScaler]
      exact hd.release (happart d rfl)
    | destroy => exact hd.release (happart d rfl)

/-- A step adds calls. -/
theorem suffix_step (s : State) (e : Event) :
    s.lib.calls <:+ ((lifecycleMachine cfg).step s e).lib.calls := by
  obtain ⟨lib, decoder, opens⟩ := s
  cases decoder with
  | none =>
    by_cases he : e = .construct
    · subst he
      exact List.suffix_rfl
    · simp [lifecycleMachine, State.step, he]
  | some d =>
    cases e with
    | construct => exact List.suffix_rfl
    | init ans => exact suffix_init ans d lib
    | «open» ans => exact suffix_streamOpen cfg ans d lib
    | release => exact suffix_release d lib
    | destroy => exact suffix_release d lib

/-- A run adds calls. -/
theorem suffix_run (s : State) (es : List Event) :
    s.lib.calls <:+ ((lifecycleMachine cfg).run s es).lib.calls := by
  induction es generalizing s with
  | nil => exact List.suffix_rfl
  | cons e es ih => exact (suffix_step s e).trans (ih _)

/-- A step that releases contexts that are not apart is not safe. -/
theorem releasesApart_of_safeCloses {s : State} {e : Event}
    (h : SafeCloses ((lifecycleMachine cfg).step s e).lib.calls) : ReleasesApart s e := by
  obtain ⟨lib, decoder, opens⟩ := s
  cases e with
  | construct | init | «open» => trivial
  | release | destroy =>
    rintro d ⟨rfl⟩
    by_contra hnot
    exact not_safeCloses_release hnot h

/-- **Release is safe exactly where the contexts are apart.** A run is safe iff at each `release`
and each destruction the `pb` of the format context is not the I/O context of the decoder. -/
theorem safe_iff_released_apart (cfg : Config) (es : List Event)
    (h : (lifecycleMachine cfg).Legal .start es) :
    Safe ((lifecycleMachine cfg).run .start es).lib.calls ↔
      ((lifecycleMachine cfg).restrict ReleasesApart).Legal .start es := by
  constructor
  · intro hsafe
    have hcloses := hsafe.safeCloses
    clear hsafe
    generalize State.start = s at h hcloses ⊢
    induction es generalizing s with
    | nil => trivial
    | cons e es ih =>
      have hstep := hcloses.of_suffix (suffix_run _ es)
      exact ⟨⟨h.1, releasesApart_of_safeCloses hstep⟩, ih _ h.2 hcloses⟩
  · intro hlegal
    have hsound : ((lifecycleMachine cfg).run .start es).Sound :=
      Machine.Legal.invariant (M := (lifecycleMachine cfg).restrict ReleasesApart) State.Sound
        (fun s e hs he => hs.step he.2) hlegal Holds.start
    exact hsound.safe

/-- `init` with every allocation succeeding. -/
def allThere : InitAnswers := ⟨true, true, true, true⟩

/-- `open` of an input that cannot be opened. -/
def noInput : OpenAnswers := ⟨-1, 0, [], 0, none, true, 0, 0, (0, 0)⟩

/-- A decoder whose input cannot be opened, released and destroyed. -/
theorem unopened_released_apart :
    (lifecycleMachine ⟨0, 0⟩).Legal .start
        [.construct, .init allThere, .open noInput, .release, .destroy] ∧
      (Safe ((lifecycleMachine ⟨0, 0⟩).run .start
          [.construct, .init allThere, .open noInput, .release, .destroy]).lib.calls ↔
        ((lifecycleMachine ⟨0, 0⟩).restrict ReleasesApart).Legal .start
          [.construct, .init allThere, .open noInput, .release, .destroy]) :=
  ⟨by decide, safe_iff_released_apart _ _ (by decide)⟩

/-- A decoder that is released before it is opened: its I/O context is freed twice, the second time
through the format context. -/
theorem initialised_release_unsafe :
    (lifecycleMachine ⟨0, 0⟩).Legal .start [.construct, .init allThere, .release] ∧
      ¬ Safe ((lifecycleMachine ⟨0, 0⟩).run .start
        [.construct, .init allThere, .release]).lib.calls := by
  refine ⟨by decide, fun hsafe => ?_⟩
  have htwice : timesReleased ⟨.ioContext, 2⟩ (ledger ((lifecycleMachine ⟨0, 0⟩).run .start
      [.construct, .init allThere, .release]).lib.calls) = 2 := by decide
  have honce := hsafe.freedOnce ⟨.ioContext, 2⟩
  omega

end FfTest.Lifecycle
