import FfTest.Lifecycle.Effects
import Mathlib.Data.List.Infix

/-! # Leaks over the cycles of a decoder

A decoder goes through cycles of `init`, `open` (if `init` returned 0) and `release`, and is then
destroyed. Whatever fails, `release` finds in the fields all that a cycle has allocated, with one
exception: when `avio_alloc_context` fails, the buffer it was to take is in no field
(`leakFree_iff`). -/

namespace FfTest.Lifecycle

/-! ## Cycles -/

/-- What the libraries answer in one cycle. -/
structure CycleAnswers where
  /-- In `init`. -/
  init : InitAnswers
  /-- In `open`, if it comes to that. -/
  «open» : OpenAnswers

/-- `init`, then `open` if `init` has returned 0, then `release`. -/
def cycle (cfg : Config) (c : CycleAnswers) (d : Decoder) (lib : Library) : Decoder × Library :=
  let (ret, d, lib) := init c.init d lib
  let (d, lib) := if ret = 0 then (streamOpen cfg c.open d lib).2 else (d, lib)
  release d lib

/-- A new decoder after the cycles. -/
def afterCycles (cfg : Config) (cs : List CycleAnswers) : Decoder × Library :=
  cs.foldl (fun s c => cycle cfg c s.1 s.2) (.construct, .start)

/-- The libraries when the decoder has been destroyed after the cycles. -/
def afterDestruction (cfg : Config) (cs : List CycleAnswers) : Library :=
  (release (afterCycles cfg cs).1 (afterCycles cfg cs).2).2

/-- Everything allocated since `before` has been freed. -/
def NothingLost (before after : Library) : Prop :=
  AccountedFor (before.next ≤ ·.serial) (ledger after.calls) []

/-- Nothing is lost in any cycle, nor over the whole life. -/
structure LeakFree (cfg : Config) (cs : List CycleAnswers) : Prop where
  /-- When `release` returns, all that the cycle has allocated is freed. -/
  cycle : ∀ pre c, pre ++ [c] <+: cs →
    NothingLost (afterCycles cfg pre).2 (afterCycles cfg (pre ++ [c])).2
  /-- When the decoder is destroyed, all that was ever allocated is freed. -/
  destroyed : NothingLost .start (afterDestruction cfg cs)

/-- `avio_alloc_context` is called and fails. -/
def InitAnswers.StrandsBuffer (ans : InitAnswers) : Prop :=
  ans.formatContext = true ∧ ans.malloc = true ∧ ans.ioContext = false

/-! ## Tracking objects by number -/

/-- The objects `os` are all that is left of those with numbers from `n` on. -/
structure Tracked (n : ℕ) (lib : Library) (os : List Object) : Prop where
  /-- Numbers yet to be given occur nowhere. -/
  unused : ∀ o, lib.next ≤ o.serial →
    timesAcquired o (ledger lib.calls) = 0 ∧ timesReleased o (ledger lib.calls) = 0
  /-- The objects have been given their numbers. -/
  below : ∀ o ∈ os, o.serial < lib.next
  /-- What was allocated from `n` on is freed or one of them. -/
  accounted : AccountedFor (n ≤ ·.serial) (ledger lib.calls) os

namespace Tracked

variable {n : ℕ} {lib : Library} {os : List Object}

/-- Nothing has been allocated from now on. -/
theorem renew (h : Tracked n lib os) : Tracked lib.next lib [] where
  unused := h.unused
  below _ ho := absurd ho List.not_mem_nil
  accounted o ho hacq := absurd (h.unused o ho).1 (Nat.ne_of_gt hacq)

/-- The list may be permuted, or mention objects twice. -/
theorem congr {os' : List Object} (h : Tracked n lib os) (hmem : ∀ o, o ∈ os ↔ o ∈ os') :
    Tracked n lib os' where
  unused := h.unused
  below o ho := h.below o ((hmem o).mpr ho)
  accounted := h.accounted.mono fun o ho => (hmem o).mp ho

/-- A new object is tracked. -/
theorem alloc (h : Tracked n lib os) {kind : ObjectKind} {o : Object} {lib' : Library}
    (halloc : lib.alloc kind = (o, lib')) : Tracked n lib' (o :: os) := by
  obtain ⟨rfl, rfl⟩ := Prod.mk.inj halloc
  refine ⟨fun o ho => ?_, fun o ho => ?_, h.accounted.acquire _⟩
  · have hne : (⟨kind, lib.next⟩ : Object) ≠ o := by
      rintro rfl
      exact absurd ho (Nat.not_succ_le_self _)
    simpa [hne] using h.unused o (Nat.le_of_succ_le ho)
  · rcases List.mem_cons.mp ho with rfl | ho
    · exact Nat.lt_succ_self _
    · exact Nat.lt_succ_of_lt (h.below o ho)

/-- An object that has its number may be freed, even again. -/
theorem free_any (h : Tracked n lib os) {o : Object} (ho : o.serial < lib.next) :
    Tracked n (lib.free o) os where
  unused o' ho' := by
    have hne : o ≠ o' := by
      rintro rfl
      exact absurd ho (Nat.not_lt.mpr ho')
    simpa [Library.free, hne] using h.unused o' ho'
  below := h.below
  accounted := h.accounted.release_any o

/-- The first object tracked is freed. -/
theorem free {o : Object} (h : Tracked n lib (o :: os)) : Tracked n (lib.free o) os where
  unused := (h.free_any (h.below o List.mem_cons_self)).unused
  below o' ho' := h.below o' (List.mem_cons_of_mem _ ho')
  accounted := h.accounted.release

/-- Freeing the first object tracked leaves the others tracked. -/
theorem keptByFree : KeptByFree (Tracked n) := fun _ _ _ h => h.free

/-- `freeIoContext` may be called again on a context. -/
theorem freeIoContext_any (h : Tracked n lib os) {io : IOContext}
    (hio : ∀ o ∈ io.objects, o.serial < lib.next) :
    Tracked n (freeIoContext io lib) os := by
  obtain ⟨obj, buffer⟩ := io
  cases buffer with
  | none => exact h.free_any (hio obj (by simp [IOContext.objects]))
  | some buffer =>
    have hbuffer := h.free_any (hio buffer (by simp [IOContext.objects]))
    exact hbuffer.free_any (hio obj (by simp [IOContext.objects]))

/-- `avformat_close_input` frees the context, and perhaps its `pb` again. -/
theorem close {fmt : FormatContext} (h : Tracked n lib (fmt.obj :: os))
    (hpb : ∀ io, fmt.pb = some io → ∀ o ∈ io.objects, o.serial < lib.next) :
    Tracked n (avformatCloseInput fmt lib) os := by
  have hclosed : Tracked n
      { lib with calls := .closeInput fmt.obj (fmt.pb.map IOContext.obj) :: lib.calls }
      (fmt.obj :: os) := ⟨h.unused, h.below, h.accounted⟩
  have hfreed := hclosed.free
  simp only [avformatCloseInput]
  split
  · exact hfreed
  · cases hctx : fmt.pb with
    | none => simpa [hctx] using hfreed
    | some io =>
      rw [hctx] at hfreed
      exact hfreed.freeIoContext_any (hpb io hctx)

end Tracked

/-- Freeing makes no object. -/
@[simp] theorem freeIf_next (o : Option Object) (lib : Library) :
    (freeIf o lib).next = lib.next := by
  cases o <;> rfl

/-- `release` makes no object before it closes the format context. -/
@[simp] theorem beforeClose_next (d : Decoder) (lib : Library) :
    (beforeClose d lib).next = lib.next := by
  unfold beforeClose
  cases d.ioCtx with
  | none => simp
  | some io => simp [freeIoContext, Library.free]

/-! ## One cycle -/

/-- No field is set. -/
structure Decoder.Clean (d : Decoder) : Prop where
  /-- `m_pkt` is `NULL`. -/
  pkt : d.pkt = none
  /-- `m_io_ctx` is `NULL`. -/
  ioCtx : d.ioCtx = none
  /-- `m_codec_ctx` is `NULL`. -/
  codecCtx : d.codecCtx = none
  /-- `m_fmt_ctx` is `NULL`. -/
  fmtCtx : d.fmtCtx = none
  /-- `m_sws_ctx` is `NULL`. -/
  swsCtx : d.swsCtx = none

/-- All objects from number `n` on that are not freed are in the fields, and the format context has
no `pb` of its own. -/
structure InFields (n : ℕ) (d : Decoder) (lib : Library) : Prop where
  /-- The objects are tracked. -/
  tracked : Tracked n lib d.objects
  /-- The `pb` of the format context is the I/O context. -/
  shared : ∀ fmt, d.fmtCtx = some fmt → fmt.pb = none ∨ fmt.pb = d.ioCtx
  /-- There is no scaler. -/
  noScaler : d.swsCtx = none

/-- A format context with its `pb` is there, and no codec context. -/
def Decoder.ReadyToOpen (d : Decoder) : Prop :=
  ∃ fmt io, d.fmtCtx = some fmt ∧ fmt.pb = some io ∧ d.codecCtx = none

/-- A `pb` of the format context is the I/O context. -/
theorem InFields.ioCtx_eq {n : ℕ} {d : Decoder} {lib : Library} (h : InFields n d lib)
    {fmt : FormatContext} {io : IOContext} (hfmt : d.fmtCtx = some fmt) (hpb : fmt.pb = some io) :
    d.ioCtx = some io := by
  rcases h.shared fmt hfmt with hnone | hshared
  · rw [hpb] at hnone
    cases hnone
  · rw [← hshared, hpb]

/-- `release` finds all that is in the fields. -/
theorem InFields.release {n : ℕ} {d : Decoder} {lib : Library} (h : InFields n d lib) :
    Tracked n (release d lib).2 [] ∧ (release d lib).1.Clean := by
  have hown : d.ownPb = none := by
    cases hfmt : d.fmtCtx with
    | none => simp [Decoder.ownPb, hfmt]
    | some fmt =>
      rcases h.shared fmt hfmt with hpb | hpb
      · simp [Decoder.ownPb, hfmt, hpb]
      · simp [Decoder.ownPb, hfmt, hpb]
  have htracked := h.tracked
  rw [Decoder.objects, hown, h.noScaler] at htracked
  have hcodec := Tracked.keptByFree.beforeClose htracked
  refine ⟨?_, rfl, rfl, rfl, rfl, h.noScaler⟩
  simp only [Lifecycle.release, h.noScaler]
  cases hfmt : d.fmtCtx with
  | none =>
    rw [hfmt] at hcodec
    exact hcodec
  | some fmt =>
    rw [hfmt] at hcodec
    refine hcodec.close fun io hpb o ho => ?_
    -- the `pb` may have been freed before: its objects have their numbers all the same
    have hbelow := h.tracked.below o (by simp [Decoder.objects, h.ioCtx_eq hfmt hpb, ho])
    simpa using hbelow

/-- After `init` of a clean decoder all that was allocated is in the fields, unless a buffer is
stranded. -/
theorem Tracked.init {n : ℕ} {lib : Library} {d : Decoder} (h : Tracked n lib [])
    (hclean : d.Clean) (ans : InitAnswers) (hstrands : ¬ ans.StrandsBuffer) :
    InFields n (init ans d lib).2.1 (init ans d lib).2.2 ∧
      ((init ans d lib).1 = 0 → (init ans d lib).2.1.ReadyToOpen) := by
  have heffect := init_effect ans d lib
  generalize Lifecycle.init ans d lib = result at heffect ⊢
  obtain ⟨hpkt, hio, hcodec, hfmt, hsws⟩ := hclean
  cases heffect with
  | noFormat =>
    refine ⟨⟨h.congr fun o => ?_, by simp, hsws⟩, by simp⟩
    simp [Decoder.objects, Decoder.ownPb, hpkt, hio, hcodec, hsws]
  | noBuffer _ _ h₁ =>
    refine ⟨⟨(h.alloc h₁).congr fun o => ?_, by simp, hsws⟩, by simp⟩
    simp [Decoder.objects, Decoder.ownPb, hpkt, hio, hcodec, hsws]
  | noIoContext hf hm hi => exact absurd ⟨hf, hm, hi⟩ hstrands
  | noPacket _ _ _ _ h₁ h₂ h₃ =>
    refine ⟨⟨(((h.alloc h₁).alloc h₂).alloc h₃).congr fun o => ?_, by simp, hsws⟩, by simp⟩
    simp [Decoder.objects, Decoder.ownPb, IOContext.objects, hcodec, hsws]
    tauto
  | done _ _ _ _ h₁ h₂ h₃ h₄ =>
    refine ⟨⟨((((h.alloc h₁).alloc h₂).alloc h₃).alloc h₄).congr fun o => ?_, by simp, hsws⟩,
      fun _ => ⟨_, _, rfl, rfl, hcodec⟩⟩
    simp [Decoder.objects, Decoder.ownPb, IOContext.objects, hcodec, hsws]
    tauto

/-- After `open` of an initialised decoder all that was allocated is in the fields. -/
theorem InFields.streamOpen {n : ℕ} {d : Decoder} {lib : Library} (h : InFields n d lib)
    (hready : d.ReadyToOpen) (cfg : Config) (ans : OpenAnswers) :
    InFields n (streamOpen cfg ans d lib).2.1 (streamOpen cfg ans d lib).2.2 := by
  obtain ⟨fmt, io, hfmt, hpb, hcodec⟩ := hready
  have hio := h.ioCtx_eq hfmt hpb
  have hsws := h.noScaler
  have htracked : Tracked n lib (d.pkt.toList ++ (io.objects ++ [fmt.obj])) := by
    refine h.tracked.congr fun o => ?_
    simp [Decoder.objects, Decoder.ownPb, hfmt, hpb, hio, hcodec, hsws]
  -- the input of this context is custom I/O
  have hcustom : ∀ {fmt' lib'}, InputOpened ans.streams lib d.fmtCtx (fmt', lib') →
      fmt' = ⟨fmt.obj, some io, true, ans.streams⟩ ∧ lib' = lib := by
    intro fmt' lib' hopen
    rw [hfmt] at hopen
    cases hopen with
    | customPb hpb' => exact ⟨by rw [← hpb, hpb'], rfl⟩
    | ownPb hnone => simp [hpb] at hnone
  have heffect := streamOpen_effect cfg ans d lib
  generalize Lifecycle.streamOpen cfg ans d lib = result at heffect ⊢
  obtain ⟨ret, d', lib'⟩ := result
  cases heffect with
  | inputFailed hps =>
    obtain rfl := Option.some.inj (hfmt.symm.trans hps)
    refine ⟨Tracked.free (htracked.congr fun o => ?_), by simp, hsws⟩
    simp [Decoder.objects, Decoder.ownPb, hio, hcodec, hsws]
    tauto
  | nullFailed hps => simp [hfmt] at hps
  | noCodec hopen | refused hopen =>
    obtain ⟨rfl, rfl⟩ := hcustom hopen
    refine ⟨htracked.congr fun o => ?_, by simp [hio], hsws⟩
    simp [Decoder.objects, Decoder.ownPb, hio, hcodec, hsws]
  | made _ _ _ hopen halloc =>
    obtain ⟨rfl, rfl⟩ := hcustom hopen
    refine ⟨(htracked.alloc halloc).congr fun o => ?_, by simp [hio], hsws⟩
    simp [Decoder.objects, Decoder.ownPb, hio, hsws]
    tauto

/-- **A cycle that strands no buffer** frees all it has allocated. -/
theorem Tracked.cycle {n : ℕ} {lib : Library} {d : Decoder} (h : Tracked n lib [])
    (hclean : d.Clean) (cfg : Config) (c : CycleAnswers) (hstrands : ¬ c.init.StrandsBuffer) :
    Tracked n (cycle cfg c d lib).2 [] ∧ (cycle cfg c d lib).1.Clean := by
  obtain ⟨hfields, hready⟩ := h.init hclean c.init hstrands
  unfold Lifecycle.cycle
  generalize Lifecycle.init c.init d lib = result at hfields hready ⊢
  obtain ⟨ret, d', lib'⟩ := result
  by_cases hret : ret = 0
  · simp only [hret, if_true]
    exact (hfields.streamOpen (hready hret) cfg c.open).release
  · simp only [hret, if_false]
    exact hfields.release

/-- **A cycle that strands its buffer** ends with a buffer that is not freed. -/
theorem stranded_buffer {n : ℕ} {lib : Library} {d : Decoder} (h : Tracked n lib [])
    (hclean : d.Clean) (cfg : Config) (c : CycleAnswers) (hstrands : c.init.StrandsBuffer) :
    ¬ NothingLost lib (cycle cfg c d lib).2 := by
  obtain ⟨hformat, hmalloc, hioctx⟩ := hstrands
  obtain ⟨hpkt, hio, hcodec, hfmt, hsws⟩ := hclean
  intro hlost
  have hunused := (h.unused ⟨.ioBuffer, lib.next + 1⟩ (Nat.le_succ _)).2
  have hfreed := hlost ⟨.ioBuffer, lib.next + 1⟩ (Nat.le_succ _)
  simp [Lifecycle.cycle, Lifecycle.init, release, avformatCloseInput, freeIf, Library.alloc,
    Library.free, hformat, hmalloc, hioctx, hpkt, hcodec, hsws, hunused] at hfreed

/-! ## All cycles -/

/-- One more cycle. -/
theorem afterCycles_snoc (cfg : Config) (cs : List CycleAnswers) (c : CycleAnswers) :
    afterCycles cfg (cs ++ [c]) = cycle cfg c (afterCycles cfg cs).1 (afterCycles cfg cs).2 := by
  simp [afterCycles]

/-- After cycles that strand no buffer the decoder is clean and nothing is left. -/
theorem afterCycles_tracked (cfg : Config) (cs : List CycleAnswers)
    (h : ∀ c ∈ cs, ¬ c.init.StrandsBuffer) :
    Tracked 0 (afterCycles cfg cs).2 [] ∧ (afterCycles cfg cs).1.Clean := by
  induction cs using List.reverseRecOn with
  | nil =>
    refine ⟨⟨fun _ _ => ⟨rfl, rfl⟩, fun o ho => absurd ho List.not_mem_nil, ?_⟩,
      ⟨rfl, rfl, rfl, rfl, rfl⟩⟩
    exact fun _ _ hacq => absurd hacq (Nat.lt_irrefl 0)
  | append_singleton cs c ih =>
    obtain ⟨htracked, hclean⟩ := ih fun c' hc' => h c' (List.mem_append_left _ hc')
    rw [afterCycles_snoc]
    exact htracked.cycle hclean cfg c (h c (List.mem_append_right _ (List.mem_singleton_self c)))

/-- If no cycle loses anything, none strands a buffer. -/
theorem not_strandsBuffer (cfg : Config) (cs : List CycleAnswers)
    (h : ∀ pre c, pre ++ [c] <+: cs →
      NothingLost (afterCycles cfg pre).2 (afterCycles cfg (pre ++ [c])).2) :
    ∀ c ∈ cs, ¬ c.init.StrandsBuffer := by
  induction cs using List.reverseRecOn with
  | nil => exact fun c hc => absurd hc List.not_mem_nil
  | append_singleton cs c ih =>
    have hearlier := ih fun pre c' hpre => h pre c' (hpre.trans (List.prefix_append cs [c]))
    intro c' hc'
    rcases List.mem_append.mp hc' with hc' | hc'
    · exact hearlier c' hc'
    · obtain rfl := List.mem_singleton.mp hc'
      obtain ⟨htracked, hclean⟩ := afterCycles_tracked cfg cs hearlier
      intro hstrands
      have hlost := h cs c' (List.prefix_refl _)
      rw [afterCycles_snoc] at hlost
      exact stranded_buffer htracked hclean cfg c' hstrands hlost

/-- **The leaks of a decoder.** Its life is free of leaks iff in no cycle `avio_alloc_context` fails
after `av_malloc` has returned a buffer for it. -/
theorem leakFree_iff (cfg : Config) (cs : List CycleAnswers) :
    LeakFree cfg cs ↔ ∀ c ∈ cs, ¬ c.init.StrandsBuffer := by
  constructor
  · exact fun hfree => not_strandsBuffer cfg cs hfree.cycle
  · intro h
    constructor
    · intro pre c hpre
      obtain ⟨htracked, hclean⟩ := afterCycles_tracked cfg pre fun c' hc' =>
        h c' (hpre.subset (List.mem_append_left _ hc'))
      rw [afterCycles_snoc]
      have hc := h c (hpre.subset (List.mem_append_right _ (List.mem_singleton_self c)))
      exact (htracked.renew.cycle hclean cfg c hc).1.accounted
    · obtain ⟨htracked, hclean⟩ := afterCycles_tracked cfg cs h
      have hfields : InFields 0 (afterCycles cfg cs).1 (afterCycles cfg cs).2 := by
        obtain ⟨hpkt, hio, hcodec, hfmt, hsws⟩ := hclean
        refine ⟨htracked.congr fun o => ?_, by simp [hfmt], hsws⟩
        simp [Decoder.objects, Decoder.ownPb, hpkt, hio, hcodec, hfmt, hsws]
      exact hfields.release.1.accounted

/-- A cycle in which `avio_alloc_context` fails. -/
def noIOContext : CycleAnswers :=
  ⟨⟨true, true, false, true⟩, ⟨-1, 0, [], 0, none, true, 0, 0, (0, 0)⟩⟩

/-- The buffer of that cycle is never freed. -/
theorem noIOContext_leaks : ¬ LeakFree ⟨0, 0⟩ [noIOContext] := by
  intro hfree
  have hlost := hfree.destroyed ⟨.ioBuffer, 1⟩ (Nat.zero_le _) (by decide)
  revert hlost
  decide

end FfTest.Lifecycle
