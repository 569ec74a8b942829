import FfTest.MemoryAccounting.Counters

/-! # `jut_realloc` where the system refuses

Under policy 4 `jut_realloc` takes the old size off the counter of the current decoder, asks the
system, and does not undo the first step if the answer is `NULL`. The block, its header and its
contents are then as before; the counter is not, unless there is no current decoder or the size is 0
modulo `2 ^ 32`. So a run leaves every failed `jut_realloc` without a trace exactly when each of
them is `Harmless` (`reallocAtomic_iff`), and then every later `jut_free` finds the counters right.

Sizes are not restricted where the system refuses: `size + ALIGN` may wrap. Only where it wraps to 0
does the `NULL` of `realloc` say something else: the block was freed (`Op.Zeroed`). -/

namespace FfTest

variable {D : Type*} [DecidableEq D] {w : ℕ}

/-- `jut_realloc` of a block where `size + ALIGN` wraps to 0. `realloc` of the system frees the
block then and returns `NULL`, which is no refusal. -/
def Op.Zeroed : Op w → Prop
  | .realloc (some _) size _ => size + BitVec.ofNat w align = 0
  | _ => False

/-- The events of `jutGuard`, and calls of any size that the system refuses. -/
def anySizeGuard (cfg : Config D) (e : Event D w) : Prop :=
  jutGuard cfg e ∨ e.op.Refused ∧ ¬ e.op.Zeroed ∧ e.op.LivePtrs cfg.client

/-- The wrappers under policy 4, with calls of any size where the system refuses. -/
def anySizeMachine (D : Type*) [DecidableEq D] (w : ℕ) : Machine (Config D) (Event D w) where
  step := jutStep 4
  guard := anySizeGuard

/-- The state is as before, up to the record of the calls. -/
structure Config.Same (cfg cfg' : Config D) : Prop where
  /-- The same payloads are live, with the same sizes. -/
  client : cfg'.client = cfg.client
  /-- The same blocks are out. -/
  blocks : cfg'.jut.sys.blocks = cfg.jut.sys.blocks
  /-- Memory, and with it every header, is the same. -/
  mem : cfg'.mem = cfg.mem
  /-- `m_mem_used` and `memused_max` of every decoder are the same. -/
  dec : cfg'.jut.dec = cfg.jut.dec

/-- A `jut_realloc(ptr, size)` that the system refuses returns `NULL` and changes nothing. -/
def Config.Atomic (cfg : Config D) (ctx : Option D) (ptr : ℕ) (size : BitVec w) : Prop :=
  (jutRealloc 4 ctx (some ptr) size none cfg.jut).1 = none ∧
    cfg.Same (jutStep 4 cfg ⟨ctx, .realloc (some ptr) size none⟩)

/-- A `jut_realloc` that the system refuses finds no current decoder, or a size of 0 modulo
`2 ^ 32`. -/
def Harmless (cfg : Config D) (e : Event D w) : Prop :=
  match e.op with
  | .realloc (some ptr) _ none => e.ctx = none ∨ ∀ b ∈ cfg.client.find ptr, 2 ^ 32 ∣ b.size
  | _ => True

/-- No failed `jut_realloc` of the run leaves a trace. -/
structure ReallocAtomic (m : Memory) (dec : D → Decoder) (es : List (Event D w)) : Prop where
  /-- A failed `jut_realloc` changes nothing. -/
  atomic : ∀ fs ctx ptr size, fs ++ [⟨ctx, .realloc (some ptr) size none⟩] <+: es →
    (runJut m dec fs).Atomic ctx ptr size
  /-- After a `jut_free` the counter of every decoder is the total of the live payloads charged to
  it, if each payload was released under the decoder it was charged to. -/
  freed : ∀ fs ctx ptr m', fs ++ [⟨ctx, .free (some ptr) m'⟩] <+: es →
    (runJut m dec (fs ++ [⟨ctx, .free (some ptr) m'⟩])).client.Matched → ∀ d,
      ((runJut m dec (fs ++ [⟨ctx, .free (some ptr) m'⟩])).jut.dec d).memUsed.toNat
        = (runJut m dec (fs ++ [⟨ctx, .free (some ptr) m'⟩])).client.liveCharged d % 2 ^ 32

/-! ## One call -/

omit [DecidableEq D] in
/-- Pointers of admitted events are `NULL` or live, whatever the size. -/
theorem livePtrs_of_anySize {cfg : Config D} {e : Event D w}
    (he : anySizeGuard cfg e) : e.op.LivePtrs cfg.client := by
  rcases he with he | he
  · exact livePtrs_of_guard he
  · exact he.2.2

/-- Every admitted event keeps the heap invariant, whatever the size. -/
theorem Config.Ok.step_anySize {cfg : Config D} (h : cfg.Ok) {e : Event D w}
    (he : anySizeGuard cfg e) : (jutStep 4 cfg e).Ok := by
  rcases he with he | ⟨hrefused, -, hptrs⟩
  · exact h.step he
  · exact h.refused e.op hrefused hptrs e.ctx

/-- Taking `v` off the counter of the current decoder changes nothing iff there is none or `v` is
0. -/
theorem onCurrent_sub_eq_iff (ctx : Option D) (v : BitVec 32) (dec : D → Decoder) :
    onCurrent ctx (·.sub v) dec = dec ↔ ctx = none ∨ v = 0 := by
  cases ctx with
  | none => exact iff_of_true rfl (.inl rfl)
  | some d =>
    constructor
    · intro heq
      have hused : (dec d).memUsed - v = (dec d).memUsed := by
        simpa [onCurrent, Decoder.sub] using congrArg Decoder.memUsed (congrFun heq d)
      exact .inr (by simpa using sub_eq_self.mp hused)
    · rintro (hnone | rfl)
      · cases hnone
      · funext x
        simp [onCurrent, Decoder.sub]

/-- **One failed call.** It leaves no trace iff it is harmless. -/
theorem Config.Ok.atomic_iff {cfg : Config D} (h : cfg.Ok) {ctx : Option D} {ptr : ℕ}
    {size : BitVec w} (hptr : ∃ b ∈ cfg.client.live, b.ptr = ptr) :
    cfg.Atomic ctx ptr size ↔ Harmless cfg ⟨ctx, .realloc (some ptr) size none⟩ := by
  obtain ⟨b, hfind, hb, rfl⟩ := Client.exists_find hptr
  have hzero : BitVec.ofNat 32 b.size = 0 ↔ 2 ^ 32 ∣ b.size := by
    rw [← BitVec.toNat_inj, BitVec.toNat_ofNat, Nat.dvd_iff_mod_eq_zero]
    rfl
  have hharmless : Harmless cfg (⟨ctx, .realloc (some b.ptr) size none⟩ : Event D w) ↔
      ctx = none ∨ 2 ^ 32 ∣ b.size := by
    simp [Harmless, hfind]
  rw [hharmless, ← hzero, ← onCurrent_sub_eq_iff ctx (BitVec.ofNat 32 b.size) cfg.jut.dec]
  have hstep : (jutStep 4 cfg (⟨ctx, .realloc (some b.ptr) size none⟩ : Event D w)).jut.dec
      = onCurrent ctx (·.sub (BitVec.ofNat 32 b.size)) cfg.jut.dec := by
    simp only [jutStep, jutRealloc_four_live_none, JutState.onDecoder_dec_eq, h.hdrSize hb]
  constructor
  · rintro ⟨-, hsame⟩
    exact hstep.symm.trans hsame.dec
  · intro hdec
    refine ⟨?_, ?_, ?_, ?_, hstep.trans hdec⟩
    · rw [jutRealloc_four_live_none]
    · simp only [jutStep, jutRealloc_four_live_none, Client.afterRealloc]
    · simp only [jutStep, jutRealloc_four_live_none]
    · simp only [jutStep, jutRealloc_four_live_none, Config.mem]

/-! ## Whole runs -/

/-- The heap invariant holds of every run, whatever the sizes of the calls refused. -/
theorem Config.ok_run_anySize {m : Memory} {dec : D → Decoder} {es : List (Event D w)}
    (h : (anySizeMachine D w).Legal (start m dec) es) : (runJut m dec es).Ok :=
  Machine.Legal.invariant (M := anySizeMachine D w) Config.Ok
    (fun _ _ hok he => hok.step_anySize he) h (ok_start m dec)

/-- A run whose failed `jut_realloc` calls are harmless keeps the balance of every decoder. -/
theorem balanced_run_harmless {m : Memory} {dec : D → Decoder} {d : D}
    (h0 : (dec d).memUsed = 0) {es : List (Event D w)}
    (h : ((anySizeMachine D w).restrict Harmless).Legal (Config.start m dec) es) :
    Balanced d ((runJut m dec es).jut.dec d).memUsed (runJut m dec es).client := by
  have hinv : (runJut m dec es).Ok ∧
      Balanced d ((runJut m dec es).jut.dec d).memUsed (runJut m dec es).client := by
    refine Machine.Legal.invariant (M := (anySizeMachine D w).restrict Harmless)
      (fun cfg => cfg.Ok ∧ Balanced d (cfg.jut.dec d).memUsed cfg.client) ?_ h ?_
    · rintro cfg e ⟨hok, hbal⟩ ⟨he, hharmless⟩
      refine ⟨hok.step_anySize he, ?_⟩
      refine (hok.effect_of_live (livePtrs_of_anySize he)).balanced_of_refused ?_ hbal
      intro ptr size b hop hfind
      simp only [Harmless, hop] at hharmless
      refine hharmless.imp_right fun hdvd => ?_
      rw [← BitVec.toNat_inj, BitVec.toNat_ofNat]
      exact Nat.mod_eq_zero_of_dvd (hdvd b hfind)
    · exact ⟨Config.ok_start m dec, balanced_start m h0⟩
  exact hinv.2

/-- With matched releases a counter in balance is the total charged, modulo `2 ^ 32`. -/
theorem Balanced.eq_mod_of_matched {d : D} {used : BitVec 32} {c : Client D}
    (h : Balanced d used c) (hmatched : c.Matched) :
    used.toNat = c.liveCharged d % 2 ^ 32 := by
  rw [Balanced, hmatched.stolen_eq, hmatched.orphaned_eq] at h
  have hused : used = BitVec.ofNat 32 (c.liveCharged d) := by simpa using h
  rw [hused, BitVec.toNat_ofNat]

/-- **When a failed `jut_realloc` leaves no trace.** Start with nothing live and every counter at 0,
under any current decoders, with any system call failing. No failed `jut_realloc` of the run leaves
a trace, at once or in a later `jut_free`, iff each of them is harmless. -/
theorem reallocAtomic_iff {m : Memory} {dec : D → Decoder} (h0 : ∀ d, (dec d).memUsed = 0)
    {es : List (Event D w)} (h : (anySizeMachine D w).Legal (Config.start m dec) es) :
    ReallocAtomic m dec es ↔
      ((anySizeMachine D w).restrict Harmless).Legal (Config.start m dec) es := by
  -- event by event, what must not leave a trace is harmless
  have hcalls : (∀ fs e, fs ++ [e] <+: es → ∀ ctx ptr size,
      e = ⟨ctx, .realloc (some ptr) size none⟩ → (runJut m dec fs).Atomic ctx ptr size) ↔
      ((anySizeMachine D w).restrict Harmless).Legal (Config.start m dec) es := by
    refine h.restrict_iff fun fs e hfs he _ => ?_
    have hok : (runJut m dec fs).Ok := Config.ok_run_anySize hfs.of_restrict
    have hptrs : e.op.LivePtrs (runJut m dec fs).client := livePtrs_of_anySize he
    constructor
    · intro hatomic
      obtain ⟨ctx, op⟩ := e
      match op with
      | .realloc (some ptr) size none =>
        exact (hok.atomic_iff (hptrs ptr rfl)).mp (hatomic ctx ptr size rfl)
      | .realloc (some ptr) size (some g) => trivial
      | .realloc none size r => trivial
      | .malloc size r => trivial
      | .free ptr m' => trivial
      | .write ptr off b => trivial
    · rintro hharmless ctx ptr size rfl
      exact (hok.atomic_iff (hptrs ptr rfl)).mpr hharmless
  rw [← hcalls]
  constructor
  · rintro hatomic fs e hfs ctx ptr size rfl
    exact hatomic.atomic fs ctx ptr size hfs
  · intro hall
    have hharmless := hcalls.mp hall
    refine ⟨fun fs ctx ptr size hfs => hall fs _ hfs ctx ptr size rfl, ?_⟩
    intro fs ctx ptr m' hfs hmatched d
    obtain ⟨gs, rfl⟩ := hfs
    exact (balanced_run_harmless (h0 d) hharmless.of_append).eq_mod_of_matched hmatched

/-- A payload of 10 bytes at 128, a `jut_realloc` to 20 bytes that the system refuses under the
current decoder `ctx`, and a `jut_free`. -/
def refusedRun (ctx : Option Unit) : List (Event Unit 64) :=
  [⟨some (), .malloc 10 (some ⟨64, zeroMem⟩)⟩, ⟨ctx, .realloc (some 128) 20 none⟩,
    ⟨some (), .free (some 128) zeroMem⟩]

/-- The runs are admitted. -/
theorem refusedRun_legal (ctx : Option Unit) :
    (anySizeMachine Unit 64).Legal (Config.start zeroMem fun _ => freshDecoder)
      (refusedRun ctx) := by
  have hlive : ∀ p ∈ some 128, ∃ b ∈ [(⟨128, 10, some (), fun _ => none⟩ : Payload Unit)],
      b.ptr = p := by
    rintro p ⟨⟩
    exact ⟨_, List.mem_singleton_self _, rfl⟩
  have hsize : ¬ (.realloc (some 128) 20 none : Op 64).Zeroed := by
    show ¬ (20 : BitVec 64) + BitVec.ofNat 64 align = 0
    decide
  refine ⟨.inl ⟨by decide, ?_⟩, .inr ⟨rfl, hsize, hlive⟩, .inl ⟨hlive, ?_⟩, trivial⟩
  · exact SysHeap.allocOk_of_nil rfl (by decide)
  · rintro p ⟨⟩ b hb
    cases ctx with
    | none => cases hb
    | some d => cases hb

/-- Where no decoder is current the refusal is harmless, and leaves no trace. -/
theorem reallocAtomic_refusedRun :
    ReallocAtomic zeroMem (fun _ => freshDecoder) (refusedRun none) := by
  refine (reallocAtomic_iff (fun _ => rfl) (refusedRun_legal none)).mpr ?_
  have hlegal := refusedRun_legal none
  exact ⟨⟨hlegal.1, trivial⟩, ⟨hlegal.2.1, .inl rfl⟩, ⟨hlegal.2.2.1, trivial⟩, trivial⟩

/-- Under the decoder that was charged, the refused `jut_realloc` takes the 10 bytes off its
counter, and the `jut_free` takes them off once more: not every run is without a trace. -/
theorem not_reallocAtomic :
    ¬ ∀ es : List (Event Unit 64),
      (anySizeMachine Unit 64).Legal (Config.start zeroMem fun _ => freshDecoder) es →
        ReallocAtomic zeroMem (fun _ => freshDecoder) es := by
  intro hall
  have hatomic := hall _ (refusedRun_legal (some ()))
  have hdec := (hatomic.atomic [⟨some (), .malloc 10 (some ⟨64, zeroMem⟩)⟩] (some ()) 128 20
    ⟨_, rfl⟩).2.dec
  have hused := congrArg (fun dec : Unit → Decoder => (dec ()).memUsed) hdec
  revert hused
  decide

end FfTest
