import FfTest.MemoryAccounting.HeapInvariant
import Mathlib.Algebra.BigOperators.Group.List.Basic
import Mathlib.Data.BitVec
import Mathlib.Tactic.LinearCombination
import Mathlib.Tactic.Ring

/-! # What the counters of a decoder count

The header of a payload stores its size and not the decoder it was charged to, so a release takes
the size off whichever decoder is current. `Balanced` is the law that holds in every run whose
`realloc` calls succeed: the counter of `d`, plus what was *stolen* from it (charged elsewhere,
released under `d`), is what is live and charged to `d`, plus what was *orphaned* (charged to `d`,
released elsewhere). With one decoder current throughout nothing is stolen or orphaned, and the
counter is the total size of the live payloads. -/

namespace FfTest

variable {D : Type*} {w : ℕ}

/-! ## Totals of a client -/

namespace Client

/-- The total size of the live payloads. -/
def liveTotal (c : Client D) : ℕ := (c.live.map (·.size)).sum

@[simp] theorem liveTotal_add (c : Client D) (p : Payload D) :
    (c.add p).liveTotal = p.size + c.liveTotal := by simp [add, liveTotal]

/-- A release takes the payload's size off the total. -/
theorem liveTotal_release {c : Client D} {ptr : ℕ} {b : Payload D} (h : c.find ptr = some b)
    (ctx : Option D) : c.liveTotal = b.size + (c.release ctx ptr).liveTotal := by
  rw [release_of_find h, liveTotal, ((perm_of_find h).map _).sum_eq]
  simp [liveTotal]

variable [DecidableEq D]

/-- The total size of the live payloads charged to `d`. -/
def liveCharged (d : D) (c : Client D) : ℕ :=
  (c.live.map fun p => if p.owner = some d then p.size else 0).sum

/-- The total size of the payloads charged to `d` and released while `d` was not current. -/
def orphaned (d : D) (c : Client D) : ℕ :=
  (c.released.map fun r => if r.charged = some d ∧ r.current ≠ some d then r.size else 0).sum

/-- The total size of the payloads not charged to `d` and released while `d` was current. -/
def stolen (d : D) (c : Client D) : ℕ :=
  (c.released.map fun r => if r.charged ≠ some d ∧ r.current = some d then r.size else 0).sum

/-- Every payload released so far was released under the context it was charged to. -/
def Matched (c : Client D) : Prop := ∀ r ∈ c.released, r.charged = r.current

@[simp] theorem liveCharged_add (d : D) (c : Client D) (p : Payload D) :
    (c.add p).liveCharged d = (if p.owner = some d then p.size else 0) + c.liveCharged d := by
  simp [add, liveCharged]

@[simp] theorem orphaned_add (d : D) (c : Client D) (p : Payload D) :
    (c.add p).orphaned d = c.orphaned d := rfl

@[simp] theorem stolen_add (d : D) (c : Client D) (p : Payload D) :
    (c.add p).stolen d = c.stolen d := rfl

/-- A release takes the payload's size off what is charged to its owner. -/
theorem liveCharged_release {c : Client D} {ptr : ℕ} {b : Payload D} (h : c.find ptr = some b)
    (ctx : Option D) (d : D) :
    c.liveCharged d =
      (if b.owner = some d then b.size else 0) + (c.release ctx ptr).liveCharged d := by
  rw [release_of_find h, liveCharged, ((perm_of_find h).map _).sum_eq]
  simp [liveCharged]

/-- A release under another context than the one charged orphans the payload. -/
theorem orphaned_release {c : Client D} {ptr : ℕ} {b : Payload D} (h : c.find ptr = some b)
    (ctx : Option D) (d : D) :
    (c.release ctx ptr).orphaned d =
      (if b.owner = some d ∧ ctx ≠ some d then b.size else 0) + c.orphaned d := by
  rw [release_of_find h]
  simp [orphaned]

/-- A release of a payload charged elsewhere steals it from the current decoder. -/
theorem stolen_release {c : Client D} {ptr : ℕ} {b : Payload D} (h : c.find ptr = some b)
    (ctx : Option D) (d : D) :
    (c.release ctx ptr).stolen d =
      (if b.owner ≠ some d ∧ ctx = some d then b.size else 0) + c.stolen d := by
  rw [release_of_find h]
  simp [stolen]

/-- With matched releases nothing is orphaned. -/
theorem Matched.orphaned_eq {c : Client D} (h : c.Matched) (d : D) : c.orphaned d = 0 := by
  refine List.sum_eq_zero fun n hn => ?_
  obtain ⟨r, hr, rfl⟩ := List.mem_map.mp hn
  simp [h r hr]

/-- With matched releases nothing is stolen. -/
theorem Matched.stolen_eq {c : Client D} (h : c.Matched) (d : D) : c.stolen d = 0 := by
  refine List.sum_eq_zero fun n hn => ?_
  obtain ⟨r, hr, rfl⟩ := List.mem_map.mp hn
  simp [h r hr]

/-- What is charged to one decoder is part of what is live. -/
theorem liveCharged_le (d : D) (c : Client D) : c.liveCharged d ≤ c.liveTotal := by
  rw [liveCharged, liveTotal]
  induction c.live with
  | nil => exact le_rfl
  | cons p live ih =>
    rw [List.map_cons, List.map_cons, List.sum_cons, List.sum_cons]
    split <;> omega

end Client

/-! ## The effect of one event on the counters -/

/-- The system's `realloc` succeeds, if it is called. -/
def Op.ReallocSucceeds : Op w → Prop
  | .realloc ptr size r => r.isSome ∨ ptr = none ∧ size = 0
  | _ => True

/-- The system allocator succeeds, if it is called. -/
def Op.AllocSucceeds : Op w → Prop
  | .malloc _ r => r.isSome
  | op => op.ReallocSucceeds

/-- The operation gets nothing from the system allocator and gives nothing back. -/
def Op.Quiet : Op w → Prop
  | .malloc _ r => r = none
  | .realloc ptr size r => ptr = none ∧ (size = 0 ∨ r = none)
  | .free ptr _ => ptr = none
  | .write _ _ _ => True

/-- Apply `f` to the counters of the current decoder. -/
def onCurrent [DecidableEq D] (ctx : Option D) (f : Decoder → Decoder) (dec : D → Decoder) :
    D → Decoder := fun x => if ctx = some x then f (dec x) else dec x

/-- What one event does to the counters and to the client, by what the wrapper did. -/
inductive Effect [DecidableEq D] (dec : D → Decoder) (c : Client D) (ctx : Option D) :
    Op w → (D → Decoder) → Client D → Prop
  /-- Nothing was allocated or released. -/
  | idle {op : Op w} {c' : Client D} (quiet : op.Quiet)
      (live : c'.live.map (·.size) = c.live.map (·.size))
      (owners : c'.live.map (·.owner) = c.live.map (·.owner))
      (released : c'.released = c.released) : Effect dec c ctx op dec c'
  /-- `jut_malloc` returned a payload. -/
  | malloc (size : BitVec w) (g : Grant) (written : ℕ → Option Byte) :
      Effect dec c ctx (.malloc size (some g))
        (onCurrent ctx (·.grow (BitVec.ofNat 32 size.toNat)) dec)
        (c.add ⟨g.base + align, size.toNat, ctx, written⟩)
  /-- `jut_realloc(NULL, size)` returned a payload. -/
  | reallocNull (size : BitVec w) (g : Grant) (written : ℕ → Option Byte) :
      Effect dec c ctx (.realloc none size (some g))
        (onCurrent ctx (·.add (BitVec.ofNat 32 size.toNat)) dec)
        (c.add ⟨g.base + align, size.toNat, ctx, written⟩)
  /-- `jut_realloc` moved or resized a payload. -/
  | realloc {ptr : ℕ} {b : Payload D} (size : BitVec w) (g : Grant) (written : ℕ → Option Byte)
      (find : c.find ptr = some b) :
      Effect dec c ctx (.realloc (some ptr) size (some g))
        (onCurrent ctx
          (fun x => (x.sub (BitVec.ofNat 32 b.size)).add (BitVec.ofNat 32 size.toNat)) dec)
        ((c.release ctx ptr).add ⟨g.base + align, size.toNat, ctx, written⟩)
  /-- `jut_realloc` failed: the size is off the counter, and the payload still live. -/
  | refused {ptr : ℕ} {b : Payload D} (size : BitVec w) (find : c.find ptr = some b) :
      Effect dec c ctx (.realloc (some ptr) size none)
        (onCurrent ctx (·.sub (BitVec.ofNat 32 b.size)) dec) c
  /-- `jut_free` released a payload. -/
  | free {ptr : ℕ} {b : Payload D} (m : Memory) (find : c.find ptr = some b) :
      Effect dec c ctx (.free (some ptr) m)
        (onCurrent ctx (·.sub (BitVec.ofNat 32 b.size)) dec) (c.release ctx ptr)

/-- The counters after an update of the current decoder. -/
theorem JutState.onDecoder_dec_eq [DecidableEq D] (s : JutState D) (ctx : Option D)
    (f : Decoder → Decoder) : (s.onDecoder ctx f).dec = onCurrent ctx f s.dec :=
  funext fun x => s.onDecoder_dec ctx f x

/-- **Inversion.** A call on pointers that are `NULL` or live, and a write, does to the counters and
the client one of the things listed. -/
theorem Config.Ok.effect_of_live [DecidableEq D] {cfg : Config D} (h : cfg.Ok) {e : Event D w}
    (he : e.op.LivePtrs cfg.client) :
    Effect cfg.jut.dec cfg.client e.ctx e.op (jutStep 4 cfg e).jut.dec
      (jutStep 4 cfg e).client := by
  obtain ⟨ctx, op⟩ := e
  cases op with
  | malloc size r =>
    cases r with
    | none => exact .idle rfl rfl rfl rfl
    | some g =>
      simp only [jutStep, jutMalloc_four_some, JutState.onDecoder_dec_eq, ← BitVec.ofNat_toNat]
      exact .malloc size g _
  | realloc ptr size r =>
    cases ptr with
    | none =>
      -- `jut_realloc(NULL, 0)` returns before the system is asked
      by_cases hzero : size = 0
      · subst hzero
        simp only [jutStep, jutRealloc_four_null_zero]
        exact .idle ⟨rfl, .inl rfl⟩ rfl rfl rfl
      cases r with
      | none =>
        simp only [jutStep, jutRealloc_four_null_none ctx hzero]
        exact .idle ⟨rfl, .inr rfl⟩ rfl rfl rfl
      | some g =>
        simp only [jutStep, jutRealloc_four_null_some ctx hzero, JutState.onDecoder_dec_eq,
          ← BitVec.ofNat_toNat]
        exact .reallocNull size g _
    | some ptr =>
      obtain ⟨b, hfind, hb, rfl⟩ := Client.exists_find (he ptr rfl)
      cases r with
      | none =>
        simp only [jutStep, jutRealloc_four_live_none, JutState.onDecoder_dec_eq, h.hdrSize hb]
        exact .refused size hfind
      | some g =>
        simp only [jutStep, jutRealloc_four_live_some, JutState.onDecoder_dec_eq, h.hdrSize hb,
          ← BitVec.ofNat_toNat]
        exact .realloc size g _ hfind
  | free ptr m =>
    cases ptr with
    | none => exact .idle rfl rfl rfl rfl
    | some ptr =>
      obtain ⟨b, hfind, hb, rfl⟩ := Client.exists_find (he ptr rfl)
      simp only [jutStep, jutFree_four_some, JutState.onDecoder_dec_eq, h.hdrSize hb]
      exact .free m hfind
  | write ptr off b =>
    refine .idle trivial ?_ ?_ rfl
    · simp [jutStep, Client.afterWrite, Function.comp_def]
    · simp [jutStep, Client.afterWrite, Function.comp_def]

/-- An admitted event does to the counters and the client one of the things listed. -/
theorem Config.Ok.effect [DecidableEq D] {cfg : Config D} (h : cfg.Ok) {e : Event D w}
    (he : jutGuard cfg e) :
    Effect cfg.jut.dec cfg.client e.ctx e.op (jutStep 4 cfg e).jut.dec
      (jutStep 4 cfg e).client := h.effect_of_live (livePtrs_of_guard he)

/-! ## The law of the counters -/

section Law

variable [DecidableEq D]

/-- The counter `used` of `d`, plus what was stolen from it, is what is live and charged to `d`,
plus what was orphaned. -/
def Balanced (d : D) (used : BitVec 32) (c : Client D) : Prop :=
  used + BitVec.ofNat 32 (c.stolen d) = BitVec.ofNat 32 (c.liveCharged d + c.orphaned d)

namespace Balanced

variable {d : D} {used : BitVec 32} {c : Client D}

/-- Charging a new payload to the current context keeps the balance. -/
theorem add (h : Balanced d used c) {p : Payload D} {ctx : Option D} (hp : p.owner = ctx) :
    Balanced d (if ctx = some d then used + BitVec.ofNat 32 p.size else used) (c.add p) := by
  subst hp
  rw [Balanced, Client.liveCharged_add, Client.orphaned_add, Client.stolen_add]
  rw [Balanced, BitVec.ofNat_add] at h
  by_cases hd : p.owner = some d
  · simp only [hd, if_true, BitVec.ofNat_add]
    linear_combination h
  · simp only [hd, if_false, Nat.zero_add, BitVec.ofNat_add]
    exact h

/-- Taking a released payload off the current decoder keeps the balance, whoever was charged. -/
theorem release (h : Balanced d used c) {ptr : ℕ} {b : Payload D} (hb : c.find ptr = some b)
    (ctx : Option D) :
    Balanced d (if ctx = some d then used - BitVec.ofNat 32 b.size else used)
      (c.release ctx ptr) := by
  rw [Balanced, Client.liveCharged_release hb ctx] at h
  rw [Balanced, Client.orphaned_release hb, Client.stolen_release hb]
  -- the four pairs of who was charged and who is current
  by_cases hc : ctx = some d <;> by_cases ho : b.owner = some d
  all_goals
    simp only [hc, ho, if_true, if_false, ne_eq, not_true_eq_false, not_false_eq_true, and_self,
      and_true, and_false, Nat.zero_add, BitVec.ofNat_add] at h ⊢
    linear_combination h

/-- Nothing allocated or released: the balance stands. -/
theorem idle (h : Balanced d used c) {c' : Client D}
    (live : c'.live.map (·.size) = c.live.map (·.size))
    (owners : c'.live.map (·.owner) = c.live.map (·.owner)) (released : c'.released = c.released) :
    Balanced d used c' := by
  -- what is charged is a function of the sizes and the owners, position by position
  have hcharged : ∀ c : Client D, c.liveCharged d
      = (((c.live.map (·.owner)).zip (c.live.map (·.size))).map
          fun q => if q.1 = some d then q.2 else 0).sum := by
    intro c
    simp [Client.liveCharged, List.zip_map', Function.comp_def]
  rw [Balanced, hcharged, live, owners, ← hcharged, Client.stolen, Client.orphaned, released]
  exact h

end Balanced

/-- One event keeps the balance of every decoder, if a `realloc` that fails takes nothing off the
counter of the current one. -/
theorem Effect.balanced_of_refused {dec dec' : D → Decoder} {c c' : Client D} {ctx : Option D}
    {op : Op w} (he : Effect dec c ctx op dec' c')
    (hop : ∀ ptr size b, op = .realloc (some ptr) size none → c.find ptr = some b →
      ctx = none ∨ BitVec.ofNat 32 b.size = 0)
    {d : D} (h : Balanced d (dec d).memUsed c) : Balanced d (dec' d).memUsed c' := by
  cases he with
  | idle _ live owners released => exact h.idle live owners released
  | malloc size g written =>
    have := h.add (p := ⟨g.base + align, size.toNat, ctx, written⟩) rfl
    rw [onCurrent, apply_ite Decoder.memUsed]
    exact this
  | reallocNull size g written =>
    have := h.add (p := ⟨g.base + align, size.toNat, ctx, written⟩) rfl
    rw [onCurrent, apply_ite Decoder.memUsed]
    exact this
  | @realloc ptr b size g written find =>
    -- a release, and then a charge under the same context
    have hout := (h.release find ctx).add
      (p := ⟨g.base + align, size.toNat, ctx, written⟩) rfl
    rw [onCurrent, apply_ite Decoder.memUsed]
    by_cases hc : ctx = some d
    · rw [if_pos hc] at hout ⊢
      rwa [if_pos hc] at hout
    · rw [if_neg hc] at hout ⊢
      rwa [if_neg hc] at hout
  | @refused ptr b size find =>
    suffices hsame : onCurrent ctx (·.sub (BitVec.ofNat 32 b.size)) dec = dec by rwa [hsame]
    funext x
    rcases hop ptr size b rfl find with rfl | hzero
    · rfl
    · simp [onCurrent, hzero, Decoder.sub]
  | free m find =>
    have := h.release find ctx
    rw [onCurrent, apply_ite Decoder.memUsed]
    exact this

/-- One event keeps the balance of every decoder, unless a `realloc` fails. -/
theorem Effect.balanced {dec dec' : D → Decoder} {c c' : Client D} {ctx : Option D} {op : Op w}
    (he : Effect dec c ctx op dec' c') (hop : op.ReallocSucceeds) {d : D}
    (h : Balanced d (dec d).memUsed c) : Balanced d (dec' d).memUsed c' := by
  refine he.balanced_of_refused (fun ptr size b heq _ => ?_) h
  subst heq
  simp [Op.ReallocSucceeds] at hop

end Law

end FfTest
