import FfTest.FrameBuffers.Layout

/-! # Who owns the blocks of the frames

Each block that `memalign` has returned should be owned by one buffer of one frame that is out.
`Owned` says so of a session, as a conservation law: the blocks held are, up to order, those of the
frames that are out. A call of `lavc_GetFrame` keeps it (`Owned.getFrame`) unless `av_buffer_create`
fails for a plane: the block of that plane is in no buffer, and is not freed
(`PlanesEffect.lost`). -/

namespace FfTest

variable {κ : Type*} {L : ImageLib κ}

/-! ## The blocks of a frame -/

/-- The blocks in the first `n` buffers of the frame. -/
def blocksBelow (frame : AVFrame) (n : ℕ) : List ℕ :=
  (List.range n).filterMap fun i => (frame.buf i).map AVBufferRef.data

/-- The blocks of the frame. -/
def AVFrame.blocks (frame : AVFrame) : List ℕ := blocksBelow frame avNumDataPointers

/-- The blocks `memalign` has returned for the first `n` planes. -/
def planeBlocks (ans : PlaneAnswers) (n : ℕ) : List ℕ := (List.range n).filterMap ans.memalign

/-- What a partial array holds below `n + 1`. -/
theorem filterMap_range_succ {α : Type*} (f : ℕ → Option α) (n : ℕ) :
    (List.range (n + 1)).filterMap f = (List.range n).filterMap f ++ (f n).toList := by
  rw [List.range_succ, List.filterMap_append]
  cases h : f n with
  | none => simp [h]
  | some a => simp [h]

/-- One buffer more. -/
theorem blocksBelow_succ (frame : AVFrame) (n : ℕ) :
    blocksBelow frame (n + 1)
      = blocksBelow frame n ++ ((frame.buf n).map AVBufferRef.data).toList :=
  filterMap_range_succ _ n

/-- One plane more. -/
theorem planeBlocks_succ (ans : PlaneAnswers) (n : ℕ) :
    planeBlocks ans (n + 1) = planeBlocks ans n ++ (ans.memalign n).toList :=
  filterMap_range_succ _ n

/-- Only the buffers below `n` matter to the blocks in them. -/
theorem blocksBelow_congr {frame frame' : AVFrame} {n : ℕ}
    (h : ∀ i < n, frame.buf i = frame'.buf i) : blocksBelow frame n = blocksBelow frame' n := by
  apply List.filterMap_congr
  intro i hi
  rw [h i (List.mem_range.mp hi)]

/-- Behind the last buffer there is no block. -/
theorem blocksBelow_of_none {frame : AVFrame} {n m : ℕ} (hle : n ≤ m)
    (h : ∀ i, n ≤ i → frame.buf i = none) : blocksBelow frame m = blocksBelow frame n := by
  induction m, hle using Nat.le_induction with
  | base => rfl
  | succ m hle ih =>
    rw [blocksBelow_succ, h m hle, ih]
    simp

/-- The buffers of the planes that have been passed hold what `memalign` has returned. -/
theorem blocksBelow_filled (c : FrameCache) (ans : PlaneAnswers) (n : ℕ) (frame : AVFrame) :
    blocksBelow (filled c ans n frame) n = planeBlocks ans n := by
  apply List.filterMap_congr
  intro i hi
  show (if i < n then (ans.memalign i).map (⟨·, c.size i⟩ : ℕ → AVBufferRef) else frame.buf i).map
    AVBufferRef.data = ans.memalign i
  rw [if_pos (List.mem_range.mp hi), Option.map_map]
  exact Option.map_id'

/-- A frame that has got all its buffers has the blocks `memalign` has returned. -/
theorem blocks_of_done {c : FrameCache} {ans : PlaneAnswers} {n : ℕ} (passed : Passed c ans n)
    (format width height : ℤ) :
    (clearFrom n (filled c ans n (.blank format width height))).blocks = planeBlocks ans n := by
  have hle : n ≤ avNumDataPointers := passed.1.trans (by decide)
  have hnone : ∀ i, n ≤ i →
      (clearFrom n (filled c ans n (.blank format width height))).buf i = none :=
    fun i hi => if_neg (Nat.not_lt.mpr hi)
  rw [AVFrame.blocks, blocksBelow_of_none hle hnone, ← blocksBelow_filled c ans n]
  exact blocksBelow_congr fun i _ => rfl

/-! ## What the calls hold -/

/-- Allocating planes adds their blocks. -/
theorem held_allocCalls (ans : PlaneAnswers) (n : ℕ) (calls : List SysCall) :
    (held (allocCalls ans n calls)).Perm (planeBlocks ans n ++ held calls) := by
  induction n with
  | zero => exact List.Perm.refl _
  | succ n ih =>
    rw [allocCalls, held_alloc, planeBlocks_succ, List.append_assoc]
    calc ((ans.memalign n).toList ++ held (allocCalls ans n calls)).Perm
          ((ans.memalign n).toList ++ (planeBlocks ans n ++ held calls)) := ih.append_left _
      _ |>.Perm (planeBlocks ans n ++ ((ans.memalign n).toList ++ held calls)) :=
          List.perm_append_comm_assoc _ _ _

/-- Allocating planes uses the allocator well. -/
theorem WellUsed.allocCalls {calls : List SysCall} (h : WellUsed calls) (ans : PlaneAnswers)
    (n : ℕ) : WellUsed (allocCalls ans n calls) := by
  induction n with
  | zero => exact h
  | succ n ih => exact ih

/-- **Dropping buffers** frees the blocks in them, each once. -/
theorem held_unrefBelow {n : ℕ} {frame : AVFrame} {calls : List SysCall} {rest : List ℕ}
    (h : (held calls).Perm (blocksBelow frame n ++ rest)) (hused : WellUsed calls) :
    (held (unrefBelow n frame calls).2).Perm rest ∧ WellUsed (unrefBelow n frame calls).2 := by
  induction n generalizing frame calls with
  | zero => exact ⟨h, hused⟩
  | succ n ih =>
    have hstep : unrefBelow (n + 1) frame calls
        = unrefBelow n (avBufferUnref n frame calls).1 (avBufferUnref n frame calls).2 := rfl
    rw [hstep]
    rw [blocksBelow_succ, List.append_assoc] at h
    cases hbuf : frame.buf n with
    | none =>
      simp only [avBufferUnref, hbuf]
      rw [hbuf] at h
      exact ih h hused
    | some ref =>
      simp only [avBufferUnref, hbuf]
      rw [hbuf] at h
      have hhead : (held calls).Perm (ref.data :: (blocksBelow frame n ++ rest)) :=
        h.trans (List.perm_append_comm_assoc _ [ref.data] _)
      -- the buffers below `n` are untouched
      have hbelow : blocksBelow { frame with buf := Function.update frame.buf n none } n
          = blocksBelow frame n :=
        blocksBelow_congr fun i hi => Function.update_of_ne hi.ne none frame.buf
      apply ih
      · rw [hbelow]
        exact held_free hhead
      · exact ⟨hhead.mem_iff.mpr List.mem_cons_self, hused⟩

/-! ## Ownership -/

/-- **Every block is owned.** What `memalign` has returned and `free` has not got back are, up to
order, the blocks of the frames that are out. -/
structure FrameSession.Owned (s : FrameSession κ) : Prop where
  /-- The blocks held are those of the frames. -/
  held_perm : (held s.calls).Perm (s.frames.flatMap AVFrame.blocks)
  /-- No block has two owners. -/
  nodup : (s.frames.flatMap AVFrame.blocks).Nodup
  /-- Only blocks that are held are freed, so none is freed twice. -/
  wellUsed : WellUsed s.calls

/-- If a call of `lavc_GetFrame` that leads from `s` to `s'` fails, no block of its own stays
allocated and its frame has no buffer. -/
def Undone (s s' : FrameSession κ) : Prop :=
  ∀ r, s'.last = some r → r.ret < 0 →
    (held s'.calls).Perm (held s.calls) ∧ s'.frames = s.frames ∧ ∀ i, r.frame.buf i = none

/-- Over the whole run every block is owned and every failure is undone. -/
structure OwnershipKept (L : ImageLib κ) (s : FrameSession κ) (es : List (FrameEvent κ)) :
    Prop where
  /-- Every block is owned at each moment. -/
  owned : ∀ pre, pre <+: es → ((frameMachine L).run s pre).Owned
  /-- Every failure is undone. -/
  undone : ∀ pre e, pre ++ [e] <+: es →
    Undone ((frameMachine L).run s pre) ((frameMachine L).run s (pre ++ [e]))

/-- `av_buffer_create` fails for a plane that the loop over the planes reaches. -/
def BufferRefused (c : FrameCache) (ans : PlaneAnswers) : Prop :=
  ∃ n, Passed c ans n ∧ (n < 4 ∧ c.size n ≠ 0) ∧ (ans.memalign n).isSome ∧
    ans.bufferCreate n = false

/-- No `av_buffer_create` that the event reaches fails. -/
def BuffersCreated (L : ImageLib κ) (s : FrameSession κ) : FrameEvent κ → Prop
  | .getFrame call => ∀ ret c,
    updateFramePool L ⟨s.codec, s.isVideo, call.pixFmt⟩
        (.blank call.format call.width call.height) s.cache = some (ret, c) →
      0 ≤ ret → ¬ BufferRefused c call.answers
  | _ => True

/-- The buffers of a frame whose filling has failed are all dropped. -/
theorem buf_unrefBelow (c : FrameCache) (ans : PlaneAnswers) (n : ℕ) (format width height : ℤ)
    (calls : List SysCall) (i : ℕ) :
    (unrefBelow n (answered c ans n (filled c ans n (.blank format width height))) calls).1.buf i
      = none := by
  rw [unrefBelow_frame]
  show (if i < n then none else if i < n then (ans.memalign i).map _ else none) = none
  by_cases hi : i < n
  · rw [if_pos hi]
  · rw [if_neg hi, if_neg hi]

/-- Dropping the buffers of the planes below `n` gives back all of their blocks. -/
theorem held_unwound (c : FrameCache) (ans : PlaneAnswers) (n : ℕ) (frame : AVFrame)
    {calls : List SysCall} (hused : WellUsed calls) :
    (held (unrefBelow n (answered c ans n (filled c ans n frame)) (allocCalls ans (n + 1) calls)).2
      ).Perm ((ans.memalign n).toList ++ held calls) ∧
    WellUsed (unrefBelow n (answered c ans n (filled c ans n frame))
      (allocCalls ans (n + 1) calls)).2 := by
  apply held_unrefBelow _ (hused.allocCalls ans (n + 1))
  have hbelow : blocksBelow (answered c ans n (filled c ans n frame)) n = planeBlocks ans n :=
    blocksBelow_filled c ans n frame
  have hheld := held_allocCalls ans (n + 1) calls
  rw [planeBlocks_succ, List.append_assoc] at hheld
  rw [hbelow]
  exact hheld

/-- The blocks that are allocated for the planes are new. -/
theorem nodup_planeBlocks {s : FrameSession κ} {ans : PlaneAnswers} (hfresh : s.FreshAnswers ans)
    (hnodup : (held s.calls).Nodup) (n : ℕ) : (planeBlocks ans n ++ held s.calls).Nodup := by
  induction n with
  | zero => exact hnodup
  | succ n ih =>
    rw [planeBlocks_succ, List.append_assoc]
    refine (List.perm_append_comm_assoc _ _ _).nodup_iff.mpr ?_
    cases hmem : ans.memalign n with
    | none => exact ih
    | some ptr =>
      -- the new block is neither held nor one of the planes before
      obtain ⟨-, hheld, hbefore⟩ := hfresh n ptr hmem
      show (ptr :: (planeBlocks ans n ++ held s.calls)).Nodup
      refine List.nodup_cons.mpr ⟨?_, ih⟩
      intro hptr
      rcases List.mem_append.mp hptr with hptr | hptr
      · obtain ⟨j, hj, heq⟩ := List.mem_filterMap.mp hptr
        exact hbefore j (List.mem_range.mp hj) heq
      · exact hheld hptr

/-- A call that has failed, given its blocks back and dropped its buffers is undone. -/
theorem FrameSession.Owned.failed {s : FrameSession κ} (h : s.Owned) {r : GetFrameResult}
    (hret : r.ret < 0) (hheld : (held r.calls).Perm (held s.calls)) (hused : WellUsed r.calls)
    (hbuf : ∀ i, r.frame.buf i = none) : (s.returned r).Owned ∧ Undone s (s.returned r) := by
  have hframes : (s.returned r).frames = s.frames := if_pos hret
  refine ⟨⟨?_, ?_, hused⟩, ?_⟩
  · rw [hframes]
    exact hheld.trans h.held_perm
  · rw [hframes]
    exact h.nodup
  · intro q hq _
    obtain rfl := Option.some.inj hq
    exact ⟨hheld, hframes, hbuf⟩

/-- The frame of a call that has returned 0 owns the blocks of its planes. -/
theorem FrameSession.Owned.handedOut {s : FrameSession κ} (h : s.Owned) {r : GetFrameResult}
    (hret : r.ret = 0) {ans : PlaneAnswers} (hfresh : s.FreshAnswers ans) {n : ℕ}
    {format width height : ℤ} (passed : Passed r.cache ans n)
    (hframe : r.frame = clearFrom n (filled r.cache ans n (.blank format width height)))
    (hcalls : r.calls = allocCalls ans n s.calls) :
    (s.returned r).Owned ∧ Undone s (s.returned r) := by
  have hnonneg : ¬ r.ret < 0 := by omega
  have hblocks : (s.returned r).frames.flatMap AVFrame.blocks
      = planeBlocks ans n ++ s.frames.flatMap AVFrame.blocks := by
    have hframes : (s.returned r).frames = r.frame :: s.frames := if_neg hnonneg
    rw [hframes, List.flatMap_cons, hframe, blocks_of_done passed]
  have hadded := h.held_perm.append_left (planeBlocks ans n)
  refine ⟨⟨?_, ?_, ?_⟩, ?_⟩
  · rw [hblocks]
    show (held r.calls).Perm _
    rw [hcalls]
    exact (held_allocCalls ans n s.calls).trans hadded
  · rw [hblocks]
    apply hadded.nodup_iff.mp
    exact nodup_planeBlocks hfresh (h.held_perm.nodup_iff.mpr h.nodup) n
  · show WellUsed r.calls
    rw [hcalls]
    exact h.wellUsed.allocCalls _ _
  · intro q hq hneg
    obtain rfl := Option.some.inj hq
    exact absurd hneg hnonneg

/-- **A call of `lavc_GetFrame`** for which no `av_buffer_create` fails keeps every block owned, and
is undone if it fails. -/
theorem FrameSession.Owned.getFrame {s : FrameSession κ} (h : s.Owned) {call : GetFrameCall}
    {r : GetFrameResult} (hr : s.getFrame L call = some r) (hfresh : s.FreshAnswers call.answers)
    (hcreated : BuffersCreated L s (.getFrame call)) :
    (s.returned r).Owned ∧ Undone s (s.returned r) := by
  obtain ⟨ret, hpool, hcases⟩ := lavcGetFrame_cases hr
  rcases hcases with ⟨hneg, hret, hframe, hcalls⟩ | ⟨hnonneg, ok, heffect, hret⟩
  · -- `update_frame_pool` has failed, and nothing has been allocated
    apply h.failed
    · omega
    · rw [hcalls]
    · rw [hcalls]
      exact h.wellUsed
    · rw [hframe]
      exact fun i => rfl
  · have hnot := hcreated ret r.cache hpool hnonneg
    cases ok with
    | true =>
      obtain ⟨n, passed, -, hframe, hcalls⟩ := heffect.of_true
      exact h.handedOut hret hfresh passed hframe hcalls
    | false =>
      obtain ⟨n, passed, present, hcause, hout⟩ := heffect.of_false
      have hframe := congrArg Prod.fst hout
      have hcalls := congrArg Prod.snd hout
      dsimp only at hframe hcalls
      -- the plane that has failed has no block
      have hnone : call.answers.memalign n = none := by
        rcases hcause with hnone | ⟨memalign, create⟩
        · exact hnone
        · exact absurd ⟨n, passed, present, memalign, create⟩ hnot
      obtain ⟨hheld, hused⟩ := held_unwound r.cache call.answers n
        (.blank call.format call.width call.height) h.wellUsed
      rw [hnone] at hheld
      apply h.failed
      · rw [hret]
        decide
      · rw [hcalls]
        exact hheld
      · rw [hcalls]
        exact hused
      · rw [hframe]
        exact buf_unrefBelow _ _ _ _ _ _ _

/-- **The release of a frame** gives its blocks back. -/
theorem FrameSession.Owned.release {s : FrameSession κ} (h : s.Owned) {k : ℕ}
    (hk : k < s.frames.length) : (s.step L (.release k)).Owned := by
  have hsplit : (s.frames.flatMap AVFrame.blocks).Perm
      (s.frames[k].blocks ++ (s.frames.eraseIdx k).flatMap AVFrame.blocks) :=
    (List.getElem_cons_eraseIdx_perm hk).symm.flatMap_right AVFrame.blocks
  obtain ⟨hheld, hused⟩ := held_unrefBelow (h.held_perm.trans hsplit) h.wellUsed
  rw [FrameSession.step_release L hk]
  refine ⟨hheld, ?_, hused⟩
  exact (hsplit.nodup_iff.mp h.nodup).of_append_right

/-- **One event** for which no `av_buffer_create` fails keeps every block owned, and is undone if it
fails. -/
theorem FrameSession.Owned.step {s : FrameSession κ} (h : s.Owned) {e : FrameEvent κ}
    (he : (frameMachine L).guard s e) (hcreated : BuffersCreated L s e) :
    (s.step L e).Owned ∧ Undone s (s.step L e) := by
  cases e with
  | reopen codec isVideo => exact ⟨⟨h.held_perm, h.nodup, h.wellUsed⟩, nofun⟩
  | release k =>
    refine ⟨h.release he, ?_⟩
    rw [FrameSession.step_release L he]
    exact nofun
  | getFrame call =>
    obtain ⟨hreturns, hfresh⟩ := he
    obtain ⟨r, hr⟩ := Option.isSome_iff_exists.mp hreturns
    rw [FrameSession.step_getFrame hr]
    exact h.getFrame hr hfresh hcreated

/-! ## Where it is lost -/

/-- The loop does not pass a plane whose `av_buffer_create` fails. -/
theorem Passed.le_of_refused {c : FrameCache} {ans : PlaneAnswers} {m n : ℕ}
    (h : Passed c ans m) (create : ans.bufferCreate n = false) : m ≤ n := by
  by_contra hlt
  have hcreated := (h.2 n (by omega)).2.2
  rw [create] at hcreated
  cases hcreated

/-- **A block is lost** when `av_buffer_create` fails: the loop over the planes goes to `error`, and
one block more is held than before. -/
theorem PlanesEffect.lost {c : FrameCache} {ans : PlaneAnswers} {frame frame' : AVFrame}
    {calls calls' : List SysCall} {ok : Bool}
    (h : PlanesEffect c ans frame calls (ok, frame', calls')) (hused : WellUsed calls)
    (hrefused : BufferRefused c ans) :
    ok = false ∧ (held calls').length = (held calls).length + 1 := by
  obtain ⟨n, passed, present, memalign, create⟩ := hrefused
  cases ok with
  | true =>
    -- the loop would have to end before the plane, which is present
    obtain ⟨m, hpassed, hstop, -, -⟩ := h.of_true
    have hle := hpassed.le_of_refused create
    rcases hstop with rfl | hzero
    · omega
    · by_cases hm : m = n
      · rw [hm] at hzero
        exact absurd hzero present.2
      · exact absurd hzero (passed.2 m (by omega)).1
  | false =>
    -- it fails for no other plane, and the block of this one is in no buffer
    obtain ⟨m, hpassed, -, hcause, hout⟩ := h.of_false
    have hle := hpassed.le_of_refused create
    obtain rfl : m = n := by
      by_contra hm
      obtain ⟨-, hsome, hcreated⟩ := passed.2 m (by omega)
      rcases hcause with hnone | ⟨-, hfailed⟩
      · rw [hnone] at hsome
        cases hsome
      · rw [hfailed] at hcreated
        cases hcreated
    obtain ⟨ptr, hptr⟩ := Option.isSome_iff_exists.mp memalign
    have hheld := (held_unwound c ans m frame hused).1.length_eq
    rw [← hout, hptr] at hheld
    refine ⟨rfl, hheld.trans ?_⟩
    rw [List.length_append, Nat.add_comm]
    rfl

/-- **A call for which `av_buffer_create` fails** is not undone. -/
theorem not_undone {s : FrameSession κ} {e : FrameEvent κ} (hs : WellUsed s.calls)
    (he : (frameMachine L).guard s e) (hrefused : ¬ BuffersCreated L s e) :
    ¬ Undone s (s.step L e) := by
  intro hundone
  cases e with
  | reopen codec isVideo => exact hrefused trivial
  | release k => exact hrefused trivial
  | getFrame call =>
    apply hrefused
    intro ret c hpool hnonneg hplanes
    obtain ⟨r, hr⟩ := Option.isSome_iff_exists.mp he.1
    obtain ⟨ret', hpool', hcases⟩ := lavcGetFrame_cases hr
    obtain ⟨rfl, rfl⟩ := Prod.mk.inj (Option.some.inj (hpool.symm.trans hpool'))
    rcases hcases with ⟨hneg, -⟩ | ⟨-, ok, heffect, hret⟩
    · omega
    · obtain ⟨rfl, hlength⟩ := heffect.lost hs hplanes
      rw [FrameSession.step_getFrame hr] at hundone
      have hheld := (hundone r rfl (by rw [hret]; decide)).1.length_eq
      change (held r.calls).length = _ at hheld
      omega

/-- The start of a decoder owns what it holds: nothing. -/
theorem owned_start {codec : κ} {isVideo : Bool} {size : ℕ → ℤ} :
    (FrameSession.start codec isVideo size).Owned :=
  ⟨List.Perm.refl _, List.nodup_nil, trivial⟩

/-- **Run lemma.** Where no `av_buffer_create` that is reached fails, every block is owned. -/
theorem owned_run {codec : κ} {isVideo : Bool} {size : ℕ → ℤ} {es : List (FrameEvent κ)}
    (h : ((frameMachine L).restrict (BuffersCreated L)).Legal (.start codec isVideo size) es) :
    ((frameMachine L).run (.start codec isVideo size) es).Owned :=
  Machine.Legal.invariant (M := (frameMachine L).restrict (BuffersCreated L)) FrameSession.Owned
    (fun _ _ hs he => (hs.step he.1 he.2).1) h owned_start

/-- **Ownership of frame buffers.** Over a run every block is owned by one buffer and every failure
is undone, if and only if no `av_buffer_create` that is reached fails. -/
theorem ownershipKept_iff {codec : κ} {isVideo : Bool} {size : ℕ → ℤ} {es : List (FrameEvent κ)}
    (h : (frameMachine L).Legal (.start codec isVideo size) es) :
    OwnershipKept L (.start codec isVideo size) es ↔
      ((frameMachine L).restrict (BuffersCreated L)).Legal (.start codec isVideo size) es := by
  have hevents : OwnershipKept L (.start codec isVideo size) es ↔ ∀ fs e, fs ++ [e] <+: es →
      ((frameMachine L).run (.start codec isVideo size) (fs ++ [e])).Owned ∧
      Undone ((frameMachine L).run (.start codec isVideo size) fs)
        ((frameMachine L).run (.start codec isVideo size) (fs ++ [e])) := by
    constructor
    · exact fun hkept fs e hfs => ⟨hkept.owned _ hfs, hkept.undone fs e hfs⟩
    · intro hall
      refine ⟨forall_prefix_iff.mpr ⟨owned_start, fun fs e hfs => (hall fs e hfs).1⟩, ?_⟩
      exact fun fs e hfs => (hall fs e hfs).2
  rw [hevents]
  refine h.restrict_iff fun fs e hfs he _ => ?_
  have howned := owned_run hfs
  rw [Machine.run_snoc]
  constructor
  · intro hgood
    by_contra hrefused
    exact not_undone howned.wellUsed he hrefused hgood.2
  · exact fun hcreated => howned.step he hcreated

/-- A frame is handed out, there is no memory for the second plane of the next one, and the first
one is released. -/
def shortOfMemory : List (FrameEvent Unit) :=
  [.getFrame (smallCall 0 4 fun _ => true), .getFrame (smallCall 65536 1 fun _ => true), .release 0]

/-- Where `av_buffer_create` never fails, it fails for no plane that is reached. -/
theorem smallCall_created {s : FrameSession Unit} (base planes : ℕ) :
    BuffersCreated yuv420 s (.getFrame (smallCall base planes fun _ => true)) := by
  rintro ret c - - ⟨n, -, -, -, create⟩
  cases create

/-- The events are admitted. -/
theorem shortOfMemory_legal : (frameMachine yuv420).Legal smallDecoder shortOfMemory := by
  refine ⟨⟨?_, smallCall_fresh ?_⟩, ⟨?_, smallCall_fresh ?_⟩, ?_, trivial⟩
  · decide +kernel
  · decide +kernel
  · decide +kernel
  · decide +kernel
  · show 0 < (FrameSession.frames _).length
    decide +kernel

/-- No `av_buffer_create` fails, and `ownershipKept_iff` applies. -/
theorem ownershipKept_iff_shortOfMemory : OwnershipKept yuv420 smallDecoder shortOfMemory := by
  obtain ⟨hfirst, hsecond, hrelease, -⟩ := shortOfMemory_legal
  refine (ownershipKept_iff shortOfMemory_legal).mpr ?_
  exact ⟨⟨hfirst, smallCall_created _ _⟩, ⟨hsecond, smallCall_created _ _⟩, ⟨hrelease, trivial⟩,
    trivial⟩

/-- There is memory for all planes of a frame, and `av_buffer_create` fails for the second one. -/
def refusedBuffer : List (FrameEvent Unit) := [.getFrame (smallCall 0 4 fun i => i ≠ 1)]

/-- **The failure.** In `refusedBuffer` the call returns -1, and the block of the second plane stays
allocated without an owner. -/
theorem not_ownershipKept : (frameMachine yuv420).Legal smallDecoder refusedBuffer ∧
    ((frameMachine yuv420).run smallDecoder refusedBuffer).last.map GetFrameResult.ret = some (-1) ∧
    ¬ OwnershipKept yuv420 smallDecoder refusedBuffer := by
  refine ⟨⟨⟨?_, smallCall_fresh ?_⟩, trivial⟩, ?_, ?_⟩
  · decide +kernel
  · decide +kernel
  · decide +kernel
  · intro hkept
    -- a block is held, and no frame is out
    have hheld := (hkept.owned _ (List.prefix_refl _)).held_perm.length_eq
    revert hheld
    decide +kernel

end FfTest
