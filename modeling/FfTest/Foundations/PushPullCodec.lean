import Mathlib.Algebra.Group.Nat.Defs
import Mathlib.Data.Int.Notation
import Mathlib.Data.List.Infix
import Mathlib.Data.Nat.Notation

/-! # Codecs driven by sending packets and receiving frames

A push–pull codec takes packets through `send` and gives frames through `receive`, either of which
may push back. `Codec.Contract` is the contract such an interface documents: what may be received is
a queue, `receive` serves it in order, `send` only ever adds to its end, and after the end-of-stream
packet the codec drains.

* `Codec.Emits` is the reference pipeline: feed each packet and take everything, then drain;
* `Codec.Contract.conserved`: whatever the order of the calls, what has become receivable is what
  has been taken followed by what is still queued, as long as no flush drops anything;
* `Transducer.codec` puts a queue behind a transducer, and keeps the contract. -/

namespace FfTest

universe u v w

/-- Answer of `send`. -/
inductive SendRet
  /-- The packet is accepted. -/
  | ok
  /-- The packet is not accepted before output has been received. -/
  | again
  /-- The codec drains and takes no more packets. -/
  | eof
  /-- The packet is rejected. -/
  | error (code : ℤ)
  deriving DecidableEq, Repr

/-- Answer of `receive`. -/
inductive RecvRet (F : Type v)
  /-- A frame. -/
  | frame (f : F)
  /-- There is no frame before another packet is sent. -/
  | again
  /-- The codec has drained. -/
  | eof
  /-- Decoding failed. -/
  | error (code : ℤ)
  deriving DecidableEq, Repr

/-- What a codec owes its user: a frame, or the report that one could not be decoded. -/
inductive Outcome (F : Type v)
  /-- A frame. -/
  | frame (f : F)
  /-- An error in the place of a frame. -/
  | error (code : ℤ)
  deriving DecidableEq, Repr

/-- The answer of `receive` that hands over an outcome. -/
def Outcome.answer {F : Type v} : Outcome F → RecvRet F
  | .frame f => .frame f
  | .error c => .error c

/-- The frame of an outcome. -/
def Outcome.frame? {F : Type v} : Outcome F → Option F
  | .frame f => some f
  | .error _ => none

/-- Whether an outcome is an error. -/
def Outcome.isError {F : Type v} : Outcome F → Bool
  | .frame _ => false
  | .error _ => true

/-- Whether an answer of `send` is an error. -/
def SendRet.isError : SendRet → Bool
  | .error _ => true
  | _ => false

/-- The outcome an answer of `receive` hands over. -/
def RecvRet.outcome {F : Type v} : RecvRet F → Option (Outcome F)
  | .frame f => some (.frame f)
  | .error c => some (.error c)
  | _ => none

@[simp] theorem Outcome.outcome_answer {F : Type v} (o : Outcome F) :
    o.answer.outcome = some o := by
  cases o <;> rfl

/-- A codec. `backlog` bounds the frames that can be received before anything else happens. -/
structure Codec (P : Type u) (F : Type v) where
  /-- What the codec remembers. -/
  State : Type w
  /-- Offer a packet, or `none` for the end of the stream. -/
  send : State → Option P → SendRet × State
  /-- Ask for a frame. -/
  receive : State → RecvRet F × State
  /-- Forget the stream. -/
  flush : State → State
  /-- A bound on the frames that can be received in a row. -/
  backlog : State → ℕ
  /-- Receiving a frame lowers the bound. -/
  backlog_lt : ∀ {s f s'}, receive s = (.frame f, s') → backlog s' < backlog s

namespace Codec

variable {P : Type u} {F : Type v} (C : Codec.{u, v, w} P F)

/-! ## Taking frames until the codec answers something else -/

/-- From `s`, the frames `fs` are received, then `receive` answers `r`, which leads to `s'`. -/
inductive Takes : C.State → List F → RecvRet F → C.State → Prop
  /-- The answer is not a frame. -/
  | stop {s s' : C.State} {r : RecvRet F} (receive : C.receive s = (r, s'))
      (last : ∀ f, r ≠ .frame f) : Takes s [] r s'
  /-- The answer is a frame. -/
  | frame {s s₁ s' : C.State} {f : F} {fs : List F} {r : RecvRet F}
      (receive : C.receive s = (.frame f, s₁)) (rest : Takes s₁ fs r s') : Takes s (f :: fs) r s'

variable {C}

/-- What is received from a state is determined. -/
theorem Takes.unique {s s₁ s₂ : C.State} {fs gs : List F} {r q : RecvRet F}
    (h₁ : C.Takes s fs r s₁) (h₂ : C.Takes s gs q s₂) : fs = gs ∧ r = q ∧ s₁ = s₂ := by
  induction h₁ generalizing gs with
  | stop receive last =>
    cases h₂ with
    | stop receive' _ =>
      rw [receive] at receive'
      cases receive'
      exact ⟨rfl, rfl, rfl⟩
    | frame receive' _ =>
      -- one answer is not a frame, the other one is
      rw [receive] at receive'
      cases receive'
      exact absurd rfl (last _)
  | frame receive rest ih =>
    cases h₂ with
    | stop receive' last =>
      rw [receive] at receive'
      cases receive'
      exact absurd rfl (last _)
    | frame receive' rest' =>
      rw [receive] at receive'
      cases receive'
      obtain ⟨rfl, rfl, rfl⟩ := ih rest'
      exact ⟨rfl, rfl, rfl⟩

/-- The last answer is one of `receive`. -/
theorem Takes.exists_receive {s s' : C.State} {fs : List F} {r : RecvRet F}
    (h : C.Takes s fs r s') : ∃ s₁, C.receive s₁ = (r, s') := by
  induction h with
  | stop receive last => exact ⟨_, receive⟩
  | frame _ _ ih => exact ih

/-- The last answer is not a frame. -/
theorem Takes.ne_frame {s s' : C.State} {fs : List F} {r : RecvRet F}
    (h : C.Takes s fs r s') : ∀ f, r ≠ .frame f := by
  induction h with
  | stop _ last => exact last
  | frame _ _ ih => exact ih

/-! ## The reference pipeline -/

variable (C) in
/-- **The reference pipeline.** Each packet is sent and all frames are taken, then the end of the
stream is sent and all frames are taken; `fs` is everything taken. -/
inductive Emits : C.State → List P → List F → Prop
  /-- One packet more is fed. -/
  | feed {s s₁ s₂ : C.State} {p : P} {ps : List P} {fs gs : List F}
      (send : C.send s (some p) = (.ok, s₁)) (take : C.Takes s₁ fs .again s₂)
      (rest : Emits s₂ ps gs) : Emits s (p :: ps) (fs ++ gs)
  /-- The codec is drained. -/
  | drain {s s₁ s₂ : C.State} {fs : List F} (send : C.send s none = (.ok, s₁))
      (take : C.Takes s₁ fs .eof s₂) : Emits s [] fs

/-- What the reference pipeline takes is determined by the packets. -/
theorem Emits.unique {s : C.State} {ps : List P} {fs gs : List F}
    (h₁ : C.Emits s ps fs) (h₂ : C.Emits s ps gs) : fs = gs := by
  induction h₁ generalizing gs with
  | feed send take _ ih =>
    cases h₂ with
    | feed send' take' rest' =>
      rw [send] at send'
      cases send'
      obtain ⟨rfl, -, rfl⟩ := take.unique take'
      rw [ih rest']
  | drain send take =>
    cases h₂ with
    | drain send' take' =>
      rw [send] at send'
      cases send'
      exact (take.unique take').1

/-! ## The contract -/

variable (C) in
/-- The contract of the interface. `pending` is what `receive` will hand over before it answers that
there is nothing, and `draining` is whether the end of the stream has been accepted. -/
structure Contract where
  /-- The outcomes to be received, next first. -/
  pending : C.State → List (Outcome F)
  /-- Whether the codec drains. -/
  draining : C.State → Bool
  /-- `receive` hands over the next outcome; without one it asks for input, or reports the end. -/
  receive_answer : ∀ s, (C.receive s).1 =
    (pending s).head?.elim (if draining s then .eof else .again) Outcome.answer
  /-- The outcome handed over is queued no longer. -/
  pending_receive : ∀ s, pending (C.receive s).2 = (pending s).tail
  /-- `receive` neither starts nor ends the draining. -/
  draining_receive : ∀ s, draining (C.receive s).2 = draining s
  /-- `send` leaves what is queued where it is. -/
  pending_send : ∀ s p, pending s <+: pending (C.send s p).2
  /-- Exactly a draining codec answers that it takes no more packets. -/
  send_eof_iff : ∀ s p, (C.send s p).1 = .eof ↔ draining s = true
  /-- A draining codec stays as it is. -/
  send_draining : ∀ s p, draining s = true →
    pending (C.send s p).2 = pending s ∧ draining (C.send s p).2 = true
  /-- A packet is only pushed back while there is something to receive. -/
  pending_of_send_again : ∀ s p, (C.send s p).1 = .again → pending s ≠ []
  /-- A packet that is pushed back changes nothing. -/
  send_again : ∀ s p, (C.send s p).1 = .again →
    pending (C.send s p).2 = pending s ∧ draining (C.send s p).2 = draining s
  /-- Only the end of the stream starts the draining. -/
  draining_send : ∀ s p, draining s = false → draining (C.send s p).2 = true → p = none
  /-- The accepted end of the stream starts the draining. -/
  draining_send_none : ∀ s, (C.send s none).1 = .ok → draining (C.send s none).2 = true
  /-- A flushed codec owes nothing. -/
  pending_flush : ∀ s, pending (C.flush s) = []
  /-- A flushed codec does not drain. -/
  draining_flush : ∀ s, draining (C.flush s) = false

namespace Contract

attribute [simp] pending_receive draining_receive pending_flush draining_flush

variable (K : C.Contract)

/-- The codec has nothing left to give, and takes nothing any more. -/
def Exhausted (s : C.State) : Prop := K.draining s = true ∧ K.pending s = []

/-- The codec takes packets and has nothing to give: as opened or flushed, or once `receive` has
asked for input. -/
def Idle (s : C.State) : Prop := K.draining s = false ∧ K.pending s = []

/-- An answer that hands nothing over says whether the codec drains, and there is nothing queued. -/
theorem answer_of_receive {s s' : C.State} {r : RecvRet F} (h : C.receive s = (r, s'))
    (hr : r.outcome = none) : K.pending s' = [] ∧ r = if K.draining s' then .eof else .again := by
  have hanswer := K.receive_answer s
  have hpending := K.pending_receive s
  have hdraining := K.draining_receive s
  rw [h] at hanswer hpending hdraining
  cases hp : K.pending s with
  | nil =>
    rw [hp] at hanswer hpending
    exact ⟨hpending, by rw [hdraining]; exact hanswer⟩
  | cons o os =>
    -- the outcome in front would have been handed over
    rw [hp] at hanswer
    change r = o.answer at hanswer
    rw [hanswer, Outcome.outcome_answer] at hr
    cases hr

/-- `receive` asks for input only when idle. -/
theorem idle_of_receive {s s' : C.State} (h : C.receive s = (.again, s')) : K.Idle s' := by
  obtain ⟨hpending, hanswer⟩ := K.answer_of_receive h rfl
  refine ⟨?_, hpending⟩
  by_contra hdraining
  rw [if_pos (Bool.not_eq_false _ ▸ hdraining)] at hanswer
  cases hanswer

/-- `receive` reports the end only when exhausted. -/
theorem exhausted_of_receive {s s' : C.State} (h : C.receive s = (.eof, s')) :
    K.Exhausted s' := by
  obtain ⟨hpending, hanswer⟩ := K.answer_of_receive h rfl
  refine ⟨?_, hpending⟩
  by_contra hdraining
  rw [if_neg hdraining] at hanswer
  cases hanswer

/-- An outcome that `receive` hands over was the next one queued. -/
theorem pending_of_receive {s s' : C.State} {r : RecvRet F} (h : C.receive s = (r, s')) :
    K.pending s = r.outcome.toList ++ K.pending s' := by
  have hanswer := K.receive_answer s
  have hpending := K.pending_receive s
  rw [h] at hanswer hpending
  change r = _ at hanswer
  change K.pending s' = _ at hpending
  rw [hpending, hanswer]
  cases hp : K.pending s with
  | nil => cases K.draining s <;> rfl
  | cons o os => simp

/-- Taking frames neither starts nor ends the draining. -/
theorem draining_takes {s s' : C.State} {fs : List F} {r : RecvRet F} (h : C.Takes s fs r s') :
    K.draining s' = K.draining s := by
  induction h with
  | @stop s s' r receive last => simpa [receive] using K.draining_receive s
  | @frame s s₁ s' f fs r receive rest ih =>
    rw [ih]
    simpa [receive] using K.draining_receive s

/-- Once the codec asks for input it is idle. -/
theorem idle_of_takes {s s' : C.State} {fs : List F} (h : C.Takes s fs .again s') :
    K.Idle s' := by
  obtain ⟨s₁, hreceive⟩ := h.exists_receive
  exact K.idle_of_receive hreceive

/-- A codec that has accepted the end of the stream asks for no more input. -/
theorem isSome_of_takes (K : C.Contract) {s s₁ s₂ : C.State} {p : Option P} {fs : List F}
    (send : C.send s p = (.ok, s₁)) (takes : C.Takes s₁ fs .again s₂) : p.isSome = true := by
  cases p with
  | some p => rfl
  | none =>
    have hdraining := K.draining_send_none s (by rw [send])
    rw [send, ← K.draining_takes takes, (K.idle_of_takes takes).1] at hdraining
    cases hdraining

/-- Once the codec reports the end it is exhausted. -/
theorem exhausted_of_takes {s s' : C.State} {fs : List F} (h : C.Takes s fs .eof s') :
    K.Exhausted s' := by
  obtain ⟨s₁, hreceive⟩ := h.exists_receive
  exact K.exhausted_of_receive hreceive

end Contract

/-! ## Histories of calls -/

/-- One call on a codec. -/
inductive Call (P : Type u)
  /-- `send`. -/
  | send (p : Option P)
  /-- `receive`. -/
  | receive
  /-- `flush`. -/
  | flush

variable (C) in
/-- The codec after one call. -/
def apply (s : C.State) : Call P → C.State
  | .send p => (C.send s p).2
  | .receive => (C.receive s).2
  | .flush => C.flush s

variable (C) in
/-- The codec after the calls, oldest first. -/
def after (s : C.State) (calls : List (Call P)) : C.State := calls.foldl C.apply s

variable (C) in
/-- What the calls have taken. -/
def taken : C.State → List (Call P) → List (Outcome F)
  | _, [] => []
  | s, .receive :: calls => (C.receive s).1.outcome.toList ++ taken (C.receive s).2 calls
  | s, call :: calls => taken (C.apply s call) calls

@[simp] theorem after_append (s : C.State) (calls calls' : List (Call P)) :
    C.after s (calls ++ calls') = C.after (C.after s calls) calls' := List.foldl_append

/-- What a longer history takes. -/
theorem taken_append (s : C.State) (calls calls' : List (Call P)) :
    C.taken s (calls ++ calls') = C.taken s calls ++ C.taken (C.after s calls) calls' := by
  induction calls generalizing s with
  | nil => rfl
  | cons call calls ih =>
    cases call with
    | receive => exact (congrArg _ (ih _)).trans (List.append_assoc _ _ _).symm
    | send p => exact ih _
    | flush => exact ih _

/-- The calls of `receive` that take frames up to another answer, and what they take. -/
theorem Takes.history {s s' : C.State} {fs : List F} {r : RecvRet F} (h : C.Takes s fs r s') :
    C.after s (List.replicate (fs.length + 1) .receive) = s' ∧
      C.taken s (List.replicate (fs.length + 1) .receive)
        = fs.map .frame ++ r.outcome.toList := by
  induction h with
  | @stop s s' r receive last =>
    show (C.receive s).2 = s' ∧ (C.receive s).1.outcome.toList ++ [] = r.outcome.toList
    rw [receive]
    exact ⟨rfl, List.append_nil _⟩
  | @frame s s₁ s' f fs r receive rest ih =>
    show C.after (C.receive s).2 (List.replicate (fs.length + 1) .receive) = s' ∧
      (C.receive s).1.outcome.toList ++
        C.taken (C.receive s).2 (List.replicate (fs.length + 1) .receive) = _
    rw [receive, ih.1, ih.2]
    exact ⟨rfl, rfl⟩

namespace Contract

variable (K : C.Contract)

/-- What the calls have made receivable. -/
def produced : C.State → List (Call P) → List (Outcome F)
  | _, [] => []
  | s, .send p :: calls =>
    (K.pending (C.send s p).2).drop (K.pending s).length ++ produced (C.send s p).2 calls
  | s, call :: calls => produced (C.apply s call) calls

/-- Every flush among the calls found nothing queued. -/
def Lossless : C.State → List (Call P) → Prop
  | _, [] => True
  | s, .flush :: calls => K.pending s = [] ∧ Lossless (C.flush s) calls
  | s, call :: calls => Lossless (C.apply s call) calls

/-- A longer history is lossless iff its parts are. -/
theorem lossless_append (s : C.State) (calls calls' : List (Call P)) :
    K.Lossless s (calls ++ calls') ↔
      K.Lossless s calls ∧ K.Lossless (C.after s calls) calls' := by
  induction calls generalizing s with
  | nil => exact (iff_of_eq (true_and _)).symm
  | cons call calls ih =>
    cases call with
    | flush => exact (and_congr_right fun _ => ih _).trans and_assoc.symm
    | send p => exact ih _
    | receive => exact ih _

/-- Receiving drops nothing. -/
theorem lossless_receive (s : C.State) (n : ℕ) :
    K.Lossless s (List.replicate n .receive) := by
  induction n generalizing s with
  | zero => trivial
  | succ n ih => exact ih _

/-- **Conservation.** What was queued and what has become receivable since is what has been taken
and what is queued now, in this order. -/
theorem conserved {s : C.State} {calls : List (Call P)} (h : K.Lossless s calls) :
    K.pending s ++ K.produced s calls = C.taken s calls ++ K.pending (C.after s calls) := by
  induction calls generalizing s with
  | nil => exact List.append_nil _
  | cons call calls ih =>
    cases call with
    | send p =>
      -- what a packet makes receivable comes behind what is queued
      have hprefix := List.prefix_iff_eq_append.mp (K.pending_send s p)
      calc K.pending s ++ K.produced s (.send p :: calls)
          = K.pending (C.send s p).2 ++ K.produced (C.send s p).2 calls := by
            rw [← hprefix, List.append_assoc]
            rfl
        _ = C.taken s (.send p :: calls) ++ K.pending (C.after s (.send p :: calls)) := ih h
    | receive =>
      -- the outcome in front moves from the queue to what is taken
      have hhead := K.pending_of_receive (s := s) rfl
      rw [hhead, List.append_assoc]
      exact (congrArg _ (ih h)).trans (List.append_assoc _ _ _).symm
    | flush =>
      -- a lossless flush has nothing to drop
      have hrest := ih h.2
      rw [K.pending_flush] at hrest
      rw [h.1]
      exact hrest

end Contract

end Codec

/-! ## The codec of a transducer -/

/-- What a codec does to its packets, apart from when its output is taken: it may hold outcomes back
until later packets, or the end of the stream, bring them out. -/
structure Transducer (P : Type u) (F : Type v) (S : Type w) where
  /-- What is held at the start. -/
  start : S
  /-- What a packet brings out, and what is held afterwards. -/
  step : S → P → List (Outcome F) × S
  /-- What the end of the stream brings out. -/
  finish : S → List (Outcome F)

/-- A transducer's state with a queue of outcomes behind it. -/
structure Buffered (F : Type v) (S : Type w) where
  /-- What the transducer holds. -/
  core : S
  /-- The outcomes to be received. -/
  queue : List (Outcome F)
  /-- Whether the end of the stream has been accepted. -/
  draining : Bool

namespace Transducer

variable {P : Type u} {F : Type v} {S : Type w} (T : Transducer P F S)

/-- The queue serves the next outcome. -/
def receive (s : Buffered F S) : RecvRet F × Buffered F S :=
  match s.queue with
  | o :: os => (o.answer, { s with queue := os })
  | [] => (if s.draining then .eof else .again, s)

/-- The queue takes a packet once it is empty. -/
def send (s : Buffered F S) (p : Option P) : SendRet × Buffered F S :=
  if s.draining then (.eof, s)
  else if s.queue.isEmpty then
    match p with
    | some p => (.ok, ⟨(T.step s.core p).2, (T.step s.core p).1, false⟩)
    | none => (.ok, ⟨s.core, T.finish s.core, true⟩)
  else (.again, s)

/-- A frame received leaves the queue. -/
theorem queue_lt_of_receive {s s' : Buffered F S} {f : F}
    (h : receive s = (.frame f, s')) : s'.queue.length < s.queue.length := by
  obtain ⟨core, queue, draining⟩ := s
  cases queue with
  | nil => cases draining <;> cases h
  | cons o os =>
    cases o with
    | frame g =>
      cases h
      exact Nat.lt_succ_self _
    | error c => cases h

/-- The codec with a queue behind the transducer. -/
def codec : Codec P F where
  State := Buffered F S
  send := T.send
  receive := receive
  flush _ := ⟨T.start, [], false⟩
  backlog s := s.queue.length
  backlog_lt := queue_lt_of_receive

/-- The ways through `send`. -/
theorem send_cases (s : Buffered F S) (p : Option P) :
    (s.draining = true ∧ T.send s p = (.eof, s)) ∨
    (s.draining = false ∧ s.queue = [] ∧ ∃ core queue,
      T.send s p = (.ok, ⟨core, queue, p.isNone⟩)) ∨
    (s.draining = false ∧ s.queue ≠ [] ∧ T.send s p = (.again, s)) := by
  obtain ⟨core, queue, draining⟩ := s
  cases draining with
  | true => exact .inl ⟨rfl, rfl⟩
  | false =>
    cases queue with
    | nil => cases p <;> exact .inr (.inl ⟨rfl, rfl, _, _, rfl⟩)
    | cons o os => exact .inr (.inr ⟨rfl, nofun, rfl⟩)

/-- The codec of a transducer keeps the contract. -/
def contract : T.codec.Contract where
  pending := Buffered.queue
  draining := Buffered.draining
  receive_answer s := by
    obtain ⟨core, queue, draining⟩ := s
    cases queue <;> rfl
  pending_receive s := by
    obtain ⟨core, queue, draining⟩ := s
    cases queue <;> rfl
  draining_receive s := by
    obtain ⟨core, queue, draining⟩ := s
    cases queue <;> rfl
  pending_send s p := by
    show s.queue <+: (T.send s p).2.queue
    rcases T.send_cases s p with ⟨-, h⟩ | ⟨-, hqueue, core, queue, -⟩ | ⟨-, -, h⟩
    · rw [h]
    · rw [hqueue]
      exact List.nil_prefix
    · rw [h]
  send_eof_iff s p := by
    show (T.send s p).1 = .eof ↔ s.draining = true
    rcases T.send_cases s p with ⟨hd, h⟩ | ⟨hd, -, core, queue, h⟩ | ⟨hd, -, h⟩ <;>
      simp [h, hd]
  send_draining s p hd := by
    rcases T.send_cases s p with ⟨-, h⟩ | ⟨hd', -⟩ | ⟨hd', -⟩
    · show (T.send s p).2.queue = s.queue ∧ (T.send s p).2.draining = true
      rw [h]
      exact ⟨rfl, hd⟩
    · exact absurd (hd.symm.trans hd') nofun
    · exact absurd (hd.symm.trans hd') nofun
  pending_of_send_again s p hagain := by
    change (T.send s p).1 = .again at hagain
    rcases T.send_cases s p with ⟨-, h⟩ | ⟨-, -, core, queue, h⟩ | ⟨-, hqueue, -⟩
    · rw [h] at hagain
      cases hagain
    · rw [h] at hagain
      cases hagain
    · exact hqueue
  send_again s p hagain := by
    change (T.send s p).1 = .again at hagain
    show (T.send s p).2.queue = s.queue ∧ (T.send s p).2.draining = s.draining
    rcases T.send_cases s p with ⟨-, h⟩ | ⟨-, -, core, queue, h⟩ | ⟨-, -, h⟩
    · rw [h]
      exact ⟨rfl, rfl⟩
    · rw [h] at hagain
      cases hagain
    · rw [h]
      exact ⟨rfl, rfl⟩
  draining_send s p hd hd' := by
    change (T.send s p).2.draining = true at hd'
    change s.draining = false at hd
    rcases T.send_cases s p with ⟨hd₁, -⟩ | ⟨-, -, core, queue, h⟩ | ⟨-, -, h⟩
    · rw [hd] at hd₁
      cases hd₁
    · rw [h] at hd'
      exact Option.isNone_iff_eq_none.mp hd'
    · rw [h, hd] at hd'
      cases hd'
  draining_send_none s hok := by
    change (T.send s none).1 = .ok at hok
    show (T.send s none).2.draining = true
    rcases T.send_cases s none with ⟨-, h⟩ | ⟨-, -, core, queue, h⟩ | ⟨-, -, h⟩
    · rw [h] at hok
      cases hok
    · rw [h]
      rfl
    · rw [h] at hok
      cases hok
  pending_flush _ := rfl
  draining_flush _ := rfl

end Transducer

end FfTest
