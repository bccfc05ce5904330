import CallBridge.Proofs.Bridge.LedgerRun

/-!
# Counting references to a session

A session is referred to by the handles on it that live, and by the scheduler from the moment the
session is handed over until the scheduler lets go of it for good. Handles are made, copied and
dropped, descriptions come in, the session is stopped, and a worker calls its hooks, in any order
and any number of times.

Of all this the books of a session keep what concerns its references. They are followed step by
step with three facts in mind. The count is that of the handles, and one more while the scheduler
has the session. The scheduler has no session that was not handed to it or stopped, so that a
session is never handed over while the scheduler still refers to it. And the tear-down, which counts
itself, was carried out once if the session is marked as torn down, and else never.

Results:
* `books_step`: a step does to the books what is said of it.
* `books_finalize`: the mark keeps the tear-down from being carried out again.
* `Balanced.step`: the three facts hold after every step.
* `givesBack_spec`: a reference is given back only where there is one, and the last one is never
  that of the scheduler.
* `references_run`: what follows for any run of operations.
-/

namespace CallBridge.Bridge

open Rtp (MediaStream Receiver)
open Sdp (Description)

/-! ## Operations -/

/-- What is done to a session in one step, by those who hold it, by its legs or by its worker. -/
inductive Operation where
  /-- A handle on the session is made. -/
  | take
  /-- A handle that lives is copied. -/
  | copy
  /-- A handle that lives is dropped. -/
  | drop
  /-- A description comes in, and the scheduler takes the session or refuses it if it is asked. -/
  | update (u : Update) (admitted : Bool)
  /-- The session is stopped, and the scheduler knows it or not. -/
  | stop (known : Bool)
  | started
  | suspended
  | failed (reason : String)
  | terminated
deriving Inhabited

/-- A session and the number of handles on it that live. -/
structure Held (σ : Type) where
  session : Session σ
  handles : Nat

variable {σ : Type} [MediaStream σ]

namespace Session

/-- The session after a description came in, before it is handed to the scheduler. -/
def described (x : Surroundings σ) (s : Session σ) : Update → Session σ
  | .localSdp now l sdp =>
    let known := { s with localSdp := s.localSdp.set l sdp.normal }
    if (s.remoteSdp.get l).isEmpty then known
    else applyLocal now l sdp.normal (s.remoteSdp.get l) (sdp.normal.audioMedia.map (·.1)) 0 known
  | .remoteSdp now l sdp =>
    (applyLines x now l sdp.normal sdp.normal.audioMedia 0
      { s with remoteSdp := s.remoteSdp.set l sdp.normal }).1

/-- The session after a description came in. -/
def updated (x : Surroundings σ) (s : Session σ) (admitted : Bool) : Update → Session σ
  | .localSdp now l sdp => s.updateLocal now l sdp admitted
  | .remoteSdp now l sdp => (s.updateRemote x now l sdp admitted).1

/-- The session that the scheduler refused to take, before the scheduler's reference is given
back. -/
def refused (s : Session σ) : Session σ :=
  { s.addReference with scheduled := false, registered := false }

/-- The session that the scheduler let go of, before the scheduler's reference is given back. -/
def surrendered (s : Session σ) : Session σ :=
  { s.suspended.clearAudio with scheduled := false }.postBoth .terminated

/-- The session that was stopped, before anybody ends it. -/
def halted (s : Session σ) : Session σ :=
  { { s with stopped := true }.clearAudio with registered := false }

end Session

namespace Operation

/-- Whether an operation ends with the hook that a session is terminated by. A session that is
stopped calls it itself where the scheduler does not know the session. -/
def terminates (s : Session σ) : Operation → Bool
  | terminated => true
  | stop known => s.registered && !known
  | _ => false

end Operation

namespace Held

/-- A session before anything is known, and nobody who holds it. -/
def fresh (id : SessionId) (callgroup : String) (detects : PerLeg Bool) (receiver : Receiver) :
    Held σ := ⟨Session.fresh id callgroup detects receiver, 0⟩

/-- The session after an operation. What takes a handle that lives is not possible without one, and
changes nothing then. -/
def step (x : Surroundings σ) (h : Held σ) : Operation → Held σ
  | .take => ⟨h.session.addReference, h.handles + 1⟩
  | .copy => if h.handles = 0 then h else ⟨h.session.addReference, h.handles + 1⟩
  | .drop => if h.handles = 0 then h else ⟨h.session.giveBack, h.handles - 1⟩
  | .update u admitted => { h with session := h.session.updated x admitted u }
  | .stop known => { h with session := h.session.stop known }
  | .started => { h with session := h.session.started }
  | .suspended => { h with session := h.session.suspended }
  | .failed reason => { h with session := h.session.failed reason }
  | .terminated => { h with session := h.session.terminated }

/-- The session after a run of operations. -/
def run (x : Surroundings σ) (h : Held σ) (ops : List Operation) : Held σ := ops.foldl (step x) h

/-- The session at the moment at which an operation gives a reference back, if it does. -/
def givesBack (x : Surroundings σ) (h : Held σ) : Operation → Option (Session σ)
  | .drop => if h.handles = 0 then none else some h.session
  | .update u admitted =>
    let s := h.session.described x u
    if !h.session.stopped && s.isReady && !admitted then some s.refused else none
  | .stop known =>
    if h.session.scheduled && h.session.registered && !known then
      some h.session.halted.surrendered
    else none
  | .terminated => if h.session.scheduled then some h.session.surrendered else none
  | _ => none

/-- How often a run gives the scheduler's reference back by the hook that terminates a session. -/
def surrenders (x : Surroundings σ) (h : Held σ) : List Operation → Nat
  | [] => 0
  | op :: ops =>
    (h.session.scheduled && op.terminates h.session).toNat + surrenders x (h.step x op) ops

end Held

/-! ## Books -/

/-- What concerns the references to a session. -/
structure Books where
  handles : Nat
  references : Nat
  scheduled : Bool
  registered : Bool
  stopped : Bool
  finalized : Bool
  teardowns : Nat
  posted : PerLeg (List Notice)

/-- The books of a session on which a number of handles live. -/
def Session.books (s : Session σ) (handles : Nat) : Books where
  handles := handles
  references := s.references
  scheduled := s.scheduled
  registered := s.registered
  stopped := s.stopped
  finalized := s.finalized
  teardowns := s.teardowns
  posted := s.posted

/-- The books of a session with its handles. -/
def Held.books (h : Held σ) : Books := h.session.books h.handles

namespace Books

/-- The books after a reference was given back, the last one of which ends the session, unless it
was ended before. -/
def giveBack (b : Books) : Books :=
  { b with
    references := b.references - 1
    finalized := b.finalized || b.references = 1
    teardowns := b.teardowns + (b.references = 1 && !b.finalized).toNat }

/-- The books after a notice to both legs. -/
def post (b : Books) (notice : Notice) : Books :=
  { b with posted := ⟨b.posted.a ++ [notice], b.posted.b ++ [notice]⟩ }

/-- The books after the scheduler was asked to take the session. -/
def enlist (b : Books) (ready admitted : Bool) : Books :=
  if ready then
    if admitted then
      { b with references := b.references + 1, scheduled := true, registered := true }
    else
      { b with references := b.references + 1, scheduled := false, registered := false }.giveBack
  else b

/-- The books after the scheduler let go of the session. -/
def terminate (b : Books) : Books :=
  if b.scheduled then ({ b with scheduled := false }.post .terminated).giveBack else b

/-- The books after the session was stopped. -/
def stop (b : Books) (known : Bool) : Books :=
  if b.registered && !known then { b with stopped := true, registered := false }.terminate
  else { b with stopped := true, registered := false }

/-- The books after an operation, given whether the session was ready for the scheduler when it
came to that. -/
def step (b : Books) (ready : Bool) : Operation → Books
  | .take => { b with handles := b.handles + 1, references := b.references + 1 }
  | .copy =>
    if b.handles = 0 then b
    else { b with handles := b.handles + 1, references := b.references + 1 }
  | .drop => if b.handles = 0 then b else { b.giveBack with handles := b.handles - 1 }
  | .update _ admitted => b.enlist ready admitted
  | .stop known => b.stop known
  | .started | .suspended => b
  | .failed reason => b.post (.failed reason)
  | .terminated => b.terminate

/-- How often a leg was told that media is no longer processed. -/
def endings (b : Books) (l : Leg) : Nat := (b.posted.get l).count .terminated

end Books

/-! ## What each step does to the books -/

section

variable (n : Nat)

@[simp] theorem books_foldl_dropPair (ps : List (Pair σ)) (s : Session σ) :
    (ps.foldl Session.dropPair s).books n = s.books n := by
  induction ps generalizing s with
  | nil => rfl
  | cons p ps ih =>
    rw [List.foldl_cons, ih]
    rfl

@[simp] theorem books_clearAudio (s : Session σ) : s.clearAudio.books n = s.books n :=
  books_foldl_dropPair n _ _

theorem books_tearDown (s : Session σ) :
    s.tearDown.books n = { s.books n with teardowns := s.teardowns + 1 } :=
  congrArg (fun b : Books => { b with teardowns := s.teardowns + 1 }) (books_clearAudio n s)

/-- Where the session was torn down before, it is not torn down again. -/
theorem books_finalize (s : Session σ) :
    s.finalize.books n = { s.books n with
      finalized := true
      teardowns := s.teardowns + (!s.finalized).toNat } := by
  unfold Session.finalize
  by_cases hf : s.finalized = true
  · rw [if_pos hf]
    simp [Session.books, hf]
  · rw [if_neg hf, books_tearDown]
    simp [Session.books, hf]

theorem books_giveBack (s : Session σ) : s.giveBack.books n = (s.books n).giveBack := by
  rw [Session.giveBack_eq]
  by_cases hlast : s.references = 1
  · rw [if_pos hlast, books_finalize]
    simp [Session.books, Books.giveBack, hlast]
  · rw [if_neg hlast]
    simp [Session.books, Books.giveBack, hlast]

theorem books_enlist (s : Session σ) (admitted : Bool) :
    (s.enlist admitted).books n = (s.books n).enlist s.isReady admitted := by
  unfold Session.enlist Books.enlist
  split
  · cases admitted
    · exact books_giveBack n s.refused
    · rfl
  · rfl

omit [MediaStream σ] in
theorem Rewired.books {s s' : Session σ} (h : Rewired s s') : s'.books n = s.books n := by
  obtain ⟨_, _, _, _, rfl⟩ := h
  rfl

/-- A description changes streams at most. -/
theorem books_described (x : Surroundings σ) (s : Session σ) (u : Update) :
    (s.described x u).books n = s.books n := by
  cases u with
  | localSdp now l sdp =>
    rw [Session.described]
    split
    · rfl
    · exact (rewired_applyLocal now l _ _ _ 0 _).books n
  | remoteSdp now l sdp => exact (rewired_applyLines x now l _ _ 0 _).books n

theorem updated_eq (x : Surroundings σ) (s : Session σ) (admitted : Bool) (u : Update) :
    s.updated x admitted u =
      if s.stopped then s else (s.described x u).enlist admitted := by
  cases u <;> simp only [Session.updated, Session.updateLocal, Session.updateRemote] <;>
    split <;> rfl

theorem books_surrendered (s : Session σ) :
    s.surrendered.books n = { s.books n with scheduled := false }.post .terminated := by
  have h : s.suspended.clearAudio.books n = s.books n := books_clearAudio n s.suspended
  rw [← h]
  rfl

theorem terminated_eq (s : Session σ) :
    s.terminated = if s.scheduled then s.surrendered.giveBack else s.suspended.clearAudio := by
  have h : s.suspended.clearAudio.scheduled = s.scheduled := Session.scheduled_clearAudio _
  rw [Session.terminated, h]
  rfl

theorem books_terminated (s : Session σ) : s.terminated.books n = (s.books n).terminate := by
  have hscheduled : (s.books n).scheduled = s.scheduled := rfl
  rw [terminated_eq, Books.terminate, hscheduled]
  by_cases hs : s.scheduled = true
  · rw [if_pos hs, if_pos hs, books_giveBack, books_surrendered]
  · rw [if_neg hs, if_neg hs]
    exact books_clearAudio n s.suspended

theorem books_halted (s : Session σ) :
    s.halted.books n = { s.books n with stopped := true, registered := false } := by
  have h := books_clearAudio n { s with stopped := true }
  exact congrArg (fun b : Books => { b with registered := false }) h

theorem stop_eq (s : Session σ) (known : Bool) :
    s.stop known = if s.registered && !known then s.halted.terminated else s.halted := rfl

theorem books_stop (s : Session σ) (known : Bool) :
    (s.stop known).books n = (s.books n).stop known := by
  rw [stop_eq, Books.stop, ← books_halted, ← books_terminated]
  exact apply_ite (Session.books · n) _ _ _

end

namespace Held

/-- Whether the session is ready for the scheduler after an operation brought a description. -/
def ready (x : Surroundings σ) (h : Held σ) : Operation → Bool
  | .update u _ => (h.session.described x u).isReady
  | _ => false

theorem ready_eq_true {x : Surroundings σ} {h : Held σ} {op : Operation}
    (hready : h.ready x op = true) : h.books.registered = false ∧ h.books.stopped = false := by
  cases op with
  | update u admitted =>
    have hbooks := books_described h.handles x h.session u
    rw [ready, Session.isReady] at hready
    have hregistered := congrArg Books.registered hbooks
    have hstopped := congrArg Books.stopped hbooks
    simp only [Session.books] at hregistered hstopped
    simp only [hregistered, hstopped, Bool.and_eq_true, Bool.not_eq_true'] at hready
    exact hready.1
  | _ => cases hready

/-- A step does to the books what is said of it. -/
theorem books_step (x : Surroundings σ) (h : Held σ) (op : Operation) :
    (h.step x op).books = h.books.step (h.ready x op) op := by
  cases op with
  | take => rfl
  | copy => exact apply_ite Held.books (h.handles = 0) h _
  | drop =>
    refine (apply_ite Held.books (h.handles = 0) h _).trans ?_
    have hgive : Held.books ⟨h.session.giveBack, h.handles - 1⟩ =
        { h.books.giveBack with handles := h.handles - 1 } := books_giveBack _ h.session
    rw [hgive]
    rfl
  | update u admitted =>
    have hstep : (h.step x (.update u admitted)).books =
        (h.session.updated x admitted u).books h.handles := rfl
    rw [hstep, updated_eq]
    by_cases hstopped : h.session.stopped = true
    · have hidle : h.ready x (.update u admitted) = false := by
        cases hready : h.ready x (.update u admitted) with
        | false => rfl
        | true => exact absurd (hstopped.symm.trans (ready_eq_true hready).2) (by decide)
      rw [if_pos hstopped, hidle]
      rfl
    · rw [if_neg hstopped, books_enlist, books_described]
      rfl
  | stop known => exact books_stop h.handles h.session known
  | started => rfl
  | suspended => rfl
  | failed reason => rfl
  | terminated => exact books_terminated h.handles h.session

end Held

/-! ## What holds of the books -/

namespace Books

/-- The references are those of the handles that live and one of the scheduler while it has the
session, the scheduler has no session that was not handed to it or stopped, and the session was torn
down once if it is, and else never. -/
structure Balanced (b : Books) : Prop where
  references : b.references = b.handles + b.scheduled.toNat
  listed : b.scheduled = true → b.registered = true ∨ b.stopped = true
  ended : b.teardowns = b.finalized.toNat

/-- Giving the last reference back tears the session down only if it was not before. -/
theorem ended_giveBack {b : Books} (h : b.teardowns = b.finalized.toNat) :
    b.giveBack.teardowns = b.giveBack.finalized.toNat := by
  show b.teardowns + _ = _
  rw [h]
  cases hf : b.finalized <;> simp [giveBack, hf]

theorem Balanced.terminate {b : Books} (h : b.Balanced) : b.terminate.Balanced := by
  unfold Books.terminate
  split
  · next hs =>
    have hcount := h.references
    rw [hs] at hcount
    exact ⟨by simp only [giveBack, post, hcount]; rfl, nofun, ended_giveBack h.ended⟩
  · exact h

theorem Balanced.step {b : Books} (h : b.Balanced) {ready : Bool}
    (hready : ready = true → b.registered = false ∧ b.stopped = false) (op : Operation) :
    (b.step ready op).Balanced := by
  have hcount := h.references
  cases op with
  | take => exact ⟨by simp only [Books.step]; omega, h.listed, h.ended⟩
  | copy =>
    rw [Books.step]
    split
    · exact h
    · exact ⟨by simp only; omega, h.listed, h.ended⟩
  | drop =>
    rw [Books.step]
    split
    · exact h
    · exact ⟨by simp only [giveBack]; omega, h.listed, ended_giveBack h.ended⟩
  | update u admitted =>
    rw [Books.step, enlist]
    split
    · next hr =>
      obtain ⟨hregistered, hstopped⟩ := hready hr
      -- the scheduler has no session that is only now handed to it
      have hnone : b.scheduled = false := by
        cases hs : b.scheduled with
        | false => rfl
        | true =>
          have hl := h.listed hs
          rw [hregistered, hstopped] at hl
          exact absurd hl (by decide)
      rw [hnone] at hcount
      cases admitted with
      | false =>
        exact ⟨by simpa [giveBack] using hcount, nofun, ended_giveBack h.ended⟩
      | true => exact ⟨by simpa using hcount, fun _ => .inl rfl, h.ended⟩
    · exact h
  | stop known =>
    have hhalted : Balanced { b with stopped := true, registered := false } :=
      ⟨hcount, fun _ => .inr rfl, h.ended⟩
    rw [Books.step, Books.stop]
    split
    · exact hhalted.terminate
    · exact hhalted
  | started => exact h
  | suspended => exact h
  | failed reason => exact ⟨hcount, h.listed, h.ended⟩
  | terminated => exact h.terminate

theorem endings_post (b : Books) (notice : Notice) (l : Leg) :
    (b.post notice).endings l = b.endings l + (decide (notice = .terminated)).toNat := by
  have hone : [notice].count .terminated = (decide (notice = .terminated)).toNat := by
    by_cases hn : notice = .terminated <;> simp [hn]
  cases l <;> simp only [endings, post, PerLeg.get, List.count_append, hone]

theorem endings_terminate (b : Books) (l : Leg) :
    b.terminate.endings l = b.endings l + b.scheduled.toNat := by
  unfold terminate
  split
  · next hs =>
    rw [hs]
    exact endings_post { b with scheduled := false } .terminated l
  · next hs =>
    have hnone : b.scheduled = false := by simpa using hs
    rw [hnone]
    rfl

theorem scheduled_terminate (b : Books) : b.terminate.scheduled = false := by
  unfold terminate
  split
  · rfl
  · next hs => simpa using hs

end Books

namespace Held

/-- Both legs are told that media is no longer processed when the scheduler's reference is given
back by the hook for it, and at no other time. -/
theorem endings_step (x : Surroundings σ) (h : Held σ) (op : Operation) (l : Leg) :
    (h.step x op).books.endings l =
      h.books.endings l + (h.session.scheduled && op.terminates h.session).toNat := by
  rw [books_step]
  cases op with
  | copy =>
    rw [Books.step]
    split <;> simp [Books.endings, Operation.terminates]
  | drop =>
    rw [Books.step]
    split <;> simp [Books.endings, Books.giveBack, Operation.terminates]
  | update u admitted =>
    rw [Books.step, Books.enlist]
    split
    · cases admitted <;> simp [Books.endings, Books.giveBack, Operation.terminates]
    · simp [Operation.terminates]
  | stop known =>
    rw [Books.step, Books.stop, Operation.terminates]
    have hregistered : h.books.registered = h.session.registered := rfl
    rw [hregistered]
    split
    · next hends =>
      rw [Books.endings_terminate, hends, Bool.and_true]
      rfl
    · next hends =>
      have hkept : (h.session.registered && !known) = false := by simpa using hends
      rw [hkept, Bool.and_false]
      rfl
  | failed reason =>
    have hkept : (Operation.failed reason).terminates h.session = false := rfl
    rw [Books.step, Books.endings_post, hkept, Bool.and_false]
    rfl
  | terminated =>
    rw [Books.step, Books.endings_terminate, Operation.terminates, Bool.and_true]
    rfl
  | _ => simp [Books.step, Books.endings, Operation.terminates]

/-- Once the hook that terminates a session was called, the scheduler has the session no more. -/
theorem scheduled_of_terminates (x : Surroundings σ) {h : Held σ} {op : Operation}
    (ht : op.terminates h.session = true) : (h.step x op).session.scheduled = false := by
  have hbooks : (h.step x op).session.scheduled = _ := congrArg Books.scheduled (books_step x h op)
  rw [hbooks]
  cases op with
  | stop known =>
    have hends : (h.books.registered && !known) = true := ht
    rw [Books.step, Books.stop, if_pos hends]
    exact Books.scheduled_terminate _
  | terminated => exact Books.scheduled_terminate h.books
  | _ => cases ht

/-! ## Giving references back -/

/-- A reference is given back only where there is one, and when it is the last the scheduler has the
session no more. -/
theorem givesBack_spec {x : Surroundings σ} {h : Held σ} (hb : h.books.Balanced) {op : Operation}
    {s : Session σ} (hs : h.givesBack x op = some s) :
    0 < s.references ∧ (s.references = 1 → s.scheduled = false) ∧
      s.finalized = h.session.finalized ∧ (h.step x op).session = s.giveBack := by
  have hcount : h.session.references = h.handles + h.session.scheduled.toNat := hb.references
  have hsurrendered : ∀ t : Session σ, t.surrendered.references = t.references ∧
      t.surrendered.scheduled = false ∧ t.surrendered.finalized = t.finalized := by
    intro t
    have hbooks := books_surrendered 0 t
    exact ⟨congrArg Books.references hbooks, congrArg Books.scheduled hbooks,
      congrArg Books.finalized hbooks⟩
  cases op with
  | drop =>
    rw [givesBack] at hs
    split at hs
    · cases hs
    · next hn =>
      cases hs
      refine ⟨by omega, fun hlast => ?_, rfl, congrArg Held.session (if_neg hn)⟩
      -- the last reference is that of the handle
      cases hscheduled : h.session.scheduled with
      | false => rfl
      | true =>
        rw [hscheduled, hlast] at hcount
        simp only [Bool.toNat_true] at hcount
        omega
  | update u admitted =>
    have hbooks := books_described 0 x h.session u
    simp only [givesBack, Option.ite_none_right_eq_some, Bool.and_eq_true, Bool.not_eq_true',
      Option.some.injEq] at hs
    obtain ⟨⟨⟨hrunning, hready⟩, hrefused⟩, rfl⟩ := hs
    refine ⟨Nat.succ_pos _, fun _ => rfl, congrArg Books.finalized hbooks, ?_⟩
    rw [step, updated_eq, hrunning, hrefused]
    exact if_pos hready
  | stop known =>
    have hbooks := books_halted 0 h.session
    simp only [givesBack, Option.ite_none_right_eq_some, Bool.and_eq_true, Option.some.injEq] at hs
    obtain ⟨⟨⟨hscheduled, hregistered⟩, hunknown⟩, rfl⟩ := hs
    obtain ⟨hreferences, hcleared, hfinalized⟩ := hsurrendered h.session.halted
    have hhalted : h.session.halted.scheduled = true :=
      (congrArg Books.scheduled hbooks).trans hscheduled
    refine ⟨?_, fun _ => hcleared, hfinalized.trans (congrArg Books.finalized hbooks), ?_⟩
    · rw [hreferences, show h.session.halted.references = h.session.references from
        congrArg Books.references hbooks, hcount, hscheduled]
      exact Nat.succ_pos _
    · have hstop : (h.step x (.stop known)).session = h.session.halted.terminated := by
        refine if_pos ?_
        rw [hregistered, hunknown]
        rfl
      rw [hstop, terminated_eq, if_pos hhalted]
  | terminated =>
    simp only [givesBack, Option.ite_none_right_eq_some, Option.some.injEq] at hs
    obtain ⟨hscheduled, rfl⟩ := hs
    obtain ⟨hreferences, hcleared, hfinalized⟩ := hsurrendered h.session
    refine ⟨?_, fun _ => hcleared, hfinalized, ?_⟩
    · rw [hreferences, hcount, hscheduled]
      exact Nat.succ_pos _
    · rw [step, terminated_eq, if_pos hscheduled]
  | _ => cases hs

/-- Where no reference is given back, none is lost, and nothing is torn down. -/
theorem givesBack_none {x : Surroundings σ} {h : Held σ} {op : Operation}
    (hs : h.givesBack x op = none) :
    h.books.references ≤ (h.step x op).books.references ∧
      (h.step x op).books.finalized = h.books.finalized ∧
      (h.step x op).books.teardowns = h.books.teardowns := by
  rw [books_step]
  cases op with
  | copy =>
    rw [Books.step]
    split
    · exact ⟨Nat.le_refl _, rfl, rfl⟩
    · exact ⟨Nat.le_succ _, rfl, rfl⟩
  | drop =>
    have hnone : h.books.handles = 0 := by
      rw [givesBack] at hs
      split at hs
      · assumption
      · cases hs
    rw [Books.step, if_pos hnone]
    exact ⟨Nat.le_refl _, rfl, rfl⟩
  | update u admitted =>
    rw [Books.step, Books.enlist]
    split
    · next hready =>
      have hrunning : h.session.stopped = false := (ready_eq_true hready).2
      have hready' : (h.session.described x u).isReady = true := hready
      cases admitted with
      | true => exact ⟨Nat.le_succ _, rfl, rfl⟩
      | false => simp [givesBack, hrunning, hready'] at hs
    · exact ⟨Nat.le_refl _, rfl, rfl⟩
  | stop known =>
    rw [Books.step, Books.stop]
    split
    · next hends =>
      have hnone : h.books.scheduled = false := by
        cases hscheduled : h.books.scheduled with
        | false => rfl
        | true =>
          have hscheduled' : h.session.scheduled = true := hscheduled
          have hends' : (h.session.registered && !known) = true := hends
          simp [givesBack, hscheduled', hends'] at hs
      simp [Books.terminate, hnone]
    · exact ⟨Nat.le_refl _, rfl, rfl⟩
  | terminated =>
    have hnone : h.books.scheduled = false := by
      cases hscheduled : h.books.scheduled with
      | false => rfl
      | true =>
        have hscheduled' : h.session.scheduled = true := hscheduled
        simp [givesBack, hscheduled'] at hs
    simp [Books.step, Books.terminate, hnone]
  | take => exact ⟨Nat.le_succ _, rfl, rfl⟩
  | _ => exact ⟨Nat.le_refl _, rfl, rfl⟩

/-! ## Runs -/

omit [MediaStream σ] in
theorem balanced_fresh (id : SessionId) (callgroup : String) (detects : PerLeg Bool)
    (receiver : Receiver) : (fresh id callgroup detects receiver : Held σ).books.Balanced :=
  ⟨rfl, nofun, rfl⟩

theorem balanced_run (x : Surroundings σ) {h : Held σ} (hb : h.books.Balanced)
    (ops : List Operation) : (h.run x ops).books.Balanced := by
  induction ops generalizing h with
  | nil => exact hb
  | cons op ops ih =>
    refine ih ?_
    rw [books_step]
    exact hb.step ready_eq_true op

theorem endings_run (x : Surroundings σ) (h : Held σ) (ops : List Operation) (l : Leg) :
    (h.run x ops).books.endings l = h.books.endings l + h.surrenders x ops := by
  induction ops generalizing h with
  | nil => rfl
  | cons op ops ih =>
    have hrest : (h.run x (op :: ops)).books.endings l = _ := ih (h.step x op)
    rw [hrest, endings_step, surrenders, Nat.add_assoc]

/-- **Main theorem**: whatever is done to a session, in any order and any number of times.

The count is that of the handles that live, and one more while the scheduler has the session. When a
reference is given back there is one; it is the last one exactly if the count goes from one to
nothing, and the scheduler has the session no more when the session is torn down for it. Nothing
else lowers the count or tears down. The hook that terminates the session leaves the scheduler
without it, and each leg is told that media is no longer processed as often as the scheduler's
reference is given back by that hook. However often the last reference is given back, the session is
torn down once, and never where none was the last. -/
theorem references_run (x : Surroundings σ) (id : SessionId) (callgroup : String)
    (detects : PerLeg Bool) (receiver : Receiver) (ops : List Operation) :
    let start : Held σ := fresh id callgroup detects receiver
    let h := start.run x ops
    h.session.references = h.handles + h.session.scheduled.toNat ∧
      (∀ op, match h.givesBack x op with
        | some s => s.references ≠ 0 ∧
            (s.releaseReference.2 = true ↔
              s.references = 1 ∧ s.releaseReference.1.references = 0) ∧
            (s.releaseReference.2 = true →
              s.releaseReference.1.references = 0 ∧ s.releaseReference.1.scheduled = false) ∧
            (h.step x op).session = s.giveBack
        | none => h.session.references ≤ (h.step x op).session.references ∧
            (h.step x op).session.finalized = h.session.finalized ∧
            (h.step x op).session.teardowns = h.session.teardowns) ∧
      (∀ op, op.terminates h.session = true → (h.step x op).session.scheduled = false) ∧
      (∀ l, (h.session.posted.get l).count .terminated = start.surrenders x ops) ∧
      h.session.teardowns = h.session.finalized.toNat := by
  intro start h
  have hb : h.books.Balanced := balanced_run x (balanced_fresh id callgroup detects receiver) ops
  refine ⟨hb.references, fun op => ?_, fun op => scheduled_of_terminates x, fun l => ?_,
    hb.ended⟩
  · cases hs : h.givesBack x op with
    | none => exact givesBack_none hs
    | some s =>
      obtain ⟨hpos, hlast, -, hstep⟩ := givesBack_spec hb hs
      refine ⟨by omega, ?_, fun hr => ?_, hstep⟩
      · simp only [Session.releaseReference, decide_eq_true_eq]
        omega
      · have hone : s.references = 1 := of_decide_eq_true hr
        exact ⟨by simp only [Session.releaseReference]; omega, hlast hone⟩
  · have hendings := endings_run x start ops l
    have hnone : start.books.endings l = 0 := by cases l <;> rfl
    rw [hnone, Nat.zero_add] at hendings
    exact hendings

/-- A session that fails is ended by its worker and stopped by its owner. It gives the scheduler's
reference back once, and is torn down when its owner lets go of it. -/
example :
    let start : Held Rehearsal.ScriptedStream := fresh ⟨"s"⟩ "g" ⟨false, true⟩ (Receiver.idle [])
    let ops := .take :: sampleUpdates.map (.update · true) ++
      [.failed "lost", .terminated, .stop false, .terminated, .drop]
    (start.surrenders sampleSurroundings ops, (start.run sampleSurroundings ops).session.teardowns,
      (start.run sampleSurroundings ops).session.references) = (1, 1, 0) := by decide

end Held

end CallBridge.Bridge
