import CallBridge.Proofs.Bridge.References
import CallBridge.Proofs.Scheduler.Settlement

/-!
# Calls after the scheduler was shut down

What the scheduler does with a session, as the session sees it: it is taken when an update hands it
over, and ended when a worker calls its last hook. Only what is taken and not ended keeps the
scheduler's reference.

Results:
* `scheduled_run`: a session that the scheduler refers to was taken last.
* `settled_iff_nothing_discarded`: when all workers have ended, every session that was taken was
  ended and nothing is left in the books if and only if no worker discarded an insertion; then the
  scheduler refers to no session. A shutdown at rest is such an end.
-/

namespace CallBridge.Bridge

open Rtp (MediaStream Receiver)
open Scheduler (Action Client Closing Dealing Pool insertions stands)

variable {σ : Type} [MediaStream σ]

namespace Held

/-- What the scheduler does with a session in an operation. -/
def dealing (x : Surroundings σ) (h : Held σ) : Operation → List Dealing
  | .update u admitted => if h.ready x (.update u admitted) && admitted then [.taken] else []
  | .terminated => [.ended]
  | _ => []

/-- What the scheduler does with a session in a run of operations. -/
def dealings (x : Surroundings σ) (h : Held σ) : List Operation → List Dealing
  | [] => []
  | op :: ops => h.dealing x op ++ dealings x (h.step x op) ops

theorem stands_mono {before before' : Bool} (h : before = true → before' = true)
    {ds : List Dealing} (hstands : stands before ds = true) : stands before' ds = true := by
  cases ds with
  | nil => exact h hstands
  | cons d ds => exact hstands

/-- The scheduler refers to a session after an operation only if it did before, or takes it. -/
theorem scheduled_step (x : Surroundings σ) (h : Held σ) (op : Operation)
    (hs : (h.step x op).session.scheduled = true) :
    stands h.session.scheduled (h.dealing x op) = true := by
  have hbooks : (h.step x op).session.scheduled = _ := congrArg Books.scheduled (books_step x h op)
  rw [hbooks] at hs
  cases op with
  | copy | drop =>
    rw [Books.step] at hs
    split at hs <;> exact hs
  | update u admitted =>
    rw [Books.step, Books.enlist] at hs
    rw [dealing]
    split at hs
    · next hready =>
      cases admitted with
      | true =>
        rw [hready]
        rfl
      | false => cases hs
    · next hready =>
      have hidle : h.ready x (.update u admitted) = false := by simpa using hready
      rw [hidle]
      exact hs
  | stop known =>
    rw [Books.step, Books.stop] at hs
    split at hs
    · rw [Books.scheduled_terminate] at hs
      cases hs
    · exact hs
  | terminated =>
    rw [Books.step, Books.scheduled_terminate] at hs
    cases hs
  | _ => exact hs

/-- A session that the scheduler refers to was taken last. -/
theorem scheduled_run (x : Surroundings σ) (h : Held σ) (ops : List Operation)
    (hs : (h.run x ops).session.scheduled = true) :
    stands h.session.scheduled (h.dealings x ops) = true := by
  induction ops generalizing h with
  | nil => exact hs
  | cons op ops ih =>
    have hrest := stands_mono (scheduled_step x h op) (ih (h.step x op) hs)
    rw [dealings, stands, List.foldl_append]
    exact hrest

end Held

/-- **Main theorem**: when the scheduler was shut down and its workers have ended, whatever clients
and workers did before and in whatever order. Every session that was taken was ended once, and
nothing is left in the books, if and only if no worker discarded an insertion. In that case the
scheduler refers to no session, whatever else was done to the session.

Calls of a scheduler whose sessions are orderly, and its shutdown after them, are such a run. There
the books are settled if and only if no insertion was waiting when the shutdown came. -/
theorem settled_iff_nothing_discarded (x : Surroundings σ) (threads : Nat) (quantum : UInt64)
    {as : List Action} (honce : (Closing.arrivals as).Nodup)
    (hended : ((Closing.start threads quantum).run as).Ended) :
    let s := (Closing.start threads quantum).run as
    (s.Settled ↔ s.discarded = []) ∧
      (s.discarded = [] → ∀ (id : SessionId) (callgroup : String) (detects : PerLeg Bool)
        (receiver : Receiver) (ops : List Operation),
        let h : Held σ := Held.fresh id callgroup detects receiver
        h.dealings x ops = Scheduler.dealings id s.log →
          (h.run x ops).session.scheduled = false) ∧
      ∀ {ω : Type} (c : Client ω) (world : ω) (calls : List Scheduler.Call), c.Orderly →
        (∀ call ∈ calls, call.isForGood = true) →
        (calls.filterMap Scheduler.Call.added).Nodup →
        let before := calls.foldl (Pool.answer c.noting) (Pool.start threads quantum, (world, []))
        ∃ as', Closing.arrivals as' = calls.filterMap Scheduler.Call.added ∧
          let s' := (Closing.start threads quantum).run as'
          s'.IsShutdownOf c threads quantum world calls ∧
            (s'.Settled ↔ ∀ w ∈ before.1.workers, insertions w.queue = []) := by
  have haccounted := Closing.accounted_run threads quantum honce
  refine ⟨haccounted.settled_iff hended, fun hnone id callgroup detects receiver ops hops => ?_,
    fun c world calls hc hcalls hdistinct => ?_⟩
  · let h : Held σ := Held.fresh id callgroup detects receiver
    cases hs : (h.run x ops).session.scheduled with
    | false => rfl
    | true =>
      have hstands := Held.scheduled_run x _ ops hs
      rw [hops] at hstands
      exact hstands.symm.trans (haccounted.not_standing hended hnone id)
  · obtain ⟨as', harrivals, hshutdown⟩ :=
      Closing.exists_isShutdownOf hc threads quantum world hcalls
    have haccounted' := Closing.accounted_run threads quantum (harrivals ▸ hdistinct)
    exact ⟨as', harrivals, hshutdown,
      (haccounted'.settled_iff hshutdown.ended).trans hshutdown.discarded⟩

/-- A session is taken up and goes on until the end, and another one is removed just before it. -/
def quietEnd : List Action :=
  [.arrive ⟨"s"⟩ "g", .enter 0, .arrive ⟨"r"⟩ "g", .enter 0, .apply 0, .apply 0, .begin 0,
    .finish 0, .release ⟨"r"⟩ false, .send 0, .stop, .close 0, .dismiss 0, .dismiss 0]

/-- The run ends settled, and so does a scheduler whose sessions fail before it is shut down. -/
theorem settled_iff_nothing_discarded_quietEnd :
    (Closing.arrivals quietEnd).Nodup ∧ ((Closing.start 1 32).run quietEnd).Ended ∧
      ((Closing.start 1 32).run quietEnd).Settled ∧
      ∃ as, Closing.arrivals as = [⟨"deaf"⟩, ⟨"well"⟩] ∧
        ((Closing.start 1 32).run as).Settled := by
  have honce : (Closing.arrivals quietEnd).Nodup := by decide
  have hended : ((Closing.start 1 32).run quietEnd).Ended :=
    ⟨by decide, by decide, by decide⟩
  obtain ⟨hsettled, -, hcalls⟩ :=
    settled_iff_nothing_discarded sampleSurroundings 1 32 honce hended
  obtain ⟨as, harrivals, -, hatRest⟩ := hcalls Scheduler.troubled ()
    [.add ⟨"deaf"⟩ "g", .add ⟨"well"⟩ "g", .apply, .work] Scheduler.troubled_orderly (by decide)
    (by decide)
  exact ⟨honce, hended, hsettled.2 (by decide), as, harrivals, hatRest.2 (by decide)⟩

/-- A session is taken, and the only worker ends before it takes it up. The session is never ended,
stays known and keeps its callgroup in use; and when it is stopped after that, the scheduler still
refers to it. -/
theorem not_settled_of_waiting :
    let s := (Closing.start 1 32).run [.arrive ⟨"s"⟩ "g", .enter 0, .stop, .close 0]
    let h : Held Rehearsal.ScriptedStream :=
      Held.fresh ⟨"s"⟩ "g" ⟨false, true⟩ (Receiver.idle [])
    let ops := .take :: sampleUpdates.map (.update · true) ++ [.stop (s.pool.contains ⟨"s"⟩)]
    s.Ended ∧ ¬ s.Settled ∧ s.pool.groups.loads = [1] ∧
      h.dealings sampleSurroundings ops = Scheduler.dealings ⟨"s"⟩ s.log ∧
      (h.run sampleSurroundings ops).session.scheduled = true := by
  refine ⟨⟨by decide, by decide, by decide⟩, fun hs => ?_, by decide, by decide, by decide⟩
  exact absurd (hs.ended ⟨"s"⟩ (by decide)) (by decide)

end CallBridge.Bridge
