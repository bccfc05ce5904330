import CallBridge.Proofs.Scheduler.FailureIsolation

/-!
# Shutting down in any order

The scheduler between two steps of the threads around it, from its start until the last of its
workers has ended. A client that adds a session looks first whether the scheduler runs, and only
then locks the callgroups and sends the request, so the scheduler may be shut down in between. A
worker looks whether it is to end only between two ticks. It then closes its queue, discarding the
requests that wait, and ends the sessions that it drives one after the other. What is sent to a
closed queue is lost; a client that was adding a session takes it back then and is refused.

Sessions are detached for good here. Of the hooks that are called only the last one of a session is
recorded.

Results:
* `step_eq_of_open`, `run_add`: while the scheduler runs, its steps are those of a moment.
* `run_shutdown`: a scheduler that is shut down at rest ends as its turns say.
* `exists_isShutdownOf`: calls of a scheduler and its shutdown after them are a run until the end.
-/

namespace CallBridge.Scheduler

/-- What becomes of a session: it is taken, and ended for good. -/
inductive Dealing where
  | taken
  | ended
deriving DecidableEq, Repr, Inhabited

/-- A moment with the clients that found the scheduler running and are about to add a session, the
workers that have closed their queue, what became of sessions, and the sessions whose insertion was
discarded. -/
structure Closing extends Moment where
  arriving : List (SessionId × String)
  closed : List Nat
  log : List (SessionId × Dealing)
  discarded : List SessionId
deriving DecidableEq, Repr, Inhabited

/-- A step of a client or a worker. -/
inductive Action where
  /-- A client that adds a session looks whether the scheduler runs. -/
  | arrive (id : SessionId) (group : String)
  /-- One of those clients locks the callgroups and sends the request. -/
  | enter (index : Nat)
  /-- A client removes a session or clears it, first step. -/
  | release (id : SessionId) (clear : Bool)
  | send (index : Nat)
  | apply (worker : Nat)
  | begin (worker : Nat)
  | force (worker : Nat) (id : SessionId)
  | finish (worker : Nat)
  /-- The scheduler is shut down. -/
  | stop
  /-- A worker that is to end closes its queue. -/
  | close (worker : Nat)
  /-- A worker that has closed its queue ends the first of the sessions that are left. -/
  | dismiss (worker : Nat)
deriving DecidableEq, Repr, Inhabited

/-- How a session is detached for good. -/
def parting (clear : Bool) : Detachment := if clear then .clear else .remove

/-- The sessions of the insertions among some requests. -/
def insertions (requests : List Request) : List SessionId :=
  requests.filterMap fun
    | .insert id => some id
    | .detach _ _ => none

namespace Worker

/-- The session that is ended when the worker applies the first request that waits, if there is
one. -/
def ends (w : Worker) : List SessionId :=
  match w.queue with
  | .detach id how :: _ => if w.sessions.contains id && how ≠ .softRemove then [id] else []
  | _ => []

/-- The worker at its end: it reports that it drives nothing as soon as no session is left. -/
def emptied (w : Worker) : Worker := if w.sessions = [] then { w with reported := 0 } else w

/-- The worker with an empty queue. -/
def shut (w : Worker) : Worker := { w with queue := [] }.emptied

/-- The worker without the first of its sessions. -/
def dismissed (w : Worker) : Worker := { w with sessions := w.sessions.tail }.emptied

theorem sessions_emptied (w : Worker) : w.emptied.sessions = w.sessions := by
  rw [emptied]
  split <;> rfl

theorem queue_emptied (w : Worker) : w.emptied.queue = w.queue := by
  rw [emptied]
  split <;> rfl

theorem sessions_shut (w : Worker) : w.shut.sessions = w.sessions := sessions_emptied _

theorem queue_shut (w : Worker) : w.shut.queue = [] := queue_emptied _

end Worker

namespace Closing

/-- The scheduler with its workers just started. -/
def start (threads : Nat) (quantum : UInt64) : Closing :=
  ⟨Moment.start threads quantum, [], [], [], []⟩

/-- The scheduler with another pool, and with sessions ended. -/
def withPool (s : Closing) (pool : Pool) (ended : List SessionId) : Closing :=
  { s with pool, log := s.log ++ ended.map fun id => (id, .ended) }

/-- The scheduler after an action. What is not possible changes nothing. -/
def step (s : Closing) : Action → Closing
  | .arrive id group =>
    if s.pool.running then { s with arriving := s.arriving ++ [(id, group)] } else s
  | .enter index =>
    match s.arriving[index]? with
    | none => s
    | some (id, group) =>
      let (groups, worker) := s.pool.groups.assign id group
      if s.closed.contains worker then
        { s with
          pool := { s.pool with groups := (groups.release id).1 }
          arriving := s.arriving.eraseIdx index }
      else
        { s with
          pool := { s.pool.modifyWorker worker (·.enqueue (.insert id)) with groups }
          arriving := s.arriving.eraseIdx index
          log := s.log ++ [(id, .taken)] }
  | .release id clear => { s with toMoment := s.toMoment.step (.release id (parting clear)) }
  | .send index =>
    match s.leaving[index]? with
    | none => s
    | some d =>
      { s with
        pool := if s.closed.contains d.worker then s.pool
          else s.pool.modifyWorker d.worker (·.enqueue (.detach d.id d.how))
        leaving := s.leaving.eraseIdx index }
  | .apply worker =>
    if s.ticking.contains worker || s.closed.contains worker then s
    else s.withPool (s.pool.modifyWorker worker Worker.applyNext)
      ((s.pool.workers[worker]?.map Worker.ends).getD [])
  | .begin worker =>
    if s.closed.contains worker then s else { s with toMoment := s.toMoment.step (.begin worker) }
  | .force worker id =>
    if s.ticking.contains worker && (s.pool.sessions worker).contains id then
      s.withPool { s.pool.modifyWorker worker (·.drop id) with
        groups := (s.pool.groups.release id).1 } [id]
    else s
  | .finish worker => { s with toMoment := s.toMoment.step (.finish worker) }
  | .stop => { s with pool := { s.pool with running := false } }
  | .close worker =>
    if s.pool.running || s.ticking.contains worker || s.closed.contains worker then s
    else
      { s with
        pool := s.pool.modifyWorker worker Worker.shut
        closed := worker :: s.closed
        discarded := s.discarded ++ insertions (s.pool.queue worker) }
  | .dismiss worker =>
    match s.closed.contains worker, s.pool.sessions worker with
    | true, id :: _ =>
      s.withPool { s.pool.modifyWorker worker Worker.dismissed with
        groups := (s.pool.groups.release id).1 } [id]
    | _, _ => s

/-- The scheduler after a run of actions. -/
def run (s : Closing) (as : List Action) : Closing := as.foldl step s

theorem run_append (s : Closing) (xs ys : List Action) : s.run (xs ++ ys) = (s.run xs).run ys :=
  List.foldl_append

theorem run_cons (s : Closing) (a : Action) (as : List Action) :
    s.run (a :: as) = (s.step a).run as := rfl

/-- The sessions that some actions bring, as often as they do. -/
def arrivals (as : List Action) : List SessionId :=
  as.filterMap fun
    | .arrive id _ => some id
    | _ => none

theorem arrivals_append (xs ys : List Action) :
    arrivals (xs ++ ys) = arrivals xs ++ arrivals ys := List.filterMap_append

/-! ## A scheduler that runs -/

/-- The event that an action is for a scheduler that runs, if it is one. -/
def eventOf : Action → Option Event
  | .release id clear => some (.release id (parting clear))
  | .send index => some (.send index)
  | .apply worker => some (.apply worker)
  | .begin worker => some (.begin worker)
  | .force worker id => some (.force worker id)
  | .finish worker => some (.finish worker)
  | .arrive _ _ | .enter _ | .stop | .close _ | .dismiss _ => none

/-- The scheduler runs, no client is about to add a session, no worker has closed its queue, and
nothing was discarded. -/
structure Open (s : Closing) : Prop where
  running : s.pool.running = true
  arriving : s.arriving = []
  closed : s.closed = []
  discarded : s.discarded = []

/-- While the scheduler runs its steps are those of a moment. -/
theorem step_eq_of_open {s : Closing} (h : s.Open) {a : Action} {e : Event}
    (ha : eventOf a = some e) : (s.step a).toMoment = s.toMoment.step e := by
  cases a with
  | release | finish =>
    cases ha
    rfl
  | begin worker =>
    cases ha
    rw [step, h.closed]
    rfl
  | send index =>
    cases ha
    rw [step, Moment.step, h.closed]
    cases s.leaving[index]? with
    | none => rfl
    | some d =>
      simp only [Pool.send_eq h.running]
      rfl
  | apply worker =>
    cases ha
    rw [step, Moment.step, h.closed]
    simp only [List.contains_nil, Bool.or_false]
    split <;> rfl
  | force worker id =>
    cases ha
    rw [step, Moment.step]
    split <;> rfl
  | arrive | enter | stop | close | dismiss => cases ha

theorem Open.step {s : Closing} (h : s.Open) {a : Action} {e : Event} (ha : eventOf a = some e) :
    (s.step a).Open := by
  cases a with
  | release id clear =>
    rw [Closing.step, Moment.step]
    split <;> exact ⟨h.running, h.arriving, h.closed, h.discarded⟩
  | send index =>
    rw [Closing.step]
    split
    · exact h
    · refine ⟨?_, h.arriving, h.closed, h.discarded⟩
      dsimp only
      split <;> exact h.running
  | apply worker =>
    rw [Closing.step]
    split
    · exact h
    · exact ⟨h.running, h.arriving, h.closed, h.discarded⟩
  | begin worker =>
    rw [Closing.step, Moment.step]
    split
    · exact h
    · split <;> exact ⟨h.running, h.arriving, h.closed, h.discarded⟩
  | force worker id =>
    rw [Closing.step]
    split
    · exact ⟨h.running, h.arriving, h.closed, h.discarded⟩
    · exact h
  | finish worker =>
    rw [Closing.step, Moment.step]
    split <;> exact ⟨h.running, h.arriving, h.closed, h.discarded⟩
  | arrive | enter | stop | close | dismiss => cases ha

/-- Events of a scheduler that runs are actions. -/
theorem exists_run_events {s : Closing} (h : s.Open) {es : List Event}
    (hes : ∀ e ∈ es, ∃ a, eventOf a = some e) : ∃ as, arrivals as = [] ∧ (s.run as).Open ∧
      (s.run as).toMoment = s.toMoment.run es := by
  induction es generalizing s with
  | nil => exact ⟨[], rfl, h, rfl⟩
  | cons e es ih =>
    obtain ⟨⟨a, ha⟩, hmore⟩ := List.forall_mem_cons.1 hes
    obtain ⟨as, harrivals, hopen, hrun⟩ := ih (h.step ha) hmore
    refine ⟨a :: as, ?_, hopen, ?_⟩
    · cases a with
      | arrive => cases ha
      | _ => exact harrivals
    · rw [Moment.run_cons, ← step_eq_of_open h ha]
      exact hrun

/-- A session that is added while nobody else adds one is added in one step. -/
theorem run_add {s : Closing} (h : s.Open) (id : SessionId) (group : String) :
    (s.run [.arrive id group, .enter 0]).Open ∧
      (s.run [.arrive id group, .enter 0]).toMoment = s.toMoment.step (.add id group) := by
  have hrun : s.run [.arrive id group, .enter 0] =
      { s with
        pool := { s.pool.modifyWorker (s.pool.groups.assign id group).2
            (·.enqueue (.insert id)) with groups := (s.pool.groups.assign id group).1 }
        arriving := []
        log := s.log ++ [(id, .taken)] } := by
    rw [run_cons, run_cons, step, if_pos h.running, h.arriving, List.nil_append, step]
    simp only [List.getElem?_cons_zero, h.closed, List.contains_nil, Bool.false_eq_true, if_false]
    rfl
  rw [hrun]
  refine ⟨⟨h.running, rfl, h.closed, h.discarded⟩, ?_⟩
  rw [Moment.step, Pool.add_eq h.running]
  rfl

end Closing

/-! ## Calls while the scheduler runs -/

/-- Whether a call detaches no session for the time being only. -/
def Call.isForGood : Call → Bool
  | .detach _ how => how ≠ .softRemove
  | .add _ _ | .apply | .work => true

/-- The session that a call adds. -/
def Call.added : Call → Option SessionId
  | .add id _ => some id
  | .detach _ _ | .apply | .work => none

namespace Closing

variable {ω : Type} {c : Client ω}

/-- What happens in the turns of orderly sessions is actions of workers. -/
theorem exists_eventOf (hc : c.Orderly) {e : Event} (he : c.Makes e) : ∃ a, eventOf a = some e := by
  cases e with
  | add => exact he.elim
  | release id how =>
    obtain ⟨world, index, caller, hook, hask⟩ := he
    rw [hc.asks] at hask
    cases hask
  | send index => exact ⟨.send index, rfl⟩
  | apply worker => exact ⟨.apply worker, rfl⟩
  | begin worker => exact ⟨.begin worker, rfl⟩
  | force worker id => exact ⟨.force worker id, rfl⟩
  | finish worker => exact ⟨.finish worker, rfl⟩

theorem exists_run_answer (hc : c.Orderly) {s : Closing} (h : s.Open) {w : Pool × ω}
    (hw : s.toMoment = ⟨w.1, [], []⟩) {call : Call} (hcall : call.isForGood = true) :
    ∃ as, arrivals as = call.added.toList ∧ (s.run as).Open ∧
      (s.run as).toMoment = ⟨(Pool.answer c w call).1, [], []⟩ := by
  have hturns {q : Pool} (hreaches : w.1.Reaches c q) :
      ∃ as, arrivals as = [] ∧ (s.run as).Open ∧ (s.run as).toMoment = ⟨q, [], []⟩ := by
    obtain ⟨es, hmade, hes⟩ := hreaches
    rw [← hes, ← hw]
    exact exists_run_events h fun e he => exists_eventOf hc (hmade e he)
  cases call with
  | add id group =>
    obtain ⟨hopen, hrun⟩ := run_add h id group
    refine ⟨_, rfl, hopen, ?_⟩
    rw [hrun, hw]
    rfl
  | detach id how =>
    have hhow : ∃ clear, parting clear = how := by
      cases how with
      | remove => exact ⟨false, rfl⟩
      | softRemove => cases hcall
      | clear => exact ⟨true, rfl⟩
    obtain ⟨clear, rfl⟩ := hhow
    have hdetach := Moment.run_detach (m := ⟨w.1, [], []⟩) rfl id (parting clear)
    have hevents : ∀ e ∈ [Event.release id (parting clear), .send 0], ∃ a, eventOf a = some e := by
      rw [List.forall_mem_cons, List.forall_mem_singleton]
      exact ⟨⟨.release id clear, rfl⟩, .send 0, rfl⟩
    obtain ⟨as, harrivals, hopen, hrun⟩ := exists_run_events h hevents
    refine ⟨as, harrivals, hopen, ?_⟩
    rw [hrun, hw, hdetach]
    rfl
  | apply => exact hturns (reaches_applyQueues c w)
  | work => exact hturns (reaches_work c w)

/-- Whatever a scheduler is asked to do before it is shut down is a run of actions. -/
theorem exists_run_calls (hc : c.Orderly) (threads : Nat) (quantum : UInt64) (world : ω)
    {calls : List Call} (hcalls : ∀ call ∈ calls, call.isForGood = true) :
    ∃ as, arrivals as = calls.filterMap Call.added ∧ ((start threads quantum).run as).Open ∧
      ((start threads quantum).run as).toMoment =
        ⟨(calls.foldl (Pool.answer c) (Pool.start threads quantum, world)).1, [], []⟩ := by
  have hall : ∀ (s : Closing) (w : Pool × ω), s.Open → s.toMoment = ⟨w.1, [], []⟩ →
      ∃ as, arrivals as = calls.filterMap Call.added ∧ (s.run as).Open ∧
        (s.run as).toMoment = ⟨(calls.foldl (Pool.answer c) w).1, [], []⟩ := by
    induction calls with
    | nil => exact fun s w h hw => ⟨[], rfl, h, hw⟩
    | cons call calls ih =>
      intro s w h hw
      obtain ⟨hcall, hmore⟩ := List.forall_mem_cons.1 hcalls
      obtain ⟨as, harrivals, hopen, hrun⟩ := exists_run_answer hc h hw hcall
      obtain ⟨as', harrivals', hopen', hrun'⟩ := ih hmore _ (Pool.answer c w call) hopen hrun
      refine ⟨as ++ as', ?_, ?_⟩
      · rw [arrivals_append, harrivals, harrivals']
        cases call <;> rfl
      · rw [run_append]
        exact ⟨hopen', hrun'⟩
  exact hall _ (_, world) ⟨rfl, rfl, rfl, rfl⟩ rfl

/-! ## A scheduler that is shut down -/

/-- The scheduler was shut down, and all its workers have ended. -/
structure Ended (s : Closing) : Prop where
  stopped : s.pool.running = false
  closed : ∀ i < s.pool.workers.length, i ∈ s.closed
  sessions : ∀ w ∈ s.pool.workers, w.sessions = []

/-- The note of the last hook of a session that is well. -/
def lastNote (id : SessionId) : Note := ⟨id, .terminated, .done⟩

/-- A worker that ends discards what waits, and ends one session after the other. -/
theorem finish_noting (hc : c.Orderly) (t : Turn (ω × List Note)) :
    ∃ world : ω, t.finish c.noting =
      Turn.noted { t with
        groups := t.groups.releases t.worker.sessions
        worker := { t.worker with queue := [], sessions := [], reported := 0 } }
      world (t.worker.sessions.map lastNote) := by
  have hall : ∀ (ids : List SessionId) (t : Turn (ω × List Note)), ∃ world : ω,
      ids.foldl (fun t id => (Turn.runHooks c.noting id [.terminated]
        { t with groups := (t.groups.release id).1 }).1) t =
        Turn.noted { t with groups := t.groups.releases ids } world (ids.map lastNote) := by
    intro ids
    induction ids with
    | nil => exact fun t => ⟨t.world.1, (noted_nil t).symm⟩
    | cons id ids ih =>
      intro t
      have hhooks : ∀ hook ∈ [Hook.terminated], hook.isParting = true := by simp [Hook.isParting]
      obtain ⟨world, hrun⟩ := runHooks_parting hc id hhooks
        { t with groups := (t.groups.release id).1 }
      obtain ⟨world', hrest⟩ := ih (Turn.noted { t with groups := (t.groups.release id).1 } world
        [lastNote id])
      refine ⟨world', ?_⟩
      have hboth := noted_noted { t with groups := t.groups.releases (id :: ids) } world world'
        [lastNote id] (ids.map lastNote)
      rw [List.foldl_cons, hrun]
      exact hrest.trans hboth
  obtain ⟨world, hfold⟩ :=
    hall t.worker.sessions { t with worker := { t.worker with queue := [], sessions := [] } }
  exact ⟨world, congrArg (·.report 0) hfold⟩

theorem modifyWorker_eq_set {p : Pool} {i : Nat} {w : Worker} (hw : p.workers[i]? = some w)
    (f : Worker → Worker) : p.modifyWorker i f = { p with workers := p.workers.set i (f w) } := by
  rw [Pool.modifyWorker, List.modify_eq_set_getElem?, hw]
  rfl

/-- A worker that has closed its queue ends all its sessions in order. -/
theorem run_dismiss {s : Closing} {i : Nat} {w : Worker}
    (hw : s.pool.workers[i]? = some w.emptied) (hclosed : s.closed.contains i = true) :
    s.run (List.replicate w.sessions.length (.dismiss i)) =
      s.withPool { s.pool with
        workers := s.pool.workers.set i { w with sessions := [], reported := 0 }
        groups := s.pool.groups.releases w.sessions } w.sessions := by
  obtain ⟨ids, queue, clock, reported⟩ := w
  induction ids generalizing s with
  | nil =>
    obtain ⟨hi, hget⟩ := List.getElem?_eq_some_iff.1 hw
    have hsame : s.pool.workers.set i ⟨[], queue, clock, 0⟩ = s.pool.workers := by
      rw [show (⟨[], queue, clock, 0⟩ : Worker) = s.pool.workers[i] from hget.symm]
      exact List.set_getElem_self hi
    simp only [hsame, withPool, List.map_nil, List.append_nil]
    rfl
  | cons id ids ih =>
    have hsessions : s.pool.sessions i = id :: ids := by
      rw [Pool.sessions, hw]
      rfl
    have hstep : s.step (.dismiss i) = s.withPool { s.pool with
        workers := s.pool.workers.set i (Worker.emptied ⟨ids, queue, clock, reported⟩)
        groups := (s.pool.groups.release id).1 } [id] := by
      rw [step, hclosed, hsessions, modifyWorker_eq_set hw]
      rfl
    have hw' : (s.step (.dismiss i)).pool.workers[i]? =
        some (Worker.emptied ⟨ids, queue, clock, reported⟩) := by
      rw [hstep]
      exact List.getElem?_set_self (List.getElem?_eq_some_iff.1 hw).1
    have hclosed' : (s.step (.dismiss i)).closed.contains i = true := by
      rw [hstep]
      exact hclosed
    have hrest := ih hclosed' hw'
    rw [List.length_cons, List.replicate_succ, run_cons]
    refine hrest.trans ?_
    rw [hstep]
    simp only [withPool, List.set_set, List.map_cons, List.map_nil, List.append_assoc,
      List.singleton_append]
    rfl

/-- A worker at rest closes its queue and ends its sessions, as its last turn says. -/
theorem run_turn (hc : c.Orderly) {s : Closing} (hstopped : s.pool.running = false)
    (hticking : s.ticking = []) {i : Nat} (hi : i < s.pool.workers.length)
    (hopen : s.closed.contains i = false) (world : ω) (notes : List Note) :
    ∃ (as : List Action) (world' : ω) (ids : List SessionId),
      s.pool.turn (world, notes) i (·.finish c.noting) =
          ((s.run as).pool, world', notes ++ ids.map lastNote) ∧
        s.run as = { s.withPool (s.run as).pool ids with
          closed := i :: s.closed
          discarded := s.discarded ++ insertions (s.pool.queue i) } ∧
        arrivals as = [] ∧ (s.run as).pool.running = false ∧
        ∃ w, (s.run as).pool.workers = s.pool.workers.set i w ∧ w.sessions = [] := by
  have hw : s.pool.workers[i]? = some s.pool.workers[i] := List.getElem?_eq_getElem hi
  generalize s.pool.workers[i] = w at hw
  have hqueue : s.pool.queue i = w.queue := by
    rw [Pool.queue, hw]
    rfl
  obtain ⟨world', hfinish⟩ := finish_noting hc ⟨(world, notes), s.pool.groups, i, w, []⟩
  have hclose : s.step (.close i) = { s with
      pool := { s.pool with workers := s.pool.workers.set i w.shut }
      closed := i :: s.closed
      discarded := s.discarded ++ insertions (s.pool.queue i) } := by
    rw [step, hstopped, hticking, hopen, modifyWorker_eq_set hw]
    rfl
  have hw' : (s.step (.close i)).pool.workers[i]? = some w.shut := by
    rw [hclose]
    exact List.getElem?_set_self hi
  have hclosed' : (s.step (.close i)).closed.contains i = true := by
    rw [hclose]
    simp
  have hrun := run_dismiss (w := { w with queue := [] }) hw' hclosed'
  refine ⟨.close i :: List.replicate w.sessions.length (.dismiss i), world', w.sessions, ?_⟩
  rw [run_cons, hrun, hclose]
  refine ⟨?_, rfl, ?_, hstopped, ?_⟩
  · rw [turn_eq hw _ _ hfinish]
    simp only [withPool, List.set_set]
    rfl
  · exact List.filterMap_eq_nil_iff.2 fun a ha => by
      obtain rfl | ha := List.mem_cons.1 ha
      · rfl
      · rw [List.eq_of_mem_replicate ha]
  · refine ⟨_, List.set_set _, rfl⟩

/-- Workers that have closed their queue drive nothing any more. -/
def Emptied (s : Closing) : Prop :=
  ∀ i ∈ s.closed, ∀ w, s.pool.workers[i]? = some w → w.sessions = []

theorem run_turns (hc : c.Orderly) {indices : List Nat} (hn : indices.Nodup) {s : Closing}
    (hstopped : s.pool.running = false) (hticking : s.ticking = []) (hemptied : s.Emptied)
    (hopen : ∀ i ∈ indices, i < s.pool.workers.length ∧ s.closed.contains i = false) (world : ω)
    (notes : List Note) :
    ∃ (as : List Action) (world' : ω) (ids : List SessionId),
      indices.foldl (fun (p, world) i => p.turn world i (·.finish c.noting))
          (s.pool, (world, notes)) = ((s.run as).pool, world', notes ++ ids.map lastNote) ∧
        (s.run as).log = s.log ++ ids.map (fun id => (id, .ended)) ∧
        (s.run as).discarded = s.discarded ++ indices.flatMap (insertions ∘ s.pool.queue) ∧
        arrivals as = [] ∧ (s.run as).pool.running = false ∧ (s.run as).Emptied ∧
        (s.run as).pool.workers.length = s.pool.workers.length ∧
        ∀ i, i ∈ indices ∨ i ∈ s.closed → i ∈ (s.run as).closed := by
  induction indices generalizing s world notes with
  | nil =>
    refine ⟨[], world, [], ?_, ?_, (List.append_nil _).symm, rfl, hstopped, hemptied, rfl,
      fun i hi => hi.resolve_left (by simp)⟩
    · rw [List.map_nil, List.append_nil]
      rfl
    · rw [List.map_nil, List.append_nil]
      rfl
  | cons i indices ih =>
    obtain ⟨hnew, hrest⟩ := List.nodup_cons.1 hn
    obtain ⟨hi, hiopen⟩ := hopen i List.mem_cons_self
    obtain ⟨as, world₁, ids, hturn, hrun, harrivals, hstopped₁, w, hworkers, hw⟩ :=
      run_turn hc hstopped hticking hi hiopen world notes
    have hclosed₁ : (s.run as).closed = i :: s.closed := by rw [hrun]
    have hlength : (s.run as).pool.workers.length = s.pool.workers.length := by
      rw [hworkers, List.length_set]
    have hemptied₁ : (s.run as).Emptied := by
      intro j hj v hv
      rw [hclosed₁] at hj
      by_cases hij : i = j
      · rw [hworkers, ← hij, List.getElem?_set_self hi] at hv
        cases hv
        exact hw
      · rw [hworkers, List.getElem?_set_ne hij] at hv
        exact hemptied j ((List.mem_cons.1 hj).resolve_left (Ne.symm hij)) v hv
    have hopen₁ : ∀ j ∈ indices,
        j < (s.run as).pool.workers.length ∧ (s.run as).closed.contains j = false := by
      intro j hj
      obtain ⟨hlt, hjopen⟩ := hopen j (List.mem_cons_of_mem _ hj)
      rw [hlength, hclosed₁]
      refine ⟨hlt, ?_⟩
      rw [List.contains_cons, hjopen, Bool.or_false]
      exact beq_false_of_ne (ne_of_mem_of_not_mem hj hnew)
    have hticking₁ : (s.run as).ticking = [] := by
      rw [hrun]
      exact hticking
    obtain ⟨as', world₂, ids', hfold, hlog, hdiscarded, harrivals', hstopped₂, hemptied₂, hlength₂,
      hclosed₂⟩ := ih hrest hstopped₁ hticking₁ hemptied₁ hopen₁ world₁ (notes ++ ids.map lastNote)
    have hlog₁ : (s.run as).log = s.log ++ ids.map fun id => (id, .ended) := by rw [hrun]; rfl
    have hqueues : ∀ j ∈ indices, (s.run as).pool.queue j = s.pool.queue j := by
      intro j hj
      rw [Pool.queue, Pool.queue, hworkers,
        List.getElem?_set_ne (ne_of_mem_of_not_mem hj hnew).symm]
    refine ⟨as ++ as', world₂, ids ++ ids', ?_⟩
    rw [run_append]
    refine ⟨?_, ?_, ?_, ?_, hstopped₂, hemptied₂, hlength₂.trans hlength,
      fun j hj => hclosed₂ j ?_⟩
    · rw [List.foldl_cons, List.map_append, ← List.append_assoc]
      dsimp only
      rw [hturn]
      exact hfold
    · rw [hlog, hlog₁, List.map_append, List.append_assoc]
    · rw [hdiscarded, hrun, List.flatMap_cons, ← List.append_assoc]
      refine congrArg (_ ++ ·) ?_
      rw [List.flatMap_def, List.flatMap_def]
      refine congrArg List.flatten (List.map_congr_left fun j hj => ?_)
      exact congrArg insertions (hqueues j hj)
    · rw [arrivals_append, harrivals, harrivals']
      rfl
    · rw [hclosed₁, List.mem_cons]
      rcases hj with hj | hj
      · exact (List.mem_cons.1 hj).elim (fun e => .inr (.inl e)) .inl
      · exact .inr (.inr hj)

theorem flatMap_insertions_eq_nil_iff (p : Pool) :
    (List.range p.workers.length).flatMap (insertions ∘ p.queue) = [] ↔
      ∀ w ∈ p.workers, insertions w.queue = [] := by
  have hqueue {i : Nat} {w : Worker} (hw : p.workers[i]? = some w) : p.queue i = w.queue := by
    rw [Pool.queue, hw]
    rfl
  rw [List.flatMap_eq_nil_iff]
  constructor
  · intro h w hw
    obtain ⟨i, hi⟩ := List.mem_iff_getElem?.1 hw
    have hnone := h i (List.mem_range.2 (List.getElem?_eq_some_iff.1 hi).1)
    rwa [Function.comp_apply, hqueue hi] at hnone
  · intro h i hi
    have hw := List.getElem?_eq_getElem (List.mem_range.1 hi)
    rw [Function.comp_apply, hqueue hw]
    exact h _ (List.getElem_mem _)

/-- A scheduler that is shut down at rest ends as its turns say: the last hook is called on the
sessions that are recorded as ended, in that order, and the insertions that wait are discarded. -/
theorem run_shutdown (hc : c.Orderly) {s : Closing} (h : s.Open) (hticking : s.ticking = [])
    (world : ω) (notes : List Note) :
    ∃ (as : List Action) (world' : ω) (ids : List SessionId),
      s.pool.shutdown c.noting (world, notes) =
          ((s.run as).pool, world', notes ++ ids.map lastNote) ∧
        (s.run as).log = s.log ++ ids.map (fun id => (id, .ended)) ∧
        ((s.run as).discarded = [] ↔ ∀ w ∈ s.pool.workers, insertions w.queue = []) ∧
        arrivals as = [] ∧ (s.run as).Ended := by
  have hopen : ∀ i ∈ List.range s.pool.workers.length,
      i < (s.step .stop).pool.workers.length ∧ (s.step .stop).closed.contains i = false := by
    intro i hi
    refine ⟨List.mem_range.1 hi, ?_⟩
    rw [show (s.step .stop).closed = s.closed from rfl, h.closed]
    rfl
  have hemptied : (s.step .stop).Emptied := by
    intro i hi
    rw [show (s.step .stop).closed = s.closed from rfl, h.closed] at hi
    cases hi
  obtain ⟨as, world', ids, hfold, hlog, hdiscarded, harrivals, hstopped, hemptied', hlength,
    hclosed⟩ := run_turns hc List.nodup_range (s := s.step .stop) rfl hticking hemptied hopen world
      notes
  refine ⟨.stop :: as, world', ids, ?_, hlog, ?_, harrivals, hstopped, fun i hi => ?_,
    fun w hw => ?_⟩
  · rw [Pool.shutdown, if_pos h.running]
    exact hfold
  · rw [run_cons, hdiscarded, show (s.step .stop).discarded = s.discarded from rfl, h.discarded]
    exact flatMap_insertions_eq_nil_iff s.pool
  · refine hclosed i (.inl (List.mem_range.2 ?_))
    rw [run_cons, hlength] at hi
    exact hi
  · obtain ⟨i, hi⟩ := List.mem_iff_getElem?.1 hw
    refine hemptied' i (hclosed i (.inl (List.mem_range.2 ?_))) w hi
    have hlt := (List.getElem?_eq_some_iff.1 hi).1
    rw [run_cons, hlength] at hlt
    exact hlt

/-- A scheduler whose workers have ended is what some calls and a shutdown at rest lead to. The
sessions recorded as ended last are those on which the shutdown called the last hook, and nothing
was discarded if and only if no insertion was waiting when the shutdown came. -/
structure IsShutdownOf (c : Client ω) (threads : Nat) (quantum : UInt64) (world : ω)
    (calls : List Call) (s : Closing) : Prop where
  ended : s.Ended
  called :
    let before := calls.foldl (Pool.answer c.noting) (Pool.start threads quantum, (world, []))
    ∃ (world' : ω) (log : List (SessionId × Dealing)) (ids : List SessionId),
      before.1.shutdown c.noting before.2 =
          (s.pool, world', before.2.2 ++ ids.map lastNote) ∧
        s.log = log ++ ids.map fun id => (id, .ended)
  discarded :
    let before := calls.foldl (Pool.answer c.noting) (Pool.start threads quantum, (world, []))
    s.discarded = [] ↔ ∀ w ∈ before.1.workers, insertions w.queue = []

/-- Whatever a scheduler of orderly sessions is asked to do, and its shutdown after that, is a run
of actions until the end. -/
theorem exists_isShutdownOf (hc : c.Orderly) (threads : Nat) (quantum : UInt64) (world : ω)
    {calls : List Call} (hcalls : ∀ call ∈ calls, call.isForGood = true) :
    ∃ as, arrivals as = calls.filterMap Call.added ∧
      ((start threads quantum).run as).IsShutdownOf c threads quantum world calls := by
  obtain ⟨as, harrivals, hopen, hrun⟩ :=
    exists_run_calls hc.noting threads quantum (world, []) hcalls
  have hpool := congrArg Moment.pool hrun
  dsimp only at hpool
  obtain ⟨as', world', ids, hshutdown, hlog, hdiscarded, harrivals', hended⟩ :=
    run_shutdown hc hopen (congrArg Moment.ticking hrun) _ _
  rw [← run_append] at hshutdown hlog hdiscarded hended
  rw [hpool] at hshutdown hdiscarded
  refine ⟨as ++ as', ?_, hended, ⟨world', _, ids, hshutdown, hlog⟩, hdiscarded⟩
  rw [arrivals_append, harrivals, harrivals', List.append_nil]

end Closing

end CallBridge.Scheduler
