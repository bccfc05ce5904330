import CallBridge.Proofs.Scheduler.Interleaving

/-!
# Turns as runs

The scheduler gives its workers turns, in which they apply all requests that wait or drive their
sessions for a tick, and hooks are called on the way. A turn is a run of events: what the hooks ask
for is released at once, and sent when the turn is over. A request is applied before the hooks that
it calls, except that a session is taken up after it was told so.

Results:
* `leads_applyQueue`, `leads_work`: a turn of a worker is a run of events.
* `exists_run`: whatever the scheduler is asked to do, its pool is that of a moment at which no
  detachment and no tick is under way.
-/

namespace CallBridge.Scheduler

variable {ω : Type} {c : Client ω} {p : Pool} {i : Nat} {ticking : List Nat} {m : Moment}

/-! ## Moments inside a turn -/

/-- A moment inside a turn: the worker and the callgroups of the pool are those of the turn, the
worker still has some requests to apply before those that wait, and what the hooks asked for is
under way. -/
structure Shows (p : Pool) (i : Nat) (ticking : List Nat) (inside : List Request × Turn ω)
    (m : Moment) : Prop where
  pool : m.pool = { p with
    workers := p.workers.set i
      { inside.2.worker with queue := inside.1 ++ inside.2.worker.queue }
    groups := inside.2.groups }
  leaving : m.leaving.map Departure.request = inside.2.outgoing
  ticking : m.ticking = ticking

/-- What happens in a turn: no session is added, and what is released is what a hook asked for. -/
def Client.Makes (c : Client ω) : Event → Prop
  | .add _ _ => False
  | .release id how => ∃ world index caller hook, (id, how) ∈ (c.call world index caller hook).2.2
  | .send _ | .apply _ | .begin _ | .force _ _ | .finish _ => True

/-- Events lead from every moment inside a turn to a moment further on. -/
def Leads (c : Client ω) (p : Pool) (i : Nat) (ticking : List Nat)
    (a b : List Request × Turn ω) : Prop :=
  ∀ m, Shows p i ticking a m → ∃ es, (∀ e ∈ es, c.Makes e) ∧ Shows p i ticking b (m.run es)

theorem Leads.same {a b : List Request × Turn ω}
    (h : ∀ m, Shows p i ticking a m → Shows p i ticking b m) : Leads c p i ticking a b :=
  fun m hm => ⟨[], nofun, h m hm⟩

theorem Leads.refl (a : List Request × Turn ω) : Leads c p i ticking a a := .same fun _ h => h

theorem Leads.trans {a b d : List Request × Turn ω} (hab : Leads c p i ticking a b)
    (hbd : Leads c p i ticking b d) : Leads c p i ticking a d := by
  intro m h
  obtain ⟨es, hmade, hb⟩ := hab m h
  obtain ⟨es', hmade', hd⟩ := hbd _ hb
  refine ⟨es ++ es', List.forall_mem_append.2 ⟨hmade, hmade'⟩, ?_⟩
  rw [Moment.run_append]
  exact hd

theorem Leads.event {a b : List Request × Turn ω} (e : Event) (he : c.Makes e)
    (h : ∀ m, Shows p i ticking a m → Shows p i ticking b (m.step e)) : Leads c p i ticking a b :=
  fun m hm => ⟨[e], List.forall_mem_singleton.2 he, h m hm⟩

theorem modify_set {α : Type} (xs : List α) (i : Nat) (x : α) (f : α → α) :
    (xs.set i x).modify i f = xs.set i (f x) := by
  refine List.ext_getElem? fun j => ?_
  rw [List.getElem?_modify, List.getElem?_set, List.getElem?_set]
  by_cases hij : i = j
  · by_cases hj : j < xs.length
    · simp [hij, hj]
    · simp [hij, hj]
  · simp [hij]

/-- The worker whose turn it is. -/
theorem Shows.worker {a : List Request × Turn ω} (h : Shows p i ticking a m)
    (hi : i < p.workers.length) :
    m.pool.workers[i]? = some { a.2.worker with queue := a.1 ++ a.2.worker.queue } := by
  rw [h.pool, List.getElem?_set_self hi]

/-- Changing that worker is changing the worker of the turn. -/
theorem Shows.modifyWorker {a : List Request × Turn ω} (h : Shows p i ticking a m)
    (f : Worker → Worker) :
    m.pool.modifyWorker i f = { p with
      workers := p.workers.set i (f { a.2.worker with queue := a.1 ++ a.2.worker.queue })
      groups := a.2.groups } := by
  rw [Pool.modifyWorker, h.pool]
  simp only [modify_set]

/-! ## Hooks -/

theorem leads_askDetach (rest : List Request) (t : Turn ω) {ask : SessionId × Detachment}
    (hask : c.Makes (.release ask.1 ask.2)) :
    Leads c p i ticking (rest, t) (rest, (t.askDetach ask).1) := by
  refine Leads.event (.release ask.1 ask.2) hask fun m h => ?_
  have hgroups : m.pool.groups = t.groups := by rw [h.pool]
  rw [Turn.askDetach, Moment.step, hgroups]
  rcases t.groups.release ask.1 with ⟨groups, _ | worker⟩
  · refine ⟨?_, h.leaving, h.ticking⟩
    simp only [Moment.withPool, h.pool]
  · refine ⟨?_, ?_, h.ticking⟩
    · simp only [h.pool]
    · rw [List.map_append, h.leaving]
      rfl

theorem leads_askDetachments (rest : List Request) {asks : List (SessionId × Detachment)}
    (hasks : ∀ ask ∈ asks, c.Makes (.release ask.1 ask.2)) (t : Turn ω) :
    Leads c p i ticking (rest, t) (rest, (Turn.askDetachments asks t).1) := by
  induction asks generalizing t with
  | nil => exact Leads.refl _
  | cons ask asks ih =>
    obtain ⟨hfirst, hmore⟩ := List.forall_mem_cons.1 hasks
    have hask : Leads c p i ticking (rest, t) (rest, (t.askDetach ask).1) :=
      leads_askDetach rest t hfirst
    unfold Turn.askDetachments
    split
    · next t' h =>
      rw [h] at hask
      exact hask.trans (ih hmore t')
    · exact hask

/-- A hook shows only through what it asks for. -/
theorem leads_call (c : Client ω) (rest : List Request) (t : Turn ω) (id : SessionId)
    (hook : Hook) : Leads c p i ticking (rest, t) (rest, (t.call c id hook).1) := by
  let answer := c.call t.world t.index id hook
  have hworld : Leads c p i ticking (rest, t) (rest, { t with world := answer.1 }) :=
    .same fun m h => ⟨h.pool, h.leaving, h.ticking⟩
  have hasks : ∀ ask ∈ answer.2.2, c.Makes (.release ask.1 ask.2) :=
    fun ask hask => ⟨t.world, t.index, id, hook, hask⟩
  exact hworld.trans (leads_askDetachments rest hasks _)

theorem leads_runHooks (c : Client ω) (rest : List Request) (id : SessionId) (hooks : List Hook)
    (t : Turn ω) : Leads c p i ticking (rest, t) (rest, (t.runHooks c id hooks).1) := by
  induction hooks generalizing t with
  | nil => exact Leads.refl _
  | cons hook hooks ih =>
    have hcall : Leads c p i ticking (rest, t) (rest, (t.call c id hook).1) :=
      leads_call c rest t id hook
    unfold Turn.runHooks
    split
    next t' ending h =>
      rw [h] at hcall
      split
      · exact hcall.trans (ih t')
      · exact hcall

theorem worker_runHooks (c : Client ω) (id : SessionId) (hooks : List Hook) (t : Turn ω) :
    (t.runHooks c id hooks).1.worker = t.worker := by
  induction hooks generalizing t with
  | nil => rfl
  | cons hook hooks ih =>
    have hcall : (t.call c id hook).1.worker = t.worker := Turn.worker_askDetachments _ _
    unfold Turn.runHooks
    split
    next t' ending h =>
      rw [h] at hcall
      split
      · exact (ih t').trans hcall
      · exact hcall

/-! ### What hooks do not see

Hooks do not see the worker, so it makes no difference whether a number is reported before they are
called or after. -/

theorem askDetach_report (t : Turn ω) (count : Nat) (ask : SessionId × Detachment) :
    (t.report count).askDetach ask = ((t.askDetach ask).1.report count, (t.askDetach ask).2) := by
  unfold Turn.askDetach
  rw [show (t.report count).groups = t.groups from rfl]
  split <;> rfl

theorem askDetachments_report (asks : List (SessionId × Detachment)) (t : Turn ω) (count : Nat) :
    Turn.askDetachments asks (t.report count) =
      ((Turn.askDetachments asks t).1.report count, (Turn.askDetachments asks t).2) := by
  induction asks generalizing t with
  | nil => rfl
  | cons ask asks ih =>
    unfold Turn.askDetachments
    rw [askDetach_report]
    rcases t.askDetach ask with ⟨t', ending⟩
    cases ending with
    | done => exact ih t'
    | fault | crash => rfl

theorem call_report (c : Client ω) (t : Turn ω) (count : Nat) (id : SessionId) (hook : Hook) :
    (t.report count).call c id hook =
      ((t.call c id hook).1.report count, (t.call c id hook).2) := by
  let answer := c.call t.world t.index id hook
  have hasks := askDetachments_report answer.2.2 { t with world := answer.1 } count
  exact congrArg (fun r => (r.1, if answer.2.1 = .done then r.2 else answer.2.1)) hasks

theorem runHooks_report (c : Client ω) (id : SessionId) (hooks : List Hook) (t : Turn ω)
    (count : Nat) : ((t.report count).runHooks c id hooks).1 =
      (t.runHooks c id hooks).1.report count := by
  induction hooks generalizing t with
  | nil => rfl
  | cons hook hooks ih =>
    unfold Turn.runHooks
    rw [call_report]
    rcases t.call c id hook with ⟨t', ending⟩
    dsimp only
    cases ending.reason with
    | none => exact ih t'
    | some reason => rfl

/-- A session that is detached is off the list, and the number reported, before its hooks are
called. -/
theorem detach_eq (c : Client ω) (t : Turn ω) (id : SessionId) (how : Detachment) :
    t.detach c id how =
      let t' := { t with worker := t.worker.applied (.detach id how) }
      if t.drives id then (t'.runHooks c id how.hooks).1 else t' := by
  rw [Turn.detach]
  dsimp only
  split
  · rw [worker_runHooks, ← runHooks_report]
    rfl
  · next hd =>
    have habsent : id ∉ t.worker.sessions := fun hm => hd (List.contains_iff_mem.2 hm)
    rw [Worker.applied, List.erase_of_not_mem habsent]
    rfl

/-! ## Requests -/

theorem applied_withQueue (w : Worker) (queue : List Request) (r : Request) :
    Worker.applied { w with queue } r = { w.applied r with queue } := by
  cases r with
  | insert id =>
    simp only [Worker.applied]
    split <;> rfl
  | detach id how => rfl

/-- A worker outside a tick applies the request that is next. -/
theorem leads_applied (c : Client ω) (hticking : ticking.contains i = false) (r : Request)
    (rest : List Request) (t : Turn ω) :
    Leads c p i ticking (r :: rest, t) (rest, { t with worker := t.worker.applied r }) := by
  refine Leads.event (.apply i) trivial fun m h => ?_
  rw [Moment.step, h.ticking, hticking]
  refine ⟨?_, h.leaving, h.ticking⟩
  have hmodify := h.modifyWorker Worker.applyNext
  simp only [Worker.applyNext, List.cons_append, applied_withQueue] at hmodify
  rw [Worker.queue_applied]
  exact hmodify

/-- Taking up a session calls its hooks first. -/
theorem leads_insert (c : Client ω) (hticking : ticking.contains i = false) (id : SessionId)
    (rest : List Request) (t : Turn ω) :
    Leads c p i ticking (.insert id :: rest, t) (rest, t.insert c id) := by
  rw [Turn.insert]
  split
  · next hd =>
    have happlied : t.worker.applied (.insert id) = t.worker := if_pos hd
    have hlead := leads_applied c (p := p) hticking (.insert id) rest t
    rw [happlied] at hlead
    exact hlead
  · next hd =>
    let told := (t.runHooks c id [.started]).1
    have hworker : told.worker = t.worker := worker_runHooks c id [.started] t
    have happlied : told.worker.applied (.insert id) =
        told.worker.driving (told.worker.sessions ++ [id]) := by
      rw [hworker]
      exact if_neg hd
    have hlead := leads_applied c (p := p) hticking (.insert id) rest told
    rw [happlied] at hlead
    exact (leads_runHooks c _ id [.started] t).trans hlead

theorem leads_detach (c : Client ω) (hticking : ticking.contains i = false) (id : SessionId)
    (how : Detachment) (rest : List Request) (t : Turn ω) :
    Leads c p i ticking (.detach id how :: rest, t) (rest, t.detach c id how) := by
  have hlead := leads_applied c (p := p) hticking (.detach id how) rest t
  rw [detach_eq]
  dsimp only
  split
  · exact hlead.trans (leads_runHooks c rest id how.hooks _)
  · exact hlead

theorem leads_requests (c : Client ω) (hticking : ticking.contains i = false)
    (requests : List Request) (t : Turn ω) :
    Leads c p i ticking (requests, t) ([], requests.foldl (Turn.apply c) t) := by
  induction requests generalizing t with
  | nil => exact Leads.refl _
  | cons r rest ih =>
    have happly : Leads c p i ticking (r :: rest, t) (rest, t.apply c r) := by
      cases r with
      | insert id => exact leads_insert c hticking id rest t
      | detach id how => exact leads_detach c hticking id how rest t
    exact happly.trans (ih _)

/-- A turn of requests takes them all before it applies the first. -/
theorem leads_applyQueue (c : Client ω) (t : Turn ω) :
    Leads c p i [] ([], t) ([], t.applyQueue c) := by
  have htake : Leads c p i []
      ([], t) (t.worker.queue, { t with worker := { t.worker with queue := [] } }) := by
    refine .same fun m h => ⟨?_, h.leaving, h.ticking⟩
    simp only [List.append_nil]
    exact h.pool
  exact htake.trans (leads_requests c rfl t.worker.queue _)

/-! ## A tick -/

theorem leads_pass (c : Client ω) (rest : List Request) (hooks : List Hook)
    (ids : List SessionId) (t : Turn ω) :
    Leads c p i ticking (rest, t) (rest, (t.pass c hooks ids).1) := by
  induction ids generalizing t with
  | nil => exact Leads.refl _
  | cons id ids ih => exact (leads_runHooks c rest id hooks t).trans (ih _)

/-- Inside a tick the worker forces off a session that failed, and calls its hooks then. -/
theorem leads_detachFailed (c : Client ω) (hi : i < p.workers.length)
    (hticking : ticking.contains i = true) (rest : List Request) (t : Turn ω)
    (failure : SessionId × String) :
    Leads c p i ticking (rest, t) (rest, t.detachFailed c failure) := by
  obtain ⟨id, reason⟩ := failure
  rw [Turn.detachFailed]
  split
  · next hd =>
    have hforce : Leads c p i ticking (rest, t) (rest,
        { t with worker := t.worker.drop id, groups := (t.groups.release id).1 }) := by
      refine Leads.event (.force i id) trivial fun m h => ?_
      have hsessions : m.pool.sessions i = t.worker.sessions := by
        rw [Pool.sessions, h.worker hi]
        rfl
      have hdriven : (m.ticking.contains i && (m.pool.sessions i).contains id) = true := by
        rw [h.ticking, hticking, hsessions, Bool.true_and]
        exact hd
      have hgroups : m.pool.groups = t.groups := by rw [h.pool]
      rw [Moment.step, if_pos hdriven, hgroups]
      refine ⟨?_, h.leaving, h.ticking⟩
      rw [Moment.withPool, h.modifyWorker]
      rfl
    exact hforce.trans (leads_runHooks c rest id _ _)
  · exact Leads.refl _

theorem leads_failures (c : Client ω) (hi : i < p.workers.length)
    (hticking : ticking.contains i = true) (rest : List Request)
    (failures : List (SessionId × String)) (t : Turn ω) :
    Leads c p i ticking (rest, t) (rest, failures.foldl (Turn.detachFailed c) t) := by
  induction failures generalizing t with
  | nil => exact Leads.refl _
  | cons failure failures ih =>
    exact (leads_detachFailed c hi hticking rest t failure).trans (ih _)

theorem leads_round (c : Client ω) (hi : i < p.workers.length)
    (hticking : ticking.contains i = true) (rest : List Request) (hooks : List Hook)
    (t : Turn ω) : Leads c p i ticking (rest, t) (rest, t.round c hooks) :=
  (leads_pass c rest hooks t.worker.sessions t).trans (leads_failures c hi hticking rest _ _)

theorem Shows.begin {a : List Request × Turn ω} (h : Shows p i [] a m) :
    Shows p i [i] a (m.step (.begin i)) := by
  rw [Moment.step, h.ticking]
  exact ⟨h.pool, h.leaving, rfl⟩

theorem Shows.finish {rest : List Request} {t : Turn ω} (h : Shows p i [i] (rest, t) m) :
    Shows p i [] (rest, t.advance p.quantum) (m.step (.finish i)) := by
  have hself : [i].contains i = true := by simp
  have hquantum : m.pool.quantum = p.quantum := by rw [h.pool]
  rw [Moment.step, h.ticking, if_pos hself, hquantum]
  exact ⟨h.modifyWorker (·.advance p.quantum), h.leaving, by simp⟩

/-- A tick begins, drives the sessions in two rounds, and ends with the clock moved on. -/
theorem leads_work (c : Client ω) (hi : i < p.workers.length) (t : Turn ω) :
    Leads c p i [] ([], t) ([], t.work c p.quantum) := by
  intro m h
  have hself : [i].contains i = true := by simp
  have hrounds : Leads c p i [i] ([], t) ([], (t.audio c).keys c) :=
    (leads_round c hi hself [] _ t).trans (leads_round c hi hself [] _ _)
  obtain ⟨es, hmade, hdone⟩ := hrounds _ h.begin
  refine ⟨.begin i :: es ++ [.finish i], ?_, ?_⟩
  · exact List.forall_mem_append.2
      ⟨List.forall_mem_cons.2 ⟨trivial, hmade⟩, List.forall_mem_singleton.2 trivial⟩
  · rw [Moment.run_append]
    exact hdone.finish

/-! ## All workers -/

/-- What happens in turns leads from a pool to another, with nothing under way before and after. -/
def Pool.Reaches (c : Client ω) (p q : Pool) : Prop :=
  ∃ es, (∀ e ∈ es, c.Makes e) ∧ Moment.run ⟨p, [], []⟩ es = ⟨q, [], []⟩

theorem Pool.Reaches.refl (p : Pool) : p.Reaches c p := ⟨[], nofun, rfl⟩

theorem Pool.Reaches.trans {p q r : Pool} (hpq : p.Reaches c q) (hqr : q.Reaches c r) :
    p.Reaches c r := by
  obtain ⟨es, hmade, hq⟩ := hpq
  obtain ⟨es', hmade', hr⟩ := hqr
  refine ⟨es ++ es', List.forall_mem_append.2 ⟨hmade, hmade'⟩, ?_⟩
  rw [Moment.run_append, hq, hr]

/-- What is under way is sent in the order in which it was asked for. -/
theorem run_sends (c : Client ω) (m : Moment) : ∃ es, (∀ e ∈ es, c.Makes e) ∧
    m.run es = ⟨(m.leaving.map Departure.request).foldl Pool.send m.pool, [], m.ticking⟩ := by
  obtain ⟨pool, leaving, ticking⟩ := m
  induction leaving generalizing pool with
  | nil => exact ⟨[], nofun, rfl⟩
  | cons d rest ih =>
    obtain ⟨es, hmade, hes⟩ := ih (pool.send d.request)
    exact ⟨.send 0 :: es, List.forall_mem_cons.2 ⟨trivial, hmade⟩, hes⟩

theorem reaches_turn (p : Pool) (world : ω) (i : Nat) {f : Turn ω → Turn ω}
    (hf : i < p.workers.length → ∀ t, Leads c p i [] ([], t) ([], f t)) :
    p.Reaches c (p.turn world i f).1 := by
  rw [Pool.turn]
  cases hw : p.workers[i]? with
  | none => exact Pool.Reaches.refl p
  | some worker =>
    obtain ⟨hi, hworker⟩ := List.getElem?_eq_some_iff.1 hw
    let t : Turn ω := ⟨world, p.groups, i, worker, []⟩
    have hstart : Shows p i [] ([], t) ⟨p, [], []⟩ := by
      refine ⟨?_, rfl, rfl⟩
      have hsame : p.workers.set i worker = p.workers := by
        rw [← hworker]
        exact List.set_getElem_self hi
      exact congrArg (fun workers => { p with workers }) hsame.symm
    obtain ⟨es, hmade, hend⟩ := hf hi t _ hstart
    obtain ⟨sends, hmade', hsends⟩ := run_sends c (Moment.run ⟨p, [], []⟩ es)
    refine ⟨es ++ sends, List.forall_mem_append.2 ⟨hmade, hmade'⟩, ?_⟩
    rw [Moment.run_append, hsends, hend.leaving, hend.ticking, hend.pool]
    rfl

theorem quantum_sends (p : Pool) (requests : List (Nat × Request)) :
    (requests.foldl Pool.send p).quantum = p.quantum := by
  induction requests generalizing p with
  | nil => rfl
  | cons r rest ih =>
    refine (ih _).trans ?_
    rw [Pool.send]
    split <;> rfl

theorem quantum_turn (p : Pool) (world : ω) (i : Nat) (f : Turn ω → Turn ω) :
    (p.turn world i f).1.quantum = p.quantum := by
  rw [Pool.turn]
  split
  · rfl
  · exact quantum_sends _ _

theorem reaches_turns (p : Pool) (world : ω) {f : Turn ω → Turn ω}
    (hf : ∀ (q : Pool) (i : Nat), q.quantum = p.quantum → i < q.workers.length →
      ∀ t, Leads c q i [] ([], t) ([], f t)) : p.Reaches c (p.turns world f).1 := by
  unfold Pool.turns
  generalize List.range p.workers.length = indices
  induction indices generalizing p world with
  | nil => exact Pool.Reaches.refl p
  | cons i indices ih =>
    have hturn : p.Reaches c (p.turn world i f).1 := reaches_turn p world i (hf p i rfl)
    have hquantum := quantum_turn p world i f
    simp only [List.foldl_cons]
    rcases hnext : p.turn world i f with ⟨q, w⟩
    rw [hnext] at hturn hquantum
    exact hturn.trans (ih q w fun q' j hq' hj => hf q' j (hq'.trans hquantum) hj)

/-! ## Calls -/

/-- What the scheduler is asked to do. -/
inductive Call where
  | add (id : SessionId) (group : String)
  | detach (id : SessionId) (how : Detachment)
  /-- Every worker is to apply the requests that wait. -/
  | apply
  /-- Every worker is to drive its sessions for a tick. -/
  | work
deriving DecidableEq, Repr, Inhabited

/-- The scheduler and the world after a call. -/
def Pool.answer (c : Client ω) (s : Pool × ω) : Call → Pool × ω
  | .add id group => ((s.1.add id group).1, s.2)
  | .detach id how => ((s.1.detach id how).1, s.2)
  | .apply => s.1.applyQueues c s.2
  | .work => s.1.work c s.2

theorem reaches_applyQueues (c : Client ω) (s : Pool × ω) :
    s.1.Reaches c (s.1.applyQueues c s.2).1 :=
  reaches_turns s.1 s.2 fun _ _ _ _ t => leads_applyQueue c t

theorem reaches_work (c : Client ω) (s : Pool × ω) : s.1.Reaches c (s.1.work c s.2).1 := by
  refine reaches_turns s.1 s.2 fun q i hq hi t => ?_
  have hwork := leads_work c hi t
  rw [hq] at hwork
  exact hwork

theorem exists_run_answer (c : Client ω) (s : Pool × ω) (call : Call) :
    ∃ es, Moment.run ⟨s.1, [], []⟩ es = ⟨(Pool.answer c s call).1, [], []⟩ := by
  cases call with
  | add id group => exact ⟨[.add id group], rfl⟩
  | detach id how => exact ⟨_, Moment.run_detach rfl id how⟩
  | apply =>
    obtain ⟨es, -, hes⟩ := reaches_applyQueues c s
    exact ⟨es, hes⟩
  | work =>
    obtain ⟨es, -, hes⟩ := reaches_work c s
    exact ⟨es, hes⟩

/-- Whatever the scheduler is asked to do, in any order and with whatever its hooks ask for, is a
run of events. -/
theorem exists_run (c : Client ω) (threads : Nat) (quantum : UInt64) (world : ω)
    (calls : List Call) : ∃ es, (Moment.start threads quantum).run es =
      ⟨(calls.foldl (Pool.answer c) (Pool.start threads quantum, world)).1, [], []⟩ := by
  have hall : ∀ s : Pool × ω, ∃ es, Moment.run ⟨s.1, [], []⟩ es =
      ⟨(calls.foldl (Pool.answer c) s).1, [], []⟩ := by
    induction calls with
    | nil => exact fun s => ⟨[], rfl⟩
    | cons call calls ih =>
      intro s
      obtain ⟨es, hfirst⟩ := exists_run_answer c s call
      obtain ⟨es', hrest⟩ := ih (Pool.answer c s call)
      refine ⟨es ++ es', ?_⟩
      rw [Moment.run_append, hfirst]
      exact hrest
  exact hall (Pool.start threads quantum, world)

end CallBridge.Scheduler
