import CallBridge.Proofs.Scheduler.Callgroups
import CallBridge.Scheduler.Pool
import Mathlib.Data.List.Induction

/-!
# Clients and workers in any order

The scheduler between two steps of the threads around it. A client adds a session in one step, since
the callgroups stay locked until the request is sent. It detaches a session in two: the callgroups
forget it, and only then its worker is sent the request. A worker applies the requests that wait one
by one, and ticks in between. A tick shows in the books only through the sessions that it forces
off: each of them leaves the worker's list and the callgroups. Nobody but the worker sees its list,
so this is one step too. Hooks that ask for a detachment do what any client does.

Steps that are not possible change nothing, so that every list of events is a run.

Results:
* `Sound.step`, `Sound.run`: what holds of every moment of a run.
* `sessions_queue_add`: what an addition does to the workers.
* `forall_prefix`, `forall_prefix_iff`: how a fact about steps becomes one about runs.
* `run_detach`: a detachment is its two steps, one right after the other.
-/

namespace CallBridge.Scheduler

/-! ## Workers -/

namespace Worker

/-- The worker with other sessions, whose number it reported. -/
abbrev driving (w : Worker) (sessions : List SessionId) : Worker :=
  { w with sessions, reported := sessions.length }

/-- The worker after it applied a request. -/
def applied (w : Worker) : Request → Worker
  | .insert id => if w.sessions.contains id then w else w.driving (w.sessions ++ [id])
  | .detach id _ => w.driving (w.sessions.erase id)

/-- The worker after it applied the first request that waits. -/
def applyNext (w : Worker) : Worker :=
  match w.queue with
  | [] => w
  | request :: rest => { w with queue := rest }.applied request

/-- The worker with a request that waits behind the others. -/
def enqueue (w : Worker) (request : Request) : Worker := { w with queue := w.queue ++ [request] }

/-- The worker without a session. -/
def drop (w : Worker) (id : SessionId) : Worker := w.driving (w.sessions.erase id)

/-- The worker with its clock moved on. -/
def advance (w : Worker) (quantum : UInt64) : Worker := { w with clock := w.clock + quantum }

theorem queue_applied (w : Worker) (request : Request) : (w.applied request).queue = w.queue := by
  cases request with
  | insert id =>
    rw [applied]
    split <;> rfl
  | detach id how => rfl

theorem length_applyNext {w : Worker} (h : w.queue ≠ []) :
    w.applyNext.queue.length < w.queue.length := by
  unfold applyNext
  split
  · next hq => exact absurd hq h
  · next request rest hq =>
    rw [queue_applied, hq, List.length_cons]
    exact Nat.lt_succ_self _

theorem nodup_applied {w : Worker} (h : w.sessions.Nodup) (request : Request) :
    (w.applied request).sessions.Nodup := by
  cases request with
  | insert id =>
    rw [applied]
    split
    · exact h
    · next hid =>
      have hnew : id ∉ w.sessions := fun hm => hid (List.contains_iff_mem.2 hm)
      refine List.nodup_append.2 ⟨h, by simp, fun x hx y hy e => hnew ?_⟩
      rw [← List.mem_singleton.1 hy, ← e]
      exact hx
  | detach id how => exact h.erase id

/-- A worker drives no session twice, and the number that it reported is that of its sessions. -/
structure Sound (w : Worker) : Prop where
  nodup : w.sessions.Nodup
  reported : w.reported = w.sessions.length

theorem Sound.start : Worker.start.Sound := ⟨List.nodup_nil, rfl⟩

theorem Sound.applied {w : Worker} (h : w.Sound) (request : Request) :
    (w.applied request).Sound where
  nodup := nodup_applied h.nodup request
  reported := by
    cases request with
    | insert id =>
      rw [Worker.applied]
      split
      · exact h.reported
      · rfl
    | detach id how => rfl

theorem Sound.applyNext {w : Worker} (h : w.Sound) : w.applyNext.Sound := by
  unfold Worker.applyNext
  split
  · exact h
  · next request rest _ => exact Sound.applied (w := { w with queue := rest }) ⟨h.1, h.2⟩ request

theorem Sound.drop {w : Worker} (h : w.Sound) (id : SessionId) : (w.drop id).Sound :=
  ⟨h.nodup.erase id, rfl⟩

end Worker

namespace Pool

/-- The pool with a worker changed. -/
def modifyWorker (p : Pool) (i : Nat) (f : Worker → Worker) : Pool :=
  { p with workers := p.workers.modify i f }

/-- The sessions that a worker drives. -/
def sessions (p : Pool) (i : Nat) : List SessionId := ((p.workers[i]?).map (·.sessions)).getD []

/-- The requests that wait for a worker. -/
def queue (p : Pool) (i : Nat) : List Request := ((p.workers[i]?).map (·.queue)).getD []

theorem getElem?_modifyWorker (p : Pool) (i j : Nat) (f : Worker → Worker) :
    (p.modifyWorker i f).workers[j]? =
      if i = j then p.workers[j]?.map f else p.workers[j]? := by
  rw [modifyWorker, List.getElem?_modify]
  split
  · rfl
  · simp

theorem sessions_modifyWorker (p : Pool) (i j : Nat) {f : Worker → Worker}
    (hf : ∀ w, (f w).sessions = w.sessions) : (p.modifyWorker i f).sessions j = p.sessions j := by
  rw [sessions, getElem?_modifyWorker]
  split
  · rw [Option.map_map]
    exact congrArg (fun g => (Option.map g p.workers[j]?).getD []) (funext hf)
  · rfl

theorem queue_modifyWorker (p : Pool) (i j : Nat) {f : Worker → Worker}
    (hf : ∀ w, (f w).queue = w.queue) : (p.modifyWorker i f).queue j = p.queue j := by
  rw [queue, getElem?_modifyWorker]
  split
  · rw [Option.map_map]
    exact congrArg (fun g => (Option.map g p.workers[j]?).getD []) (funext hf)
  · rfl

theorem sessions_modifyWorker_ne {p : Pool} {i j : Nat} (h : i ≠ j) (f : Worker → Worker) :
    (p.modifyWorker i f).sessions j = p.sessions j := by
  rw [sessions, getElem?_modifyWorker, if_neg h]
  rfl

theorem queue_modifyWorker_ne {p : Pool} {i j : Nat} (h : i ≠ j) (f : Worker → Worker) :
    (p.modifyWorker i f).queue j = p.queue j := by
  rw [queue, getElem?_modifyWorker, if_neg h]
  rfl

/-- A worker that there is, before and after it was changed. -/
theorem sessions_queue_modifyWorker_self {p : Pool} {i : Nat} {w : Worker}
    (h : p.workers[i]? = some w) (f : Worker → Worker) :
    p.sessions i = w.sessions ∧ p.queue i = w.queue ∧
      (p.modifyWorker i f).sessions i = (f w).sessions ∧
      (p.modifyWorker i f).queue i = (f w).queue := by
  rw [sessions, sessions, queue, queue, getElem?_modifyWorker, if_pos rfl, h]
  exact ⟨rfl, rfl, rfl, rfl⟩

theorem queue_enqueue {p : Pool} {i : Nat} (h : i < p.workers.length) (r : Request) (j : Nat) :
    (p.modifyWorker i (·.enqueue r)).queue j = if i = j then p.queue j ++ [r] else p.queue j := by
  by_cases hj : i = j
  · subst hj
    obtain ⟨-, hqueue, -, hafter⟩ := sessions_queue_modifyWorker_self
      (List.getElem?_eq_getElem h) (·.enqueue r)
    rw [if_pos rfl, hqueue, hafter]
    rfl
  · rw [if_neg hj, queue_modifyWorker_ne hj]

/-- Where there is no worker, nothing is driven and nothing waits, whatever is changed. -/
theorem sessions_queue_of_none {p : Pool} {i : Nat} (h : p.workers[i]? = none)
    (f : Worker → Worker) :
    p.sessions i = [] ∧ p.queue i = [] ∧ p.modifyWorker i f = p := by
  have hle : p.workers.length ≤ i := List.getElem?_eq_none_iff.1 h
  rw [sessions, queue, modifyWorker, h, List.modify_eq_self hle]
  exact ⟨rfl, rfl, rfl⟩

/-- The number of requests that wait. -/
def waiting (p : Pool) : Nat := p.workers.foldr (fun w n => w.queue.length + n) 0

theorem foldr_modify (size : Worker → Nat) {ws : List Worker} {i : Nat} {w : Worker}
    (h : ws[i]? = some w) (f : Worker → Worker) :
    (ws.modify i f).foldr (fun w n => size w + n) 0 + size w =
      ws.foldr (fun w n => size w + n) 0 + size (f w) := by
  induction ws generalizing i with
  | nil => cases h
  | cons v ws ih =>
    cases i with
    | zero =>
      cases h
      rw [List.modify_zero_cons, List.foldr_cons, List.foldr_cons]
      omega
    | succ i =>
      have hrest := ih h
      rw [List.modify_succ_cons, List.foldr_cons, List.foldr_cons]
      omega

theorem waiting_modifyWorker {p : Pool} {i : Nat} {w : Worker} (h : p.workers[i]? = some w)
    (f : Worker → Worker) :
    (p.modifyWorker i f).waiting + w.queue.length = p.waiting + (f w).queue.length :=
  foldr_modify (·.queue.length) h f

theorem waiting_modifyWorker_le (p : Pool) (i : Nat) {f : Worker → Worker} {more : Nat}
    (hf : ∀ w, (f w).queue.length ≤ w.queue.length + more) :
    (p.modifyWorker i f).waiting ≤ p.waiting + more := by
  cases hw : p.workers[i]? with
  | none =>
    rw [(sessions_queue_of_none hw f).2.2]
    omega
  | some w =>
    have hsum := waiting_modifyWorker hw f
    have hmore := hf w
    omega

theorem forall_modifyWorker {P : Worker → Prop} {p : Pool} {f : Worker → Worker}
    (h : ∀ w ∈ p.workers, P w) (hf : ∀ w, P w → P (f w)) (i : Nat) :
    ∀ w ∈ (p.modifyWorker i f).workers, P w := by
  intro w hw
  obtain ⟨j, hj⟩ := List.mem_iff_getElem?.1 hw
  rw [getElem?_modifyWorker] at hj
  split at hj
  · obtain ⟨v, hv, rfl⟩ := Option.map_eq_some_iff.1 hj
    exact hf v (h v (List.mem_of_getElem? hv))
  · exact h w (List.mem_of_getElem? hj)

theorem send_eq {p : Pool} (h : p.running = true) (request : Nat × Request) :
    p.send request = p.modifyWorker request.1 (·.enqueue request.2) := by
  rw [send, if_pos h]
  rfl

/-- A running scheduler takes every session, and sends the request before anything else happens. -/
theorem add_eq {p : Pool} (h : p.running = true) (id : SessionId) (group : String) :
    (p.add id group).1 = { p.modifyWorker (p.groups.assign id group).2 (·.enqueue (.insert id)) with
      groups := (p.groups.assign id group).1 } := by
  rw [add, if_pos h]
  exact send_eq (p := { p with groups := (p.groups.assign id group).1 }) h _

end Pool

/-! ## Moments and events -/

/-- A detachment between its two steps: the session was forgotten, and its worker is still to be
told. -/
structure Departure where
  worker : Nat
  id : SessionId
  how : Detachment
deriving DecidableEq, Repr, Inhabited

/-- The request of a detachment, and the worker that it goes to. -/
def Departure.request (d : Departure) : Nat × Request := (d.worker, .detach d.id d.how)

/-- The scheduler with the detachments that are between their two steps, and the workers that are
inside a tick. -/
structure Moment where
  pool : Pool
  leaving : List Departure
  ticking : List Nat
deriving DecidableEq, Repr, Inhabited

/-- A step of a client or a worker. -/
inductive Event where
  /-- A client adds a session to a callgroup. -/
  | add (id : SessionId) (group : String)
  /-- A client detaches a session, first step: the callgroups forget it. -/
  | release (id : SessionId) (how : Detachment)
  /-- Second step: the worker is sent the request of one of the detachments under way. -/
  | send (index : Nat)
  /-- A worker applies the first request that waits. -/
  | apply (worker : Nat)
  /-- A worker begins a tick. -/
  | begin (worker : Nat)
  /-- Inside a tick a worker forces off a session that failed. -/
  | force (worker : Nat) (id : SessionId)
  /-- A worker ends its tick. -/
  | finish (worker : Nat)
deriving DecidableEq, Repr, Inhabited

/-- The steps by which what is under way comes to an end. -/
def Event.isSettling : Event → Bool
  | .send _ | .apply _ | .finish _ => true
  | .add _ _ | .release _ _ | .begin _ | .force _ _ => false

namespace Moment

/-- The scheduler with its workers just started. -/
def start (threads : Nat) (quantum : UInt64) : Moment := ⟨Pool.start threads quantum, [], []⟩

/-- The moment with another pool. -/
def withPool (m : Moment) (pool : Pool) : Moment := { m with pool }

/-- The moment after an event. -/
def step (m : Moment) : Event → Moment
  | .add id group => m.withPool (m.pool.add id group).1
  | .release id how =>
    match m.pool.groups.release id with
    | (groups, none) => m.withPool { m.pool with groups }
    | (groups, some worker) =>
      { m with pool := { m.pool with groups }, leaving := m.leaving ++ [⟨worker, id, how⟩] }
  | .send index =>
    match m.leaving[index]? with
    | none => m
    | some d => { m with pool := m.pool.send d.request, leaving := m.leaving.eraseIdx index }
  | .apply worker =>
    if m.ticking.contains worker then m
    else m.withPool (m.pool.modifyWorker worker Worker.applyNext)
  | .begin worker =>
    if m.ticking.contains worker then m else { m with ticking := worker :: m.ticking }
  | .force worker id =>
    if m.ticking.contains worker && (m.pool.sessions worker).contains id then
      m.withPool { m.pool.modifyWorker worker (·.drop id) with
        groups := (m.pool.groups.release id).1 }
    else m
  | .finish worker =>
    if m.ticking.contains worker then
      { m with
        pool := m.pool.modifyWorker worker (·.advance m.pool.quantum)
        ticking := m.ticking.filter (· ≠ worker) }
    else m

/-- The moment after a run of events. -/
def run (m : Moment) (es : List Event) : Moment := es.foldl step m

theorem run_append (m : Moment) (xs ys : List Event) : m.run (xs ++ ys) = (m.run xs).run ys :=
  List.foldl_append

theorem run_cons (m : Moment) (e : Event) (es : List Event) : m.run (e :: es) = (m.step e).run es :=
  rfl

/-! ## What holds of every moment -/

/-- The scheduler runs, its books are sound and know of as many workers as there are, and so are the
workers. -/
structure Sound (m : Moment) : Prop where
  running : m.pool.running = true
  groups : m.pool.groups.Sound
  loads : m.pool.groups.loads.length = m.pool.workers.length
  workers : ∀ w ∈ m.pool.workers, w.Sound

theorem Sound.start (threads : Nat) (quantum : UInt64) : (Moment.start threads quantum).Sound where
  running := rfl
  groups := Callgroups.Sound.start threads
  loads := by
    simp [Moment.start, Pool.start, Callgroups.start]
  workers := by
    intro w hw
    rw [Moment.start, Pool.start, List.mem_replicate] at hw
    rw [hw.2]
    exact Worker.Sound.start

/-- Whatever happens to the workers, the books know of as many as there are. -/
theorem Sound.withPool {m : Moment} (h : m.Sound) (f : Worker → Worker)
    (hf : ∀ w, w.Sound → (f w).Sound) (i : Nat) {groups : Callgroups}
    (hgroups : groups.Sound) (hloads : groups.loads.length = m.pool.groups.loads.length)
    (leaving : List Departure) (ticking : List Nat) :
    Sound ⟨{ m.pool.modifyWorker i f with groups }, leaving, ticking⟩ where
  running := h.running
  groups := hgroups
  loads := by
    rw [hloads, h.loads]
    exact (List.length_modify _ _ _).symm
  workers := Pool.forall_modifyWorker h.workers hf i

theorem Sound.step {m : Moment} (h : m.Sound) (e : Event) : (m.step e).Sound := by
  cases e with
  | add id group =>
    rw [Moment.step, Pool.add_eq h.running]
    exact h.withPool (·.enqueue (.insert id)) (fun w hw => ⟨hw.1, hw.2⟩) _
      (h.groups.assign id group)
      (Callgroups.length_loads_assign _ _ _) _ _
  | release id how =>
    have hgroups := h.groups.release id
    have hloads := Callgroups.length_loads_release h.groups id
    rw [Moment.step]
    rcases hr : m.pool.groups.release id with ⟨groups, _ | worker⟩ <;> rw [hr] at hgroups hloads
    all_goals exact ⟨h.running, hgroups, hloads.trans h.loads, h.workers⟩
  | send index =>
    rw [Moment.step]
    split
    · exact h
    · rw [Pool.send_eq h.running]
      exact h.withPool (·.enqueue _) (fun w hw => ⟨hw.1, hw.2⟩) _ h.groups rfl _ _
  | apply worker =>
    rw [Moment.step]
    split
    · exact h
    · exact h.withPool _ (fun w hw => hw.applyNext) _ h.groups rfl _ _
  | begin worker =>
    rw [Moment.step]
    split
    · exact h
    · exact ⟨h.running, h.groups, h.loads, h.workers⟩
  | force worker id =>
    rw [Moment.step]
    split
    · exact h.withPool (·.drop id) (fun w hw => hw.drop id) _ (h.groups.release id)
        (Callgroups.length_loads_release h.groups id) _ _
    · exact h
  | finish worker =>
    rw [Moment.step]
    split
    · exact h.withPool (·.advance _) (fun w hw => ⟨hw.1, hw.2⟩) _ h.groups rfl _ _
    · exact h

theorem Sound.run {m : Moment} (h : m.Sound) (es : List Event) : (m.run es).Sound := by
  induction es generalizing m with
  | nil => exact h
  | cons e es ih => exact ih (h.step e)

/-- An insertion of a session that is added waits for the worker that it was given, behind whatever
else waits. -/
theorem sessions_queue_add {m : Moment} (h : m.Sound) (id : SessionId) (group : String) (i : Nat) :
    (m.step (.add id group)).pool.sessions i = m.pool.sessions i ∧
      (m.step (.add id group)).pool.queue i =
        if (m.pool.groups.assign id group).2 = i then m.pool.queue i ++ [.insert id]
        else m.pool.queue i := by
  let worker := (m.pool.groups.assign id group).2
  have hlt : worker < m.pool.workers.length := by
    rw [← h.loads]
    exact Callgroups.worker_assign_lt h.groups id group
  have hpool : (m.step (.add id group)).pool =
      { m.pool.modifyWorker worker (·.enqueue (.insert id)) with
        groups := (m.pool.groups.assign id group).1 } := Pool.add_eq h.running id group
  rw [hpool]
  exact ⟨Pool.sessions_modifyWorker m.pool worker i fun w => rfl,
    Pool.queue_enqueue hlt (.insert id) i⟩

/-- What a good step preserves holds throughout a run of good steps. -/
theorem forall_prefix {P : Moment → Prop} {Good : Moment → Event → Prop} {m : Moment}
    {es : List Event} (h : m.Sound) (hm : P m)
    (hstep : ∀ (m : Moment) (e : Event), e ∈ es → m.Sound → P m → Good m e → P (m.step e))
    (hgood : ∀ before e, before ++ [e] <+: es → Good (m.run before) e) {before : List Event}
    (hes : before <+: es) : P (m.run before) := by
  induction before using List.reverseRecOn with
  | nil => exact hm
  | append_singleton before e ih =>
    have hmem : e ∈ es := hes.subset (List.mem_append_right _ (List.mem_singleton_self _))
    have hbefore := ih ((List.prefix_append before [e]).trans hes)
    rw [run_append]
    exact hstep _ e hmem (h.run before) hbefore (hgood before e hes)

/-- What every step preserves unless it is a bad one holds throughout a run if and only if no step
of the run is bad. -/
theorem forall_prefix_iff {P : Moment → Prop} {Bad : Moment → Event → Prop} {m : Moment}
    {es : List Event} (h : m.Sound) (hm : P m)
    (hstep : ∀ (m : Moment) (e : Event), e ∈ es → m.Sound → P m → (P (m.step e) ↔ ¬ Bad m e)) :
    (∀ before, before <+: es → P (m.run before)) ↔
      ∀ before e, before ++ [e] <+: es → ¬ Bad (m.run before) e := by
  constructor
  · intro hall before e hes
    have hmem : e ∈ es := hes.subset (List.mem_append_right _ (List.mem_singleton_self _))
    have hbefore := hall before ((List.prefix_append before [e]).trans hes)
    have hafter := hall (before ++ [e]) hes
    rw [run_append] at hafter
    exact (hstep _ e hmem (h.run before) hbefore).1 hafter
  · intro hbad before hes
    exact forall_prefix h hm (fun m e hmem hs hp hok => (hstep m e hmem hs hp).2 hok) hbad hes

/-- A detachment is its two steps, one right after the other. -/
theorem run_detach {m : Moment} (hleaving : m.leaving = []) (id : SessionId)
    (how : Detachment) :
    m.run [.release id how, .send 0] = m.withPool (m.pool.detach id how).1 := by
  rw [run_cons, run_cons, Moment.step, Pool.detach]
  rcases m.pool.groups.release id with ⟨groups, _ | worker⟩
  · simp only [withPool, hleaving, Moment.step, List.getElem?_nil]
    rfl
  · simp only [hleaving, Moment.step, List.nil_append, List.getElem?_cons_zero, withPool]
    rfl

end Moment

end CallBridge.Scheduler
