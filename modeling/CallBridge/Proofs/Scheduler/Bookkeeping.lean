import CallBridge.Proofs.Scheduler.Interleaving

/-!
# The books of the scheduler

A session is due on a worker if it will be driven there once the worker has applied the requests
that wait and those of the detachments under way. The books agree with the workers if every session
is due on its home and nowhere else. When everything has come to rest, that is the session lists
themselves.

Three steps break the agreement, and no others do. A session is added while it is at home on another
worker, where nobody will ever detach it. It is added to a worker that is still to be told of an
earlier detachment, which then hits the session that was just added. And it is forced off a worker
while an insertion of it is due, there or on its new home, so that it is forgotten but comes back.

Results:
* `agrees_step_iff`: from books that agree, a step leads to books that agree unless it is one of the
  three.
* `exists_rest`: whatever is under way can come to rest without any further request.
* `balanced_iff_no_clash`: in a run the books are right whenever everything comes to rest if and
  only if none of the three happens.
-/

namespace CallBridge.Scheduler

/-! ## Sessions that are due -/

/-- Whether a session is driven after a request was applied. -/
def Request.settle (id : SessionId) (driven : Bool) : Request → Bool
  | .insert other => driven || other = id
  | .detach other _ => driven && other ≠ id

/-- Whether a session is driven after requests were applied one after the other. -/
def settle (id : SessionId) (driven : Bool) (requests : List Request) : Bool :=
  requests.foldl (Request.settle id) driven

theorem settle_concat (id : SessionId) (driven : Bool) (requests : List Request) (r : Request) :
    settle id driven (requests ++ [r]) = r.settle id (settle id driven requests) := by
  rw [settle, List.foldl_append]
  rfl

/-- Applying a request does to the list of driven sessions what is said of it. -/
theorem contains_applied {w : Worker} (h : w.sessions.Nodup) (r : Request) (id : SessionId) :
    (w.applied r).sessions.contains id = r.settle id (w.sessions.contains id) := by
  rw [Bool.eq_iff_iff]
  cases r with
  | insert other =>
    simp only [Worker.applied, Request.settle, Bool.or_eq_true, decide_eq_true_eq,
      List.contains_iff_mem]
    split
    · next hm => exact ⟨.inl, fun hd => hd.elim (fun hin => hin) fun e => e ▸ hm⟩
    · rw [List.mem_append, List.mem_singleton, eq_comm]
  | detach other how =>
    simp only [Worker.applied, Request.settle, Bool.and_eq_true, decide_eq_true_eq,
      List.contains_iff_mem]
    rw [h.mem_erase_iff, and_comm, ne_comm]

/-- A worker that applied the first request that waits goes on to drive the same sessions. -/
theorem settle_applyNext {w : Worker} (h : w.sessions.Nodup) (id : SessionId) :
    settle id (w.applyNext.sessions.contains id) w.applyNext.queue =
      settle id (w.sessions.contains id) w.queue := by
  unfold Worker.applyNext
  split
  · rfl
  · next r rest hq =>
    have hqueue : (Worker.applied { w with queue := rest } r).queue = rest :=
      Worker.queue_applied _ r
    rw [contains_applied (w := { w with queue := rest }) h r id, hqueue, hq]
    rfl

namespace Moment

/-- Whether a detachment of a session from a worker is between its two steps. -/
def isLeaving (m : Moment) (i : Nat) (id : SessionId) : Bool :=
  m.leaving.any fun d => d.worker = i && d.id = id

/-- Whether a worker will drive a session once it has applied all that waits and is under way. -/
def due (m : Moment) (i : Nat) (id : SessionId) : Bool :=
  settle id ((m.pool.sessions i).contains id) (m.pool.queue i) && !m.isLeaving i id

/-- The books agree with the workers: every session is due on its home and nowhere else. -/
def Agrees (m : Moment) : Prop := ∀ i id, m.due i id = true ↔ m.pool.groups.home id = some i

/-! ## What each step does to the sessions that are due -/

theorem due_of_none {m : Moment} {i : Nat} (h : m.pool.workers[i]? = none) (id : SessionId) :
    m.due i id = false := by
  obtain ⟨hsessions, hqueue, -⟩ := Pool.sessions_queue_of_none h fun w => w
  rw [due, hsessions, hqueue]
  rfl

/-- What is due on a worker depends on its sessions, on the requests that wait for it, and on the
detachments under way. -/
theorem due_congr {m m' : Moment} {i : Nat} {id : SessionId}
    (hsessions : m'.pool.sessions i = m.pool.sessions i) (hqueue : m'.pool.queue i = m.pool.queue i)
    (hleaving : m'.isLeaving i id = m.isLeaving i id) : m'.due i id = m.due i id := by
  rw [due, due, hsessions, hqueue, hleaving]

/-- A session that is added is due on the worker that it was given, unless that worker is still to
be told of an earlier detachment. Nothing else changes. -/
theorem due_add {m : Moment} (h : m.Sound) (id : SessionId) (group : String) (i : Nat)
    (other : SessionId) :
    (m.step (.add id group)).due i other =
      if i = (m.pool.groups.assign id group).2 ∧ other = id then !m.isLeaving i id
      else m.due i other := by
  obtain ⟨hsessions, hqueue⟩ := sessions_queue_add h id group i
  have hleaving : (m.step (.add id group)).isLeaving i other = m.isLeaving i other := rfl
  by_cases hi : i = (m.pool.groups.assign id group).2
  · rw [if_pos hi.symm] at hqueue
    rw [due, due, hsessions, hqueue, hleaving, settle_concat, Request.settle]
    by_cases hother : other = id
    · rw [if_pos ⟨hi, hother⟩, hother]
      simp
    · rw [if_neg fun e => hother e.2]
      simp [Ne.symm hother]
  · rw [if_neg fun e => hi e.1]
    rw [if_neg fun e => hi e.symm] at hqueue
    exact due_congr hsessions hqueue hleaving

/-- A session that is released is no longer due on its home. -/
theorem due_release {m : Moment} (h : m.Sound) (id : SessionId) (how : Detachment) (i : Nat)
    (other : SessionId) :
    (m.step (.release id how)).due i other =
      (m.due i other && !(m.pool.groups.home id = some i && other = id)) := by
  have hworker := Callgroups.release_worker h.groups id
  rw [Moment.step]
  rcases hr : m.pool.groups.release id with ⟨groups, _ | worker⟩ <;> rw [hr] at hworker
  · rw [← hworker]
    exact (Bool.and_true _).symm
  · have hnew : (decide (some worker = some i) && decide (other = id)) =
        (decide (worker = i) && decide (id = other)) := by
      simp [eq_comm]
    rw [← hworker, hnew]
    simp only [due, isLeaving, List.any_append, List.any_cons, List.any_nil, Bool.or_false,
      Bool.not_or, Bool.and_assoc]
    rfl

/-- The elements of a list are the one with an index and the others. -/
theorem any_eraseIdx {α : Type} {xs : List α} {index : Nat} {x : α} (h : xs[index]? = some x)
    (p : α → Bool) : xs.any p = (p x || (xs.eraseIdx index).any p) := by
  induction xs generalizing index with
  | nil => cases h
  | cons y ys ih =>
    cases index with
    | zero =>
      cases h
      rfl
    | succ index =>
      rw [List.getElem?_cons_succ] at h
      rw [List.eraseIdx_cons_succ, List.any_cons, List.any_cons, ih h, Bool.or_left_comm]

/-- Sending the request of a detachment changes nothing about what is due. -/
theorem due_send {m : Moment} (h : m.Sound) (index i : Nat) (id : SessionId) :
    (m.step (.send index)).due i id = m.due i id := by
  rw [Moment.step]
  cases hd : m.leaving[index]? with
  | none => rfl
  | some d =>
    let sent : Moment :=
      { m with pool := m.pool.send d.request, leaving := m.leaving.eraseIdx index }
    have hsent : m.isLeaving i id = ((decide (d.worker = i) && decide (d.id = id)) ||
        sent.isLeaving i id) := any_eraseIdx hd _
    have hpool : sent.pool = m.pool.modifyWorker d.worker (·.enqueue (.detach d.id d.how)) :=
      Pool.send_eq h.running d.request
    have hsessions : sent.pool.sessions i = m.pool.sessions i := by
      rw [hpool]
      exact Pool.sessions_modifyWorker _ _ _ fun w => rfl
    show sent.due i id = m.due i id
    by_cases hi : d.worker = i
    · cases hw : m.pool.workers[i]? with
      | none =>
        have hw' : sent.pool.workers[i]? = none := by
          rw [hpool, Pool.getElem?_modifyWorker, if_pos hi, hw]
          rfl
        rw [due_of_none hw, due_of_none hw']
      | some w =>
        have hlt : d.worker < m.pool.workers.length := by
          rw [hi]
          exact (List.getElem?_eq_some_iff.1 hw).1
        have hqueue : sent.pool.queue i = m.pool.queue i ++ [.detach d.id d.how] := by
          rw [hpool, Pool.queue_enqueue hlt, if_pos hi]
        rw [due, due, hsessions, hqueue, hsent, settle_concat, Request.settle]
        simp only [hi, decide_true, Bool.true_and, Bool.not_or, ne_eq, decide_not, Bool.and_assoc]
    · have hqueue : sent.pool.queue i = m.pool.queue i := by
        rw [hpool]
        exact Pool.queue_modifyWorker_ne hi _
      refine due_congr hsessions hqueue ?_
      rw [hsent, decide_eq_false hi, Bool.false_and, Bool.false_or]

/-- Neither does applying a request that waits. -/
theorem due_apply {m : Moment} (h : m.Sound) (worker i : Nat) (id : SessionId) :
    (m.step (.apply worker)).due i id = m.due i id := by
  rw [Moment.step]
  split
  · rfl
  · cases hw : m.pool.workers[worker]? with
    | none =>
      obtain ⟨-, -, hsame⟩ := Pool.sessions_queue_of_none hw Worker.applyNext
      rw [hsame]
      rfl
    | some w =>
      by_cases hi : worker = i
      · subst hi
        obtain ⟨hsessions, hqueue, hsessions', hqueue'⟩ :=
          Pool.sessions_queue_modifyWorker_self hw Worker.applyNext
        have hnodup : w.sessions.Nodup := (h.workers w (List.mem_of_getElem? hw)).nodup
        have hsettled : settle id (w.applyNext.sessions.contains id) w.applyNext.queue =
            settle id (w.sessions.contains id) w.queue := settle_applyNext hnodup id
        simp only [due, withPool, hsessions, hqueue, hsessions', hqueue', hsettled]
        rfl
      · exact due_congr (Pool.sessions_modifyWorker_ne hi _) (Pool.queue_modifyWorker_ne hi _) rfl

theorem due_begin (m : Moment) (worker i : Nat) (id : SessionId) :
    (m.step (.begin worker)).due i id = m.due i id := by
  rw [Moment.step]
  split <;> rfl

theorem due_finish (m : Moment) (worker i : Nat) (id : SessionId) :
    (m.step (.finish worker)).due i id = m.due i id := by
  rw [Moment.step]
  split
  · exact due_congr (Pool.sessions_modifyWorker _ _ _ fun w => rfl)
      (Pool.queue_modifyWorker _ _ _ fun w => rfl) rfl
  · rfl

/-- Whether a worker that no longer drives a session will take it up again. -/
def isReturning (m : Moment) (i : Nat) (id : SessionId) : Bool :=
  settle id false (m.pool.queue i) && !m.isLeaving i id

/-- Whether a worker is inside a tick and drives a session. -/
def canForce (m : Moment) (worker : Nat) (id : SessionId) : Bool :=
  m.ticking.contains worker && (m.pool.sessions worker).contains id

/-- A session that is forced off is due on its worker only if it is about to be taken up again. -/
theorem due_force {m : Moment} (h : m.Sound) {worker : Nat} {id : SessionId}
    (hforce : m.canForce worker id = true) (i : Nat) (other : SessionId) :
    (m.step (.force worker id)).due i other =
      if i = worker ∧ other = id then m.isReturning i id else m.due i other := by
  have hcontains := (Bool.and_eq_true_iff.1 hforce).2
  rw [canForce] at hforce
  rw [Moment.step, if_pos hforce]
  by_cases hi : worker = i
  · subst hi
    cases hw : m.pool.workers[worker]? with
    | none =>
      obtain ⟨hnil, -, -⟩ := Pool.sessions_queue_of_none hw (·.drop id)
      rw [hnil] at hcontains
      cases hcontains
    | some w =>
      obtain ⟨hsessions, hqueue, hsessions', hqueue'⟩ :=
        Pool.sessions_queue_modifyWorker_self hw (·.drop id)
      have hnodup : w.sessions.Nodup := (h.workers w (List.mem_of_getElem? hw)).nodup
      have hdrop : (w.drop id).sessions.contains other =
          (w.sessions.contains other && !decide (other = id)) := by
        rw [Bool.eq_iff_iff]
        simp only [Worker.drop, Bool.and_eq_true, List.contains_iff_mem, Bool.not_eq_true',
          decide_eq_false_iff_not]
        rw [hnodup.mem_erase_iff, and_comm]
      let forced := m.withPool { m.pool.modifyWorker worker (·.drop id) with
        groups := (m.pool.groups.release id).1 }
      have hsessions'' : forced.pool.sessions worker = (w.drop id).sessions := hsessions'
      have hqueue'' : forced.pool.queue worker = w.queue := hqueue'
      show forced.due worker other = _
      rw [due, due, isReturning, hsessions'', hqueue'', hdrop, hsessions, hqueue]
      by_cases hother : other = id
      · rw [if_pos ⟨rfl, hother⟩, hother, decide_eq_true rfl, Bool.not_true, Bool.and_false]
        rfl
      · rw [if_neg fun e => hother e.2, decide_eq_false hother, Bool.not_false, Bool.and_true]
        rfl
  · rw [if_neg fun e => hi e.1.symm]
    exact due_congr (Pool.sessions_modifyWorker_ne hi _) (Pool.queue_modifyWorker_ne hi _) rfl

/-! ## Steps that break the agreement -/

/-- A step after which the books will be wrong. -/
def Clash (m : Moment) : Event → Prop
  | .add id group =>
    -- added while at home on another worker, or while still to be detached from this one
    (∃ i, m.pool.groups.home id = some i ∧ i ≠ (m.pool.groups.assign id group).2) ∨
      m.isLeaving (m.pool.groups.assign id group).2 id = true
  | .force worker id =>
    -- forced off while at home on another worker, or while about to be taken up again
    m.canForce worker id = true ∧
      ((∃ i, m.pool.groups.home id = some i ∧ i ≠ worker) ∨ m.isReturning worker id = true)
  | _ => False

/-- A step that touches one session keeps the agreement about all others. -/
theorem agrees_iff_self {m m' : Moment} (ha : m.Agrees) (id : SessionId)
    (hdue : ∀ i other, other ≠ id → m'.due i other = m.due i other)
    (hhome : ∀ other, other ≠ id → m'.pool.groups.home other = m.pool.groups.home other) :
    m'.Agrees ↔ ∀ i, m'.due i id = true ↔ m'.pool.groups.home id = some i := by
  constructor
  · exact fun hnew i => hnew i id
  · intro hself i other
    by_cases hother : other = id
    · rw [hother]
      exact hself i
    · rw [hdue i other hother, hhome other hother]
      exact ha i other

theorem agrees_add_iff {m : Moment} (h : m.Sound) (ha : m.Agrees) (id : SessionId)
    (group : String) : (m.step (.add id group)).Agrees ↔ ¬ m.Clash (.add id group) := by
  let worker := (m.pool.groups.assign id group).2
  have hgroups : (m.step (.add id group)).pool.groups = (m.pool.groups.assign id group).1 := by
    rw [Moment.step, Pool.add_eq h.running]
    rfl
  have hhome : (m.step (.add id group)).pool.groups.home id = some worker := by
    rw [hgroups]
    exact Callgroups.home_assign_self _ _ _
  rw [agrees_iff_self ha id
    (fun i other hother => by rw [due_add h, if_neg fun e => hother e.2])
    (fun other hother => by rw [hgroups, Callgroups.home_assign_other h.groups hother]), hhome]
  constructor
  · rintro hself (⟨i, hi, hne⟩ | hleaving)
    · -- the session stays due on its old home
      have hdue : (m.step (.add id group)).due i id = true := by
        rw [due_add h, if_neg fun e => hne e.1]
        exact (ha i id).2 hi
      exact hne (Option.some.inj ((hself i).1 hdue)).symm
    · -- the detachment under way hits the session
      have hdue := (hself worker).2 rfl
      rw [due_add h, if_pos ⟨rfl, rfl⟩, hleaving] at hdue
      cases hdue
  · intro hclash i
    rw [Clash, not_or] at hclash
    obtain ⟨helsewhere, hleaving⟩ := hclash
    rw [due_add h, Option.some.injEq]
    by_cases hi : i = worker
    · have hstays : m.isLeaving worker id = false := by simpa using hleaving
      rw [if_pos ⟨hi, rfl⟩, hi, hstays]
      simp
    · rw [if_neg fun e => hi e.1, ha i id]
      exact ⟨fun e => absurd ⟨i, e, hi⟩ helsewhere, fun e => absurd e.symm hi⟩

theorem agrees_release {m : Moment} (h : m.Sound) (ha : m.Agrees) (id : SessionId)
    (how : Detachment) : (m.step (.release id how)).Agrees := by
  have hgroups : (m.step (.release id how)).pool.groups = (m.pool.groups.release id).1 := by
    rw [Moment.step]
    rcases m.pool.groups.release id with ⟨groups, _ | worker⟩ <;> rfl
  refine (agrees_iff_self ha id (fun i other hother => ?_) fun other hother => ?_).2 fun i => ?_
  · rw [due_release h, decide_eq_false hother, Bool.and_false, Bool.not_false, Bool.and_true]
  · rw [hgroups, Callgroups.home_release_other h.groups hother]
  · rw [due_release h, hgroups, Callgroups.home_release_self h.groups, Bool.and_eq_true, ha i id]
    simp

theorem agrees_force_iff {m : Moment} (h : m.Sound) (ha : m.Agrees) (worker : Nat)
    (id : SessionId) : (m.step (.force worker id)).Agrees ↔ ¬ m.Clash (.force worker id) := by
  by_cases hforce : m.canForce worker id = true
  · have hgroups : (m.step (.force worker id)).pool.groups = (m.pool.groups.release id).1 := by
      rw [canForce] at hforce
      rw [Moment.step, if_pos hforce]
      rfl
    have hhome : (m.step (.force worker id)).pool.groups.home id = none := by
      rw [hgroups]
      exact Callgroups.home_release_self h.groups id
    rw [agrees_iff_self ha id
      (fun i other hother => by rw [due_force h hforce, if_neg fun e => hother e.2])
      (fun other hother => by rw [hgroups, Callgroups.home_release_other h.groups hother]), hhome]
    constructor
    · rintro hself ⟨-, ⟨i, hi, hne⟩ | hreturning⟩
      · -- the session is forgotten, but due on its home
        have hdue : (m.step (.force worker id)).due i id = true := by
          rw [due_force h hforce, if_neg fun e => hne e.1]
          exact (ha i id).2 hi
        cases (hself i).1 hdue
      · -- the session is forgotten, but about to be taken up again
        have hdue : (m.step (.force worker id)).due worker id = true := by
          rw [due_force h hforce, if_pos ⟨rfl, rfl⟩]
          exact hreturning
        cases (hself worker).1 hdue
    · intro hclash i
      rw [Clash, not_and, not_or] at hclash
      obtain ⟨helsewhere, hreturning⟩ := hclash hforce
      rw [due_force h hforce]
      by_cases hi : i = worker
      · rw [if_pos ⟨hi, rfl⟩, hi]
        exact ⟨fun e => absurd e hreturning, fun e => by cases e⟩
      · rw [if_neg fun e => hi e.1, ha i id]
        exact ⟨fun e => absurd ⟨i, e, hi⟩ helsewhere, fun e => by cases e⟩
  · have hstays : m.step (.force worker id) = m := by
      rw [canForce] at hforce
      rw [Moment.step, if_neg hforce]
    rw [hstays]
    exact ⟨fun _ hclash => hforce hclash.1, fun _ => ha⟩

/-- Books that agree still do where neither what is due nor any home changes. -/
theorem agrees_congr {m m' : Moment} (hdue : ∀ i id, m'.due i id = m.due i id)
    (hhome : ∀ id, m'.pool.groups.home id = m.pool.groups.home id) : m'.Agrees ↔ m.Agrees := by
  unfold Agrees
  simp only [hdue, hhome]

/-- What is under way changes nothing about the agreement when it comes to an end. -/
theorem agrees_settling {m : Moment} (h : m.Sound) {e : Event} (he : e.isSettling = true) :
    (m.step e).Agrees ↔ m.Agrees := by
  cases e with
  | send index =>
    refine agrees_congr (due_send h index) fun id => ?_
    rw [Moment.step]
    split
    · rfl
    · rw [Pool.send_eq h.running]
      rfl
  | apply worker =>
    refine agrees_congr (due_apply h worker) fun id => ?_
    rw [Moment.step]
    split <;> rfl
  | finish worker =>
    refine agrees_congr (due_finish m worker) fun id => ?_
    rw [Moment.step]
    split <;> rfl
  | add | release | begin | force => cases he

/-- From books that agree, a step leads to books that agree exactly if it is no clash. -/
theorem agrees_step_iff {m : Moment} (h : m.Sound) (ha : m.Agrees) (e : Event) :
    (m.step e).Agrees ↔ ¬ m.Clash e := by
  cases e with
  | add id group => exact agrees_add_iff h ha id group
  | force worker id => exact agrees_force_iff h ha worker id
  | release id how => exact ⟨fun _ hclash => hclash, fun _ => agrees_release h ha id how⟩
  | send | apply | finish =>
    exact ⟨fun _ hclash => hclash, fun _ => (agrees_settling h rfl).2 ha⟩
  | begin worker =>
    refine ⟨fun _ hclash => hclash, fun _ => (agrees_congr (due_begin m worker) fun id => ?_).2 ha⟩
    rw [Moment.step]
    split <;> rfl

/-! ## Coming to rest -/

/-- No worker is inside a tick, no detachment is between its two steps, and no request waits. -/
structure Quiet (m : Moment) : Prop where
  ticking : m.ticking = []
  leaving : m.leaving = []
  queue : ∀ w ∈ m.pool.workers, w.queue = []

/-- The books are right: a worker drives exactly the sessions that are at home on it. -/
def Balanced (m : Moment) : Prop :=
  ∀ i id, id ∈ m.pool.sessions i ↔ m.pool.groups.home id = some i

/-- At rest, the sessions that are due on a worker are those that it drives. -/
theorem Quiet.agrees_iff {m : Moment} (h : m.Quiet) : m.Agrees ↔ m.Balanced := by
  have hdue : ∀ i id, m.due i id = true ↔ id ∈ m.pool.sessions i := by
    intro i id
    have hqueue : m.pool.queue i = [] := by
      cases hw : m.pool.workers[i]? with
      | none => exact (Pool.sessions_queue_of_none hw fun w => w).2.1
      | some w =>
        rw [(Pool.sessions_queue_modifyWorker_self hw fun w => w).2.1]
        exact h.queue w (List.mem_of_getElem? hw)
    rw [due, isLeaving, h.leaving, hqueue]
    simp [settle]
  unfold Agrees Balanced
  simp only [hdue]

theorem agrees_run_settling {m : Moment} (h : m.Sound) {es : List Event}
    (hes : ∀ e ∈ es, e.isSettling = true) : (m.run es).Agrees ↔ m.Agrees := by
  induction es generalizing m with
  | nil => exact Iff.rfl
  | cons e es ih =>
    have hrest := ih (h.step e) fun x hx => hes x (List.mem_cons_of_mem _ hx)
    exact hrest.trans (agrees_settling h (hes e List.mem_cons_self))

/-- How much is under way. The request of a detachment is still to be sent and to be applied. -/
def load (m : Moment) : Nat := m.ticking.length + 2 * m.leaving.length + m.pool.waiting

/-- The load falls as long as something is under way. -/
theorem exists_settling {m : Moment} (h : m.Sound) (hq : ¬ m.Quiet) :
    ∃ e, e.isSettling = true ∧ (m.step e).load < m.load := by
  cases ht : m.ticking with
  | cons i rest =>
    refine ⟨.finish i, rfl, ?_⟩
    have hcontains : m.ticking.contains i = true := by
      rw [ht]
      simp
    have hshorter : (m.ticking.filter (· ≠ i)).length < m.ticking.length :=
      List.length_filter_lt_length_iff_exists.2 ⟨i, List.contains_iff_mem.1 hcontains, by simp⟩
    have hwaiting : (m.pool.modifyWorker i (·.advance m.pool.quantum)).waiting ≤
        m.pool.waiting + 0 := Pool.waiting_modifyWorker_le _ _ fun w => Nat.le_refl _
    rw [Moment.step, if_pos hcontains]
    simp only [load]
    omega
  | nil =>
    cases hl : m.leaving with
    | cons d rest =>
      refine ⟨.send 0, rfl, ?_⟩
      have hwaiting : (m.pool.modifyWorker d.worker (·.enqueue (.detach d.id d.how))).waiting ≤
          m.pool.waiting + 1 :=
        Pool.waiting_modifyWorker_le _ _ fun w => Nat.le_of_eq List.length_append
      rw [Moment.step, hl]
      simp only [List.getElem?_cons_zero, Pool.send_eq h.running, load, hl, List.length_cons,
        List.eraseIdx_cons_zero]
      exact Nat.lt_of_le_of_lt (Nat.add_le_add_left hwaiting _) (by omega)
    | nil =>
      have hsome : ∃ w ∈ m.pool.workers, w.queue ≠ [] := by
        apply Classical.byContradiction
        intro hnone
        exact hq ⟨ht, hl, fun w hw => Classical.byContradiction fun e => hnone ⟨w, hw, e⟩⟩
      obtain ⟨w, hw, hne⟩ := hsome
      obtain ⟨i, hi⟩ := List.mem_iff_getElem?.1 hw
      refine ⟨.apply i, rfl, ?_⟩
      have hwaiting := Pool.waiting_modifyWorker hi Worker.applyNext
      have hshorter := Worker.length_applyNext hne
      rw [Moment.step, ht]
      simp only [List.contains_nil, Bool.false_eq_true, if_false, load, withPool, ht, hl]
      omega

/-- Whatever is under way can come to rest without any further request. -/
theorem exists_rest {m : Moment} (h : m.Sound) :
    ∃ es, (∀ e ∈ es, Event.isSettling e = true) ∧ (m.run es).Quiet := by
  induction hn : m.load using Nat.strongRecOn generalizing m with
  | ind n ih =>
    by_cases hq : m.Quiet
    · exact ⟨[], by simp, hq⟩
    · obtain ⟨e, he, hlt⟩ := exists_settling h hq
      obtain ⟨es, hes, hrest⟩ := ih _ (hn ▸ hlt) (h.step e) rfl
      refine ⟨e :: es, fun x hx => ?_, hrest⟩
      rcases List.mem_cons.1 hx with rfl | hx
      · exact he
      · exact hes x hx

/-! ## Runs -/

theorem agrees_start (threads : Nat) (quantum : UInt64) : (start threads quantum).Agrees := by
  intro i id
  have hdue : (start threads quantum).due i id = false := by
    cases hw : (start threads quantum).pool.workers[i]? with
    | none => exact due_of_none hw id
    | some w =>
      have hstart : w = Worker.start := List.eq_of_mem_replicate (List.mem_of_getElem? hw)
      obtain ⟨hsessions, hqueue, -⟩ := Pool.sessions_queue_modifyWorker_self hw fun w => w
      rw [due, hsessions, hqueue, hstart]
      rfl
  rw [hdue]
  constructor <;> intro e <;> cases e

/-- The books agree if and only if they are right whenever everything comes to rest. -/
theorem agrees_iff_balanced {m : Moment} (h : m.Sound) :
    m.Agrees ↔ ∀ settling, (∀ e ∈ settling, Event.isSettling e = true) →
      (m.run settling).Quiet → (m.run settling).Balanced := by
  constructor
  · intro ha settling hsettling hq
    exact hq.agrees_iff.1 ((agrees_run_settling h hsettling).2 ha)
  · intro hall
    obtain ⟨settling, hsettling, hq⟩ := exists_rest h
    exact (agrees_run_settling h hsettling).1 (hq.agrees_iff.2 (hall settling hsettling hq))

/-- Without clashes the books agree at every moment of a run. -/
theorem agrees_of_no_clash {m : Moment} (h : m.Sound) (ha : m.Agrees) {before es : List Event}
    (hes : before <+: es)
    (hclash : ∀ xs e, xs ++ [e] <+: es → ¬ (m.run xs).Clash e) : (m.run before).Agrees :=
  (forall_prefix_iff h ha fun _ e _ hm hagrees => agrees_step_iff hm hagrees e).2 hclash before hes

/-- **Main theorem**: the books of a run are right whenever everything comes to rest if and only if
no step of the run clashes. -/
theorem balanced_iff_no_clash (threads : Nat) (quantum : UInt64) (es : List Event) :
    (∀ before, before <+: es → ∀ settling, (∀ e ∈ settling, Event.isSettling e = true) →
        ((start threads quantum).run (before ++ settling)).Quiet →
          ((start threads quantum).run (before ++ settling)).Balanced) ↔
      ∀ before e, before ++ [e] <+: es → ¬ ((start threads quantum).run before).Clash e := by
  have hsound : ∀ before, ((start threads quantum).run before).Sound :=
    (Sound.start threads quantum).run
  have hagrees : ∀ before, (∀ settling, (∀ e ∈ settling, Event.isSettling e = true) →
      ((start threads quantum).run (before ++ settling)).Quiet →
        ((start threads quantum).run (before ++ settling)).Balanced) ↔
      ((start threads quantum).run before).Agrees := by
    intro before
    rw [agrees_iff_balanced (hsound before)]
    simp only [run_append]
  constructor
  · intro hall before e hes
    have hbefore := (hagrees before).1 (hall before ((List.prefix_append before [e]).trans hes))
    have hafter := (hagrees (before ++ [e])).1 (hall _ hes)
    rw [run_append] at hafter
    exact (agrees_step_iff (hsound before) hbefore e).1 hafter
  · intro hclash before hes
    exact (hagrees before).2 (agrees_of_no_clash (Sound.start threads quantum)
      (agrees_start threads quantum) hes hclash)

/-- A session that comes to two callgroups, which two workers have, is driven twice. The first of
the workers can no longer be asked to detach it. -/
theorem not_balanced_of_two_callgroups :
    ((start 2 32).run
        [.add ⟨"s"⟩ "g1", .add ⟨"s"⟩ "g2", .apply 0, .apply 1]).Quiet ∧
      ¬ ((start 2 32).run
        [.add ⟨"s"⟩ "g1", .add ⟨"s"⟩ "g2", .apply 0, .apply 1]).Balanced := by
  refine ⟨⟨by decide, by decide, by decide⟩, fun h => ?_⟩
  have hdriven := h 0 ⟨"s"⟩
  exact absurd (hdriven.1 (by decide)) (by decide)

/-- One callgroup is enough: a session that is removed and comes back while it fails in a tick is
forgotten, and then driven for good. -/
example : ¬ ((start 1 32).run
    [.add ⟨"s"⟩ "g", .apply 0, .begin 0, .release ⟨"s"⟩ .remove, .send 0, .add ⟨"s"⟩ "g",
      .force 0 ⟨"s"⟩, .finish 0, .apply 0, .apply 0]).Balanced := by
  intro h
  have hdriven := h 0 ⟨"s"⟩
  exact absurd (hdriven.1 (by decide)) (by decide)

end Moment

end CallBridge.Scheduler
