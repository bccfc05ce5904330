import CallBridge.Proofs.Scheduler.Interleaving

/-!
# Callgroups on one worker

A callgroup is colocated if the sessions of it that are driven are all driven by one worker. Its
worker is forgotten with its last member, while that member is still driven, or even waits to be
taken up: the worker comes to know of the detachment later. A session that comes in between may be
given to another worker.

A session may be driven by a worker if it is in the list of the worker, or if an insertion of it
waits there. That a later request would take it away again does not count, since in between it is
driven all the same. Every session that may be driven is driven once its worker has applied just
enough requests, and no other worker has to do anything for that. So callgroups stay colocated as
long as, and no longer than, each callgroup has one worker by which its sessions may be driven.

Results:
* `mayDrive_add`, `mayDrive_of_step`: only a session that is added comes to a worker.
* `exists_driven`: what may be driven is driven after some requests were applied.
* `colocated_iff_no_split`: in a run callgroups are colocated throughout if and only if no session
  is added to one worker while a session of its callgroup may be driven by another.
* `colocated_of_none_departing`: it is enough that no session is added to a callgroup while a
  session of that callgroup is on its way out.
-/

namespace CallBridge.Scheduler

/-! ## Sessions that may be driven -/

/-- Whether a worker drives a session or will, if it applies just enough of the requests that
wait. -/
def Worker.mayDrive (w : Worker) (id : SessionId) : Prop :=
  id ∈ w.sessions ∨ .insert id ∈ w.queue

/-- Applying a request takes a session up only if the request says so. -/
theorem Worker.mem_of_mem_applied {w : Worker} {r : Request} {id : SessionId}
    (h : id ∈ (w.applied r).sessions) : id ∈ w.sessions ∨ r = .insert id := by
  cases r with
  | insert other =>
    rw [applied] at h
    split at h
    · exact .inl h
    · rcases List.mem_append.1 h with h | h
      · exact .inl h
      · rw [List.mem_singleton.1 h]
        exact .inr rfl
  | detach other how => exact .inl (List.mem_of_mem_erase h)

theorem Worker.mem_applied_insert (w : Worker) (id : SessionId) :
    id ∈ (w.applied (.insert id)).sessions := by
  rw [applied]
  split
  · next h => exact List.contains_iff_mem.1 h
  · exact List.mem_append_right _ (List.mem_singleton_self id)

theorem Worker.mayDrive_of_applyNext {w : Worker} {id : SessionId}
    (h : w.applyNext.mayDrive id) : w.mayDrive id := by
  unfold applyNext at h
  split at h
  · exact h
  · next r rest hq =>
    rw [mayDrive, hq]
    rcases h with h | h
    · rcases mem_of_mem_applied h with h | rfl
      · exact .inl h
      · exact .inr List.mem_cons_self
    · rw [queue_applied] at h
      exact .inr (List.mem_cons_of_mem _ h)

/-- A worker that may drive a session and does not has a request to apply, and goes on to be one
that may. -/
theorem Worker.mayDrive_applyNext {w : Worker} {id : SessionId} (h : w.mayDrive id)
    (hid : id ∉ w.sessions) : w.queue ≠ [] ∧ w.applyNext.mayDrive id := by
  have hqueued : .insert id ∈ w.queue := h.resolve_left hid
  refine ⟨List.ne_nil_of_mem hqueued, ?_⟩
  unfold applyNext
  split
  · exact h
  · next r rest hq =>
    rw [hq] at hqueued
    rcases List.mem_cons.1 hqueued with rfl | hlater
    · exact .inl (mem_applied_insert _ id)
    · rw [mayDrive, queue_applied]
      exact .inr hlater

/-- Whether a worker of a pool may drive a session. -/
def Pool.mayDrive (p : Pool) (i : Nat) (id : SessionId) : Prop :=
  id ∈ p.sessions i ∨ .insert id ∈ p.queue i

theorem Pool.mayDrive_iff_worker {p : Pool} {i : Nat} {w : Worker} (h : p.workers[i]? = some w)
    (id : SessionId) : p.mayDrive i id ↔ w.mayDrive id := by
  obtain ⟨hsessions, hqueue, -⟩ := sessions_queue_modifyWorker_self h fun w => w
  rw [mayDrive, hsessions, hqueue, Worker.mayDrive]

/-- A change that brings no session to a worker brings none to the pool. -/
theorem Pool.mayDrive_of_modifyWorker {p : Pool} {f : Worker → Worker} {id : SessionId}
    (hf : ∀ w : Worker, (f w).mayDrive id → w.mayDrive id) {i j : Nat}
    (h : (p.modifyWorker i f).mayDrive j id) : p.mayDrive j id := by
  by_cases hij : i = j
  · subst hij
    cases hw : p.workers[i]? with
    | none =>
      rw [(sessions_queue_of_none hw f).2.2] at h
      exact h
    | some w =>
      have hafter : (p.modifyWorker i f).workers[i]? = some (f w) := by
        rw [getElem?_modifyWorker, if_pos rfl, hw]
        rfl
      rw [mayDrive_iff_worker hw]
      exact hf w ((mayDrive_iff_worker hafter id).1 h)
  · rw [mayDrive, sessions_modifyWorker_ne hij, queue_modifyWorker_ne hij] at h
    exact h

namespace Moment

theorem mayDrive_start (threads : Nat) (quantum : UInt64) (i : Nat) (id : SessionId) :
    ¬ (start threads quantum).pool.mayDrive i id := by
  cases hw : (start threads quantum).pool.workers[i]? with
  | none =>
    obtain ⟨hsessions, hqueue, -⟩ := Pool.sessions_queue_of_none hw fun w => w
    rw [Pool.mayDrive, hsessions, hqueue]
    simp
  | some w =>
    have hstart : w = Worker.start := List.eq_of_mem_replicate (List.mem_of_getElem? hw)
    rw [Pool.mayDrive_iff_worker hw, hstart]
    simp [Worker.mayDrive, Worker.start]

/-! ## What each step does to them -/

/-- A session that is added may be driven by the worker that it was given. Nothing else changes. -/
theorem mayDrive_add {m : Moment} (h : m.Sound) (id : SessionId) (group : String) (i : Nat)
    (other : SessionId) :
    (m.step (.add id group)).pool.mayDrive i other ↔
      m.pool.mayDrive i other ∨ i = (m.pool.groups.assign id group).2 ∧ other = id := by
  obtain ⟨hsessions, hqueue⟩ := sessions_queue_add h id group i
  rw [Pool.mayDrive, hsessions, hqueue, Pool.mayDrive]
  by_cases hi : i = (m.pool.groups.assign id group).2
  · rw [if_pos hi.symm, List.mem_append, List.mem_singleton, Request.insert.injEq, ← or_assoc,
      ← hi]
    simp only [true_and]
  · rw [if_neg (Ne.symm hi)]
    exact ⟨.inl, fun hm => hm.resolve_right fun hnew => hi hnew.1⟩

/-- No other step brings a session to a worker. -/
theorem mayDrive_of_step {m : Moment} (h : m.Sound) {e : Event} (he : ∀ id group, e ≠ .add id group)
    {i : Nat} {id : SessionId} (hm : (m.step e).pool.mayDrive i id) : m.pool.mayDrive i id := by
  cases e with
  | add other group => exact absurd rfl (he other group)
  | release other how =>
    rw [Moment.step] at hm
    split at hm <;> exact hm
  | send index =>
    rw [Moment.step] at hm
    split at hm
    · exact hm
    · next d _ =>
      rw [Pool.send_eq h.running] at hm
      refine Pool.mayDrive_of_modifyWorker (fun w hw => ?_) hm
      have hother : .insert id ∈ w.queue ++ [.detach d.id d.how] → .insert id ∈ w.queue := by simp
      exact hw.imp_right hother
  | apply worker =>
    rw [Moment.step] at hm
    split at hm
    · exact hm
    · exact Pool.mayDrive_of_modifyWorker (fun w hw => Worker.mayDrive_of_applyNext hw) hm
  | begin worker =>
    rw [Moment.step] at hm
    split at hm <;> exact hm
  | force worker other =>
    rw [Moment.step] at hm
    split at hm
    · refine Pool.mayDrive_of_modifyWorker (p := m.pool) (f := (·.drop other)) (fun w hw => ?_) hm
      exact hw.imp_left List.mem_of_mem_erase
    · exact hm
  | finish worker =>
    rw [Moment.step] at hm
    split at hm
    · exact Pool.mayDrive_of_modifyWorker (f := (·.advance m.pool.quantum)) (fun w hw => hw) hm
    · exact hm

/-- Other steps forget at most one session. -/
theorem groups_step {m : Moment} (h : m.Sound) {e : Event} (he : ∀ id group, e ≠ .add id group) :
    (m.step e).pool.groups = m.pool.groups ∨
      ∃ id, (m.step e).pool.groups = (m.pool.groups.release id).1 := by
  cases e with
  | add id group => exact absurd rfl (he id group)
  | release id how =>
    refine .inr ⟨id, ?_⟩
    rw [Moment.step]
    split
    · next hr =>
      rw [hr]
      rfl
    · next hr => rw [hr]
  | send index =>
    rw [Moment.step]
    split
    · exact .inl rfl
    · rw [Pool.send_eq h.running]
      exact .inl rfl
  | apply worker =>
    rw [Moment.step]
    split <;> exact .inl rfl
  | begin worker =>
    rw [Moment.step]
    split <;> exact .inl rfl
  | force worker id =>
    rw [Moment.step]
    split
    · exact .inr ⟨id, rfl⟩
    · exact .inl rfl
  | finish worker =>
    rw [Moment.step]
    split <;> exact .inl rfl

/-! ## Who may be driven is driven -/

/-- What a worker does at the end of a tick and with its requests leaves the other workers alone. -/
theorem sessions_queue_run_elsewhere (m : Moment) {i j : Nat} (hij : i ≠ j) {es : List Event}
    (hes : ∀ e ∈ es, e = .apply i ∨ e = .finish i) :
    (m.run es).pool.sessions j = m.pool.sessions j ∧ (m.run es).pool.queue j = m.pool.queue j := by
  induction es generalizing m with
  | nil => exact ⟨rfl, rfl⟩
  | cons e es ih =>
    have hfirst : (m.step e).pool.sessions j = m.pool.sessions j ∧
        (m.step e).pool.queue j = m.pool.queue j := by
      rcases hes e List.mem_cons_self with rfl | rfl <;> rw [Moment.step] <;> split
      · exact ⟨rfl, rfl⟩
      · exact ⟨Pool.sessions_modifyWorker_ne hij _, Pool.queue_modifyWorker_ne hij _⟩
      · exact ⟨Pool.sessions_modifyWorker_ne hij _, Pool.queue_modifyWorker_ne hij _⟩
      · exact ⟨rfl, rfl⟩
    obtain ⟨hsessions, hqueue⟩ := ih (m.step e) fun x hx => hes x (List.mem_cons_of_mem e hx)
    exact ⟨hsessions.trans hfirst.1, hqueue.trans hfirst.2⟩

theorem exists_driven_of_idle {m : Moment} {i : Nat} {id : SessionId}
    (hidle : m.ticking.contains i = false) (h : m.pool.mayDrive i id) :
    ∃ es, (∀ e ∈ es, e = .apply i ∨ e = .finish i) ∧ id ∈ (m.run es).pool.sessions i := by
  induction hn : (m.pool.queue i).length using Nat.strongRecOn generalizing m with
  | ind n ih =>
    by_cases hid : id ∈ m.pool.sessions i
    · exact ⟨[], by simp, hid⟩
    · cases hw : m.pool.workers[i]? with
      | none =>
        obtain ⟨hsessions, hqueue, -⟩ := Pool.sessions_queue_of_none hw fun w => w
        rw [Pool.mayDrive, hsessions, hqueue] at h
        simp at h
      | some w =>
        obtain ⟨hsessions, hqueue, -, hafter⟩ :=
          Pool.sessions_queue_modifyWorker_self hw Worker.applyNext
        have hstep : m.step (.apply i) = m.withPool (m.pool.modifyWorker i Worker.applyNext) := by
          rw [Moment.step, hidle]
          rfl
        have hnext : (m.pool.modifyWorker i Worker.applyNext).workers[i]? = some w.applyNext := by
          rw [Pool.getElem?_modifyWorker, if_pos rfl, hw]
          rfl
        obtain ⟨hne, hmay⟩ :=
          Worker.mayDrive_applyNext ((Pool.mayDrive_iff_worker hw id).1 h) (hsessions ▸ hid)
        have hshorter : ((m.step (.apply i)).pool.queue i).length < n := by
          rw [← hn, hstep, withPool, hafter, hqueue]
          exact Worker.length_applyNext hne
        have hagain : (m.step (.apply i)).pool.mayDrive i id := by
          rw [hstep]
          exact (Pool.mayDrive_iff_worker hnext id).2 hmay
        obtain ⟨es, hes, hdriven⟩ := ih _ hshorter (hstep ▸ hidle) hagain rfl
        refine ⟨.apply i :: es, fun e he => ?_, hdriven⟩
        rcases List.mem_cons.1 he with rfl | he
        · exact .inl rfl
        · exact hes e he

/-- A session that a worker may drive is driven by it once it has ended its tick and applied some
requests. -/
theorem exists_driven {m : Moment} {i : Nat} {id : SessionId} (h : m.pool.mayDrive i id) :
    ∃ es, (∀ e ∈ es, e = .apply i ∨ e = .finish i) ∧ id ∈ (m.run es).pool.sessions i := by
  have hidle : (m.step (.finish i)).ticking.contains i = false := by
    rw [Moment.step]
    split
    · simp
    · next hnot => exact Bool.eq_false_iff.2 hnot
  have hmay : (m.step (.finish i)).pool.mayDrive i id := by
    rw [Moment.step]
    split
    · have hsessions := Pool.sessions_modifyWorker m.pool i i
        (f := (·.advance m.pool.quantum)) fun w => rfl
      have hqueue := Pool.queue_modifyWorker m.pool i i
        (f := (·.advance m.pool.quantum)) fun w => rfl
      rw [Pool.mayDrive, hsessions, hqueue]
      exact h
    · exact h
  obtain ⟨es, hes, hdriven⟩ := exists_driven_of_idle hidle hmay
  refine ⟨.finish i :: es, fun e he => ?_, hdriven⟩
  rcases List.mem_cons.1 he with rfl | he
  · exact .inr rfl
  · exact hes e he

/-! ## Colocation -/

/-- The sessions of a callgroup that are driven are driven by one worker. Of a session alone: it is
driven by one worker. -/
def Colocated (group : SessionId → String) (m : Moment) : Prop :=
  ∀ i j x y, x ∈ m.pool.sessions i → y ∈ m.pool.sessions j → group x = group y → i = j

/-- The sessions of a callgroup that may be driven may be driven by one worker only. -/
def Together (group : SessionId → String) (m : Moment) : Prop :=
  ∀ i j x y, m.pool.mayDrive i x → m.pool.mayDrive j y → group x = group y → i = j

/-- The step gives a session to one worker while a session of its callgroup may be driven by
another. -/
def Splits (group : SessionId → String) (m : Moment) : Event → Prop
  | .add id name => ∃ j y, m.pool.mayDrive j y ∧ group y = name ∧
      j ≠ (m.pool.groups.assign id name).2
  | _ => False

theorem Together.colocated {group : SessionId → String} {m : Moment} (h : m.Together group) :
    m.Colocated group :=
  fun i j x y hx hy hxy => h i j x y (.inl hx) (.inl hy) hxy

theorem together_start (threads : Nat) (quantum : UInt64) (group : SessionId → String) :
    (start threads quantum).Together group :=
  fun i _ x _ hx _ _ => absurd hx (mayDrive_start threads quantum i x)

/-- A step keeps callgroups together unless it splits one. -/
theorem together_step_iff {m : Moment} (h : m.Sound) {group : SessionId → String}
    (ht : m.Together group) {e : Event} (he : ∀ id name, e = .add id name → group id = name) :
    (m.step e).Together group ↔ ¬ m.Splits group e := by
  by_cases hadd : ∃ id name, e = .add id name
  · obtain ⟨id, name, rfl⟩ := hadd
    have hname : group id = name := he id name rfl
    constructor
    · rintro hafter ⟨j, y, hy, hgroup, hj⟩
      refine hj (hafter j _ y id ?_ ?_ (hgroup.trans hname.symm))
      · exact (mayDrive_add h id name j y).2 (.inl hy)
      · exact (mayDrive_add h id name _ id).2 (.inr ⟨rfl, rfl⟩)
    · intro hsplit
      -- the worker of the session that came is that of every other session of its callgroup
      have hother : ∀ j y, m.pool.mayDrive j y → group y = group id →
          j = (m.pool.groups.assign id name).2 := by
        intro j y hy hgroup
        exact Classical.byContradiction fun hj => hsplit ⟨j, y, hy, hgroup.trans hname, hj⟩
      intro i j x y hx hy hxy
      rcases (mayDrive_add h id name i x).1 hx with hx | ⟨hi, hxid⟩ <;>
        rcases (mayDrive_add h id name j y).1 hy with hy | ⟨hj, hyid⟩
      · exact ht i j x y hx hy hxy
      · exact (hother i x hx (hxy.trans (congrArg group hyid))).trans hj.symm
      · exact hi.trans (hother j y hy (hxy.symm.trans (congrArg group hxid))).symm
      · exact hi.trans hj.symm
  · have hnot : ∀ id name, e ≠ .add id name := fun id name h => hadd ⟨id, name, h⟩
    have hsplit : ¬ m.Splits group e := by
      cases e with
      | add id name => exact absurd rfl (hnot id name)
      | _ => exact fun h => h
    refine ⟨fun _ => hsplit, fun _ i j x y hx hy => ?_⟩
    exact ht i j x y (mayDrive_of_step h hnot hx) (mayDrive_of_step h hnot hy)

/-- Callgroups are together if they are colocated whatever of what is under way is done. -/
theorem together_iff_colocated {m : Moment} (h : m.Sound) (group : SessionId → String) :
    m.Together group ↔ ∀ settling, (∀ e ∈ settling, Event.isSettling e = true) →
      (m.run settling).Colocated group := by
  constructor
  · intro ht settling hsettling
    suffices hrun : (m.run settling).Together group from hrun.colocated
    induction settling generalizing m with
    | nil => exact ht
    | cons e settling ih =>
      have hnot : ∀ id name, e ≠ .add id name := by
        rintro id name rfl
        cases hsettling _ List.mem_cons_self
      have hstep : (m.step e).Together group := fun i j x y hx hy =>
        ht i j x y (mayDrive_of_step h hnot hx) (mayDrive_of_step h hnot hy)
      exact ih (h.step e) hstep fun x hx => hsettling x (List.mem_cons_of_mem e hx)
  · intro hall i j x y hx hy hxy
    refine Classical.byContradiction fun hij => ?_
    -- each of the two workers comes to drive its session without the other
    obtain ⟨xs, hxs, hdrivenx⟩ := exists_driven hx
    have hsame := sessions_queue_run_elsewhere m hij hxs
    have hy' : (m.run xs).pool.mayDrive j y := by
      rw [Pool.mayDrive, hsame.1, hsame.2]
      exact hy
    obtain ⟨ys, hys, hdriveny⟩ := exists_driven hy'
    have hkept := (sessions_queue_run_elsewhere (m.run xs) (Ne.symm hij) hys).1
    have hsettling : ∀ e ∈ xs ++ ys, Event.isSettling e = true := by
      intro e he
      rcases List.mem_append.1 he with he | he
      · rcases hxs e he with rfl | rfl <;> rfl
      · rcases hys e he with rfl | rfl <;> rfl
    have hcolocated := hall (xs ++ ys) hsettling
    rw [run_append] at hcolocated
    exact hij (hcolocated i j x y (hkept ▸ hdrivenx) hdriveny hxy)

/-- **Main theorem**: in a run in which every session comes to one callgroup only, callgroups are
colocated at every moment if and only if no step splits one. -/
theorem colocated_iff_no_split (threads : Nat) (quantum : UInt64) (group : SessionId → String)
    {es : List Event} (hes : ∀ id name, Event.add id name ∈ es → group id = name) :
    (∀ before, before <+: es → ∀ settling, (∀ e ∈ settling, Event.isSettling e = true) →
        ((start threads quantum).run (before ++ settling)).Colocated group) ↔
      ∀ before e, before ++ [e] <+: es → ¬ ((start threads quantum).run before).Splits group e := by
  have hstep : ∀ (m : Moment) (e : Event), e ∈ es → m.Sound → m.Together group →
      ((m.step e).Together group ↔ ¬ m.Splits group e) := by
    intro m e he h ht
    exact together_step_iff h ht fun id name hadd => hes id name (hadd ▸ he)
  rw [← forall_prefix_iff (Sound.start threads quantum) (together_start threads quantum group)
    hstep]
  refine forall_congr' fun before => imp_congr_right fun _ => ?_
  rw [together_iff_colocated ((Sound.start threads quantum).run before)]
  simp only [run_append]

/-- Two sessions of a callgroup on two workers: the first was detached, its callgroup forgotten and
the worker given another callgroup, and then the second came before the first was let go of. -/
example : ¬ ((start 2 32).run
    [.add ⟨"s"⟩ "g", .apply 0, .release ⟨"s"⟩ .remove, .add ⟨"x"⟩ "h", .add ⟨"t"⟩ "g",
      .apply 1]).Colocated fun id => if id = ⟨"x"⟩ then "h" else "g" := by
  intro h
  exact absurd (h 0 1 ⟨"s"⟩ ⟨"t"⟩ (by decide) (by decide) rfl) (by decide)

/-! ## Sessions on their way out -/

/-- A session of the callgroup may be driven although it was forgotten. -/
def Departing (group : SessionId → String) (m : Moment) (name : String) : Prop :=
  ∃ j y, m.pool.mayDrive j y ∧ group y = name ∧ m.pool.contains y = false

/-- Every session is known under its callgroup if at all, and then may be driven at home only. -/
structure Rooted (group : SessionId → String) (m : Moment) : Prop where
  named : ∀ y name, m.pool.groups.groupOf.lookup y = some name → name = group y
  home : ∀ j y, m.pool.mayDrive j y → m.pool.contains y = true → m.pool.groups.home y = some j

theorem Rooted.start (threads : Nat) (quantum : UInt64) (group : SessionId → String) :
    (Moment.start threads quantum).Rooted group where
  named := by
    intro y name h
    cases h
  home := fun j y h _ => absurd h (mayDrive_start threads quantum j y)

/-- A session that comes is given the worker by which others of its callgroup may be driven, unless
they are on their way out. -/
theorem Rooted.assign_worker {group : SessionId → String} {m : Moment} (h : m.Rooted group)
    {name : String} (hnone : ¬ m.Departing group name) {j : Nat} {y : SessionId}
    (hy : m.pool.mayDrive j y) (hgroup : group y = name) (id : SessionId) :
    (m.pool.groups.assign id name).2 = j := by
  have hknown : m.pool.contains y = true :=
    (Bool.not_eq_false _).mp fun hforgot => hnone ⟨j, y, hy, hgroup, hforgot⟩
  obtain ⟨n, hn⟩ := Option.isSome_iff_exists.1 hknown
  have hhome := h.home j y hy hknown
  rw [Callgroups.home, hn, Option.bind_some, h.named y n hn, hgroup] at hhome
  exact Callgroups.assign_worker hhome id

/-- Forgetting a session leaves the others where they are. -/
theorem Rooted.forget {group : SessionId → String} {m m' : Moment} (h : m.Rooted group)
    (hsound : m.pool.groups.Sound) {id : SessionId}
    (hgroups : m'.pool.groups = (m.pool.groups.release id).1)
    (hmay : ∀ j y, m'.pool.mayDrive j y → m.pool.mayDrive j y) : m'.Rooted group := by
  have hcontains : ∀ y, m'.pool.contains y = (m.pool.contains y && y ≠ id) := by
    intro y
    rw [Pool.contains, hgroups, Callgroups.contains_release]
    rfl
  refine ⟨fun y name hy => ?_, fun j y hy hknown => ?_⟩
  · rw [hgroups, Callgroups.lookup_groupOf_release] at hy
    split at hy
    · cases hy
    · exact h.named y name hy
  · rw [hcontains, Bool.and_eq_true, decide_eq_true_eq] at hknown
    rw [hgroups, Callgroups.home_release_other hsound hknown.2]
    exact h.home j y (hmay j y hy) hknown.1

/-- A session may come to its callgroup if no session of the callgroup is on its way out. -/
theorem Rooted.add {group : SessionId → String} {m : Moment} (h : m.Rooted group)
    (hsound : m.Sound) {id : SessionId} {name : String} (hname : group id = name)
    (hnone : ¬ m.Departing group name) : (m.step (.add id name)).Rooted group := by
  have hgroups : (m.step (.add id name)).pool.groups = (m.pool.groups.assign id name).1 := by
    rw [Moment.step, Pool.add_eq hsound.running]
    rfl
  refine ⟨fun y n hy => ?_, fun j y hy hknown => ?_⟩
  · rw [hgroups, Callgroups.lookup_groupOf_assign] at hy
    split at hy
    · next hyid =>
      rw [hyid, hname, Option.some.inj hy]
    · exact h.named y n hy
  · have hold := (mayDrive_add hsound id name j y).1 hy
    rw [hgroups]
    by_cases hyid : y = id
    · have hj : (m.pool.groups.assign id name).2 = j := by
        rcases hold with hold | ⟨hj, -⟩
        · exact h.assign_worker hnone hold (hyid ▸ hname) id
        · exact hj.symm
      rw [hyid, Callgroups.home_assign_self, hj]
    · rw [Callgroups.home_assign_other hsound.groups hyid]
      refine h.home j y (hold.resolve_right fun hnew => hyid hnew.2) ?_
      rw [Pool.contains, hgroups, Callgroups.contains_assign_eq, decide_eq_false hyid,
        Bool.or_false] at hknown
      exact hknown

theorem Rooted.step {group : SessionId → String} {m : Moment} (h : m.Rooted group)
    (hsound : m.Sound) {e : Event} (he : ∀ id name, e = .add id name → group id = name)
    (hnone : ∀ id name, e = .add id name → ¬ m.Departing group name) :
    (m.step e).Rooted group := by
  by_cases hadd : ∃ id name, e = .add id name
  · obtain ⟨id, name, rfl⟩ := hadd
    exact h.add hsound (he id name rfl) (hnone id name rfl)
  · have hnot : ∀ id name, e ≠ .add id name := fun id name h => hadd ⟨id, name, h⟩
    have hmay : ∀ j y, (m.step e).pool.mayDrive j y → m.pool.mayDrive j y :=
      fun j y => mayDrive_of_step hsound hnot
    rcases groups_step hsound hnot with hgroups | ⟨id, hgroups⟩
    · refine ⟨fun y name hy => h.named y name (hgroups ▸ hy), fun j y hy hknown => ?_⟩
      rw [Pool.contains, hgroups] at hknown
      rw [hgroups]
      exact h.home j y (hmay j y hy) hknown
    · exact h.forget hsound.groups hgroups hmay

/-- Callgroups are colocated at every moment of a run in which every session comes to one callgroup
only, and none comes to a callgroup of which a session is on its way out. -/
theorem colocated_of_none_departing (threads : Nat) (quantum : UInt64) (group : SessionId → String)
    {es : List Event} (hes : ∀ id name, Event.add id name ∈ es → group id = name)
    (hnone : ∀ before id name, before ++ [.add id name] <+: es →
      ¬ ((start threads quantum).run before).Departing group name)
    {before settling : List Event} (hbefore : before <+: es)
    (hsettling : ∀ e ∈ settling, Event.isSettling e = true) :
    ((start threads quantum).run (before ++ settling)).Colocated group := by
  have hstep : ∀ (m : Moment) (e : Event), e ∈ es → m.Sound → m.Rooted group →
      (∀ id name, e = .add id name → ¬ m.Departing group name) → (m.step e).Rooted group :=
    fun m e hmem hsound h => h.step hsound fun id name hadd => hes id name (hadd ▸ hmem)
  have hgood : ∀ before e, before ++ [e] <+: es →
      ∀ id name, e = .add id name →
        ¬ ((start threads quantum).run before).Departing group name := by
    rintro before e hprefix id name rfl
    exact hnone before id name hprefix
  have hrooted : ∀ {before}, before <+: es → ((start threads quantum).run before).Rooted group :=
    fun hprefix => forall_prefix (Sound.start threads quantum)
      (Rooted.start threads quantum group) hstep hgood hprefix
  refine (colocated_iff_no_split threads quantum group hes).2 ?_ before hbefore settling hsettling
  rintro before e hprefix hsplit
  cases e with
  | add id name =>
    obtain ⟨j, y, hy, hgroup, hj⟩ := hsplit
    have hrun := hrooted ((List.prefix_append before _).trans hprefix)
    exact hj (hrun.assign_worker (hnone before id name hprefix) hy hgroup id).symm
  | _ => exact hsplit

end Moment

end CallBridge.Scheduler
