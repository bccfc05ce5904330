import CallBridge.Proofs.Scheduler.Loads
import CallBridge.Proofs.Scheduler.Shutdown
import Mathlib.Data.List.Perm.Basic

/-!
# Settling the accounts of sessions

The scheduler keeps an account of every session: how often the workers have it, because they drive
it or are to take it up; how often it was taken and ended, and how often an insertion of it was
discarded; whether it is known, and whether it was taken last. If no session comes twice, what was
taken is with a worker, was ended or was discarded, and what is known or was taken last was not
ended. Workers that have ended have no session any more, so all that can be missing then is what was
discarded.

Results:
* `Accounted.step`, `Accounted.run`: the accounts are good at every moment of a run in which no
  session comes twice.
* `Accounted.settled_iff`: when all workers have ended, every account is settled and the callgroups
  are empty if and only if nothing was discarded.
* `Accounted.not_standing`: without discards, no session was taken last then.
-/

namespace CallBridge.Scheduler

/-! ## What became of a session -/

/-- Whether a session stands taken after some dealings, given whether it did before. -/
def stands (before : Bool) (ds : List Dealing) : Bool := ds.foldl (fun _ d => d = .taken) before

theorem stands_concat (before : Bool) (ds : List Dealing) (d : Dealing) :
    stands before (ds ++ [d]) = decide (d = .taken) := by
  rw [stands, List.foldl_append]
  rfl

/-- How often a worker has a session: driven, or about to be taken up. -/
def Worker.holds (w : Worker) (id : SessionId) : Nat :=
  w.sessions.count id + (insertions w.queue).count id

/-- How often the workers have a session. -/
def Pool.holds (p : Pool) (id : SessionId) : Nat :=
  p.workers.foldr (fun w n => w.holds id + n) 0

theorem Pool.holds_modifyWorker {p : Pool} {i : Nat} {w : Worker} (h : p.workers[i]? = some w)
    (f : Worker → Worker) (id : SessionId) :
    (p.modifyWorker i f).holds id + w.holds id = p.holds id + (f w).holds id :=
  Pool.foldr_modify (·.holds id) h f

theorem Pool.holds_le {p : Pool} {i : Nat} {w : Worker} (h : p.workers[i]? = some w)
    (id : SessionId) : w.holds id ≤ p.holds id := by
  have hsum := Pool.holds_modifyWorker h (fun _ => Worker.start) id
  have hnone : Worker.start.holds id = 0 := rfl
  omega

/-- A change to a worker that leaves alone what it has. -/
theorem Pool.holds_modifyWorker_same {p : Pool} {i : Nat} {f : Worker → Worker} {id : SessionId}
    (hf : ∀ w, p.workers[i]? = some w → (f w).holds id = w.holds id) :
    (p.modifyWorker i f).holds id = p.holds id := by
  cases hw : p.workers[i]? with
  | none => rw [(Pool.sessions_queue_of_none hw f).2.2]
  | some w =>
    have hsum := Pool.holds_modifyWorker hw f id
    rw [hf w hw] at hsum
    omega

theorem insertions_concat (requests : List Request) (r : Request) :
    insertions (requests ++ [r]) = insertions requests ++ insertions [r] := List.filterMap_append

namespace Worker

theorem holds_enqueue_insert (w : Worker) (x id : SessionId) :
    (w.enqueue (.insert x)).holds id = w.holds id + if id = x then 1 else 0 := by
  rw [holds, enqueue, insertions_concat, List.count_append, holds, Nat.add_assoc]
  by_cases hx : id = x
  · simp [insertions, hx]
  · simp [insertions, hx, Ne.symm hx]

theorem holds_enqueue_detach (w : Worker) (x id : SessionId) (how : Detachment) :
    (w.enqueue (.detach x how)).holds id = w.holds id := by
  rw [holds, enqueue, insertions_concat, List.count_append]
  rfl

theorem count_erase (ids : List SessionId) (x id : SessionId) :
    (ids.erase x).count id = ids.count id - if id = x then 1 else 0 := by
  by_cases hx : id = x
  · rw [hx, List.count_erase_self, if_pos rfl]
  · rw [List.count_erase_of_ne hx, if_neg hx, Nat.sub_zero]

theorem holds_pos {w : Worker} {x : SessionId} (hx : x ∈ w.sessions) : 0 < w.holds x :=
  Nat.add_pos_left (List.count_pos_iff.2 hx) _

theorem holds_drop {w : Worker} {x : SessionId} (hx : x ∈ w.sessions) (id : SessionId) :
    (w.drop x).holds id = w.holds id - if id = x then 1 else 0 := by
  have hpos : 0 < w.sessions.count x := List.count_pos_iff.2 hx
  show (w.sessions.erase x).count id + (insertions w.queue).count id =
    w.sessions.count id + (insertions w.queue).count id - _
  rw [count_erase]
  split
  · next he =>
    rw [he]
    omega
  · rfl

theorem holds_shut (w : Worker) (id : SessionId) :
    w.shut.holds id = w.holds id - (insertions w.queue).count id := by
  rw [holds, sessions_shut, queue_shut, holds]
  exact (Nat.add_sub_cancel _ _).symm

/-- Taking up a session that waits changes nothing about what the worker has, unless it drives the
session already. -/
theorem holds_applyNext_insert {w : Worker} {x : SessionId} {rest : List Request}
    (hq : w.queue = .insert x :: rest) (hx : x ∉ w.sessions) (id : SessionId) :
    w.applyNext.holds id = w.holds id := by
  have hnew : w.applyNext = { w with queue := rest }.driving (w.sessions ++ [x]) := by
    have hno : ¬ w.sessions.contains x = true := fun e => hx (List.contains_iff_mem.1 e)
    simp only [applyNext, hq, applied, if_neg hno]
  have hcons : insertions (.insert x :: rest) = x :: insertions rest := rfl
  rw [hnew, holds, holds, hq, hcons]
  simp only [List.count_append, List.count_cons, List.count_nil]
  omega

theorem holds_applyNext_detach {w : Worker} {x : SessionId} {how : Detachment}
    {rest : List Request} (hq : w.queue = .detach x how :: rest) :
    (w.applyNext).holds = (w.drop x).holds := by
  have hcons : insertions (.detach x how :: rest) = insertions rest := rfl
  funext id
  simp only [applyNext, hq, applied, holds, drop, hcons]

end Worker

/-- What the scheduler owes a session: how often the workers have it, how often it was taken and
ended, how often an insertion of it was discarded, whether it is known, and whether it was taken
last. -/
structure Account where
  held : Nat
  taken : Nat
  ended : Nat
  discarded : Nat
  known : Bool
  standing : Bool
deriving DecidableEq, Repr

namespace Account

/-- The account of a session that a worker is to take up. -/
def take (a : Account) : Account :=
  { a with held := a.held + 1, taken := a.taken + 1, known := true, standing := true }

/-- The account of a session that was ended. -/
def finish (a : Account) : Account :=
  { a with held := a.held - 1, ended := a.ended + 1, known := false, standing := false }

/-- The account of a session with some insertions discarded. -/
def discard (a : Account) (n : Nat) : Account :=
  { a with held := a.held - n, discarded := a.discarded + n }

/-- Whatever was taken is with a worker, was ended or was discarded, and what is known or was taken
last was not ended. -/
structure Good (a : Account) : Prop where
  balance : a.held + a.ended + a.discarded = a.taken
  known : a.known = true → 0 < a.held + a.discarded
  standing : a.standing = true → 0 < a.held + a.discarded

theorem Good.take {a : Account} (h : a.Good) : a.take.Good := by
  have hbalance := h.balance
  refine ⟨?_, fun _ => ?_, fun _ => ?_⟩ <;> simp only [Account.take] <;> omega

theorem Good.finish {a : Account} (h : a.Good) (hheld : 0 < a.held) : a.finish.Good := by
  have hbalance := h.balance
  refine ⟨?_, fun e => (by cases e), fun e => (by cases e)⟩
  simp only [Account.finish]
  omega

theorem Good.forget {a : Account} (h : a.Good) : Good { a with known := false } :=
  ⟨h.balance, fun e => (by cases e), h.standing⟩

theorem Good.discard {a : Account} (h : a.Good) {n : Nat} (hn : n ≤ a.held) :
    (a.discard n).Good := by
  obtain ⟨hbalance, hknown, hstanding⟩ := h
  have hsame : a.held - n + (a.discarded + n) = a.held + a.discarded := by omega
  refine ⟨?_, fun e => ?_, fun e => ?_⟩ <;> simp only [Account.discard]
  · omega
  · rw [hsame]
    exact hknown e
  · rw [hsame]
    exact hstanding e

end Account

/-- The sessions that were dealt with in a way, as often as they were. -/
def dealt (d : Dealing) (log : List (SessionId × Dealing)) : List SessionId :=
  (log.filter (·.2 = d)).map (·.1)

/-- What became of a session. -/
def dealings (id : SessionId) (log : List (SessionId × Dealing)) : List Dealing :=
  (log.filter (·.1 = id)).map (·.2)

theorem count_dealt_concat (d d' : Dealing) (log : List (SessionId × Dealing))
    (x id : SessionId) :
    (dealt d (log ++ [(x, d')])).count id =
      (dealt d log).count id + if id = x ∧ d' = d then 1 else 0 := by
  rw [dealt, List.filter_append, List.map_append, List.count_append]
  by_cases hd : d' = d
  · by_cases hx : id = x
    · simp [dealt, hd, hx]
    · simp [dealt, hd, hx, Ne.symm hx]
  · simp [dealt, hd]

theorem stands_dealings_concat (log : List (SessionId × Dealing)) (x id : SessionId)
    (d : Dealing) :
    stands false (dealings id (log ++ [(x, d)])) =
      if id = x then decide (d = .taken) else stands false (dealings id log) := by
  rw [dealings, List.filter_append, List.map_append]
  by_cases hx : id = x
  · rw [if_pos hx, hx]
    simp only [List.filter_cons, decide_true, if_true, List.filter_nil, List.map_cons, List.map_nil]
    exact stands_concat _ _ _
  · rw [if_neg hx]
    simp [dealings, Ne.symm hx]

namespace Closing

/-- The account of a session. -/
def account (s : Closing) (id : SessionId) : Account where
  held := s.pool.holds id
  taken := (dealt .taken s.log).count id
  ended := (dealt .ended s.log).count id
  discarded := s.discarded.count id
  known := s.pool.contains id
  standing := stands false (dealings id s.log)

/-! ## What each step does to the accounts -/

section

variable {s s' : Closing} {x : SessionId}

theorem account_take (hlog : s'.log = s.log ++ [(x, .taken)])
    (hdiscarded : s'.discarded = s.discarded)
    (hholds : ∀ id, s'.pool.holds id = s.pool.holds id + if id = x then 1 else 0)
    (hknown : ∀ id, s'.pool.contains id = (s.pool.contains id || id = x)) (id : SessionId) :
    s'.account id = if id = x then (s.account id).take else s.account id := by
  simp only [account, hlog, hdiscarded, hholds, hknown, count_dealt_concat, stands_dealings_concat]
  by_cases hx : id = x <;> simp [hx, Account.take]

theorem account_finish (hlog : s'.log = s.log ++ [(x, .ended)])
    (hdiscarded : s'.discarded = s.discarded)
    (hholds : ∀ id, s'.pool.holds id = s.pool.holds id - if id = x then 1 else 0)
    (hknown : ∀ id, s'.pool.contains id = (s.pool.contains id && id ≠ x)) (id : SessionId) :
    s'.account id = if id = x then (s.account id).finish else s.account id := by
  simp only [account, hlog, hdiscarded, hholds, hknown, count_dealt_concat, stands_dealings_concat]
  by_cases hx : id = x <;> simp [hx, Account.finish]

theorem account_forget (hlog : s'.log = s.log) (hdiscarded : s'.discarded = s.discarded)
    (hholds : ∀ id, s'.pool.holds id = s.pool.holds id)
    (hknown : ∀ id, s'.pool.contains id = (s.pool.contains id && id ≠ x)) (id : SessionId) :
    s'.account id = if id = x then { s.account id with known := false } else s.account id := by
  simp only [account, hlog, hdiscarded, hholds, hknown]
  by_cases hx : id = x <;> simp [hx]

end

/-! ## What holds of every step -/

/-- A session that was taken, and that the callgroups have forgotten. -/
def Parted (s : Closing) (id : SessionId) : Prop :=
  s.pool.contains id = false ∧ id ∈ dealt .taken s.log

/-- A detachment under way is for good, and of a session that was parted with. -/
def Proper (s : Closing) (id : SessionId) (how : Detachment) : Prop :=
  how ≠ .softRemove ∧ s.Parted id

/-- The callgroups are exact, all accounts are good, and detachments under way are proper. A session
that was taken or is arriving is none of those that come later. -/
structure Accounted (later : List SessionId) (s : Closing) : Prop where
  groups : s.pool.groups.Sound
  exact : s.pool.groups.Exact
  loads : s.pool.groups.loads.length = s.pool.workers.length
  once : (dealt .taken s.log ++ s.arriving.map (·.1) ++ later).Nodup
  good : ∀ id, (s.account id).Good
  leaving : ∀ d ∈ s.leaving, s.Proper d.id d.how
  waiting : ∀ w ∈ s.pool.workers, ∀ id how, .detach id how ∈ w.queue → s.Proper id how
  shut : ∀ i ∈ s.closed, ∀ w, s.pool.workers[i]? = some w → w.queue = []

section

variable {s s' : Closing} {later : List SessionId}

theorem Proper.mono {id : SessionId} {how : Detachment} (h : s.Proper id how)
    (hparted : ∀ id, s.Parted id → s'.Parted id) : s'.Proper id how := ⟨h.1, hparted id h.2⟩

theorem Accounted.good_congr (h : s.Accounted later) {id : SessionId} (hlog : s'.log = s.log)
    (hdiscarded : s'.discarded = s.discarded) (hholds : s'.pool.holds id = s.pool.holds id)
    (hknown : s'.pool.contains id = s.pool.contains id) : (s'.account id).Good := by
  have hsame : s'.account id = s.account id := by
    simp only [account, hlog, hdiscarded, hholds, hknown]
  rw [hsame]
  exact h.good id

/-- What is known of the requests that wait stays so when a worker changes. -/
theorem Accounted.waiting_modify (h : s.Accounted later) {i : Nat} {f : Worker → Worker}
    (hworkers : s'.pool.workers = s.pool.workers.modify i f)
    (hparted : ∀ id, s.Parted id → s'.Parted id)
    (hf : ∀ w id how, Request.detach id how ∈ (f w).queue →
      .detach id how ∈ w.queue ∨ s'.Proper id how) :
    ∀ w ∈ s'.pool.workers, ∀ id how, .detach id how ∈ w.queue → s'.Proper id how := by
  have hall := Pool.forall_modifyWorker (p := s.pool)
    (P := fun w => ∀ id how, .detach id how ∈ w.queue → s'.Proper id how)
    (fun w hw id how hin => (h.waiting w hw id how hin).mono hparted)
    (fun w hw id how hin => (hf w id how hin).elim (hw id how) fun e => e) i
  intro w hw
  rw [hworkers] at hw
  exact hall w hw

theorem Accounted.shut_modify (h : s.Accounted later) {i : Nat} {f : Worker → Worker}
    (hworkers : s'.pool.workers = s.pool.workers.modify i f) (hclosed : s'.closed = s.closed)
    (hf : s.closed.contains i = false ∨ ∀ w, w.queue = [] → (f w).queue = []) :
    ∀ j ∈ s'.closed, ∀ w, s'.pool.workers[j]? = some w → w.queue = [] := by
  intro j hj w hw
  rw [hclosed] at hj
  have hget : (s.pool.workers.modify i f)[j]? = _ := Pool.getElem?_modifyWorker s.pool i j f
  rw [hworkers, hget] at hw
  split at hw
  · next hij =>
    obtain ⟨v, hv, rfl⟩ := Option.map_eq_some_iff.1 hw
    rcases hf with hopen | hempty
    · rw [hij, List.contains_iff_mem.2 hj] at hopen
      cases hopen
    · exact hempty v (h.shut j hj v hv)
  · exact h.shut j hj w hw

/-- A detachment under way is not disturbed by what happens to callgroups and accounts, as long as
sessions that were parted with stay so. -/
theorem Accounted.leaving_mono (h : s.Accounted later) (hleaving : s'.leaving ⊆ s.leaving)
    (hparted : ∀ id, s.Parted id → s'.Parted id) : ∀ d ∈ s'.leaving, s'.Proper d.id d.how :=
  fun d hd => (h.leaving d (hleaving hd)).mono hparted

/-- A known session was taken. -/
theorem Accounted.mem_taken (h : s.Accounted later) {id : SessionId}
    (hid : s.pool.contains id = true) : id ∈ dealt .taken s.log := by
  have hgood := h.good id
  have hpos := hgood.known hid
  have hbalance := hgood.balance
  refine List.count_pos_iff.1 ?_
  show 0 < (s.account id).taken
  omega

/-- A session was taken once at most, so that a worker has it once at most. -/
theorem Accounted.holds_le (h : s.Accounted later) (id : SessionId) : s.pool.holds id ≤ 1 := by
  have hbalance := (h.good id).balance
  have hnodup := (List.nodup_append.1 (List.nodup_append.1 h.once).1).1
  have hone : (s.account id).taken ≤ 1 := List.nodup_iff_count_le_one.1 hnodup id
  have hheld : (s.account id).held = s.pool.holds id := rfl
  omega

theorem mem_dealt_concat {id : SessionId} {d : Dealing} {log : List (SessionId × Dealing)}
    (h : id ∈ dealt d log) (entries : List (SessionId × Dealing)) :
    id ∈ dealt d (log ++ entries) := by
  rw [dealt, List.filter_append, List.map_append]
  exact List.mem_append_left _ h

theorem dealt_taken_ended (log : List (SessionId × Dealing)) (ids : List SessionId) :
    dealt .taken (log ++ ids.map fun id => (id, .ended)) = dealt .taken log := by
  have hnone : (ids.map fun id => (id, Dealing.ended)).filter (·.2 = .taken) = [] := by
    rw [List.filter_eq_nil_iff]
    intro entry hentry
    obtain ⟨id, -, rfl⟩ := List.mem_map.1 hentry
    exact Bool.false_ne_true
  rw [dealt, List.filter_append, hnone, List.append_nil]
  rfl

/-- A worker ends a session that it drives, and the callgroups forget it. -/
theorem Accounted.withEnd (h : s.Accounted later) {i : Nat} {w : Worker} {x : SessionId}
    (hw : s.pool.workers[i]? = some w) (hx : x ∈ w.sessions) {f : Worker → Worker}
    (hholds : (f w).holds = (w.drop x).holds)
    (hqueue : ∀ v id how, Request.detach id how ∈ (f v).queue → .detach id how ∈ v.queue)
    (hempty : s.closed.contains i = false ∨ ∀ v, v.queue = [] → (f v).queue = [])
    {groups : Callgroups} (hsound : groups.Sound) (hexact : groups.Exact)
    (hloads : groups.loads.length = s.pool.groups.loads.length)
    (hcontains : ∀ id, groups.contains id = (s.pool.contains id && id ≠ x)) :
    (s.withPool { s.pool.modifyWorker i f with groups } [x]).Accounted later := by
  let s' := s.withPool { s.pool.modifyWorker i f with groups } [x]
  have hpos : 0 < w.holds x := Worker.holds_pos hx
  have hheld : ∀ id, s'.pool.holds id = s.pool.holds id - if id = x then 1 else 0 := by
    intro id
    have hsum := Pool.holds_modifyWorker hw f id
    rw [hholds, Worker.holds_drop hx] at hsum
    show (s.pool.modifyWorker i f).holds id = _
    split at hsum
    · next he =>
      rw [he] at hsum ⊢
      rw [if_pos rfl]
      omega
    · next he =>
      rw [if_neg he]
      omega
  have haccount : ∀ id, s'.account id = if id = x then (s.account id).finish else s.account id :=
    account_finish rfl rfl hheld hcontains
  have htaken : dealt .taken s'.log = dealt .taken s.log := dealt_taken_ended s.log [x]
  have hparted : ∀ id, s.Parted id → s'.Parted id := by
    intro id hid
    refine ⟨?_, htaken ▸ hid.2⟩
    show groups.contains id = false
    rw [hcontains, hid.1]
    rfl
  refine ⟨hsound, hexact, ?_, ?_, fun id => ?_, h.leaving_mono (List.Subset.refl _) hparted,
    h.waiting_modify rfl hparted fun v id how hin => .inl (hqueue v id how hin),
    h.shut_modify rfl rfl hempty⟩
  · show groups.loads.length = (s.pool.workers.modify i f).length
    rw [hloads, h.loads, List.length_modify]
  · rw [htaken]
    exact h.once
  · rw [haccount]
    split
    · next he =>
      refine (h.good id).finish ?_
      have hsum := Pool.holds_modifyWorker hw f id
      rw [hholds, Worker.holds_drop hx, if_pos he] at hsum
      rw [he] at hsum ⊢
      show 0 < s.pool.holds x
      omega
    · exact h.good id

/-- A session that is arriving is unknown, and no worker has it. -/
theorem Accounted.unknown (h : s.Accounted later) {id : SessionId}
    (hid : id ∈ s.arriving.map (·.1)) : s.pool.contains id = false := by
  have hnew : id ∉ dealt .taken s.log := fun hm =>
    (List.nodup_append.1 (List.nodup_append.1 h.once).1).2.2 id hm id hid rfl
  cases hknown : s.pool.contains id with
  | false => rfl
  | true => exact absurd (h.mem_taken hknown) hnew

/-- A client that finds the queue closed takes its session back. -/
theorem Accounted.refuse (h : s.Accounted later) {x : SessionId}
    (hunknown : s.pool.contains x = false) (group : String) (index : Nat) :
    Accounted later { s with
      pool := { s.pool with groups := ((s.pool.groups.assign x group).1.release x).1 }
      arriving := s.arriving.eraseIdx index } := by
  have hsound := h.groups.assign x group
  -- the session was known only while the callgroups were locked
  have hsame : ∀ id, ((s.pool.groups.assign x group).1.release x).1.contains id =
      s.pool.contains id := by
    intro id
    rw [Callgroups.contains_release, Callgroups.contains_assign_eq]
    by_cases hx : id = x
    · rw [hx, hunknown]
      simp
    · rw [decide_eq_false hx, Bool.or_false, decide_eq_true hx, Bool.and_true]
      rfl
  refine ⟨hsound.release x, (h.exact.assign hunknown group).release hsound x, ?_, ?_, fun id => ?_,
    fun d hd => ?_, fun w hw id how hin => ?_, h.shut⟩
  · exact (Callgroups.length_loads_release hsound x).trans
      ((Callgroups.length_loads_assign _ _ _).trans h.loads)
  · refine h.once.sublist (List.Sublist.append_right (List.Sublist.append_left ?_ _) _)
    exact (List.eraseIdx_sublist _ _).map _
  · exact h.good_congr rfl rfl rfl (hsame id)
  · obtain ⟨hhow, hknown, htaken⟩ := h.leaving d hd
    exact ⟨hhow, (hsame _).trans hknown, htaken⟩
  · obtain ⟨hhow, hknown, htaken⟩ := h.waiting w hw id how hin
    exact ⟨hhow, (hsame _).trans hknown, htaken⟩

/-- A client that finds the queue open has its session taken. -/
theorem Accounted.admit (h : s.Accounted later) {x : SessionId} {group : String} {index : Nat}
    (harriving : s.arriving[index]? = some (x, group))
    (hopen : s.closed.contains (s.pool.groups.assign x group).2 = false) :
    Accounted later { s with
      pool := { s.pool.modifyWorker (s.pool.groups.assign x group).2 (·.enqueue (.insert x)) with
        groups := (s.pool.groups.assign x group).1 }
      arriving := s.arriving.eraseIdx index
      log := s.log ++ [(x, .taken)] } := by
  let worker := (s.pool.groups.assign x group).2
  let s' : Closing := { s with
    pool := { s.pool.modifyWorker worker (·.enqueue (.insert x)) with
      groups := (s.pool.groups.assign x group).1 }
    arriving := s.arriving.eraseIdx index
    log := s.log ++ [(x, .taken)] }
  obtain ⟨hlt, hget⟩ := List.getElem?_eq_some_iff.1 harriving
  have hperm : (s.arriving.map (·.1)).Perm (x :: (s.arriving.eraseIdx index).map (·.1)) := by
    have herase := (List.getElem_cons_eraseIdx_perm hlt).symm.map (·.1)
    rw [hget] at herase
    exact herase
  have harrives : x ∈ s.arriving.map (·.1) := hperm.mem_iff.2 List.mem_cons_self
  have hnew : x ∉ dealt .taken s.log := fun hm =>
    (List.nodup_append.1 (List.nodup_append.1 h.once).1).2.2 x hm x harrives rfl
  have hworker : worker < s.pool.workers.length := by
    rw [← h.loads]
    exact Callgroups.worker_assign_lt h.groups x group
  have hholds : ∀ id, s'.pool.holds id = s.pool.holds id + if id = x then 1 else 0 := by
    intro id
    have hsum :=
      Pool.holds_modifyWorker (List.getElem?_eq_getElem hworker) (·.enqueue (.insert x)) id
    rw [Worker.holds_enqueue_insert] at hsum
    show (s.pool.modifyWorker worker (·.enqueue (.insert x))).holds id = _
    omega
  have haccount : ∀ id, s'.account id = if id = x then (s.account id).take else s.account id :=
    account_take rfl rfl hholds (Callgroups.contains_assign_eq s.pool.groups x group)
  have htaken : dealt .taken s'.log = dealt .taken s.log ++ [x] := by
    show dealt .taken (s.log ++ [(x, .taken)]) = _
    rw [dealt, List.filter_append, List.map_append]
    rfl
  have hparted : ∀ id, s.Parted id → s'.Parted id := by
    intro id hid
    have hne : id ≠ x := ne_of_mem_of_not_mem hid.2 hnew
    refine ⟨?_, mem_dealt_concat hid.2 _⟩
    show (s.pool.groups.assign x group).1.contains id = false
    rw [Callgroups.contains_assign_eq, decide_eq_false hne, Bool.or_false]
    exact hid.1
  refine ⟨h.groups.assign x group, h.exact.assign (h.unknown harrives) group, ?_, ?_, fun id => ?_,
    h.leaving_mono (List.Subset.refl _) hparted, h.waiting_modify rfl hparted ?_,
    h.shut_modify rfl rfl (.inl hopen)⟩
  · show _ = (s.pool.workers.modify worker _).length
    rw [List.length_modify, ← h.loads]
    exact Callgroups.length_loads_assign _ _ _
  · rw [htaken, List.append_assoc _ [x]]
    exact ((hperm.append_left _).append_right _).nodup_iff.1 h.once
  · rw [haccount]
    split
    · exact (h.good id).take
    · exact h.good id
  · intro w id how hin
    refine .inl ((List.mem_append.1 hin).resolve_right fun e => ?_)
    cases List.mem_singleton.1 e

theorem Accounted.enter (h : s.Accounted later) (index : Nat) :
    (s.step (.enter index)).Accounted later := by
  rw [step]
  cases harriving : s.arriving[index]? with
  | none => exact h
  | some entry =>
    obtain ⟨x, group⟩ := entry
    have hmem : x ∈ s.arriving.map (·.1) :=
      List.mem_map.2 ⟨_, List.mem_of_getElem? harriving, rfl⟩
    dsimp only
    split
    · exact h.refuse (h.unknown hmem) group index
    · next hopen => exact h.admit harriving (by simpa using hopen)

/-- The callgroups forget a session, and a detachment of it may get under way. -/
theorem Accounted.forget (h : s.Accounted later) {x : SessionId} {groups : Callgroups}
    (hsound : groups.Sound) (hexact : groups.Exact)
    (hloads : groups.loads.length = s.pool.groups.loads.length)
    (hcontains : ∀ id, groups.contains id = (s.pool.contains id && id ≠ x))
    {leaving : List Departure} (hleaving : ∀ d ∈ leaving, d ∈ s.leaving ∨
      d.how ≠ .softRemove ∧ d.id = x ∧ x ∈ dealt .taken s.log) :
    Accounted later { s with pool := { s.pool with groups }, leaving } := by
  let s' : Closing := { s with pool := { s.pool with groups }, leaving }
  have haccount : ∀ id, s'.account id =
      if id = x then { s.account id with known := false } else s.account id :=
    account_forget rfl rfl (fun _ => rfl) hcontains
  have hparted : ∀ id, s.Parted id → s'.Parted id := by
    intro id hid
    refine ⟨?_, hid.2⟩
    show groups.contains id = false
    rw [hcontains, hid.1]
    rfl
  refine ⟨hsound, hexact, hloads.trans h.loads, h.once, fun id => ?_, fun d hd => ?_,
    fun w hw id how hin => (h.waiting w hw id how hin).mono hparted, h.shut⟩
  · rw [haccount]
    split
    · exact (h.good id).forget
    · exact h.good id
  · rcases hleaving d hd with hd | ⟨hhow, hx, htaken⟩
    · exact (h.leaving d hd).mono hparted
    · refine ⟨hhow, ?_, hx ▸ htaken⟩
      show groups.contains d.id = false
      rw [hcontains, hx]
      simp

theorem Accounted.release (h : s.Accounted later) (x : SessionId) (clear : Bool) :
    (s.step (.release x clear)).Accounted later := by
  have hcontains := Callgroups.contains_release s.pool.groups x
  have hworker := Callgroups.release_worker h.groups x
  have hsound := h.groups.release x
  have hexact := h.exact.release h.groups x
  have hloads := Callgroups.length_loads_release h.groups x
  rw [step, Moment.step]
  rcases hr : s.pool.groups.release x with ⟨groups, _ | worker⟩ <;>
    rw [hr] at hcontains hworker hsound hexact hloads
  · exact h.forget hsound hexact hloads hcontains fun d hd => .inl hd
  · have hknown : s.pool.contains x = true := by
      rw [Pool.contains, ← Callgroups.isSome_home h.groups, ← hworker]
      rfl
    have hhow : parting clear ≠ .softRemove := by cases clear <;> decide
    refine h.forget hsound hexact hloads hcontains fun d hd => ?_
    rcases List.mem_append.1 hd with hd | hd
    · exact .inl hd
    · rw [List.mem_singleton.1 hd]
      exact .inr ⟨hhow, rfl, h.mem_taken hknown⟩

theorem Accounted.send (h : s.Accounted later) (index : Nat) :
    (s.step (.send index)).Accounted later := by
  rw [step]
  cases hd : s.leaving[index]? with
  | none => exact h
  | some d =>
    have hproper := h.leaving d (List.mem_of_getElem? hd)
    have hleaving : s.leaving.eraseIdx index ⊆ s.leaving := List.eraseIdx_subset
    dsimp only
    split
    · exact ⟨h.groups, h.exact, h.loads, h.once, h.good, fun d hd => h.leaving d (hleaving hd),
        h.waiting, h.shut⟩
    · next hopen =>
      have hholds : ∀ id, (s.pool.modifyWorker d.worker (·.enqueue (.detach d.id d.how))).holds id =
          s.pool.holds id :=
        fun id => Pool.holds_modifyWorker_same fun w _ => w.holds_enqueue_detach _ _ _
      refine ⟨h.groups, h.exact, ?_, h.once, fun id => ?_, fun d hd => h.leaving d (hleaving hd),
        h.waiting_modify rfl (fun id hid => hid) fun w id how hin => ?_,
        h.shut_modify rfl rfl (.inl (by simpa using hopen))⟩
      · exact h.loads.trans (List.length_modify _ _ _).symm
      · exact h.good_congr rfl rfl (hholds id) rfl
      · rcases List.mem_append.1 hin with hin | hin
        · exact .inl hin
        · cases List.mem_singleton.1 hin
          exact .inr hproper

/-- A worker changes, but not in what it has, and it gets nothing more to do. -/
theorem Accounted.modify (h : s.Accounted later) {i : Nat} {f : Worker → Worker}
    (hholds : ∀ w, s.pool.workers[i]? = some w → (f w).holds = w.holds)
    (hqueue : ∀ w, (f w).queue ⊆ w.queue) (ticking : List Nat) :
    Accounted later { s with pool := s.pool.modifyWorker i f, ticking } := by
  have hempty : ∀ w : Worker, w.queue = [] → (f w).queue = [] := fun w hw =>
    List.eq_nil_of_subset_nil (hw ▸ hqueue w)
  refine ⟨h.groups, h.exact, h.loads.trans (List.length_modify _ _ _).symm, h.once, fun id => ?_,
    h.leaving, h.waiting_modify rfl (fun id hid => hid) fun w id how hin => .inl (hqueue w hin),
    h.shut_modify rfl rfl (.inr hempty)⟩
  have hheld : (s.pool.modifyWorker i f).holds id = s.pool.holds id :=
    Pool.holds_modifyWorker_same fun w hw => congrFun (hholds w hw) id
  exact h.good_congr rfl rfl hheld rfl

theorem withPool_nil (s : Closing) (pool : Pool) : s.withPool pool [] = { s with pool } := by
  rw [withPool, List.map_nil, List.append_nil]

theorem queue_applyNext (w : Worker) : w.applyNext.queue ⊆ w.queue := by
  unfold Worker.applyNext
  split
  · exact List.Subset.refl _
  · next r rest hq =>
    rw [Worker.queue_applied, hq]
    exact List.subset_cons_self _ _

/-- A worker applies the first request that waits. It has afterwards what it had before, unless the
request ends a session. -/
theorem Accounted.applyNext (h : s.Accounted later) {i : Nat} {w : Worker}
    (hw : s.pool.workers[i]? = some w) :
    (s.withPool (s.pool.modifyWorker i Worker.applyNext) w.ends).Accounted later := by
  have hkept : w.applyNext.holds = w.holds → w.ends = [] → Accounted later
      (s.withPool (s.pool.modifyWorker i Worker.applyNext) w.ends) := by
    intro hholds hends
    rw [hends, withPool_nil]
    refine h.modify (fun v hv => ?_) queue_applyNext s.ticking
    rw [← Option.some.inj (hw.symm.trans hv)]
    exact hholds
  cases hq : w.queue with
  | nil =>
    refine hkept ?_ ?_
    · rw [Worker.applyNext, hq]
    · rw [Worker.ends, hq]
  | cons r rest =>
    cases r with
    | insert x =>
      refine hkept ?_ ?_
      · funext id
        refine Worker.holds_applyNext_insert hq (fun hx => ?_) id
        -- a session that is driven does not wait to be taken up as well
        have hone : w.holds x ≤ 1 := Nat.le_trans (Pool.holds_le hw x) (h.holds_le x)
        have hdriven : 0 < w.sessions.count x := List.count_pos_iff.2 hx
        have hwaits : 0 < (insertions w.queue).count x := by
          rw [hq]
          exact List.count_pos_iff.2 List.mem_cons_self
        rw [Worker.holds] at hone
        omega
      · rw [Worker.ends, hq]
    | detach x how =>
      obtain ⟨hhow, hunknown, -⟩ :=
        h.waiting w (List.mem_of_getElem? hw) x how (hq ▸ List.mem_cons_self)
      have hdrop := Worker.holds_applyNext_detach hq
      by_cases hx : x ∈ w.sessions
      · have hends : w.ends = [x] := by
          simp only [Worker.ends, hq, List.contains_iff_mem.2 hx, ne_eq, hhow]
          rfl
        rw [hends]
        refine h.withEnd hw hx hdrop (fun v id how hin => queue_applyNext v hin)
          (.inr fun v hv => List.eq_nil_of_subset_nil (hv ▸ queue_applyNext v)) h.groups h.exact
          rfl fun id => ?_
        by_cases hid : id = x
        · rw [hid, decide_eq_false (not_not.2 rfl), Bool.and_false]
          exact hunknown
        · rw [decide_eq_true hid, Bool.and_true]
          rfl
      · have hnot : w.sessions.contains x = false := by simpa using hx
        refine hkept ?_ ?_
        · rw [hdrop, Worker.drop, List.erase_of_not_mem hx]
          rfl
        · simp only [Worker.ends, hq, hnot]
          rfl

theorem Accounted.apply (h : s.Accounted later) (i : Nat) :
    (s.step (.apply i)).Accounted later := by
  rw [step]
  split
  · exact h
  · cases hw : s.pool.workers[i]? with
    | none =>
      rw [Option.map_none, Option.getD_none, withPool_nil,
        (Pool.sessions_queue_of_none hw Worker.applyNext).2.2]
      exact h
    | some w => exact h.applyNext hw

/-- A worker closes its queue, and what waits to be taken up is discarded. -/
theorem Accounted.close (h : s.Accounted later) (i : Nat) :
    (s.step (.close i)).Accounted later := by
  rw [step]
  split
  · exact h
  · cases hw : s.pool.workers[i]? with
    | none =>
      obtain ⟨-, hnone, hsame⟩ := Pool.sessions_queue_of_none hw Worker.shut
      rw [hnone, hsame]
      refine ⟨h.groups, h.exact, h.loads, h.once, fun id => ?_, h.leaving, h.waiting,
        fun j hj v hv => ?_⟩
      · exact h.good_congr rfl (List.append_nil _) rfl rfl
      · rcases List.mem_cons.1 hj with rfl | hj
        · rw [hw] at hv
          cases hv
        · exact h.shut j hj v hv
    | some w =>
      obtain ⟨-, hqueue, -, -⟩ := Pool.sessions_queue_modifyWorker_self hw Worker.shut
      have hle : ∀ id, (insertions w.queue).count id ≤ w.holds id := fun id => Nat.le_add_left _ _
      have hheld : ∀ id, (s.pool.modifyWorker i Worker.shut).holds id =
          s.pool.holds id - (insertions w.queue).count id := by
        intro id
        have hsum := Pool.holds_modifyWorker hw Worker.shut id
        have hcount := hle id
        rw [Worker.holds_shut] at hsum
        omega
      rw [hqueue]
      refine ⟨h.groups, h.exact, h.loads.trans (List.length_modify _ _ _).symm, h.once,
        fun id => ?_, h.leaving, h.waiting_modify rfl (fun id hid => hid) fun v id how hin => ?_,
        fun j hj v hv => ?_⟩
      · have hgood := (h.good id).discard (Nat.le_trans (hle id) (Pool.holds_le hw id))
        simp only [account, hheld, List.count_append]
        exact hgood
      · rw [Worker.queue_shut] at hin
        cases hin
      · have hget := Pool.getElem?_modifyWorker s.pool i j Worker.shut
        rw [hget] at hv
        split at hv
        · obtain ⟨u, -, rfl⟩ := Option.map_eq_some_iff.1 hv
          exact u.queue_shut
        · next hij => exact h.shut j ((List.mem_cons.1 hj).resolve_left (Ne.symm hij)) v hv

/-- A session that is driven is driven by a worker that there is. -/
theorem driver {i : Nat} {x : SessionId} (h : x ∈ s.pool.sessions i) :
    ∃ w, s.pool.workers[i]? = some w ∧ x ∈ w.sessions := by
  cases hw : s.pool.workers[i]? with
  | none =>
    rw [Pool.sessions, hw] at h
    cases h
  | some w =>
    rw [Pool.sessions, hw] at h
    exact ⟨w, rfl, h⟩

/-- A worker ends a session that it drives. -/
theorem Accounted.drop (h : s.Accounted later) {i : Nat} {w : Worker} {x : SessionId}
    (hw : s.pool.workers[i]? = some w) (hx : x ∈ w.sessions) {f : Worker → Worker}
    (hf : (f w).sessions = w.sessions.erase x) (hqueue : ∀ v, (f v).queue = v.queue) :
    (s.withPool { s.pool.modifyWorker i f with
      groups := (s.pool.groups.release x).1 } [x]).Accounted later := by
  have hholds : (f w).holds = (w.drop x).holds := by
    funext id
    rw [Worker.holds, hf, hqueue]
    rfl
  exact h.withEnd hw hx hholds (fun v id how hin => hqueue v ▸ hin)
    (.inr fun v hv => (hqueue v).trans hv) (h.groups.release x) (h.exact.release h.groups x)
    (Callgroups.length_loads_release h.groups x) (Callgroups.contains_release s.pool.groups x)

theorem Accounted.step {a : Action} (h : s.Accounted (arrivals [a] ++ later)) :
    (s.step a).Accounted later := by
  cases a with
  | arrive id group =>
    rw [Closing.step]
    split
    · refine ⟨h.groups, h.exact, h.loads, ?_, h.good, h.leaving, h.waiting, h.shut⟩
      have honce := h.once
      simp only [List.map_append, List.append_assoc] at honce ⊢
      exact honce
    · refine ⟨h.groups, h.exact, h.loads, ?_, h.good, h.leaving, h.waiting, h.shut⟩
      exact h.once.sublist (List.Sublist.append_left (List.sublist_cons_self id later) _)
  | enter index => exact h.enter index
  | release id clear => exact h.release id clear
  | send index => exact h.send index
  | apply worker => exact h.apply worker
  | begin worker =>
    have h' : s.Accounted later := h
    rw [Closing.step, Moment.step]
    split
    · exact h'
    · split <;> exact ⟨h.groups, h.exact, h.loads, h.once, h.good, h.leaving, h.waiting, h.shut⟩
  | force worker id =>
    have h' : s.Accounted later := h
    rw [Closing.step]
    split
    · next hforce =>
      obtain ⟨w, hw, hmem⟩ := driver (List.contains_iff_mem.1 (Bool.and_eq_true_iff.1 hforce).2)
      exact h'.drop hw hmem (f := (·.drop id)) rfl fun v => rfl
    · exact h'
  | finish worker =>
    have h' : s.Accounted later := h
    rw [Closing.step, Moment.step]
    split
    · exact h'.modify (f := (·.advance s.pool.quantum)) (fun w _ => rfl)
        (fun w => List.Subset.refl _) _
    · exact h'
  | stop => exact ⟨h.groups, h.exact, h.loads, h.once, h.good, h.leaving, h.waiting, h.shut⟩
  | close worker => exact h.close worker
  | dismiss worker =>
    have h' : s.Accounted later := h
    rw [Closing.step]
    split
    · next id rest _ hsessions =>
      obtain ⟨w, hw, hmem⟩ := driver (hsessions ▸ List.mem_cons_self)
      have hself : w.sessions = id :: rest := by
        rw [← hsessions, Pool.sessions, hw]
        rfl
      refine h'.drop hw hmem (f := Worker.dismissed) ?_ fun v => Worker.queue_emptied _
      rw [Worker.dismissed, Worker.sessions_emptied, hself, List.erase_cons_head]
      rfl
    · exact h'

theorem arrivals_cons (a : Action) (as : List Action) :
    arrivals (a :: as) = arrivals [a] ++ arrivals as := arrivals_append [a] as

/-- What holds of every step holds of a run. -/
theorem Accounted.run {as : List Action} (h : s.Accounted (arrivals as ++ later)) :
    (s.run as).Accounted later := by
  induction as generalizing s with
  | nil => exact h
  | cons a as ih =>
    rw [arrivals_cons, List.append_assoc] at h
    exact ih h.step

theorem accounted_start (threads : Nat) (quantum : UInt64) (hlater : later.Nodup) :
    (start threads quantum).Accounted later where
  groups := Callgroups.Sound.start threads
  exact := Callgroups.Exact.start threads
  loads := (Moment.Sound.start threads quantum).loads
  once := hlater
  good := by
    intro id
    have hnone : (start threads quantum).pool.holds id = 0 := by
      show (List.replicate (max threads 1) Worker.start).foldr _ 0 = 0
      induction max threads 1 with
      | zero => rfl
      | succ n ih =>
        rw [List.replicate_succ, List.foldr_cons, ih]
        rfl
    refine ⟨?_, fun e => ?_, fun e => ?_⟩
    · exact hnone
    · cases e
    · cases e
  leaving := by
    intro d hd
    cases hd
  waiting := by
    intro w hw id how hin
    rw [List.eq_of_mem_replicate hw] at hin
    cases hin
  shut := by
    intro i hi
    cases hi

/-- In a run that brings no session twice the accounts are good all along. -/
theorem accounted_run (threads : Nat) (quantum : UInt64) {as : List Action}
    (honce : (arrivals as).Nodup) : ((start threads quantum).run as).Accounted [] := by
  have hstart : (start threads quantum).Accounted (arrivals as ++ []) := by
    rw [List.append_nil]
    exact accounted_start threads quantum honce
  exact hstart.run

/-! ## When everything has ended -/

/-- Every session that was taken was ended once, the callgroups are empty, and no worker has a
load. -/
structure Settled (s : Closing) : Prop where
  ended : ∀ id ∈ dealt .taken s.log, (dealt .ended s.log).count id = 1
  groups : s.pool.groups.groups = []
  groupOf : s.pool.groups.groupOf = []
  loads : ∀ load ∈ s.pool.groups.loads, load = 0

/-- A worker that has ended has no session any more. -/
theorem Accounted.holds_of_ended (h : s.Accounted later) (he : s.Ended) (id : SessionId) :
    s.pool.holds id = 0 := by
  have hall : ∀ w ∈ s.pool.workers, w.holds id = 0 := by
    intro w hw
    obtain ⟨i, hi⟩ := List.mem_iff_getElem?.1 hw
    have hqueue : w.queue = [] :=
      h.shut i (he.closed i (List.getElem?_eq_some_iff.1 hi).1) w hi
    rw [Worker.holds, he.sessions w hw, hqueue]
    rfl
  rw [Pool.holds]
  revert hall
  generalize s.pool.workers = ws
  intro hall
  induction ws with
  | nil => rfl
  | cons w ws ih =>
    rw [List.foldr_cons, ih fun v hv => hall v (List.mem_cons_of_mem _ hv),
      hall w List.mem_cons_self]

theorem Accounted.settled_iff (h : s.Accounted later) (he : s.Ended) :
    s.Settled ↔ s.discarded = [] := by
  have hbalance : ∀ id, (dealt .ended s.log).count id + s.discarded.count id =
      (dealt .taken s.log).count id := by
    intro id
    have hgood := (h.good id).balance
    simp only [account, h.holds_of_ended he, Nat.zero_add] at hgood
    exact hgood
  have honce : ∀ id, (dealt .taken s.log).count id ≤ 1 :=
    List.nodup_iff_count_le_one.1 (List.nodup_append.1 (List.nodup_append.1 h.once).1).1
  constructor
  · intro hs
    refine List.eq_nil_iff_forall_not_mem.2 fun id hid => ?_
    have hdiscarded : 0 < s.discarded.count id := List.count_pos_iff.2 hid
    have hsum := hbalance id
    have htaken : id ∈ dealt .taken s.log := List.count_pos_iff.1 (by omega)
    have hended := hs.ended id htaken
    have hone := honce id
    omega
  · intro hnone
    have hunknown : ∀ id, s.pool.groups.contains id = false := by
      intro id
      cases hknown : s.pool.groups.contains id with
      | false => rfl
      | true =>
        have hpos := (h.good id).known hknown
        simp only [account, h.holds_of_ended he, hnone, List.count_nil] at hpos
        exact absurd hpos (by decide)
    obtain ⟨hgroups, hgroupOf, hloads⟩ := h.exact.empty hunknown
    refine ⟨fun id hid => ?_, hgroups, hgroupOf, hloads⟩
    have hsum := hbalance id
    have hone := honce id
    have hpos : 0 < (dealt .taken s.log).count id := List.count_pos_iff.2 hid
    rw [hnone, List.count_nil] at hsum
    omega

/-- Without discards, no session stands taken in the end. -/
theorem Accounted.not_standing (h : s.Accounted later) (he : s.Ended) (hnone : s.discarded = [])
    (id : SessionId) : stands false (dealings id s.log) = false := by
  cases hstanding : stands false (dealings id s.log) with
  | false => rfl
  | true =>
    have hpos := (h.good id).standing hstanding
    simp only [account, h.holds_of_ended he, hnone, List.count_nil] at hpos
    exact absurd hpos (by decide)

end

end Closing

end CallBridge.Scheduler
