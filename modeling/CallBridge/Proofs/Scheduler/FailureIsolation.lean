import CallBridge.Proofs.Scheduler.Turns
import Mathlib.Data.List.Nodup

/-!
# Failures stay where they happen

In a tick every session is called, whatever became of the sessions before it. Those whose audio
failed are forced off when all have been called, and the same goes for the keys of those that are
left. To speak of the hooks that a worker calls, the sessions take notes; that changes nothing else.

Sessions that ask for no detachments, and that let themselves be forced off without a failure, are
assumed to be orderly. Beyond that a hook may end in any way, and what one session does may depend
on everything that happened before.

Results:
* `worker_apply`, `worker_work`: what requests and ticks do to a worker, whatever the hooks do.
* `turn_noting`: taking notes changes nothing.
* `round_noting`: what a round over the sessions comes to, once it is known how their hooks ended.
* `isolated_tick`: what a tick comes to, hook by hook.
-/

namespace CallBridge.Scheduler

variable {ω : Type}

/-! ## Sessions that are driven once -/

theorem worker_pass (c : Client ω) (hooks : List Hook) (ids : List SessionId) (t : Turn ω) :
    (t.pass c hooks ids).1.worker = t.worker := by
  induction ids generalizing t with
  | nil => rfl
  | cons id ids ih => exact (ih _).trans (worker_runHooks c id hooks t)

/-- Applying a request does to a worker what is said of it, however hooks end. -/
theorem worker_apply (c : Client ω) (t : Turn ω) (r : Request) :
    (t.apply c r).worker = t.worker.applied r := by
  cases r with
  | insert id =>
    rw [Turn.apply, Turn.insert, Worker.applied, Turn.drives]
    split
    · rfl
    · show (t.runHooks c id [.started]).1.worker.driving
        ((t.runHooks c id [.started]).1.worker.sessions ++ [id]) = _
      rw [worker_runHooks]
  | detach id how =>
    rw [Turn.apply, detach_eq]
    dsimp only
    split
    · exact worker_runHooks c id how.hooks _
    · rfl

theorem worker_detachFailed (c : Client ω) (t : Turn ω) (failure : SessionId × String) :
    (t.detachFailed c failure).worker =
      if t.drives failure.1 then t.worker.drop failure.1 else t.worker := by
  rw [Turn.detachFailed]
  split
  · exact worker_runHooks c failure.1 _ _
  · rfl

/-- In a tick a worker only loses sessions, and then its clock moves on. -/
theorem worker_work {P : Worker → Prop} (hdrop : ∀ w id, P w → P (w.drop id)) (c : Client ω)
    (quantum : UInt64) {t : Turn ω} (h : P t.worker) :
    ∃ w, P w ∧ (t.work c quantum).worker = w.advance quantum := by
  have hall : ∀ (failures : List (SessionId × String)) (t : Turn ω), P t.worker →
      P (failures.foldl (Turn.detachFailed c) t).worker := by
    intro failures
    induction failures with
    | nil => exact fun t h => h
    | cons failure failures ih =>
      refine fun t h => ih _ ?_
      rw [worker_detachFailed]
      split
      · exact hdrop t.worker failure.1 h
      · exact h
  have hround : ∀ (hooks : List Hook) (t : Turn ω), P t.worker → P (t.round c hooks).worker := by
    intro hooks t h
    refine hall _ _ ?_
    rw [worker_pass]
    exact h
  exact ⟨_, hround _ _ (hround _ _ h), rfl⟩

/-! ## Sessions that take notes -/

/-- A hook that was called on a session, and how it ended. -/
structure Note where
  id : SessionId
  hook : Hook
  ending : Ending
deriving DecidableEq, Repr, Inhabited

/-- The same sessions, which note every hook that is called. -/
def Client.noting (c : Client ω) : Client (ω × List Note) where
  call s index id hook :=
    let (world, ending, asks) := c.call s.1 index id hook
    ((world, s.2 ++ [⟨id, hook, ending⟩]), ending, asks)

namespace Turn

/-- The turn without the notes. -/
def bare (t : Turn (ω × List Note)) : Turn ω :=
  ⟨t.world.1, t.groups, t.index, t.worker, t.outgoing⟩

theorem bare_askDetachments (asks : List (SessionId × Detachment)) (t : Turn (ω × List Note)) :
    askDetachments asks t.bare = ((askDetachments asks t).1.bare, (askDetachments asks t).2) := by
  induction asks generalizing t with
  | nil => rfl
  | cons ask asks ih =>
    have hask : t.bare.askDetach ask = ((t.askDetach ask).1.bare, (t.askDetach ask).2) := by
      have hgroups : t.bare.groups = t.groups := rfl
      unfold askDetach
      rw [hgroups]
      rcases t.groups.release ask.1 with ⟨groups, _ | worker⟩ <;> rfl
    unfold askDetachments
    rw [hask]
    rcases t.askDetach ask with ⟨t', _ | _ | _⟩
    · exact ih t'
    · rfl
    · rfl

theorem bare_call (c : Client ω) (t : Turn (ω × List Note)) (id : SessionId) (hook : Hook) :
    t.bare.call c id hook = ((t.call c.noting id hook).1.bare, (t.call c.noting id hook).2) := by
  rcases hanswer : c.call t.world.1 t.index id hook with ⟨world, ending, asks⟩
  have hplain : c.call t.bare.world t.bare.index id hook = (world, ending, asks) := hanswer
  have hnoted : c.noting.call t.world t.index id hook =
      ((world, t.world.2 ++ [⟨id, hook, ending⟩]), ending, asks) := by
    simp only [Client.noting, hanswer]
  have hasks := bare_askDetachments asks
    { t with world := (world, t.world.2 ++ [⟨id, hook, ending⟩]) }
  unfold call
  rw [hplain, hnoted]
  rw [bare] at hasks
  dsimp only [bare] at hasks ⊢
  rw [hasks]

theorem bare_runHooks (c : Client ω) (id : SessionId) (hooks : List Hook)
    (t : Turn (ω × List Note)) :
    t.bare.runHooks c id hooks =
      ((t.runHooks c.noting id hooks).1.bare, (t.runHooks c.noting id hooks).2) := by
  induction hooks generalizing t with
  | nil => rfl
  | cons hook hooks ih =>
    unfold runHooks
    rw [bare_call]
    rcases t.call c.noting id hook with ⟨t', ending⟩
    dsimp only
    cases ending.reason with
    | none => exact ih t'
    | some reason => rfl

theorem bare_pass (c : Client ω) (hooks : List Hook) (ids : List SessionId)
    (t : Turn (ω × List Note)) :
    t.bare.pass c hooks ids =
      ((t.pass c.noting hooks ids).1.bare, (t.pass c.noting hooks ids).2) := by
  induction ids generalizing t with
  | nil => rfl
  | cons id ids ih =>
    simp only [pass, bare_runHooks, ih]

theorem bare_detachFailed (c : Client ω) (t : Turn (ω × List Note))
    (failure : SessionId × String) :
    t.bare.detachFailed c failure = (t.detachFailed c.noting failure).bare := by
  have hdrives : t.bare.drives failure.1 = t.drives failure.1 := rfl
  rw [detachFailed, detachFailed, hdrives]
  split
  · exact congrArg Prod.fst (bare_runHooks c failure.1 _
      { t with worker := t.worker.drop failure.1, groups := (t.groups.release failure.1).1 })
  · rfl

theorem bare_round (c : Client ω) (hooks : List Hook) (t : Turn (ω × List Note)) :
    t.bare.round c hooks = (t.round c.noting hooks).bare := by
  have hall : ∀ (failures : List (SessionId × String)) (t : Turn (ω × List Note)),
      failures.foldl (detachFailed c) t.bare = (failures.foldl (detachFailed c.noting) t).bare := by
    intro failures
    induction failures with
    | nil => exact fun t => rfl
    | cons failure failures ih =>
      intro t
      rw [List.foldl_cons, bare_detachFailed, ih]
      rfl
  have hpass := bare_pass c hooks t.worker.sessions t
  rw [round, show t.bare.worker = t.worker from rfl, hpass]
  exact hall _ _

end Turn

/-- The scheduler and the world after a turn of a worker that there is. -/
theorem turn_eq {p : Pool} {i : Nat} {w : Worker} (hw : p.workers[i]? = some w) (world : ω)
    (f : Turn ω → Turn ω) {t : Turn ω} (ht : f ⟨world, p.groups, i, w, []⟩ = t) :
    p.turn world i f =
      (t.outgoing.foldl Pool.send
        { p with workers := p.workers.set i t.worker, groups := t.groups }, t.world) := by
  rw [Pool.turn, hw, ← ht]

/-- Taking notes changes nothing else about a tick. -/
theorem turn_noting (c : Client ω) (p : Pool) (world : ω) (log : List Note) (i : Nat) :
    p.turn world i (·.work c p.quantum) =
      ((p.turn (world, log) i (·.work c.noting p.quantum)).1,
        (p.turn (world, log) i (·.work c.noting p.quantum)).2.1) := by
  cases hw : p.workers[i]? with
  | none =>
    rw [Pool.turn, Pool.turn, hw]
  | some w =>
    let t : Turn (ω × List Note) := ⟨(world, log), p.groups, i, w, []⟩
    have hwork : t.bare.work c p.quantum = (t.work c.noting p.quantum).bare := by
      rw [Turn.work, Turn.audio, Turn.keys, Turn.bare_round, Turn.bare_round]
      rfl
    rw [turn_eq hw world _ hwork, turn_eq hw (world, log) _ rfl]
    rfl

/-! ## Rounds -/

/-- The hooks by which a worker parts from a session that failed. -/
def Hook.isParting : Hook → Bool
  | .clearAudio | .failed _ | .terminated => true
  | .started | .read _ | .write _ | .keys | .suspended => false

/-- No hook asks for a detachment, and those that part a worker from a session end well. -/
structure Client.Orderly (c : Client ω) : Prop where
  asks : ∀ world index id hook, (c.call world index id hook).2.2 = []
  parting : ∀ world index id hook, hook.isParting = true →
    (c.call world index id hook).2.1 = .done

theorem Client.Orderly.noting {c : Client ω} (hc : c.Orderly) : c.noting.Orderly where
  asks world := hc.asks world.1
  parting world := hc.parting world.1

/-- The notes of hooks that are called one after the other, up to the first that fails. -/
def notesOf (id : SessionId) (answer : Hook → Ending) : List Hook → List Note
  | [] => []
  | hook :: rest =>
    ⟨id, hook, answer hook⟩ :: if answer hook = .done then notesOf id answer rest else []

/-- How hooks end that are called one after the other, up to the first that fails. -/
def endingOf (answer : Hook → Ending) : List Hook → Ending
  | [] => .done
  | hook :: rest => if answer hook = .done then endingOf answer rest else answer hook

/-- The sessions that failed and why, given how the hooks of every session ended. -/
def failures (ending : SessionId → Ending) (ids : List SessionId) : List (SessionId × String) :=
  ids.filterMap fun id => (ending id).reason.map (id, ·)

/-- The notes of a session that is forced off. -/
def partingNotes (failure : SessionId × String) : List Note :=
  [⟨failure.1, .clearAudio, .done⟩, ⟨failure.1, .failed failure.2, .done⟩,
    ⟨failure.1, .terminated, .done⟩]

/-- The worker after sessions were forced off. It reports a number only if there were any. -/
def Worker.rid (w : Worker) (ids : List SessionId) : Worker :=
  if ids = [] then w else w.driving (w.sessions.filter (· ∉ ids))

/-- The turn after sessions were forced off the worker. -/
def Turn.rid (t : Turn ω) (ids : List SessionId) : Turn ω :=
  { t with groups := t.groups.releases ids, worker := t.worker.rid ids }

/-- The turn with a world and more notes. -/
def Turn.noted (t : Turn (ω × List Note)) (world : ω) (notes : List Note) :
    Turn (ω × List Note) :=
  { t with world := (world, t.world.2 ++ notes) }

theorem failures_cons (ending : SessionId → Ending) (id : SessionId) (ids : List SessionId) :
    failures ending (id :: ids) =
      ((ending id).reason.map fun r => (id, r)).toList ++ failures ending ids := by
  rw [failures, List.filterMap_cons]
  cases (ending id).reason <;> rfl

theorem failures_congr {ending ending' : SessionId → Ending} {ids : List SessionId}
    (h : ∀ id ∈ ids, ending id = ending' id) : failures ending ids = failures ending' ids :=
  List.filterMap_congr fun id hid => by rw [h id hid]

/-- The sessions that failed are those with a hook that was not done, in the same order. -/
theorem map_failures (ending : SessionId → Ending) (ids : List SessionId) :
    (failures ending ids).map (·.1) = ids.filter (ending · ≠ .done) := by
  induction ids with
  | nil => rfl
  | cons id ids ih =>
    rw [failures_cons, List.map_append, ih]
    cases hreason : (ending id).reason with
    | none =>
      have hdone : ending id = .done := Ending.reason_eq_none.1 hreason
      rw [List.filter_cons_of_neg (by simpa using hdone)]
      rfl
    | some reason =>
      have hfailed : ending id ≠ .done := fun e => by rw [e] at hreason; cases hreason
      rw [List.filter_cons_of_pos (by simpa using hfailed)]
      rfl

variable {c : Client ω}

theorem notesOf_congr (id : SessionId) {answer answer' : Hook → Ending} {hooks : List Hook}
    (h : ∀ hook ∈ hooks, answer hook = answer' hook) :
    notesOf id answer hooks = notesOf id answer' hooks ∧
      endingOf answer hooks = endingOf answer' hooks := by
  induction hooks with
  | nil => exact ⟨rfl, rfl⟩
  | cons hook hooks ih =>
    obtain ⟨hnotes, hending⟩ := ih fun x hx => h x (List.mem_cons_of_mem _ hx)
    rw [notesOf, notesOf, endingOf, endingOf, h hook List.mem_cons_self, hnotes, hending]
    exact ⟨rfl, rfl⟩

theorem call_noting (hc : c.Orderly) (t : Turn (ω × List Note)) (id : SessionId) (hook : Hook) :
    ∃ world ending, t.call c.noting id hook = (t.noted world [⟨id, hook, ending⟩], ending) ∧
      (hook.isParting = true → ending = .done) := by
  have hasks := hc.asks t.world.1 t.index id hook
  have hparting := hc.parting t.world.1 t.index id hook
  rcases hanswer : c.call t.world.1 t.index id hook with ⟨world, ending, asks⟩
  simp only [hanswer] at hasks hparting
  have hnoted : c.noting.call t.world t.index id hook =
      ((world, t.world.2 ++ [⟨id, hook, ending⟩]), ending, []) := by
    simp only [Client.noting, hanswer, hasks]
  refine ⟨world, ending, ?_, hparting⟩
  rw [Turn.call, hnoted]
  by_cases hdone : ending = .done
  · rw [hdone]
    rfl
  · simp only [Turn.askDetachments, if_neg hdone]
    rfl

theorem noted_nil (t : Turn (ω × List Note)) : t.noted t.world.1 [] = t := by
  rw [Turn.noted, List.append_nil]

theorem noted_noted (t : Turn (ω × List Note)) (world world' : ω) (notes notes' : List Note) :
    (t.noted world notes).noted world' notes' = t.noted world' (notes ++ notes') := by
  simp only [Turn.noted, List.append_assoc]

/-- Hooks are called up to the first that fails. -/
theorem runHooks_noting (hc : c.Orderly) (id : SessionId) {hooks : List Hook}
    (hhooks : hooks.Nodup) (t : Turn (ω × List Note)) :
    ∃ (world : ω) (answer : Hook → Ending), t.runHooks c.noting id hooks =
      (t.noted world (notesOf id answer hooks), (endingOf answer hooks).reason) := by
  induction hooks generalizing t with
  | nil => exact ⟨t.world.1, fun _ => .done, Prod.ext (noted_nil t).symm rfl⟩
  | cons hook hooks ih =>
    obtain ⟨world, ending, hcall, -⟩ := call_noting hc t id hook
    obtain ⟨hnew, hrest⟩ := List.nodup_cons.1 hhooks
    obtain ⟨world', answer, hrun⟩ := ih hrest (t.noted world [⟨id, hook, ending⟩])
    -- the hooks that follow are other hooks, so they can be given their own answers
    let answer' : Hook → Ending := fun h => if h = hook then ending else answer h
    have hself : answer' hook = ending := if_pos rfl
    have hother : ∀ h ∈ hooks, answer' h = answer h := fun h hh =>
      if_neg (ne_of_mem_of_not_mem hh hnew)
    obtain ⟨hnotes, hending⟩ := notesOf_congr id hother
    by_cases hdone : ending = .done
    · refine ⟨world', answer', ?_⟩
      rw [notesOf, endingOf, hself, if_pos hdone, if_pos hdone, hnotes, hending]
      simp only [Turn.runHooks, hcall, Ending.reason_eq_none.2 hdone, hrun, noted_noted]
      rfl
    · obtain ⟨reason, hreason⟩ : ∃ reason, ending.reason = some reason :=
        Option.ne_none_iff_exists'.1 fun e => hdone (Ending.reason_eq_none.1 e)
      refine ⟨world, answer', ?_⟩
      rw [notesOf, endingOf, hself, if_neg hdone, if_neg hdone]
      simp only [Turn.runHooks, hcall, hreason]

/-- Every hook of a parting is called. -/
theorem runHooks_parting (hc : c.Orderly) (id : SessionId) {hooks : List Hook}
    (hhooks : ∀ hook ∈ hooks, hook.isParting = true) (t : Turn (ω × List Note)) :
    ∃ world : ω, (t.runHooks c.noting id hooks).1 =
      t.noted world (hooks.map fun hook => ⟨id, hook, .done⟩) := by
  induction hooks generalizing t with
  | nil => exact ⟨t.world.1, (noted_nil t).symm⟩
  | cons hook hooks ih =>
    obtain ⟨world, ending, hcall, hparting⟩ := call_noting hc t id hook
    have hdone : ending = .done := hparting (hhooks hook List.mem_cons_self)
    rw [hdone] at hcall
    obtain ⟨world', hrun⟩ := ih (fun h hh => hhooks h (List.mem_cons_of_mem _ hh))
      (t.noted world [⟨id, hook, .done⟩])
    refine ⟨world', ?_⟩
    simp only [Turn.runHooks, hcall, Ending.reason, hrun, noted_noted]
    rfl

/-- Every session of a pass is called, whatever became of those before it. -/
theorem pass_noting (hc : c.Orderly) {hooks : List Hook} (hhooks : hooks.Nodup)
    {ids : List SessionId} (hids : ids.Nodup) (t : Turn (ω × List Note)) :
    ∃ (world : ω) (answer : SessionId → Hook → Ending), t.pass c.noting hooks ids =
      (t.noted world (ids.flatMap fun id => notesOf id (answer id) hooks),
        failures (fun id => endingOf (answer id) hooks) ids) := by
  induction ids generalizing t with
  | nil => exact ⟨t.world.1, fun _ _ => .done, Prod.ext (noted_nil t).symm rfl⟩
  | cons id ids ih =>
    obtain ⟨hnew, hrest⟩ := List.nodup_cons.1 hids
    obtain ⟨world, mine, hrun⟩ := runHooks_noting hc id hhooks t
    obtain ⟨world', others, hpass⟩ := ih hrest (t.noted world (notesOf id mine hooks))
    let answer : SessionId → Hook → Ending := fun x => if x = id then mine else others x
    have hself : answer id = mine := if_pos rfl
    have hother : ∀ x ∈ ids, answer x = others x := fun x hx =>
      if_neg (ne_of_mem_of_not_mem hx hnew)
    have hnotes : (ids.flatMap fun x => notesOf x (answer x) hooks) =
        ids.flatMap fun x => notesOf x (others x) hooks :=
      List.flatMap_congr fun x hx => by rw [hother x hx]
    have hfailures : failures (fun x => endingOf (answer x) hooks) ids =
        failures (fun x => endingOf (others x) hooks) ids :=
      failures_congr fun x hx => by rw [hother x hx]
    refine ⟨world', answer, ?_⟩
    rw [List.flatMap_cons, failures_cons, hself, hnotes, hfailures]
    simp only [Turn.pass, hrun, hpass, noted_noted]

theorem Worker.sessions_rid (w : Worker) (ids : List SessionId) :
    (w.rid ids).sessions = w.sessions.filter (· ∉ ids) := by
  rw [rid]
  split
  · next h => simp [h]
  · rfl

/-- Sessions may be forced off in two rounds. -/
theorem Worker.rid_append (w : Worker) (ids ids' : List SessionId) :
    w.rid (ids ++ ids') = (w.rid ids).rid ids' := by
  by_cases h : ids = []
  · rw [h, List.nil_append]
    rfl
  by_cases h' : ids' = []
  · rw [h', List.append_nil]
    rfl
  have hsessions : (w.sessions.filter (· ∉ ids)).filter (· ∉ ids') =
      w.sessions.filter (· ∉ ids ++ ids') := by
    rw [List.filter_filter]
    refine List.filter_congr fun x _ => ?_
    rw [Bool.eq_iff_iff]
    simp [and_comm]
  rw [rid, rid, rid, if_neg h, if_neg h', if_neg (by simp [h]), ← hsessions]

theorem Worker.rid_singleton {w : Worker} (hn : w.sessions.Nodup) (id : SessionId) :
    w.rid [id] = w.drop id := by
  have hsessions : w.sessions.filter (· ∉ [id]) = w.sessions.erase id := by
    rw [hn.erase_eq_filter]
    refine List.filter_congr fun x _ => ?_
    rw [Bool.eq_iff_iff]
    simp
  rw [rid, if_neg (List.cons_ne_nil id []), hsessions, drop]

theorem rid_nil (t : Turn ω) : t.rid [] = t := rfl

theorem rid_cons {t : Turn ω} (hn : t.worker.sessions.Nodup) (id : SessionId)
    (ids : List SessionId) :
    t.rid (id :: ids) = Turn.rid { t with
      worker := t.worker.drop id, groups := (t.groups.release id).1 } ids := by
  have hworker := t.worker.rid_append [id] ids
  rw [Worker.rid_singleton hn] at hworker
  simp only [Turn.rid, ← hworker]
  rfl

/-- The sessions that failed are forced off one after the other, with the hooks of a parting. -/
theorem detachFailed_noting (hc : c.Orderly) {fs : List (SessionId × String)}
    (hfs : (fs.map (·.1)).Nodup) {t : Turn (ω × List Note)} (hn : t.worker.sessions.Nodup)
    (hin : ∀ f ∈ fs, f.1 ∈ t.worker.sessions) :
    ∃ world : ω, fs.foldl (Turn.detachFailed c.noting) t =
      (t.rid (fs.map (·.1))).noted world (fs.flatMap partingNotes) := by
  induction fs generalizing t with
  | nil => exact ⟨t.world.1, by rw [List.map_nil, rid_nil]; exact (noted_nil t).symm⟩
  | cons f fs ih =>
    obtain ⟨id, reason⟩ := f
    obtain ⟨hnew, hrest⟩ := List.nodup_cons.1 hfs
    have hmem : id ∈ t.worker.sessions := hin (id, reason) List.mem_cons_self
    let forced : Turn (ω × List Note) :=
      { t with worker := t.worker.drop id, groups := (t.groups.release id).1 }
    have hhooks : ∀ hook ∈ [Hook.clearAudio, .failed reason, .terminated],
        hook.isParting = true := by simp [Hook.isParting]
    obtain ⟨world, hparting⟩ := runHooks_parting hc id hhooks forced
    have hdetach : t.detachFailed c.noting (id, reason) =
        forced.noted world (partingNotes (id, reason)) := by
      rw [Turn.detachFailed]
      exact (if_pos (List.contains_iff_mem.2 hmem)).trans hparting
    have hothers : ∀ g ∈ fs, g.1 ∈ t.worker.sessions.erase id := by
      intro g hg
      have hne : g.1 ≠ id := ne_of_mem_of_not_mem (List.mem_map.2 ⟨g, hg, rfl⟩) hnew
      exact (List.mem_erase_of_ne hne).2 (hin g (List.mem_cons_of_mem _ hg))
    obtain ⟨world', hfold⟩ := ih hrest (t := forced.noted world (partingNotes (id, reason)))
      (hn.erase id) hothers
    refine ⟨world', ?_⟩
    rw [List.foldl_cons, hdetach, hfold, List.flatMap_cons, List.map_cons, rid_cons hn,
      ← noted_noted]
    rfl

/-- What a round over the sessions comes to, once it is known how their hooks ended. -/
theorem round_noting (hc : c.Orderly) {hooks : List Hook} (hhooks : hooks.Nodup)
    {t : Turn (ω × List Note)} (hn : t.worker.sessions.Nodup) :
    ∃ (world : ω) (answer : SessionId → Hook → Ending),
      let failed := failures (fun id => endingOf (answer id) hooks) t.worker.sessions
      t.round c.noting hooks = (t.rid (failed.map (·.1))).noted world
        ((t.worker.sessions.flatMap fun id => notesOf id (answer id) hooks) ++
          failed.flatMap partingNotes) := by
  obtain ⟨world, answer, hpass⟩ := pass_noting hc hhooks hn t
  let failed := failures (fun id => endingOf (answer id) hooks) t.worker.sessions
  have hids := map_failures (fun id => endingOf (answer id) hooks) t.worker.sessions
  have hnodup : (failed.map (·.1)).Nodup := by
    rw [hids]
    exact hn.filter _
  have hin : ∀ f ∈ failed, f.1 ∈ t.worker.sessions := by
    intro f hf
    have hmem : f.1 ∈ failed.map (·.1) := List.mem_map.2 ⟨f, hf, rfl⟩
    rw [hids] at hmem
    exact (List.mem_filter.1 hmem).1
  obtain ⟨world', hfold⟩ := detachFailed_noting hc hnodup
    (t := t.noted world (t.worker.sessions.flatMap fun id => notesOf id (answer id) hooks)) hn hin
  refine ⟨world', answer, ?_⟩
  simp only [Turn.round, hpass]
  rw [hfold, ← noted_noted]
  rfl

/-! ## Ticks -/

/-- How the hooks of a tick ended, for every session. A session has no fault to report about its
keys, so that the hook for them ends well or abruptly. -/
structure Course where
  read : SessionId → Ending
  write : SessionId → Ending
  keys : SessionId → Ending

namespace Course

variable (e : Course)

/-- How the audio of a session ended, which is written only if it was read. -/
def audio (id : SessionId) : Ending := if e.read id = .done then e.write id else e.read id

/-- The notes of the audio of a session. -/
def audioNotes (ts : UInt64) (id : SessionId) : List Note :=
  ⟨id, .read ts, e.read id⟩ ::
    if e.read id = .done then [⟨id, .write ts, e.write id⟩] else []

/-- The sessions that are left after the audio. -/
def left (ids : List SessionId) : List SessionId := ids.filter (e.audio · = .done)

/-- The sessions that are left after the keys too. -/
def survivors (ids : List SessionId) : List SessionId := (e.left ids).filter (e.keys · = .done)

/-- The sessions that failed and why: those with their audio, then those with their keys. -/
def failed (ids : List SessionId) : List (SessionId × String) :=
  failures e.audio ids ++ failures e.keys (e.left ids)

/-- The notes of a tick. -/
def notes (ts : UInt64) (ids : List SessionId) : List Note :=
  ids.flatMap (e.audioNotes ts) ++ (failures e.audio ids).flatMap partingNotes ++
    (e.left ids).map (fun id => ⟨id, .keys, e.keys id⟩) ++
    (failures e.keys (e.left ids)).flatMap partingNotes

/-- Every session failed or survived. -/
theorem perm_failed_survivors (ids : List SessionId) :
    ((e.failed ids).map (·.1) ++ e.survivors ids).Perm ids := by
  rw [failed, List.map_append, map_failures, map_failures, List.append_assoc]
  have hkeys := List.filter_append_perm (e.keys · ≠ .done) (e.left ids)
  have haudio := List.filter_append_perm (e.audio · ≠ .done) ids
  simp only [ne_eq, decide_not, Bool.not_not] at hkeys haudio ⊢
  exact (hkeys.append_left _).trans haudio

/-- The hooks of partings are those of the sessions that failed. -/
theorem filter_isParting_notes (ts : UInt64) (ids : List SessionId) :
    (e.notes ts ids).filter (·.hook.isParting) = (e.failed ids).flatMap partingNotes := by
  have haudio : (ids.flatMap (e.audioNotes ts)).filter (·.hook.isParting) = [] := by
    rw [List.filter_eq_nil_iff]
    intro note hnote
    obtain ⟨id, -, hnote⟩ := List.mem_flatMap.1 hnote
    rw [audioNotes] at hnote
    split at hnote
    · rcases List.mem_cons.1 hnote with rfl | hnote
      · exact Bool.false_ne_true
      · rw [List.mem_singleton.1 hnote]
        exact Bool.false_ne_true
    · rw [List.mem_singleton.1 hnote]
      exact Bool.false_ne_true
  have hkeys : ((e.left ids).map fun id => (⟨id, .keys, e.keys id⟩ : Note)).filter
      (·.hook.isParting) = [] := by
    rw [List.filter_eq_nil_iff]
    intro note hnote
    obtain ⟨id, -, rfl⟩ := List.mem_map.1 hnote
    exact Bool.false_ne_true
  have hparting : ∀ fs : List (SessionId × String),
      (fs.flatMap partingNotes).filter (·.hook.isParting) = fs.flatMap partingNotes := by
    intro fs
    rw [List.filter_flatMap]
    rfl
  rw [notes, failed, List.filter_append, List.filter_append, List.filter_append, haudio, hkeys,
    hparting, hparting, List.flatMap_append, List.nil_append, List.append_nil]

end Course

/-- What a tick of a worker comes to if the hooks end in a given way. -/
structure Isolated (p : Pool) (i : Nat) (w : Worker) (log : List Note) (e : Course)
    (after : Pool × ω × List Note) : Prop where
  /-- Every session was called, and no hook but those of the tick and of partings. -/
  notes : after.2.2 = log ++ e.notes w.clock w.sessions
  /-- The callgroups forget those that failed, and the worker goes on with the survivors. It reports
  how many they are if any session failed. -/
  pool : after.1 = { p with
    workers := p.workers.set i
      { w with
        sessions := e.survivors w.sessions
        clock := w.clock + p.quantum
        reported := if e.failed w.sessions = [] then w.reported
          else (e.survivors w.sessions).length }
    groups := p.groups.releases ((e.failed w.sessions).map (·.1)) }
  contains : ∀ id, after.1.contains id =
    (p.contains id && !((e.failed w.sessions).map (·.1)).contains id)
  /-- Every session failed once or survived. -/
  split : ((e.failed w.sessions).map (·.1) ++ e.survivors w.sessions).Perm w.sessions
  /-- Only those that failed were parted from, each once. -/
  partings : after.2.2.filter (·.hook.isParting) =
    log.filter (·.hook.isParting) ++ (e.failed w.sessions).flatMap partingNotes
  /-- A worker that had reported the number of its sessions has reported that of the survivors, and
  as many sessions are counted by the scheduler as before, less those that failed. -/
  reported : w.reported = w.sessions.length →
    (∃ w', after.1.workers[i]? = some w' ∧ w'.sessions = e.survivors w.sessions ∧
      w'.reported = (e.survivors w.sessions).length) ∧
    after.1.attachedCount + w.sessions.length = p.attachedCount + (e.survivors w.sessions).length

/-- What the workers reported, when one of them changed. -/
theorem attachedCount_set {p : Pool} {i : Nat} {w : Worker} (hw : p.workers[i]? = some w)
    (w' : Worker) (groups : Callgroups) :
    Pool.attachedCount { p with workers := p.workers.set i w', groups } + w.reported =
      p.attachedCount + w'.reported := by
  have hset : p.workers.set i w' = p.workers.modify i fun _ => w' := List.set_eq_modify w' i _
  rw [Pool.attachedCount, hset]
  exact Pool.foldr_modify (·.reported) hw fun _ => w'

/-- The last of some hooks decides how they end, if it is called. -/
theorem endingOf_singleton (answer : Hook → Ending) (hook : Hook) :
    endingOf answer [hook] = answer hook := by
  rw [endingOf, endingOf]
  split
  · next h => exact h.symm
  · rfl

theorem audio_noting (hc : c.Orderly) {t : Turn (ω × List Note)} (hn : t.worker.sessions.Nodup) :
    ∃ (world : ω) (e : Course), t.audio c.noting =
      (t.rid ((failures e.audio t.worker.sessions).map (·.1))).noted world
        (t.worker.sessions.flatMap (e.audioNotes t.worker.clock) ++
          (failures e.audio t.worker.sessions).flatMap partingNotes) := by
  have hhooks : [Hook.read t.worker.clock, .write t.worker.clock].Nodup := by simp
  obtain ⟨world, answer, hround⟩ := round_noting hc hhooks hn
  let e : Course := ⟨fun id => answer id (.read t.worker.clock),
    fun id => answer id (.write t.worker.clock), fun _ => .done⟩
  have hnotes : ∀ id, notesOf id (answer id) [.read t.worker.clock, .write t.worker.clock] =
      e.audioNotes t.worker.clock id := by
    intro id
    simp only [notesOf, Course.audioNotes, ite_self]
    rfl
  have hending : ∀ id, endingOf (answer id) [.read t.worker.clock, .write t.worker.clock] =
      e.audio id := by
    intro id
    rw [endingOf, endingOf_singleton]
    rfl
  simp only [hnotes, hending] at hround
  exact ⟨world, e, hround⟩

theorem keys_noting (hc : c.Orderly) {t : Turn (ω × List Note)} (hn : t.worker.sessions.Nodup) :
    ∃ (world : ω) (keys : SessionId → Ending), t.keys c.noting =
      (t.rid ((failures keys t.worker.sessions).map (·.1))).noted world
        (t.worker.sessions.map (fun id => ⟨id, .keys, keys id⟩) ++
          (failures keys t.worker.sessions).flatMap partingNotes) := by
  obtain ⟨world, answer, hround⟩ := round_noting hc (List.nodup_singleton Hook.keys) hn
  have hnotes : ∀ id, notesOf id (answer id) [.keys] = [⟨id, .keys, answer id .keys⟩] := by
    intro id
    rw [notesOf, notesOf, ite_self]
  simp only [hnotes, endingOf_singleton, ← List.map_eq_flatMap] at hround
  exact ⟨world, fun id => answer id .keys, hround⟩

/-- The survivors of a round are those whose hooks were done. -/
theorem filter_failures (ending : SessionId → Ending) (ids : List SessionId) :
    ids.filter (· ∉ (failures ending ids).map (·.1)) = ids.filter (ending · = .done) := by
  refine List.filter_congr fun id hid => ?_
  rw [map_failures]
  simp [hid]

/-- The worker after a tick in which the hooks ended in some way. -/
theorem advance_rid_failed (e : Course) (w : Worker) (quantum : UInt64) :
    (w.rid ((e.failed w.sessions).map (·.1))).advance quantum =
      { w with
        sessions := e.survivors w.sessions
        clock := w.clock + quantum
        reported := if e.failed w.sessions = [] then w.reported
          else (e.survivors w.sessions).length } := by
  have hsessions : w.sessions.filter (· ∉ (e.failed w.sessions).map (·.1)) =
      e.survivors w.sessions := by
    rw [Course.failed, List.map_append, ← Worker.sessions_rid, Worker.rid_append,
      Worker.sessions_rid, Worker.sessions_rid, filter_failures]
    exact filter_failures e.keys (e.left w.sessions)
  rw [Worker.rid, hsessions]
  by_cases h : e.failed w.sessions = []
  · rw [h, List.map_nil, List.filter_eq_self.2 (by simp)] at hsessions
    rw [if_pos h, if_pos (List.map_eq_nil_iff.2 h), ← hsessions]
    rfl
  · rw [if_neg h, if_neg (h ∘ List.map_eq_nil_iff.1)]
    rfl

/-- The audio and then the keys of those that are left. -/
theorem work_noting (hc : c.Orderly) {t : Turn (ω × List Note)} (hn : t.worker.sessions.Nodup)
    (quantum : UInt64) :
    ∃ (world : ω) (e : Course), t.work c.noting quantum =
      { t with
        world := (world, t.world.2 ++ e.notes t.worker.clock t.worker.sessions)
        groups := t.groups.releases ((e.failed t.worker.sessions).map (·.1))
        worker := (t.worker.rid ((e.failed t.worker.sessions).map (·.1))).advance quantum } := by
  obtain ⟨world₁, e₁, haudio⟩ := audio_noting hc hn
  have hleft : (t.audio c.noting).worker.sessions = e₁.left t.worker.sessions := by
    rw [haudio]
    exact (Worker.sessions_rid _ _).trans (filter_failures e₁.audio t.worker.sessions)
  have hnodup : (t.audio c.noting).worker.sessions.Nodup := by
    rw [hleft]
    exact hn.filter _
  obtain ⟨world₂, keys, hkeys⟩ := keys_noting hc hnodup
  let e : Course := { e₁ with keys }
  have hnotes : ∀ log : List Note,
      log ++ (t.worker.sessions.flatMap (e₁.audioNotes t.worker.clock) ++
        (failures e₁.audio t.worker.sessions).flatMap partingNotes) ++
          ((e₁.left t.worker.sessions).map (fun id => ⟨id, .keys, keys id⟩) ++
            (failures keys (e₁.left t.worker.sessions)).flatMap partingNotes) =
        log ++ e.notes t.worker.clock t.worker.sessions := by
    intro log
    simp only [Course.notes, List.append_assoc]
    rfl
  have hgroups := Callgroups.releases_append t.groups
    ((failures e₁.audio t.worker.sessions).map (·.1))
    ((failures keys (e₁.left t.worker.sessions)).map (·.1))
  refine ⟨world₂, e, ?_⟩
  rw [Course.failed, List.map_append, Worker.rid_append]
  rw [hleft] at hkeys
  rw [Turn.work, hkeys]
  simp only [Turn.noted, Turn.rid, Turn.advance]
  simp only [haudio, Turn.noted, Turn.rid, hnotes]
  rw [← hgroups]
  rfl

theorem Course.length_survivors (e : Course) {ids : List SessionId} (h : e.failed ids = []) :
    (e.survivors ids).length = ids.length := by
  have hperm := e.perm_failed_survivors ids
  rw [h] at hperm
  exact hperm.length_eq

/-- What the hooks of a tick came to, if they are all called and nobody asks for a detachment. -/
theorem exists_isolated (hc : c.Orderly) {p : Pool} {i : Nat} {w : Worker}
    (hw : p.workers[i]? = some w) (hn : w.sessions.Nodup) (world : ω) (log : List Note) :
    ∃ e, Isolated p i w log e (p.turn (world, log) i (·.work c.noting p.quantum)) := by
  obtain ⟨world', e, hwork⟩ := work_noting hc (t := ⟨(world, log), p.groups, i, w, []⟩) hn p.quantum
  rw [advance_rid_failed] at hwork
  rw [turn_eq hw (world, log) _ hwork]
  refine ⟨e, rfl, rfl, fun id => Callgroups.contains_releases _ _ _, e.perm_failed_survivors _, ?_,
    fun hreported => ?_⟩
  · rw [List.filter_append, e.filter_isParting_notes]
  · have hcount : (if e.failed w.sessions = [] then w.reported
        else (e.survivors w.sessions).length) = (e.survivors w.sessions).length := by
      split
      · next hnone => rw [hreported, e.length_survivors hnone]
      · rfl
    refine ⟨⟨_, List.getElem?_set_self (List.getElem?_eq_some_iff.1 hw).1, rfl, hcount⟩, ?_⟩
    rw [← hreported]
    exact (attachedCount_set hw _ _).trans (congrArg (p.attachedCount + ·) hcount)

/-- A worker that ended drives nothing, and reported so. -/
theorem worker_finish (c : Client ω) (t : Turn ω) :
    (t.finish c).worker = { t.worker with queue := [], sessions := [], reported := 0 } := by
  have hall : ∀ (ids : List SessionId) (t : Turn ω), (ids.foldl (fun t id =>
      (Turn.runHooks c id [.terminated] { t with groups := (t.groups.release id).1 }).1) t).worker =
        t.worker := by
    intro ids
    induction ids with
    | nil => exact fun t => rfl
    | cons id ids ih => exact fun t => (ih _).trans (worker_runHooks c id [.terminated] _)
  exact congrArg ({ · with reported := 0 })
    (hall t.worker.sessions { t with worker := { t.worker with queue := [], sessions := [] } })

/-- Whatever a scheduler is asked to do, no worker drives a session twice, each has reported the
number of its sessions, and the scheduler counts them all. -/
theorem sound_workers (c : Client ω) (threads : Nat) (quantum : UInt64) (world : ω)
    (calls : List Call) :
    let q := (calls.foldl (Pool.answer c) (Pool.start threads quantum, world)).1
    (∀ w ∈ q.workers, w.Sound) ∧
      q.attachedCount = q.workers.foldr (fun w n => w.sessions.length + n) 0 := by
  intro q
  obtain ⟨es, hrun⟩ := exists_run c threads quantum world calls
  have hsound : ∀ w ∈ q.workers, w.Sound := by
    have hmoment := ((Moment.Sound.start threads quantum).run es).workers
    rw [hrun] at hmoment
    exact hmoment
  refine ⟨hsound, ?_⟩
  rw [Pool.attachedCount]
  generalize q.workers = ws at hsound
  induction ws with
  | nil => rfl
  | cons w ws ih =>
    obtain ⟨hw, hws⟩ := List.forall_mem_cons.1 hsound
    rw [List.foldr_cons, List.foldr_cons, hw.reported, ih hws]

/-- **Main theorem**: in a tick of a worker every session is called, those that failed are parted
from and the others go on. Taking notes of it changes nothing.

Whatever hooks do, neither requests nor ticks make a worker drive a session twice, and the number of
sessions that a worker reported stays that of its sessions, which is none when it ended. This is so
at every moment of every scheduler, which therefore counts the sessions that are driven. -/
theorem isolated_tick (hc : c.Orderly) {p : Pool} {i : Nat} {w : Worker}
    (hw : p.workers[i]? = some w) (hn : w.sessions.Nodup) (world : ω) (log : List Note) :
    let after := p.turn (world, log) i (·.work c.noting p.quantum)
    (∃ e, Isolated p i w log e after) ∧
      p.turn world i (·.work c p.quantum) = (after.1, after.2.1) ∧
      (∀ (c' : Client ω) (t : Turn ω),
        (t.worker.sessions.Nodup → (∀ r, (t.apply c' r).worker.sessions.Nodup) ∧
          ∀ quantum, (t.work c' quantum).worker.sessions.Nodup) ∧
        (t.worker.Sound → (∀ r, (t.apply c' r).worker.Sound) ∧
          ∀ quantum, (t.work c' quantum).worker.Sound) ∧
        (t.finish c').worker = { t.worker with queue := [], sessions := [], reported := 0 }) ∧
      ∀ (c' : Client ω) threads quantum world calls,
        let q := (List.foldl (Pool.answer c') (Pool.start threads quantum, world) calls).1
        (∀ w ∈ q.workers, w.Sound) ∧
          q.attachedCount = q.workers.foldr (fun w n => w.sessions.length + n) 0 := by
  refine ⟨exists_isolated hc hw hn world log, turn_noting c p world log i, fun c' t => ?_,
    sound_workers⟩
  refine ⟨fun h => ⟨fun r => ?_, fun quantum => ?_⟩, fun h => ⟨fun r => ?_, fun quantum => ?_⟩,
    worker_finish c' t⟩
  · rw [worker_apply]
    exact Worker.nodup_applied h r
  · obtain ⟨w, hw, heq⟩ := worker_work (P := fun w => w.sessions.Nodup)
      (fun w id hn => hn.erase id) c' quantum h
    rw [heq]
    exact hw
  · rw [worker_apply]
    exact h.applied r
  · obtain ⟨w, hw, heq⟩ := worker_work (P := Worker.Sound) (fun w id hs => hs.drop id) c' quantum h
    rw [heq]
    exact ⟨hw.nodup, hw.reported⟩

/-- One session cannot be read, and one stumbles over its keys. -/
def troubled : Client Unit where
  call _ _ id hook :=
    let ending : Ending := match hook with
      | .read _ => if id = ⟨"deaf"⟩ then .fault (.stream "nothing to read") else .done
      | .keys => if id = ⟨"clumsy"⟩ then .crash none else .done
      | _ => .done
    ((), ending, [])

/-- A worker that drives them and a third. -/
def troubledWorker : Worker := ⟨[⟨"deaf"⟩, ⟨"clumsy"⟩, ⟨"well"⟩], [], 0, 3⟩

theorem troubled_orderly : troubled.Orderly := by
  refine ⟨fun _ _ _ _ => rfl, fun _ _ id hook hhook => ?_⟩
  cases hook <;> first | rfl | cases hhook

/-- Both are forced off, and the third goes on. -/
theorem isolated_tick_troubled :
    let p : Pool := ⟨[troubledWorker], Callgroups.start 1, true, 160⟩
    let after := p.turn ((), []) 0 (·.work troubled.noting p.quantum)
    troubled.Orderly ∧ p.workers[0]? = some troubledWorker ∧ troubledWorker.sessions.Nodup ∧
      (∃ e, Isolated p 0 troubledWorker [] e after) ∧ after.1.sessions 0 = [⟨"well"⟩] ∧
      after.1.attachedCount = 1 := by
  intro p after
  have hnodup : troubledWorker.sessions.Nodup := by decide
  exact ⟨troubled_orderly, rfl, hnodup,
    (isolated_tick troubled_orderly (p := p) rfl hnodup () []).1, by decide, by decide⟩

end CallBridge.Scheduler
