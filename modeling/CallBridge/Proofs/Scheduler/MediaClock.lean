import CallBridge.Proofs.Scheduler.FailureIsolation

/-!
# The media clock

Every worker has a clock, whose timestamp it passes to the sessions that it drives in a tick. The
clock grows by a quantum with every tick of the worker, and by nothing else: requests, other workers
and whatever the hooks do leave it alone.

The quantum is the number of cycles of a clock in a tick, without the fraction. It is computed in
words of 64 bits, where the product that is divided in the end may be too large. Then there is no
clock, and not even a fault: the check of the settings panics in the computation that it checks.

Results:
* `Turn.notes_work`: in a tick every session is read at the clock of the worker, and none is passed
  another timestamp.
* `Pool.clock_step`: only a tick of a worker moves its clock.
* `Pool.stamps_beats`: the timestamps that a worker passes on, tick by tick.
* `Settings.Processor.validate_eq_ok_iff`, `Settings.Processor.validate_eq_panic_iff`: which
  settings are accepted, and on which the check panics.
* `clock_keeps_rate`: by what the timestamps of two consecutive ticks differ.
-/

namespace CallBridge.Scheduler

variable {ω : Type}

/-! ## The timestamps of a tick -/

/-- The timestamp that is passed with a hook, if there is one. -/
def Hook.stamp? : Hook → Option UInt64
  | .read ts | .write ts => some ts
  | .started | .keys | .clearAudio | .failed _ | .terminated | .suspended => none

namespace Turn

/-- A turn goes on to another one, and all notes that are taken on the way have a property. -/
def Notes (P : Note → Prop) (t t' : Turn (ω × List Note)) : Prop :=
  ∃ notes, t'.world.2 = t.world.2 ++ notes ∧ ∀ n ∈ notes, P n

section Notes

variable {P Q : Note → Prop} {t t' t'' : Turn (ω × List Note)} (c : Client ω)

theorem Notes.refl (t : Turn (ω × List Note)) : Notes P t t :=
  ⟨[], (List.append_nil _).symm, fun _ hn => absurd hn List.not_mem_nil⟩

theorem Notes.trans (h : Notes P t t') (h' : Notes P t' t'') : Notes P t t'' := by
  obtain ⟨notes, hnotes, hall⟩ := h
  obtain ⟨notes', hnotes', hall'⟩ := h'
  refine ⟨notes ++ notes', ?_, fun n hn => (List.mem_append.1 hn).elim (hall n) (hall' n)⟩
  rw [hnotes', hnotes, List.append_assoc]

theorem Notes.mono (h : Notes P t t') (hPQ : ∀ n, P n → Q n) : Notes Q t t' := by
  obtain ⟨notes, hnotes, hall⟩ := h
  exact ⟨notes, hnotes, fun n hn => hPQ n (hall n hn)⟩

theorem world_askDetachments (asks : List (SessionId × Detachment)) (t : Turn ω) :
    (askDetachments asks t).1.world = t.world := by
  induction asks generalizing t with
  | nil => rfl
  | cons ask asks ih =>
    have hask : (t.askDetach ask).1.world = t.world := by
      unfold askDetach
      split <;> rfl
    unfold askDetachments
    split
    · next h => rw [ih, ← hask, h]
    · exact hask

/-- A hook that is called is noted. -/
theorem world_call (t : Turn (ω × List Note)) (id : SessionId) (hook : Hook) :
    ∃ ending, (t.call c.noting id hook).1.world.2 = t.world.2 ++ [⟨id, hook, ending⟩] := by
  refine ⟨(c.call t.world.1 t.index id hook).2.1, ?_⟩
  simp only [call, world_askDetachments]
  rfl

theorem notes_runHooks (id : SessionId) (hooks : List Hook) (t : Turn (ω × List Note)) :
    Notes (·.hook ∈ hooks) t (t.runHooks c.noting id hooks).1 := by
  induction hooks generalizing t with
  | nil => exact Notes.refl t
  | cons hook hooks ih =>
    obtain ⟨ending, hworld⟩ := world_call c t id hook
    have hcall : Notes (·.hook ∈ hook :: hooks) t (t.call c.noting id hook).1 :=
      ⟨[⟨id, hook, ending⟩], hworld, fun n hn =>
        List.mem_singleton.1 hn ▸ List.mem_cons_self⟩
    unfold runHooks
    split
    next t' ending' h =>
      rw [h] at hcall
      split
      · exact hcall.trans ((ih t').mono fun n hn => List.mem_cons_of_mem hook hn)
      · exact hcall

theorem notes_pass (hooks : List Hook) (ids : List SessionId) (t : Turn (ω × List Note)) :
    Notes (·.hook ∈ hooks) t (t.pass c.noting hooks ids).1 := by
  induction ids generalizing t with
  | nil => exact Notes.refl t
  | cons id ids ih => exact (notes_runHooks c id hooks t).trans (ih _)

/-- No timestamp is passed to a session that is forced off. -/
theorem notes_detachFailed (t : Turn (ω × List Note)) (failure : SessionId × String) :
    Notes (·.hook.stamp? = none) t (t.detachFailed c.noting failure) := by
  rw [detachFailed]
  split
  · refine (notes_runHooks c failure.1 _ _).mono fun n hn => ?_
    simp only [List.mem_cons, List.not_mem_nil, or_false] at hn
    rcases hn with h | h | h <;> rw [h] <;> rfl
  · exact Notes.refl t

theorem notes_failures (failures : List (SessionId × String)) (t : Turn (ω × List Note)) :
    Notes (·.hook.stamp? = none) t (failures.foldl (detachFailed c.noting) t) := by
  induction failures generalizing t with
  | nil => exact Notes.refl t
  | cons failure failures ih => exact (notes_detachFailed c t failure).trans (ih _)

theorem notes_round (hooks : List Hook) (t : Turn (ω × List Note)) :
    Notes (fun n => n.hook ∈ hooks ∨ n.hook.stamp? = none) t (t.round c.noting hooks) :=
  ((notes_pass c hooks t.worker.sessions t).mono fun _ => .inl).trans
    ((notes_failures c _ _).mono fun _ => .inr)

/-- In a tick no timestamp is passed but that of the clock. -/
theorem notes_work (quantum : UInt64) (t : Turn (ω × List Note)) :
    Notes (fun n => ∀ ts, n.hook.stamp? = some ts → ts = t.worker.clock) t
      (t.work c.noting quantum) := by
  have haudio := notes_round c [.read t.worker.clock, .write t.worker.clock] t
  have hkeys := notes_round c [.keys] (t.audio c.noting)
  refine (haudio.mono ?_).trans (hkeys.mono ?_)
  · rintro n (hn | hn) ts hts
    · simp only [List.mem_cons, List.not_mem_nil, or_false] at hn
      rcases hn with h | h <;> rw [h] at hts <;> exact (Option.some.inj hts).symm
    · rw [hn] at hts
      cases hts
  · rintro n (hn | hn) ts hts
    · rw [List.mem_singleton.1 hn] at hts
      cases hts
    · rw [hn] at hts
      cases hts

theorem Notes.mem (h : Notes P t t') {n : Note} (hn : n ∈ t.world.2) : n ∈ t'.world.2 := by
  obtain ⟨notes, hnotes, -⟩ := h
  exact hnotes ▸ List.mem_append_left notes hn

/-- The first of the hooks is called on every session. -/
theorem mem_pass (hook : Hook) (hooks : List Hook) {ids : List SessionId}
    (t : Turn (ω × List Note)) {id : SessionId} (hid : id ∈ ids) :
    ∃ ending, ⟨id, hook, ending⟩ ∈ (t.pass c.noting (hook :: hooks) ids).1.world.2 := by
  induction ids generalizing t with
  | nil => cases hid
  | cons first ids ih =>
    rcases List.mem_cons.1 hid with rfl | hid
    · obtain ⟨ending, hworld⟩ := world_call c t id hook
      have hcall : ⟨id, hook, ending⟩ ∈ (t.call c.noting id hook).1.world.2 :=
        hworld ▸ List.mem_append_right _ (List.mem_singleton.2 rfl)
      have hrun : ⟨id, hook, ending⟩ ∈ (t.runHooks c.noting id (hook :: hooks)).1.world.2 := by
        unfold runHooks
        split
        next t' ending' h =>
          rw [h] at hcall
          split
          · exact (notes_runHooks c id hooks t').mem hcall
          · exact hcall
      exact ⟨ending, (notes_pass c (hook :: hooks) ids _).mem hrun⟩
    · exact ih _ hid

/-- In a tick every session is read at the timestamp of the clock. -/
theorem mem_work (quantum : UInt64) (t : Turn (ω × List Note)) {id : SessionId}
    (hid : id ∈ t.worker.sessions) :
    ∃ ending, ⟨id, .read t.worker.clock, ending⟩ ∈ (t.work c.noting quantum).world.2 := by
  let hooks := [Hook.read t.worker.clock, .write t.worker.clock]
  obtain ⟨ending, hpass⟩ := mem_pass c (.read t.worker.clock) [.write t.worker.clock] t hid
  have haudio : ⟨id, .read t.worker.clock, ending⟩ ∈ (t.audio c.noting).world.2 :=
    (notes_failures c (t.pass c.noting hooks t.worker.sessions).2 _).mem hpass
  exact ⟨ending, (notes_round c [.keys] _).mem haudio⟩

end Notes

/-! ## The clock in a turn -/

section Clock

variable (c : Client ω)

theorem clock_work (quantum : UInt64) (t : Turn ω) :
    (t.work c quantum).worker.clock = t.worker.clock + quantum := by
  obtain ⟨w, hw, heq⟩ := worker_work (P := fun w => w.clock = t.worker.clock)
    (fun w id h => h) c quantum rfl
  rw [heq, ← hw]
  rfl

theorem clock_apply (t : Turn ω) (r : Request) :
    (t.apply c r).worker.clock = t.worker.clock := by
  rw [worker_apply]
  cases r with
  | insert id =>
    rw [Worker.applied]
    split <;> rfl
  | detach id how => rfl

theorem clock_applyQueue (t : Turn ω) : (t.applyQueue c).worker.clock = t.worker.clock := by
  have hall : ∀ (requests : List Request) (t : Turn ω),
      (requests.foldl (apply c) t).worker.clock = t.worker.clock := by
    intro requests
    induction requests with
    | nil => exact fun _ => rfl
    | cons r requests ih => exact fun t => (ih _).trans (clock_apply c t r)
  exact hall _ _

end Clock

end Turn

/-! ## The clocks of all workers -/

namespace Pool

/-- The timestamp of the next tick of a worker that there is. -/
def clock (p : Pool) (i : Nat) : Option UInt64 := p.workers[i]?.map (·.clock)

theorem clock_send (p : Pool) (r : Nat × Request) (i : Nat) : (p.send r).clock i = p.clock i := by
  rw [send]
  split
  · have hworker := p.getElem?_modifyWorker r.1 i (·.enqueue r.2)
    show (p.modifyWorker r.1 (·.enqueue r.2)).clock i = p.clock i
    rw [clock, clock, hworker]
    split
    · cases p.workers[i]? <;> rfl
    · rfl
  · rfl

theorem clock_sends (p : Pool) (requests : List (Nat × Request)) (i : Nat) :
    (requests.foldl send p).clock i = p.clock i := by
  induction requests generalizing p with
  | nil => rfl
  | cons r rest ih => exact (ih _).trans (p.clock_send r i)

/-- A turn of a worker does to its clock what is said of it, and nothing to the others. -/
theorem clock_turn (p : Pool) (world : ω) (i j : Nat) {f : Turn ω → Turn ω} (g : UInt64 → UInt64)
    (hf : ∀ t, (f t).worker.clock = g t.worker.clock) :
    (p.turn world i f).1.clock j = if i = j then (p.clock j).map g else p.clock j := by
  cases hw : p.workers[i]? with
  | none =>
    have hturn : p.turn world i f = (p, world) := by rw [turn, hw]
    rw [hturn]
    split
    · next hij =>
      rw [clock, ← hij, hw]
      rfl
    · rfl
  | some w =>
    rw [turn_eq hw world f rfl, clock_sends, clock]
    split
    · next hij =>
      have hi : i < p.workers.length := (List.getElem?_eq_some_iff.1 hw).1
      rw [← hij, List.getElem?_set_self hi, clock, hw]
      exact congrArg some (hf _)
    · next hij =>
      rw [List.getElem?_set_ne hij, clock]

/-- What happens to a scheduler: it is asked to take or to detach a session, or one of its workers
applies the requests that wait or drives its sessions for a tick. -/
inductive Act where
  | add (id : SessionId) (group : String)
  | detach (id : SessionId) (how : Detachment)
  | apply (worker : Nat)
  | tick (worker : Nat)
deriving DecidableEq, Repr

/-- The scheduler and the world after something happened. -/
def act (c : Client ω) (s : Pool × ω) : Act → Pool × ω
  | .add id group => ((s.1.add id group).1, s.2)
  | .detach id how => ((s.1.detach id how).1, s.2)
  | .apply i => s.1.turn s.2 i (·.applyQueue c)
  | .tick i => s.1.turn s.2 i (·.work c s.1.quantum)

theorem add_frame (p : Pool) (id : SessionId) (group : String) (i : Nat) :
    (p.add id group).1.quantum = p.quantum ∧ (p.add id group).1.clock i = p.clock i := by
  rw [add]
  split
  · exact ⟨quantum_sends _ [_], clock_sends _ [_] i⟩
  · exact ⟨rfl, rfl⟩

theorem detach_frame (p : Pool) (id : SessionId) (how : Detachment) (i : Nat) :
    (p.detach id how).1.quantum = p.quantum ∧ (p.detach id how).1.clock i = p.clock i := by
  rw [detach]
  split
  · exact ⟨rfl, rfl⟩
  · exact ⟨quantum_sends _ [_], clock_sends _ [_] i⟩

theorem quantum_act (c : Client ω) (s : Pool × ω) (a : Act) :
    (act c s a).1.quantum = s.1.quantum := by
  cases a with
  | add id group => exact (s.1.add_frame id group 0).1
  | detach id how => exact (s.1.detach_frame id how 0).1
  | apply i => exact quantum_turn _ _ _ _
  | tick i => exact quantum_turn _ _ _ _

/-- Only a tick of a worker moves its clock, by the quantum. -/
theorem clock_act (c : Client ω) (s : Pool × ω) (a : Act) (i : Nat) :
    (act c s a).1.clock i =
      if a = .tick i then (s.1.clock i).map (· + s.1.quantum) else s.1.clock i := by
  cases a with
  | add id group => exact (s.1.add_frame id group i).2
  | detach id how => exact (s.1.detach_frame id how i).2
  | apply j =>
    have hturn := s.1.clock_turn s.2 j i id (Turn.clock_applyQueue c)
    rw [Option.map_id, id, ite_self] at hturn
    exact hturn
  | tick j =>
    have hturn := s.1.clock_turn s.2 j i (· + s.1.quantum) (Turn.clock_work c s.1.quantum)
    simpa [act] using hturn

end Pool

/-! ## Tick after tick -/

/-- What happens in a tick of a worker: the sessions that it drives when the tick begins, and the
hooks that it calls. -/
structure Beat where
  driven : List SessionId
  notes : List Note
deriving DecidableEq, Repr

/-- The timestamps that are passed to a session in a tick. -/
def Beat.stamps (b : Beat) (id : SessionId) : List UInt64 :=
  b.notes.filterMap fun n => if n.id = id then n.hook.stamp? else none

theorem Beat.mem_stamps {b : Beat} {id : SessionId} {ts : UInt64} :
    ts ∈ b.stamps id ↔ ∃ n ∈ b.notes, n.id = id ∧ n.hook.stamp? = some ts := by
  rw [stamps, List.mem_filterMap]
  refine exists_congr fun n => and_congr_right fun _ => ?_
  split
  · next hid => exact ⟨fun h => ⟨hid, h⟩, And.right⟩
  · next hid =>
    refine iff_of_false (fun h => ?_) fun h => hid h.1
    cases h

namespace Pool

/-- A tick of a worker. -/
def beat (c : Client ω) (s : Pool × ω) (i : Nat) : Beat where
  driven := s.1.sessions i
  notes := (s.1.turn (s.2, []) i (·.work c.noting s.1.quantum)).2.2

/-- The ticks of a worker in the course of what happens to its scheduler. -/
def beats (c : Client ω) (i : Nat) : Pool × ω → List Act → List Beat
  | _, [] => []
  | s, a :: acts =>
    if a = .tick i then beat c s i :: beats c i (act c s a) acts else beats c i (act c s a) acts

/-- In a tick no session is passed a timestamp but that of the worker's clock. -/
theorem stamps_beat (c : Client ω) (s : Pool × ω) (i : Nat) {id : SessionId} {ts : UInt64}
    (hts : ts ∈ (beat c s i).stamps id) : s.1.clock i = some ts := by
  obtain ⟨n, hn, -, hstamp⟩ := Beat.mem_stamps.1 hts
  cases hw : s.1.workers[i]? with
  | none =>
    rw [beat, turn, hw] at hn
    cases hn
  | some w =>
    obtain ⟨notes, hnotes, hall⟩ :=
      Turn.notes_work c s.1.quantum ⟨(s.2, []), s.1.groups, i, w, []⟩
    rw [beat, turn_eq hw (s.2, []) _ rfl] at hn
    have hmem : n ∈ [] ++ notes := hnotes ▸ hn
    rw [clock, hw, hall n hmem ts hstamp]
    rfl

/-- In a tick every session that is driven is passed a timestamp. -/
theorem stamps_driven (c : Client ω) (s : Pool × ω) (i : Nat) {id : SessionId}
    (hid : id ∈ (beat c s i).driven) : (beat c s i).stamps id ≠ [] := by
  cases hw : s.1.workers[i]? with
  | none =>
    rw [beat, sessions, hw] at hid
    cases hid
  | some w =>
    rw [beat, sessions, hw] at hid
    obtain ⟨ending, hnote⟩ :=
      Turn.mem_work c s.1.quantum ⟨(s.2, []), s.1.groups, i, w, []⟩ hid
    have hread : ⟨id, .read w.clock, ending⟩ ∈ (beat c s i).notes := by
      rw [beat, turn_eq hw (s.2, []) _ rfl]
      exact hnote
    exact List.ne_nil_of_mem (Beat.mem_stamps.2 ⟨_, hread, rfl, rfl⟩)

/-- The timestamps of a worker's ticks grow by the quantum from one to the next. -/
theorem stamps_beats (c : Client ω) (i : Nat) (s : Pool × ω) (acts : List Act) {k : Nat} {b : Beat}
    (hb : (beats c i s acts)[k]? = some b) :
    (∀ id ∈ b.driven, b.stamps id ≠ []) ∧ ∀ id, ∀ ts ∈ b.stamps id,
      ∃ first, s.1.clock i = some first ∧ ts = first + UInt64.ofNat k * s.1.quantum := by
  induction acts generalizing s k with
  | nil => cases hb
  | cons a acts ih =>
    have hquantum := quantum_act c s a
    have hclock := clock_act c s a i
    rw [beats] at hb
    split at hb
    · next hown =>
      cases k with
      | zero =>
        obtain rfl : beat c s i = b := Option.some.inj hb
        refine ⟨fun id hid => stamps_driven c s i hid, fun id ts hts =>
          ⟨ts, stamps_beat c s i hts, ?_⟩⟩
        rw [show UInt64.ofNat 0 = 0 from rfl, UInt64.zero_mul, UInt64.add_zero]
      | succ k =>
        obtain ⟨hdriven, hstamps⟩ := ih (act c s a) hb
        refine ⟨hdriven, fun id ts hts => ?_⟩
        obtain ⟨second, hsecond, hts⟩ := hstamps id ts hts
        rw [hclock, if_pos hown] at hsecond
        obtain ⟨first, hfirst, rfl⟩ := Option.map_eq_some_iff.1 hsecond
        refine ⟨first, hfirst, ?_⟩
        rw [hts, hquantum, UInt64.ofNat_add, show UInt64.ofNat 1 = 1 from rfl, UInt64.add_mul,
          UInt64.one_mul, UInt64.add_comm (_ * _), UInt64.add_assoc]
    · next hother =>
      rw [if_neg hother] at hclock
      have hnext := ih (act c s a) hb
      rw [hclock, hquantum] at hnext
      exact hnext

/-- Of two ticks of a worker, one right after the other, the timestamps differ by the quantum. -/
theorem stamps_next (c : Client ω) (i : Nat) (s : Pool × ω) (acts : List Act) {k : Nat}
    {b b' : Beat} (hb : (beats c i s acts)[k]? = some b)
    (hb' : (beats c i s acts)[k + 1]? = some b') {id : SessionId} {ts ts' : UInt64}
    (hts : ts ∈ b.stamps id) (hts' : ts' ∈ b'.stamps id) : ts' - ts = s.1.quantum := by
  obtain ⟨first, hfirst, rfl⟩ := (stamps_beats c i s acts hb).2 id ts hts
  obtain ⟨first', hfirst', rfl⟩ := (stamps_beats c i s acts hb').2 id ts' hts'
  obtain rfl : first = first' := Option.some.inj (hfirst.symm.trans hfirst')
  rw [UInt64.ofNat_add, show UInt64.ofNat 1 = 1 from rfl, UInt64.add_mul, UInt64.one_mul]
  grind

end Pool

end CallBridge.Scheduler

/-! ## The quantum -/

namespace CallBridge.Settings

/-- Settings of the workers pass if and only if there are workers, ticks have a length, and the
product of tick and rate fits into a word and makes a cycle at least. -/
theorem Processor.validate_eq_ok_iff (p : Processor) : p.validate = .ok (.ok ()) ↔
    p.threads ≠ 0 ∧ p.tickMs ≠ 0 ∧ 1000 ≤ p.millicycles ∧ p.millicycles < UInt64.size := by
  unfold validate
  split
  · next hthreads => exact iff_of_false (fun h => by cases h) fun h => h.1 hthreads
  split
  · next htick => exact iff_of_false (fun h => by cases h) fun h => h.2.1 htick
  next hthreads htick =>
    rw [quantum_eq]
    split
    · next hfits =>
      have hzero : UInt64.ofNat (p.millicycles / 1000) = 0 ↔ p.millicycles < 1000 := by
        rw [← UInt64.toNat_inj, UInt64.toNat_ofNat',
          Nat.mod_eq_of_lt (Nat.lt_of_le_of_lt (Nat.div_le_self ..) hfits)]
        exact Nat.div_eq_zero_iff_lt (by decide)
      show (if UInt64.ofNat (p.millicycles / 1000) = 0 then _ else _) = _ ↔ _
      split
      · next hq =>
        exact iff_of_false (fun h => by cases h) fun h => Nat.not_lt.2 h.2.2.1 (hzero.1 hq)
      · next hq =>
        exact iff_of_true rfl ⟨hthreads, htick, Nat.not_lt.1 fun h => hq (hzero.2 h), hfits⟩
    · next hfits => exact iff_of_false (fun h => by cases h) fun h => hfits h.2.2.2

/-- Checking the settings of the workers panics if and only if it comes to computing the quantum and
the product does not fit into a word. -/
theorem Processor.validate_eq_panic_iff (p : Processor) : p.validate = .error .multiplyOverflow ↔
    p.threads ≠ 0 ∧ p.tickMs ≠ 0 ∧ UInt64.size ≤ p.millicycles := by
  unfold validate
  split
  · next hthreads => exact iff_of_false (fun h => by cases h) fun h => h.1 hthreads
  split
  · next htick => exact iff_of_false (fun h => by cases h) fun h => h.2.1 htick
  next hthreads htick =>
    rw [quantum_eq]
    split
    · next hfits =>
      refine iff_of_false (fun h => ?_) fun h => Nat.not_lt.2 h.2.2 hfits
      change (if UInt64.ofNat (p.millicycles / 1000) = 0 then _ else _) = _ at h
      split at h <;> cases h
    · next hfits => exact iff_of_true rfl ⟨hthreads, htick, Nat.not_lt.1 hfits⟩

theorem Server.validate_processor {s : Server} (h : s.validate = .ok (.ok ())) :
    s.processor.validate = .ok (.ok ()) := by
  rw [validate] at h
  rcases hp : s.processor.validate with _ | _ | _
  · rw [hp] at h
    cases h
  · rw [hp] at h
    cases h
  · rfl

theorem Server.validate_eq_panic_iff (s : Server) :
    s.validate = .error .multiplyOverflow ↔ s.processor.validate = .error .multiplyOverflow := by
  rw [validate]
  cases s.processor.validate with
  | error e => rfl
  | ok r => exact iff_of_false (fun h => by cases h) fun h => by cases h

end CallBridge.Settings

namespace CallBridge.Scheduler

variable {ω : Type}

open Settings (Processor Server)

namespace Pool

/-- Starting a scheduler panics if and only if the product of tick and rate does not fit into a
word. -/
theorem launch_eq_panic_iff (p : Processor) :
    launch p = .error .multiplyOverflow ↔ UInt64.size ≤ p.millicycles := by
  rw [launch, p.quantum_eq]
  split
  · next hfits => exact iff_of_false (fun h => by cases h) (Nat.not_le.2 hfits)
  · next hfits => exact iff_of_true rfl (Nat.not_lt.1 hfits)

/-- Settings that were accepted start a scheduler, and its quantum is the number of clock cycles in
a tick without the fraction. -/
theorem exists_launch {p : Processor} (h : p.validate = .ok (.ok ())) :
    ∃ pool, launch p = .ok pool ∧ pool.quantum = UInt64.ofNat (p.millicycles / 1000) := by
  obtain ⟨-, -, hleast, hfits⟩ := p.validate_eq_ok_iff.1 h
  refine ⟨_, by rw [launch, p.quantum_eq, if_pos hfits]; rfl, ?_⟩
  have hquantum : (UInt64.ofNat (p.millicycles / 1000)).toNat = p.millicycles / 1000 := by
    rw [UInt64.toNat_ofNat', Nat.mod_eq_of_lt (Nat.lt_of_le_of_lt (Nat.div_le_self ..) hfits)]
  have hle : 1 ≤ UInt64.ofNat (p.millicycles / 1000) := by
    rw [UInt64.le_iff_toNat_le, hquantum]
    exact Nat.div_pos hleast (by decide)
  show (if UInt64.ofNat (p.millicycles / 1000) ≤ 1 then 1 else _) = _
  split
  · next hone => exact UInt64.le_antisymm hle hone
  · rfl

end Pool

/-- **Main theorem**: at what rate the media clock runs, and when there is no clock at all.

Settings that are accepted start a scheduler without a panic. Whatever happens to it, in a tick of a
worker all sessions that it drives are passed a timestamp, and the timestamps of two ticks, one
right after the other, differ by the number of clock cycles in a tick, without the fraction.

The product of tick and rate is computed twice, when the settings are checked and when the scheduler
is started. Checking settings panics if and only if there are workers, ticks have a length, and the
product exceeds a word of 64 bits, and starting a scheduler panics if and only if the product
does. -/
theorem clock_keeps_rate (s : Server) :
    (s.validate = .ok (.ok ()) → ∃ pool, Pool.launch s.processor = .ok pool ∧
      ∀ (c : Client ω) (world : ω) acts i,
        let beats := Pool.beats c i (pool, world) acts
        (∀ b ∈ beats, ∀ id ∈ b.driven, b.stamps id ≠ []) ∧
        ∀ k b b' id, beats[k]? = some b → beats[k + 1]? = some b' →
          ∀ ts ∈ b.stamps id, ∀ ts' ∈ b'.stamps id,
            ts' - ts = UInt64.ofNat (s.processor.millicycles / 1000)) ∧
    (s.validate = .error .multiplyOverflow ↔ s.processor.threads ≠ 0 ∧ s.processor.tickMs ≠ 0 ∧
      UInt64.size ≤ s.processor.millicycles) ∧
    (Pool.launch s.processor = .error .multiplyOverflow ↔
      UInt64.size ≤ s.processor.millicycles) := by
  refine ⟨fun hvalid => ?_, s.validate_eq_panic_iff.trans s.processor.validate_eq_panic_iff,
    Pool.launch_eq_panic_iff s.processor⟩
  obtain ⟨pool, hlaunch, hquantum⟩ := Pool.exists_launch (Server.validate_processor hvalid)
  refine ⟨pool, hlaunch, fun c world acts i => ⟨fun b hb => ?_, ?_⟩⟩
  · obtain ⟨k, hk⟩ := List.mem_iff_getElem?.1 hb
    exact (Pool.stamps_beats c i _ acts hk).1
  · intro k b b' id hb hb' ts hts ts' hts'
    rw [← hquantum]
    exact Pool.stamps_next c i _ acts hb hb' hts hts'

/-- Sessions that do nothing. -/
def Client.idle : Client Unit := ⟨fun world _ _ _ => (world, .done, [])⟩

/-- A session is taken up and driven for two ticks. -/
def twoTicks : List Pool.Act := [.add ⟨"call"⟩ "group", .apply 0, .tick 0, .tick 0]

/-- The clock of 32000 Hz runs on by 320 cycles in ten milliseconds. -/
theorem clock_keeps_rate_standard : ∃ pool,
    (Server.standard 1).validate = .ok (.ok ()) ∧
      Pool.launch (Server.standard 1).processor = .ok pool ∧
      (Pool.beats Client.idle 0 (pool, ()) twoTicks).map (·.stamps ⟨"call"⟩) =
        [[0, 0], [320, 320]] ∧
      (320 : UInt64) - 0 = UInt64.ofNat ((Server.standard 1).processor.millicycles / 1000) := by
  have hvalid := Server.validate_standard (Nat.succ_ne_zero 0)
  obtain ⟨pool, hlaunch, hrun⟩ := (clock_keeps_rate (Server.standard 1)).1 hvalid
  obtain rfl : Pool.start 1 320 = pool := Except.ok.inj hlaunch
  exact ⟨_, hvalid, hlaunch, by decide,
    (hrun Client.idle () twoTicks 0).2 0 _ _ ⟨"call"⟩ rfl rfl 0 (by decide) 320 (by decide)⟩

/-- Ticks of 576460752303424 milliseconds of the clock of 32000 Hz: the product of both exceeds a
word of 64 bits, and checking these settings panics, as starting a scheduler on them does. -/
theorem not_free_of_overflow :
    ¬ ∀ s : Server, s.validate ≠ .error .multiplyOverflow ∧
      Pool.launch s.processor ≠ .error .multiplyOverflow := by
  intro hfree
  let s : Server := { Server.standard 1 with processor := ⟨1, 576460752303424, 32000⟩ }
  exact (hfree s).1 (by decide)

end CallBridge.Scheduler
