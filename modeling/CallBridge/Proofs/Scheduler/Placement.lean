import CallBridge.Proofs.Scheduler.Loads
import Mathlib.Data.Set.Card

/-!
# The placement of callgroups

Sessions come to callgroups and leave, in any order, and a session may come to another callgroup
before it has left the first. Whatever comes, a callgroup is on a worker as long as it has members,
and the load of a worker is the number of callgroups on it.

The workers of the callgroups and their members are kept in tables apart, which are searched one
after the other. A session that leaves is forgotten before its callgroup is looked up, the entries
for a callgroup go at different places, and a load of zero would stay zero when a callgroup goes.
The tables are written down here with each step that could miss, and agree with the callgroups
whatever comes, so that none of them does.

Results:
* `Placed.move`, `Placed.moved`: a callgroup in use has members, and the loads are counts.
* `Placed.loads_eq`: the load of a worker is the number of callgroups on it.
* `leastLoaded_least`: a callgroup goes where the load is least.
* `Placed.workerOf_moved`: a callgroup stays where it is as long as it has members.
* `Tables.Agrees.moved`: the tables agree with the callgroups, and no step of them misses.
* `placement`: how callgroups are placed.
-/

namespace CallBridge.Scheduler

/-- The load at the first index where it is least is least. -/
theorem leastLoaded_least {loads : List Nat} (h : loads ≠ []) :
    ∃ least, loads[leastLoaded loads]? = some least ∧ ∀ load ∈ loads, least ≤ load := by
  have hlt := leastLoaded_lt h
  refine ⟨loads[leastLoaded loads], List.getElem?_eq_getElem hlt, ?_⟩
  have hall : (loads.all (loads[leastLoaded loads] ≤ ·)) = true := List.findIdx_getElem (w := hlt)
  simpa using hall

namespace Callgroups

/-! ## Runs -/

/-- What happens to callgroups: a session comes to one of them, or is forgotten. -/
inductive Move where
  | come (id : SessionId) (name : String)
  | go (id : SessionId)
deriving DecidableEq, Repr

/-- The callgroups after a session came or went. -/
def move (c : Callgroups) : Move → Callgroups
  | .come id name => (c.assign id name).1
  | .go id => (c.release id).1

/-- The callgroups after sessions came and went. -/
def moved (c : Callgroups) (moves : List Move) : Callgroups := moves.foldl move c

/-- The members of a callgroup; one that is not in use has none. -/
def membersOf (c : Callgroups) (name : String) : List SessionId :=
  ((c.groups.lookup name).map (·.members)).getD []

/-- Every known session is a member of its callgroup, a callgroup in use has members and a worker,
and the load of a worker is the number of its callgroups. -/
structure Placed (c : Callgroups) : Prop where
  sound : c.Sound
  counted : c.Counted

theorem Placed.start (workers : Nat) : (Callgroups.start workers).Placed :=
  ⟨Sound.start workers, (Exact.start workers).counted⟩

theorem Placed.move {c : Callgroups} (h : c.Placed) (m : Move) : (c.move m).Placed :=
  match m with
  | .come id name => ⟨h.sound.assign id name, h.counted.assign id name⟩
  | .go id => ⟨h.sound.release id, h.counted.release h.sound id⟩

/-- **Step and run**: callgroups stay placed, whatever sessions come and go. -/
theorem Placed.moved {c : Callgroups} (h : c.Placed) (moves : List Move) :
    (c.moved moves).Placed := by
  induction moves generalizing c with
  | nil => exact h
  | cons m moves ih => exact ih (h.move m)

theorem length_loads_moved {c : Callgroups} (h : c.Placed) (moves : List Move) :
    (c.moved moves).loads.length = c.loads.length := by
  induction moves generalizing c with
  | nil => rfl
  | cons m moves ih =>
    refine (ih (h.move m)).trans ?_
    cases m with
    | come id name => exact length_loads_assign c id name
    | go id => exact length_loads_release h.sound id

/-! ## Workers and members -/

section

variable {c : Callgroups} (h : c.Placed)
include h

theorem Placed.lookup_iff {name : String} {g : Group} :
    c.groups.lookup name = some g ↔ (name, g) ∈ c.groups := by
  constructor
  · intro hg
    exact (perm_without h.counted.names hg).mem_iff.2 List.mem_cons_self
  · intro hmem
    cases hg : c.groups.lookup name with
    | none =>
      have hne := List.lookup_eq_none_iff.1 hg (name, g) hmem
      simp at hne
    | some g' =>
      have hmem' := (perm_without h.counted.names hg).mem_iff.2 List.mem_cons_self
      have heq := List.inj_on_of_nodup_map h.counted.names hmem' hmem rfl
      rw [(Prod.mk.inj heq).2]

/-- A callgroup has a worker exactly if it has members. -/
theorem Placed.isSome_workerOf (name : String) :
    (c.workerOf name).isSome = true ↔ c.membersOf name ≠ [] := by
  rw [workerOf, membersOf]
  cases hg : c.groups.lookup name with
  | none => simp
  | some g =>
    have hmembers := h.counted.members name g (h.lookup_iff.1 hg)
    simpa using hmembers

/-- The callgroups on a worker are as many as its load tells. -/
theorem Placed.loads_eq {i load : Nat} (hload : c.loads[i]? = some load) :
    {name | c.workerOf name = some i}.encard = load := by
  have hset : {name | c.workerOf name = some i} =
      ((c.groups.filter (·.2.worker = i)).map (·.1)).toFinset := by
    ext name
    simp only [Set.mem_ofPred_eq, workerOf, Option.map_eq_some_iff, h.lookup_iff,
      List.coe_toFinset, List.mem_map, List.mem_filter, decide_eq_true_eq, Prod.exists]
    constructor
    · rintro ⟨g, hmem, hworker⟩
      exact ⟨name, g, ⟨hmem, hworker⟩, rfl⟩
    · rintro ⟨_, g, ⟨hmem, hworker⟩, rfl⟩
      exact ⟨g, hmem, hworker⟩
  have hnodup : ((c.groups.filter (·.2.worker = i)).map (·.1)).Nodup :=
    h.counted.names.sublist (List.filter_sublist.map _)
  rw [hset, Set.encard_coe_eq_coe_finsetCard, List.toFinset_card_of_nodup hnodup, List.length_map,
    ← List.countP_eq_length_filter, h.counted.loads i load hload, groupsOn]

/-- A worker with a callgroup has a load that can be taken from. -/
theorem Placed.loads_pos {name : String} {i : Nat} (hi : c.workerOf name = some i) :
    ∃ load, c.loads[i]? = some (load + 1) := by
  obtain ⟨g, hg, rfl⟩ := Option.map_eq_some_iff.1 hi
  have hlt := h.sound.worker name g hg
  have hload := List.getElem?_eq_getElem hlt
  have hpos : 0 < c.groupsOn g.worker :=
    List.countP_pos_iff.2 ⟨(name, g), h.lookup_iff.1 hg, decide_eq_true rfl⟩
  rw [← h.counted.loads g.worker _ hload] at hpos
  exact ⟨c.loads[g.worker] - 1, by rw [hload, Nat.sub_add_cancel hpos]⟩

/-- A known session is a member of its callgroup, which has a worker. -/
theorem Placed.mem_membersOf {id : SessionId} {name : String}
    (hn : c.groupOf.lookup id = some name) :
    id ∈ c.membersOf name ∧ (c.workerOf name).isSome = true := by
  obtain ⟨g, hg, hm⟩ := h.sound.member id name hn
  rw [membersOf, workerOf, hg]
  exact ⟨hm, rfl⟩

/-- A session is answered its worker when it goes, unless it is unknown. -/
theorem Placed.isSome_release (id : SessionId) : (c.release id).2.isSome = c.contains id := by
  rw [release_worker h.sound, isSome_home h.sound]

/-! ## Staying -/

/-- A callgroup with a worker keeps it when sessions come and go, unless no member is left. -/
theorem Placed.workerOf_move {name : String} {i : Nat} (hi : c.workerOf name = some i) (m : Move)
    (hkept : (c.move m).membersOf name ≠ []) : (c.move m).workerOf name = some i := by
  cases m with
  | come id other =>
    by_cases hname : name = other
    · rw [← assign_worker hi id, hname]
      exact workerOf_assign c id other
    · obtain ⟨g, loads, heq, -, -⟩ := assign_eq c id other
      rw [Callgroups.move, heq, workerOf, place, lookup_entered_eq, if_neg hname]
      exact hi
  | go id =>
    rw [Callgroups.move] at hkept ⊢
    rcases release_eq h.sound id with ⟨-, heq⟩ | ⟨other, g, -, hg, heq⟩
    · rw [heq]
      exact hi
    · rw [heq] at hkept ⊢
      rw [workerOf, lookup_groups_leave]
      rw [membersOf, lookup_groups_leave] at hkept
      by_cases hname : name = other
      · rw [if_pos hname] at hkept ⊢
        rw [workerOf, hname, hg] at hi
        split at hkept
        · exact absurd rfl hkept
        · next hleft =>
          rw [if_neg hleft]
          exact hi
      · rw [if_neg hname]
        exact hi

/-- **Step and run**: a callgroup stays where it is as long as it has members. -/
theorem Placed.workerOf_moved {name : String} {i : Nat} (hi : c.workerOf name = some i)
    (moves : List Move)
    (hkept : ∀ k ≤ moves.length, (c.moved (moves.take k)).membersOf name ≠ []) :
    (c.moved moves).workerOf name = some i := by
  induction moves generalizing c with
  | nil => exact hi
  | cons m moves ih =>
    have hfirst := h.workerOf_move hi m (hkept 1 (Nat.succ_le_succ (Nat.zero_le _)))
    exact ih (h.move m) hfirst fun k hk => hkept (k + 1) (Nat.succ_le_succ hk)

end

/-! ## Tables that are kept apart -/

/-- The worker of each callgroup, the members of each callgroup, the callgroup of each session, and
the load of each worker. -/
structure Tables where
  workers : List (String × Nat)
  members : List (String × List SessionId)
  groupOf : List (SessionId × String)
  loads : List Nat

namespace Tables

/-- Empty tables, and a number of workers, at least one. -/
def start (workers : Nat) : Tables := ⟨[], [], [], List.replicate (max workers 1) 0⟩

/-- The tables after a callgroup without a worker was given one, and its worker. There is no answer
when the worker that is chosen does not exist. -/
def give? (t : Tables) (name : String) : Option (Tables × Nat) :=
  match t.workers.lookup name with
  | some worker => some (t, worker)
  | none =>
    let worker := leastLoaded t.loads
    (t.loads[worker]?).map fun load =>
      ({ t with
          workers := entered name worker t.workers
          loads := t.loads.set worker (load + 1) }, worker)

/-- The tables after a session was noted as a member of a callgroup. -/
def note (t : Tables) (id : SessionId) (name : String) : Tables :=
  { t with
    members := entered name (join id ((t.members.lookup name).getD [])) t.members
    groupOf := entered id name t.groupOf }

/-- The tables after a session came to a callgroup, and its worker. -/
def assign? (t : Tables) (id : SessionId) (name : String) : Option (Tables × Nat) :=
  (t.give? name).map fun given => (given.1.note id name, given.2)

/-- The tables after a callgroup was taken from its worker. There is no answer when the worker has
no load that it could be taken from. -/
def take? (t : Tables) (name : String) (worker : Nat) : Option Tables :=
  match t.loads[worker]? with
  | none | some 0 => none
  | some (load + 1) => some
      { t with
        workers := without name t.workers
        members := without name t.members
        loads := t.loads.set worker load }

/-- The tables after a session went, and its worker if it is found. The session is forgotten before
its callgroup is looked up. -/
def release? (t : Tables) (id : SessionId) : Option (Tables × Option Nat) :=
  match t.groupOf.lookup id with
  | none => some (t, none)
  | some name =>
    let t := { t with groupOf := without id t.groupOf }
    match t.workers.lookup name with
    | none => some (t, none)
    | some worker =>
      let left := ((t.members.lookup name).getD []).filter (· ≠ id)
      if left.isEmpty then (t.take? name worker).map (·, some worker)
      else some ({ t with members := entered name left t.members }, some worker)

/-- The tables after a session came or went. -/
def move? (t : Tables) : Move → Option Tables
  | .come id name => (t.assign? id name).map (·.1)
  | .go id => (t.release? id).map (·.1)

/-- The tables tell what the callgroups do. -/
structure Agrees (t : Tables) (c : Callgroups) : Prop where
  workers : ∀ name, t.workers.lookup name = c.workerOf name
  members : ∀ name, t.members.lookup name = (c.groups.lookup name).map (·.members)
  groupOf : t.groupOf = c.groupOf
  loads : t.loads = c.loads

theorem Agrees.start (workers : Nat) : (Tables.start workers).Agrees (Callgroups.start workers) :=
  ⟨fun _ => rfl, fun _ => rfl, rfl, rfl⟩

theorem modify_eq_set {f : Nat → Nat} {i load : Nat} {loads : List Nat}
    (h : loads[i]? = some load) : loads.modify i f = loads.set i (f load) := by
  rw [List.modify_eq_set, h, Option.getD_some]

/-- The tables agree about a session that comes to a callgroup with a worker. -/
theorem Agrees.note {t : Tables} {c : Callgroups} {name : String} {g : Group}
    (hworkers : ∀ n, t.workers.lookup n = if n = name then some g.worker else c.workerOf n)
    (hmembers : ∀ n, t.members.lookup n = (c.groups.lookup n).map (·.members))
    (hg : (t.members.lookup name).getD [] = g.members) (hgroupOf : t.groupOf = c.groupOf)
    (id : SessionId) :
    (t.note id name).Agrees (Callgroups.place { c with loads := t.loads } id name g) where
  workers := by
    intro n
    show t.workers.lookup n = ((entered name _ c.groups).lookup n).map (·.worker)
    rw [hworkers, lookup_entered_eq]
    split
    · rfl
    · rfl
  members := by
    intro n
    rw [Tables.note, place, lookup_entered_eq, lookup_entered_eq, hg]
    split
    · rfl
    · exact hmembers n
  groupOf := congrArg (entered id name) hgroupOf
  loads := rfl

section

variable {t : Tables} {c : Callgroups} (ha : t.Agrees c) (h : c.Placed)
include ha h

/-- The tables agree when a session comes, and so do the answers. -/
theorem Agrees.assign (id : SessionId) (name : String) :
    ∃ t', t.assign? id name = some (t', (c.assign id name).2) ∧
      t'.Agrees (c.assign id name).1 := by
  have hworker := ha.workers name
  have hmembers := ha.members name
  rw [assign?, give?, Callgroups.assign]
  rw [workerOf] at hworker
  cases hg : c.groups.lookup name with
  | some g =>
    rw [hg] at hworker hmembers
    rw [hworker]
    have hgiven : ∀ n, t.workers.lookup n = if n = name then some g.worker else c.workerOf n := by
      intro n
      rw [ha.workers]
      split
      · next hn => rw [hn, workerOf, hg, Option.map_some]
      · rfl
    have hnoted := Agrees.note hgiven ha.members (congrArg (·.getD []) hmembers) ha.groupOf id
    rw [ha.loads] at hnoted
    exact ⟨t.note id name, rfl, hnoted⟩
  | none =>
    rw [hg] at hworker hmembers
    obtain ⟨load, hload, -⟩ := leastLoaded_least h.sound.loads
    have hload' : t.loads[leastLoaded t.loads]? = some load := by rw [ha.loads, hload]
    rw [hworker]
    simp only [hload', Option.map_some]
    rw [ha.loads]
    let given : Tables :=
      { t with
        workers := entered name (leastLoaded c.loads) t.workers
        loads := c.loads.set (leastLoaded c.loads) (load + 1) }
    have hgiven : ∀ n, given.workers.lookup n =
        if n = name then some (leastLoaded c.loads) else c.workerOf n := by
      intro n
      rw [← ha.workers]
      exact lookup_entered_eq name n _ t.workers
    have hnoted := Agrees.note (t := given) (g := ⟨leastLoaded c.loads, []⟩) hgiven ha.members
      (congrArg (·.getD []) hmembers) ha.groupOf id
    have hloads : given.loads = c.loads.modify (leastLoaded c.loads) (· + 1) :=
      (modify_eq_set hload).symm
    rw [hloads] at hnoted
    exact ⟨given.note id name, rfl, hnoted⟩

/-- The tables agree when a session goes, and so do the answers. -/
theorem Agrees.release (id : SessionId) :
    ∃ t', t.release? id = some (t', (c.release id).2) ∧ t'.Agrees (c.release id).1 := by
  rw [release?, ha.groupOf]
  rcases release_eq h.sound id with ⟨hn, heq⟩ | ⟨name, g, hn, hg, heq⟩
  · rw [heq, hn]
    exact ⟨t, rfl, ha⟩
  · have hworkerOf : c.workerOf name = some g.worker := by rw [workerOf, hg, Option.map_some]
    have hworker := (ha.workers name).trans hworkerOf
    have hmembers : (t.members.lookup name).getD [] = g.members := by
      rw [ha.members, hg]
      rfl
    rw [heq, hn]
    simp only [hworker, hmembers, leave]
    split
    · obtain ⟨load, hload⟩ := h.loads_pos hworkerOf
      simp only [take?, ha.loads, hload, Option.map_some]
      refine ⟨_, rfl, fun n => ?_, fun n => ?_, rfl,
        (modify_eq_set (f := (· - 1)) hload).symm⟩
      · rw [lookup_without, workerOf, lookup_without, ha.workers]
        split
        · rfl
        · rfl
      · rw [lookup_without, lookup_without, ha.members]
        split
        · rfl
        · rfl
    · refine ⟨_, rfl, fun n => ?_, fun n => ?_, rfl, ha.loads⟩
      · rw [ha.workers, workerOf, workerOf, lookup_entered_eq]
        split
        · next hname => rw [hname, hg, Option.map_some, Option.map_some]
        · rfl
      · rw [lookup_entered_eq, lookup_entered_eq, ha.members]
        split
        · rfl
        · rfl

theorem Agrees.move (m : Move) :
    ∃ t', t.move? m = some t' ∧ t'.Agrees (c.move m) := by
  cases m with
  | come id name =>
    obtain ⟨t', heq, hagrees⟩ := ha.assign h id name
    exact ⟨t', by rw [move?, heq, Option.map_some], hagrees⟩
  | go id =>
    obtain ⟨t', heq, hagrees⟩ := ha.release h id
    exact ⟨t', by rw [move?, heq, Option.map_some], hagrees⟩

/-- **Step and run**: the tables agree whatever sessions come and go. -/
theorem Agrees.moved (moves : List Move) :
    ∃ t', moves.foldlM move? t = some t' ∧ t'.Agrees (c.moved moves) := by
  induction moves generalizing t c with
  | nil => exact ⟨t, rfl, ha⟩
  | cons m moves ih =>
    obtain ⟨t', heq, hagrees⟩ := ha.move h m
    obtain ⟨t'', hrest, hend⟩ := ih hagrees (h.move m)
    exact ⟨t'', by rw [List.foldlM_cons, heq]; exact hrest, hend⟩

end

end Tables

/-! ## Main theorem -/

/-- **Main theorem**: how callgroups are placed.

Among any number of workers, after any sessions came and went, to whatever callgroups: the tables
agree with the callgroups, and no step of them misses, so that no load is taken from below zero.
There are as many loads as workers, at least one, and each is the number of callgroups on the
worker; a worker with a callgroup has a load to take from. A callgroup has a worker exactly if it
has members. It keeps the worker as long as it has members, and is given one with the least load if
it has none. A known session is a member of its callgroup, which has a worker, so that a session is
answered its worker when it goes, unless it is unknown. -/
theorem placement (workers : Nat) (past : List Move) :
    let c := (Callgroups.start workers).moved past
    (∃ t : Tables, past.foldlM Tables.move? (Tables.start workers) = some t ∧ t.Agrees c ∧
      (∀ id name, ∃ t', t.assign? id name = some (t', (c.assign id name).2)) ∧
      ∀ id, ∃ t', t.release? id = some (t', (c.release id).2)) ∧
    (c.loads.length = max workers 1 ∧
      (∀ i (load : Nat), c.loads[i]? = some load →
        {name | c.workerOf name = some i}.encard = load) ∧
      ∀ name i, c.workerOf name = some i → ∃ load, c.loads[i]? = some (load + 1)) ∧
    (∀ name, (c.workerOf name).isSome = true ↔ c.membersOf name ≠ []) ∧
    (∀ name i moves, c.workerOf name = some i →
      (∀ k ≤ moves.length, (c.moved (moves.take k)).membersOf name ≠ []) →
      (c.moved moves).workerOf name = some i) ∧
    (∀ id name, (c.assign id name).1.workerOf name = some (c.assign id name).2 ∧
      (c.workerOf name = none → ∃ least, c.loads[(c.assign id name).2]? = some least ∧
        ∀ load ∈ c.loads, least ≤ load)) ∧
    (∀ id name, c.groupOf.lookup id = some name →
      id ∈ c.membersOf name ∧ (c.workerOf name).isSome = true) ∧
    ∀ id, (c.release id).2.isSome = c.contains id := by
  intro c
  have h : c.Placed := (Placed.start workers).moved past
  obtain ⟨t, hrun, hagrees⟩ := (Tables.Agrees.start workers).moved (Placed.start workers) past
  refine ⟨⟨t, hrun, hagrees, fun id name => ?_, fun id => ?_⟩, ⟨?_, fun i load => h.loads_eq,
    fun name i => h.loads_pos⟩, h.isSome_workerOf, fun name i moves hi => h.workerOf_moved hi moves,
    fun id name => ⟨workerOf_assign c id name, fun hnone => ?_⟩, fun id name => h.mem_membersOf,
    h.isSome_release⟩
  · obtain ⟨t', heq, -⟩ := hagrees.assign h id name
    exact ⟨t', heq⟩
  · obtain ⟨t', heq, -⟩ := hagrees.release h id
    exact ⟨t', heq⟩
  · rw [length_loads_moved (Placed.start workers), Callgroups.start, List.length_replicate]
  · have hworker : (c.assign id name).2 = leastLoaded c.loads := by
      obtain ⟨g, loads, heq, -, hg | ⟨-, rfl⟩⟩ := assign_eq c id name
      · rw [workerOf, hg] at hnone
        cases hnone
      · rw [heq]
    rw [hworker]
    exact leastLoaded_least h.sound.loads

/-- A session that came to one callgroup and then to another is answered a worker when it goes. The
first callgroup stays where it is, as it still has the session among its members. -/
theorem placement_twice :
    let c := (Callgroups.start 2).moved [.come ⟨"a"⟩ "g", .come ⟨"a"⟩ "h"]
    (∀ k ≤ 1, (c.moved ([.go ⟨"a"⟩].take k)).membersOf "g" ≠ []) ∧
      (c.moved [.go ⟨"a"⟩]).workerOf "g" = some 0 ∧ (c.release ⟨"a"⟩).2.isSome = true := by
  intro c
  have hkept : ∀ k ≤ 1, (c.moved ([.go ⟨"a"⟩].take k)).membersOf "g" ≠ [] := by decide
  obtain ⟨-, -, -, hstays, -, -, hanswered⟩ := placement 2 [.come ⟨"a"⟩ "g", .come ⟨"a"⟩ "h"]
  exact ⟨hkept, hstays "g" 0 [.go ⟨"a"⟩] (by decide) hkept, (hanswered ⟨"a"⟩).trans (by decide)⟩

end Callgroups

end CallBridge.Scheduler
