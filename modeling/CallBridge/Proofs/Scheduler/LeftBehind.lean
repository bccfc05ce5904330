import CallBridge.Proofs.Scheduler.Placement

/-!
# Callgroups that are left behind

A session that comes to another callgroup before it has left the first one is known under the other
one from then on, and is still a member of the first. When it goes it leaves the callgroup under
which it is known and no other. So it strays from the first callgroup until it comes back there; and
if it never does, the callgroup keeps its worker although nobody is known any more.

Results:
* `lookup_groupOf_moved`: the callgroup under which a session is known is told by its last move.
* `mem_membersOf_moved`: the members of a callgroup are those who are known under it, and those who
  strayed from it.
* `Placed.vacant_iff`: no callgroup has a worker exactly if none has members, and then no worker has
  a load.
* `vacated_iff`: when nobody is known any more, all callgroups have gone exactly if nobody strayed.
* `not_vacated`: they have not always gone.
-/

namespace CallBridge.Scheduler.Callgroups

/-! ## Who strays -/

/-- The session that comes or goes. -/
def Move.session : Move → SessionId
  | .come id _ => id
  | .go id => id

/-- The last move of a session. -/
def lastOf (id : SessionId) (moves : List Move) : Option Move :=
  (moves.filter (·.session = id)).getLast?

/-- A session came to another callgroup while it was known under this one, and has not come back
since. -/
def StrayedFrom (id : SessionId) (name : String) (moves : List Move) : Prop :=
  ∃ before other after, moves = before ++ .come id other :: after ∧ other ≠ name ∧
    lastOf id before = some (.come id name) ∧ .come id name ∉ after

theorem lastOf_concat (id : SessionId) (moves : List Move) (m : Move) :
    lastOf id (moves ++ [m]) = if m.session = id then some m else lastOf id moves := by
  unfold lastOf
  by_cases h : m.session = id
  · simp [h]
  · simp [h]

/-- A session strays from where it was known when it comes to another callgroup, and until it comes
back. -/
theorem strayedFrom_concat (id : SessionId) (name : String) (moves : List Move) (m : Move) :
    StrayedFrom id name (moves ++ [m]) ↔ m ≠ .come id name ∧
      (StrayedFrom id name moves ∨
        ∃ other, m = .come id other ∧ lastOf id moves = some (.come id name)) := by
  constructor
  · rintro ⟨before, other, after, heq, hother, hlast, hback⟩
    rcases List.eq_nil_or_concat after with rfl | ⟨after, m', rfl⟩
    · obtain ⟨rfl, hm⟩ := List.append_inj' heq rfl
      obtain rfl := List.singleton_inj.1 hm
      exact ⟨fun e => hother (Move.come.inj e).2, .inr ⟨other, rfl, hlast⟩⟩
    · rw [List.concat_eq_append, ← List.cons_append, ← List.append_assoc] at heq
      rw [List.concat_eq_append, List.mem_append, not_or, List.mem_singleton] at hback
      obtain ⟨rfl, hm⟩ := List.append_inj' heq rfl
      obtain rfl := List.singleton_inj.1 hm
      exact ⟨fun e => hback.2 e.symm, .inl ⟨before, other, after, rfl, hother, hlast, hback.1⟩⟩
  · rintro ⟨hm, ⟨before, other, after, rfl, hother, hlast, hback⟩ | ⟨other, rfl, hlast⟩⟩
    · refine ⟨before, other, after ++ [m], by rw [List.append_assoc]; rfl, hother, hlast, ?_⟩
      rw [List.mem_append, not_or, List.mem_singleton]
      exact ⟨hback, fun e => hm e.symm⟩
    · exact ⟨moves, other, [], rfl, fun e => hm (by rw [e]), hlast, List.not_mem_nil⟩

/-- Who strayed from a callgroup did not come there last. -/
theorem StrayedFrom.lastOf_ne {id : SessionId} {name : String} {moves : List Move}
    (h : StrayedFrom id name moves) : lastOf id moves ≠ some (.come id name) := by
  induction moves using List.reverseRecOn with
  | nil =>
    intro hlast
    cases hlast
  | append_singleton moves m ih =>
    obtain ⟨hm, hcase⟩ := (strayedFrom_concat id name moves m).1 h
    rw [lastOf_concat]
    by_cases hid : m.session = id
    · rw [if_pos hid]
      exact fun e => hm (Option.some.inj e)
    · rw [if_neg hid]
      rcases hcase with hstrayed | ⟨other, rfl, -⟩
      · exact ih hstrayed
      · exact absurd rfl hid

/-! ## Members -/

theorem moved_concat (c : Callgroups) (moves : List Move) (m : Move) :
    c.moved (moves ++ [m]) = (c.moved moves).move m := by
  rw [moved, List.foldl_append]
  rfl

/-- The last move of a session tells under which callgroup it is known. -/
theorem lookup_groupOf_moved (workers : Nat) (moves : List Move) (id : SessionId) (name : String) :
    ((Callgroups.start workers).moved moves).groupOf.lookup id = some name ↔
      lastOf id moves = some (.come id name) := by
  induction moves using List.reverseRecOn with
  | nil => exact ⟨nofun, nofun⟩
  | append_singleton moves m ih =>
    rw [moved_concat, lastOf_concat]
    cases m with
    | come other n =>
      rw [move, lookup_groupOf_assign]
      by_cases hid : id = other
      · subst hid
        simp [Move.session]
      · rw [if_neg hid, if_neg (show ¬ (Move.come other n).session = id from fun e => hid e.symm)]
        exact ih
    | go other =>
      rw [move, lookup_groupOf_release]
      by_cases hid : id = other
      · subst hid
        simp [Move.session]
      · rw [if_neg hid, if_neg (show ¬ (Move.go other).session = id from fun e => hid e.symm)]
        exact ih

theorem mem_join_iff {id other : SessionId} {members : List SessionId} :
    other ∈ join id members ↔ other = id ∨ other ∈ members := by
  constructor
  · exact mem_of_mem_join
  · rintro (rfl | h)
    · exact mem_join other members
    · exact mem_join_of_mem h

/-- A session that comes becomes a member of the callgroup that it comes to, and of no other. -/
theorem mem_membersOf_come (c : Callgroups) (id x : SessionId) (name n : String) :
    x ∈ (c.move (.come id name)).membersOf n ↔ x ∈ c.membersOf n ∨ x = id ∧ n = name := by
  obtain ⟨g, loads, heq, -, hg⟩ := assign_eq c id name
  have hmembers : c.membersOf name = g.members := by
    rcases hg with hg | ⟨hg, rfl⟩
    · rw [membersOf, hg]
      rfl
    · rw [membersOf, hg]
      rfl
  rw [move, heq, membersOf, place, lookup_entered_eq]
  by_cases hname : n = name
  · rw [if_pos hname, hname, hmembers]
    simp [mem_join_iff, or_comm]
  · rw [if_neg hname]
    simp [membersOf, hname]

/-- A session that goes is no longer a member of the callgroup under which it was known, and stays
one of every other. -/
theorem mem_membersOf_go {c : Callgroups} (h : c.Placed) (id x : SessionId) (n : String) :
    x ∈ (c.move (.go id)).membersOf n ↔
      x ∈ c.membersOf n ∧ ¬ (x = id ∧ c.groupOf.lookup id = some n) := by
  rw [move]
  rcases release_eq h.sound id with ⟨hn, heq⟩ | ⟨name, g, hn, hg, heq⟩
  · rw [heq, hn]
    simp
  · rw [heq, hn, membersOf, lookup_groups_leave, membersOf]
    by_cases hname : n = name
    · subst hname
      rw [if_pos rfl, hg]
      -- without members the callgroup goes, and has none then either
      have hleft : ((if (g.members.filter (· ≠ id)).isEmpty then none
          else some { g with members := g.members.filter (· ≠ id) }).map (·.members)).getD [] =
            g.members.filter (· ≠ id) := by
        split
        · next hnone => exact (List.isEmpty_iff.1 hnone).symm
        · rfl
      rw [hleft]
      simp
    · rw [if_neg hname]
      simp [Ne.symm hname]

/-- **Run**: the members of a callgroup are those who came there last, and those who strayed from
it. -/
theorem mem_membersOf_moved (workers : Nat) (moves : List Move) (id : SessionId) (name : String) :
    id ∈ ((Callgroups.start workers).moved moves).membersOf name ↔
      lastOf id moves = some (.come id name) ∨ StrayedFrom id name moves := by
  induction moves using List.reverseRecOn with
  | nil =>
    refine ⟨nofun, ?_⟩
    rintro (hlast | ⟨before, other, after, heq, -⟩)
    · cases hlast
    · simp at heq
  | append_singleton moves m ih =>
    rw [moved_concat, lastOf_concat, strayedFrom_concat]
    cases m with
    | come other n =>
      rw [mem_membersOf_come, ih]
      by_cases hid : id = other
      · subst hid
        by_cases hname : name = n
        · simp [Move.session, hname]
        · simp [Move.session, hname, Ne.symm hname, or_comm]
      · simp [Move.session, hid, Ne.symm hid]
    | go other =>
      rw [mem_membersOf_go ((Placed.start workers).moved moves), ih, lookup_groupOf_moved]
      by_cases hid : id = other
      · subst hid
        have hexclusive : StrayedFrom id name moves → lastOf id moves ≠ some (.come id name) :=
          StrayedFrom.lastOf_ne
        simp only [Move.session, true_and, if_true, ne_eq, reduceCtorEq, not_false_eq_true,
          false_and, exists_false, or_false, Option.some.injEq, false_or]
        constructor
        · rintro ⟨hcame | hstrayed, hlast⟩
          · exact absurd hcame hlast
          · exact hstrayed
        · intro hstrayed
          exact ⟨.inr hstrayed, hexclusive hstrayed⟩
      · simp [Move.session, hid, Ne.symm hid]

/-! ## Main theorem -/

/-- Nothing is left of the callgroups exactly if none has members. -/
theorem Placed.vacant_iff {c : Callgroups} (h : c.Placed) :
    ((∀ name, c.workerOf name = none) ∧ ∀ load ∈ c.loads, load = 0) ↔
      ∀ name, c.membersOf name = [] := by
  have hworker : ∀ name, c.workerOf name = none ↔ c.membersOf name = [] := by
    intro name
    have hsome := h.isSome_workerOf name
    rw [Option.isSome_iff_ne_none] at hsome
    exact not_iff_not.1 hsome
  constructor
  · rintro ⟨hnone, -⟩ name
    exact (hworker name).1 (hnone name)
  · intro hempty
    refine ⟨fun name => (hworker name).2 (hempty name), fun load hload => ?_⟩
    obtain ⟨i, hi⟩ := List.mem_iff_getElem?.1 hload
    have hcount := h.loads_eq hi
    have hnobody : {name | c.workerOf name = some i} = ∅ := by
      ext name
      simp [(hworker name).2 (hempty name)]
    rw [hnobody, Set.encard_empty] at hcount
    exact_mod_cast hcount.symm

/-- **Main theorem**: what is left of the callgroups when nobody is known any more.

A callgroup has a worker exactly if somebody came there last or strayed from it. So when no session
is known any more, the callgroups that have a worker are those from which somebody strayed; and all
callgroups have gone, with the loads of the workers at zero, exactly if nobody strayed from
any. -/
theorem vacated_iff (workers : Nat) (past : List Move) :
    let c := (Callgroups.start workers).moved past
    (∀ name, (c.workerOf name).isSome = true ↔
      ∃ id, lastOf id past = some (.come id name) ∨ StrayedFrom id name past) ∧
    (c.sessionCount = 0 →
      (∀ name, (c.workerOf name).isSome = true ↔ ∃ id, StrayedFrom id name past) ∧
      (((∀ name, c.workerOf name = none) ∧ ∀ load ∈ c.loads, load = 0) ↔
        ∀ id name, ¬ StrayedFrom id name past)) := by
  intro c
  have h : c.Placed := (Placed.start workers).moved past
  have hused : ∀ name, (c.workerOf name).isSome = true ↔
      ∃ id, lastOf id past = some (.come id name) ∨ StrayedFrom id name past := by
    intro name
    rw [h.isSome_workerOf, ne_eq, List.eq_nil_iff_forall_not_mem, not_forall_not]
    exact exists_congr fun id => mem_membersOf_moved workers past id name
  refine ⟨hused, fun hnobody => ?_⟩
  have hknown : ∀ id name, lastOf id past ≠ some (.come id name) := by
    intro id name hlast
    have hlookup := (lookup_groupOf_moved workers past id name).2 hlast
    rw [List.eq_nil_of_length_eq_zero hnobody] at hlookup
    cases hlookup
  refine ⟨fun name => ?_, ?_⟩
  · rw [hused]
    exact exists_congr fun id => or_iff_right (hknown id name)
  · rw [h.vacant_iff]
    constructor
    · intro hempty id name hstrayed
      have hmem := (mem_membersOf_moved workers past id name).2 (.inr hstrayed)
      rw [hempty name] at hmem
      cases hmem
    · intro hnone name
      refine List.eq_nil_iff_forall_not_mem.2 fun id hmem => ?_
      rcases (mem_membersOf_moved workers past id name).1 hmem with hlast | hstrayed
      · exact hknown id name hlast
      · exact hnone id name hstrayed

/-- A session that came to two callgroups, and later came back to the first one and left from
there. -/
def comingBack : List Move :=
  [.come ⟨"a"⟩ "g", .come ⟨"a"⟩ "h", .go ⟨"a"⟩, .come ⟨"a"⟩ "g", .go ⟨"a"⟩]

theorem vacated_iff_comingBack :
    ((Callgroups.start 2).moved comingBack).sessionCount = 0 ∧
      ((Callgroups.start 2).moved comingBack).groups = [] ∧
      ∀ id name, ¬ StrayedFrom id name comingBack := by
  have hnobody : ((Callgroups.start 2).moved comingBack).sessionCount = 0 := by decide
  have hgroups : ((Callgroups.start 2).moved comingBack).groups = [] := by decide
  have hloads : ∀ load ∈ ((Callgroups.start 2).moved comingBack).loads, load = 0 := by decide
  refine ⟨hnobody, hgroups, (((vacated_iff 2 comingBack).2 hnobody).2).1 ⟨fun name => ?_, hloads⟩⟩
  rw [workerOf, hgroups]
  rfl

/-- Some callgroups are left behind on their worker when nobody is known any more. -/
theorem not_vacated :
    ¬ ∀ (workers : Nat) (past : List Move),
      ((Callgroups.start workers).moved past).sessionCount = 0 →
        (∀ name, ((Callgroups.start workers).moved past).workerOf name = none) ∧
          ∀ load ∈ ((Callgroups.start workers).moved past).loads, load = 0 := by
  intro hall
  obtain ⟨hnone, -⟩ := hall 1 [.come ⟨"s"⟩ "g1", .come ⟨"s"⟩ "g2", .go ⟨"s"⟩] (by decide)
  exact absurd (hnone "g1") (by decide)

end CallBridge.Scheduler.Callgroups
