import CallBridge.Scheduler.Callgroups

/-!
# The homes of sessions

The home of a session is the worker of the callgroup under which the session is known. A callgroup
may keep members that have moved on to other callgroups, but never loses one that is known under it,
so that it stays in use as long as it is somebody's home.

Results:
* `Sound.start`, `Sound.assign`, `Sound.release`: every known session is a member of a callgroup in
  use, whose worker there is.
* `home_assign_self`, `home_assign_other`: a session that comes gets a home, and no other session
  moves.
* `home_release_self`, `home_release_other`: a session that leaves loses its home, and no other
  session does.
* `release_worker`: what is answered to a session that leaves is its home.
* `contains_assign_eq`: a session that comes is known, and no other one comes to be.
* `contains_release`, `contains_releases`: sessions that leave are forgotten, and no others are.
* `isSome_home`: the sessions with a home are those that are known.
-/

namespace CallBridge.Scheduler

/-! ## Tables -/

section

variable {α β : Type} [DecidableEq α]

theorem lookup_without (key k : α) (table : List (α × β)) :
    (without key table).lookup k = if k = key then none else table.lookup k := by
  induction table with
  | nil => split <;> rfl
  | cons entry table ih =>
    obtain ⟨x, y⟩ := entry
    rw [without] at ih ⊢
    by_cases hx : x = key
    · rw [List.filter_cons_of_neg (by simpa using hx), ih]
      by_cases hk : k = key
      · rw [if_pos hk, if_pos hk]
      · have hkx : (k == x) = false := by simpa [hx] using hk
        rw [if_neg hk, if_neg hk, List.lookup_cons, hkx]
    · rw [List.filter_cons_of_pos (by simpa using hx), List.lookup_cons, List.lookup_cons, ih]
      by_cases hk : k = key
      · have hkx : (k == x) = false := by simpa [hk] using fun e => hx e.symm
        rw [hkx, if_pos hk]
      · rw [if_neg hk, if_neg hk]

theorem lookup_entered_eq (key k : α) (value : β) (table : List (α × β)) :
    (entered key value table).lookup k = if k = key then some value else table.lookup k := by
  by_cases hk : k = key
  · rw [if_pos hk, hk, entered, List.lookup_cons, beq_self_eq_true]
  · have hne : (k == key) = false := by simpa using hk
    rw [entered, List.lookup_cons, hne, lookup_without, if_neg hk, if_neg hk]

end

/-- Some load is least, so the index is that of a worker. -/
theorem leastLoaded_lt {loads : List Nat} (h : loads ≠ []) : leastLoaded loads < loads.length := by
  obtain ⟨least, hleast⟩ : ∃ x, loads.min? = some x :=
    Option.ne_none_iff_exists'.1 fun e => h (List.min?_eq_none_iff.1 e)
  obtain ⟨hm, hle⟩ := List.min?_eq_some_iff.1 hleast
  exact List.findIdx_lt_length_of_exists ⟨least, hm, by simpa using hle⟩

namespace Callgroups

/-- The worker of the callgroup under which a session is known. -/
def home (c : Callgroups) (id : SessionId) : Option Nat := (c.groupOf.lookup id).bind c.workerOf

/-- Every known session is a member of a callgroup in use, and every callgroup in use has a
worker. -/
structure Sound (c : Callgroups) : Prop where
  member : ∀ id name, c.groupOf.lookup id = some name →
    ∃ g, c.groups.lookup name = some g ∧ id ∈ g.members
  worker : ∀ name g, c.groups.lookup name = some g → g.worker < c.loads.length
  loads : c.loads ≠ []

theorem Sound.start (workers : Nat) : (Callgroups.start workers).Sound where
  member := by
    intro id name h
    cases h
  worker := by
    intro name g h
    cases h
  loads := by
    rw [Callgroups.start, ne_eq, List.replicate_eq_nil_iff]
    omega

/-! ## A session comes -/

theorem mem_join (id : SessionId) (members : List SessionId) : id ∈ join id members := by
  unfold join
  split
  · next h => exact List.contains_iff_mem.1 h
  · exact List.mem_cons_self

theorem mem_join_of_mem {id other : SessionId} {members : List SessionId} (h : other ∈ members) :
    other ∈ join id members := by
  unfold join
  split
  · exact h
  · exact List.mem_cons_of_mem _ h

/-- What a session that came was given: the callgroup that was in use, or a new one. -/
theorem assign_eq (c : Callgroups) (id : SessionId) (name : String) :
    ∃ g loads, (c.assign id name) = ({ c with loads }.place id name g, g.worker) ∧
      loads.length = c.loads.length ∧
      (c.groups.lookup name = some g ∨
        c.groups.lookup name = none ∧ g = ⟨leastLoaded c.loads, []⟩) := by
  unfold assign
  cases hg : c.groups.lookup name with
  | some g => exact ⟨g, c.loads, rfl, rfl, .inl rfl⟩
  | none =>
    exact ⟨⟨leastLoaded c.loads, []⟩, _, rfl, List.length_modify _ _ _, .inr ⟨rfl, rfl⟩⟩

theorem length_loads_assign (c : Callgroups) (id : SessionId) (name : String) :
    (c.assign id name).1.loads.length = c.loads.length := by
  obtain ⟨g, loads, heq, hlength, -⟩ := assign_eq c id name
  rw [heq]
  exact hlength

theorem Sound.assign {c : Callgroups} (h : c.Sound) (id : SessionId) (name : String) :
    (c.assign id name).1.Sound := by
  obtain ⟨g, loads, heq, hlength, hg⟩ := assign_eq c id name
  have hworker : g.worker < loads.length := by
    rw [hlength]
    rcases hg with hg | ⟨-, rfl⟩
    · exact h.worker name g hg
    · exact leastLoaded_lt h.loads
  rw [heq]
  refine ⟨fun other n hn => ?_, fun n g' hn => ?_, fun e => h.loads ?_⟩
  · simp only [place, lookup_entered_eq] at hn ⊢
    by_cases hother : other = id
    · rw [if_pos hother] at hn
      cases hn
      exact ⟨_, if_pos rfl, hother ▸ mem_join id g.members⟩
    · rw [if_neg hother] at hn
      obtain ⟨g', hg', hm⟩ := h.member other n hn
      by_cases hname : n = name
      · rw [hname] at hg'
        rcases hg with hg | ⟨hg, -⟩
        · rw [hg] at hg'
          cases hg'
          exact ⟨_, if_pos hname, mem_join_of_mem hm⟩
        · rw [hg] at hg'
          cases hg'
      · exact ⟨g', by rw [if_neg hname, hg'], hm⟩
  · simp only [place, lookup_entered_eq] at hn ⊢
    split at hn
    · cases hn
      exact hworker
    · rw [hlength]
      exact h.worker n g' hn
  · have hnil : loads = [] := e
    rw [hnil] at hlength
    exact List.eq_nil_of_length_eq_zero hlength.symm

theorem home_assign_self (c : Callgroups) (id : SessionId) (name : String) :
    (c.assign id name).1.home id = some (c.assign id name).2 := by
  obtain ⟨g, loads, heq, -, -⟩ := assign_eq c id name
  rw [heq]
  simp only [home, workerOf, place, lookup_entered_eq, if_true, Option.bind_some, Option.map_some]

/-- A session that comes is known under the callgroup that it came to. -/
theorem lookup_groupOf_assign (c : Callgroups) (id other : SessionId) (name : String) :
    (c.assign id name).1.groupOf.lookup other =
      if other = id then some name else c.groupOf.lookup other := by
  obtain ⟨g, loads, heq, -, -⟩ := assign_eq c id name
  rw [heq]
  exact lookup_entered_eq id other name c.groupOf

/-- A session that comes is known from then on, and no other session comes to be. -/
theorem contains_assign_eq (c : Callgroups) (id : SessionId) (name : String) (other : SessionId) :
    (c.assign id name).1.contains other = (c.contains other || other = id) := by
  rw [contains, contains, lookup_groupOf_assign]
  by_cases hother : other = id <;> simp [hother]

/-- A session that comes to a callgroup in use is given the worker of the callgroup. -/
theorem assign_worker {c : Callgroups} {name : String} {i : Nat} (h : c.workerOf name = some i)
    (id : SessionId) : (c.assign id name).2 = i := by
  obtain ⟨g, loads, heq, -, hg | ⟨hg, -⟩⟩ := assign_eq c id name <;> rw [workerOf, hg] at h
  · rw [heq]
    exact Option.some.inj h
  · cases h

/-- A session that comes moves no other session. -/
theorem home_assign_other {c : Callgroups} (h : c.Sound) {id other : SessionId} (hne : other ≠ id)
    (name : String) : (c.assign id name).1.home other = c.home other := by
  obtain ⟨g, loads, heq, -, hg⟩ := assign_eq c id name
  rw [heq]
  simp only [home, place, lookup_entered_eq, if_neg hne]
  cases hn : c.groupOf.lookup other with
  | none => rfl
  | some n =>
    obtain ⟨g', hg', -⟩ := h.member other n hn
    simp only [Option.bind_some, workerOf, lookup_entered_eq]
    by_cases hname : n = name
    · rw [hname] at hg' ⊢
      rcases hg with hg | ⟨hg, -⟩
      · rw [if_pos rfl, hg]
        rfl
      · rw [hg] at hg'
        cases hg'
    · rw [if_neg hname]

theorem worker_assign_lt {c : Callgroups} (h : c.Sound) (id : SessionId) (name : String) :
    (c.assign id name).2 < c.loads.length := by
  obtain ⟨g, loads, heq, hlength, hg⟩ := assign_eq c id name
  rw [heq]
  rcases hg with hg | ⟨-, rfl⟩
  · exact h.worker name g hg
  · exact leastLoaded_lt h.loads

/-! ## A session leaves -/

/-- A known session leaves a callgroup in use, where the others stay. -/
theorem release_eq {c : Callgroups} (h : c.Sound) (id : SessionId) :
    (c.groupOf.lookup id = none ∧ c.release id = (c, none)) ∨
      ∃ name g, c.groupOf.lookup id = some name ∧ c.groups.lookup name = some g ∧
        c.release id = ({ c with groupOf := without id c.groupOf }.leave id name g,
          some g.worker) := by
  unfold release
  cases hn : c.groupOf.lookup id with
  | none => exact .inl ⟨rfl, rfl⟩
  | some name =>
    obtain ⟨g, hg, -⟩ := h.member id name hn
    exact .inr ⟨name, g, rfl, hg, by simp only [hg]⟩

/-- What is answered to a session that leaves is its home. -/
theorem release_worker {c : Callgroups} (h : c.Sound) (id : SessionId) :
    (c.release id).2 = c.home id := by
  rcases release_eq h id with ⟨hn, heq⟩ | ⟨name, g, hn, hg, heq⟩
  · rw [heq, home, hn]
    rfl
  · rw [heq, home, hn, Option.bind_some, workerOf, hg]
    rfl

/-- The callgroups in use after a session left one: all but that one as they were, and that one
with the members that are left, if there are any. -/
theorem lookup_groups_leave (c : Callgroups) (id : SessionId) (name n : String) (g : Group) :
    (c.leave id name g).groups.lookup n =
      if n = name then
        if (g.members.filter (· ≠ id)).isEmpty then none
        else some { g with members := g.members.filter (· ≠ id) }
      else c.groups.lookup n := by
  simp only [leave]
  split
  · simp only [lookup_without]
  · simp only [lookup_entered_eq]

theorem groupOf_leave (c : Callgroups) (id : SessionId) (name : String) (g : Group) :
    (c.leave id name g).groupOf = c.groupOf := by
  simp only [leave]
  split <;> rfl

theorem length_loads_leave (c : Callgroups) (id : SessionId) (name : String) (g : Group) :
    (c.leave id name g).loads.length = c.loads.length := by
  simp only [leave]
  split
  · exact List.length_modify _ _ _
  · rfl

/-- A callgroup keeps its worker as long as it keeps a member. -/
theorem lookup_groups_leave_of_mem {c : Callgroups} {id other : SessionId} {name n : String}
    {g g' : Group} (hg : c.groups.lookup name = some g) (hg' : c.groups.lookup n = some g')
    (hm : other ∈ g'.members) (hne : other ≠ id) :
    ∃ g'', (c.leave id name g).groups.lookup n = some g'' ∧ g''.worker = g'.worker ∧
      other ∈ g''.members := by
  rw [lookup_groups_leave]
  by_cases hname : n = name
  · rw [hname, hg] at hg'
    cases hg'
    have hkept : other ∈ g.members.filter (· ≠ id) := List.mem_filter.2 ⟨hm, by simpa using hne⟩
    have hused : ¬ (g.members.filter (· ≠ id)).isEmpty = true := by
      rw [List.isEmpty_iff]
      exact List.ne_nil_of_mem hkept
    rw [if_pos hname, if_neg hused]
    exact ⟨_, rfl, rfl, hkept⟩
  · rw [if_neg hname]
    exact ⟨g', hg', rfl, hm⟩

theorem length_loads_release {c : Callgroups} (h : c.Sound) (id : SessionId) :
    (c.release id).1.loads.length = c.loads.length := by
  rcases release_eq h id with ⟨-, heq⟩ | ⟨name, g, -, -, heq⟩
  · rw [heq]
  · rw [heq]
    exact length_loads_leave _ _ _ _

theorem Sound.release {c : Callgroups} (h : c.Sound) (id : SessionId) :
    (c.release id).1.Sound := by
  have hlength := length_loads_release h id
  rcases release_eq h id with ⟨-, heq⟩ | ⟨name, g, -, hg, heq⟩
  · rw [heq]
    exact h
  · rw [heq] at hlength ⊢
    refine ⟨fun other n hn => ?_, fun n g' hg' => ?_, fun e => h.loads ?_⟩
    · rw [groupOf_leave, lookup_without] at hn
      split at hn
      · cases hn
      · next hne =>
        obtain ⟨g', hg', hm⟩ := h.member other n hn
        obtain ⟨g'', hkept, -, hm'⟩ := lookup_groups_leave_of_mem
          (c := { c with groupOf := without id c.groupOf }) hg hg' hm hne
        exact ⟨g'', hkept, hm'⟩
    · rw [hlength]
      rw [lookup_groups_leave] at hg'
      split at hg'
      · split at hg' <;> cases hg'
        exact h.worker name g hg
      · exact h.worker n g' hg'
    · rw [e] at hlength
      exact List.eq_nil_of_length_eq_zero hlength.symm

theorem home_release_self {c : Callgroups} (h : c.Sound) (id : SessionId) :
    (c.release id).1.home id = none := by
  rcases release_eq h id with ⟨hn, heq⟩ | ⟨name, g, -, -, heq⟩
  · rw [heq, home, hn]
    rfl
  · rw [heq, home, groupOf_leave, lookup_without, if_pos rfl]
    rfl

/-- A session that leaves takes no other session along. -/
theorem home_release_other {c : Callgroups} (h : c.Sound) {id other : SessionId}
    (hne : other ≠ id) : (c.release id).1.home other = c.home other := by
  rcases release_eq h id with ⟨-, heq⟩ | ⟨name, g, -, hg, heq⟩
  · rw [heq]
  · rw [heq, home, home, groupOf_leave, lookup_without, if_neg hne]
    cases hn : c.groupOf.lookup other with
    | none => rfl
    | some n =>
      obtain ⟨g', hg', hm⟩ := h.member other n hn
      obtain ⟨g'', hkept, hworker, -⟩ := lookup_groups_leave_of_mem
        (c := { c with groupOf := without id c.groupOf }) hg hg' hm hne
      rw [Option.bind_some, Option.bind_some, workerOf, workerOf, hkept, hg', Option.map_some,
        Option.map_some, hworker]

theorem lookup_groupOf_release (c : Callgroups) (id other : SessionId) :
    (c.release id).1.groupOf.lookup other =
      if other = id then none else c.groupOf.lookup other := by
  rw [← lookup_without]
  cases hn : c.groupOf.lookup id with
  | none =>
    simp only [release, hn, lookup_without]
    split
    · next he => rw [he, hn]
    · rfl
  | some name =>
    cases hg : c.groups.lookup name with
    | none => simp only [release, hn, hg]
    | some g => simp only [release, hn, hg, groupOf_leave]

/-- A session that leaves is forgotten, and no other session is. -/
theorem contains_release (c : Callgroups) (id other : SessionId) :
    (c.release id).1.contains other = (c.contains other && other ≠ id) := by
  rw [contains, contains, lookup_groupOf_release]
  by_cases hother : other = id
  · simp [hother]
  · simp [hother]

/-- The callgroups after sessions were forgotten one after the other. -/
def releases (c : Callgroups) (ids : List SessionId) : Callgroups :=
  ids.foldl (fun c id => (c.release id).1) c

theorem releases_append (c : Callgroups) (xs ys : List SessionId) :
    c.releases (xs ++ ys) = (c.releases xs).releases ys := List.foldl_append

theorem contains_releases (c : Callgroups) (ids : List SessionId) (id : SessionId) :
    (c.releases ids).contains id = (c.contains id && !ids.contains id) := by
  induction ids generalizing c with
  | nil => simp [releases]
  | cons x ids ih =>
    have hcons : c.releases (x :: ids) = (c.release x).1.releases ids := rfl
    rw [hcons, ih, contains_release, List.contains_cons, Bool.not_or, Bool.and_assoc]
    by_cases hx : id = x
    · simp [hx]
    · rw [beq_false_of_ne hx, decide_eq_true hx]
      rfl

/-- The sessions with a home are those that are known. -/
theorem isSome_home {c : Callgroups} (h : c.Sound) (id : SessionId) :
    (c.home id).isSome = c.contains id := by
  unfold home contains workerOf
  cases hn : c.groupOf.lookup id with
  | none => rfl
  | some name =>
    obtain ⟨g, hg, -⟩ := h.member id name hn
    rw [Option.bind_some, hg]
    rfl

end Callgroups

end CallBridge.Scheduler
