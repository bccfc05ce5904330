import CallBridge.Proofs.Scheduler.Callgroups

/-!
# Callgroups in use and loads of workers

Whatever sessions come and leave, a callgroup is in use only with members, and the load of a worker
is the number of its callgroups. As long as no session comes that is known already, the callgroups
are exact: all members of a callgroup are known under it. Then nothing is left behind when the last
session is forgotten.

Results:
* `Counted.assign`, `Counted.release`: the callgroups of a worker are counted.
* `Exact.start`, `Exact.assign`, `Exact.release`: callgroups are exact as long as no session comes
  twice.
* `Exact.empty`: exact callgroups that know no session are empty, and no worker has a load.
-/

namespace CallBridge.Scheduler

/-! ## Tables with one entry for a key -/

section

variable {α β : Type} [DecidableEq α]

theorem without_of_lookup_eq_none {key : α} {table : List (α × β)} (h : table.lookup key = none) :
    without key table = table := by
  refine List.filter_eq_self.2 fun entry hentry => ?_
  have hne : key ≠ entry.1 := by simpa using List.lookup_eq_none_iff.1 h entry hentry
  exact decide_eq_true hne.symm

/-- A table consists of the entry of a key and the others. -/
theorem perm_without {key : α} {value : β} {table : List (α × β)}
    (hn : (table.map (·.1)).Nodup) (h : table.lookup key = some value) :
    table.Perm ((key, value) :: without key table) := by
  induction table with
  | nil => cases h
  | cons entry table ih =>
    obtain ⟨k, v⟩ := entry
    obtain ⟨hnew, hrest⟩ := List.nodup_cons.1 hn
    rw [List.lookup_cons] at h
    by_cases hk : key = k
    · subst hk
      rw [beq_self_eq_true] at h
      obtain rfl := Option.some.inj h
      have hothers : without key table = table := by
        refine List.filter_eq_self.2 fun entry hentry => ?_
        have hne : entry.1 ≠ key := fun e => hnew (List.mem_map.2 ⟨entry, hentry, e⟩)
        simpa using hne
      have hself : without key ((key, v) :: table) = table := by
        rw [without, List.filter_cons_of_neg (by simp)]
        exact hothers
      rw [hself]
    · rw [beq_false_of_ne hk] at h
      have hkept : without key ((k, v) :: table) = (k, v) :: without key table :=
        List.filter_cons_of_pos (by simpa using Ne.symm hk)
      rw [hkept]
      exact ((ih hrest h).cons (k, v)).trans (List.Perm.swap _ _ _)

theorem nodup_without {table : List (α × β)} (hn : (table.map (·.1)).Nodup) (key : α) :
    ((without key table).map (·.1)).Nodup :=
  hn.sublist (List.filter_sublist.map _)

theorem nodup_entered {table : List (α × β)} (hn : (table.map (·.1)).Nodup) (key : α) (value : β) :
    ((entered key value table).map (·.1)).Nodup := by
  refine List.nodup_cons.2 ⟨fun hm => ?_, nodup_without hn key⟩
  obtain ⟨entry, hentry, hkey⟩ := List.mem_map.1 hm
  have hne := (List.mem_filter.1 hentry).2
  simp [hkey] at hne

end

namespace Callgroups

/-- The number of callgroups of a worker. -/
def groupsOn (c : Callgroups) (i : Nat) : Nat := c.groups.countP (·.2.worker = i)

/-- A callgroup is in use only with members, and the load of a worker is the number of its
callgroups. -/
structure Counted (c : Callgroups) : Prop where
  names : (c.groups.map (·.1)).Nodup
  members : ∀ name g, (name, g) ∈ c.groups → g.members ≠ []
  loads : ∀ i load, c.loads[i]? = some load → load = c.groupsOn i

/-- A callgroup is in use only with members that are known under it, and the load of a worker is the
number of its callgroups. -/
structure Exact (c : Callgroups) : Prop where
  names : (c.groups.map (·.1)).Nodup
  known : ∀ name g, (name, g) ∈ c.groups →
    g.members ≠ [] ∧ ∀ id ∈ g.members, c.groupOf.lookup id = some name
  loads : ∀ i load, c.loads[i]? = some load → load = c.groupsOn i

theorem Exact.counted {c : Callgroups} (h : c.Exact) : c.Counted where
  names := h.names
  members := fun name g hmem => (h.known name g hmem).1
  loads := h.loads

theorem Exact.start (workers : Nat) : (Callgroups.start workers).Exact where
  names := List.nodup_nil
  known := by
    intro name g h
    cases h
  loads := by
    intro i load h
    exact List.eq_of_mem_replicate (List.mem_of_getElem? h)

theorem mem_of_mem_join {id other : SessionId} {members : List SessionId}
    (h : other ∈ join id members) : other = id ∨ other ∈ members := by
  unfold join at h
  split at h
  · exact .inr h
  · exact List.mem_cons.1 h

/-- The entry of a callgroup counts on its worker, the others count as before. -/
theorem countP_entered (name : String) (g : Group) (groups : List (String × Group)) (i : Nat) :
    (entered name g groups).countP (·.2.worker = i) =
      (without name groups).countP (·.2.worker = i) + if g.worker = i then 1 else 0 := by
  simp only [entered, List.countP_cons, decide_eq_true_eq]

theorem groupsOn_place (c : Callgroups) (id : SessionId) (name : String) (g : Group) (i : Nat) :
    (c.place id name g).groupsOn i =
      (without name c.groups).countP (·.2.worker = i) + if g.worker = i then 1 else 0 :=
  countP_entered name _ c.groups i

/-! ## A session comes -/

theorem Counted.assign {c : Callgroups} (h : c.Counted) (id : SessionId) (name : String) :
    (c.assign id name).1.Counted := by
  have hmembers : ∀ (g : Group) n g',
      (n, g') ∈ entered name { g with members := join id g.members } c.groups →
        g'.members ≠ [] := by
    intro g n g' hmem
    rcases List.mem_cons.1 hmem with heq | hmem
    · cases heq
      exact List.ne_nil_of_mem (mem_join id g.members)
    · exact h.members n g' (List.mem_filter.1 hmem).1
  unfold Callgroups.assign
  cases hg : c.groups.lookup name with
  | some g =>
    refine ⟨nodup_entered h.names _ _, hmembers g, fun i load hload => ?_⟩
    rw [h.loads i load hload, groupsOn_place, groupsOn, (perm_without h.names hg).countP_eq,
      List.countP_cons]
    simp only [decide_eq_true_eq]
  | none =>
    refine ⟨nodup_entered h.names _ _, hmembers ⟨leastLoaded c.loads, []⟩, fun i load hload => ?_⟩
    have hmodify : (c.loads.modify (leastLoaded c.loads) (· + 1))[i]? = some load := hload
    rw [List.getElem?_modify] at hmodify
    obtain ⟨old, hold, hnewload⟩ := Option.map_eq_some_iff.1 hmodify
    rw [groupsOn_place, without_of_lookup_eq_none hg, ← groupsOn, ← h.loads i old hold,
      ← hnewload]
    split <;> rfl

/-- What is known stays so when a session comes to a callgroup that was unknown. -/
theorem Exact.known_place {c : Callgroups} (h : c.Exact) {id : SessionId}
    (hnew : c.contains id = false) {name : String} {g : Group}
    (hg : ∀ x ∈ g.members, c.groupOf.lookup x = some name) (loads : List Nat) :
    ∀ n g', (n, g') ∈ (Callgroups.place { c with loads } id name g).groups →
      g'.members ≠ [] ∧ ∀ x ∈ g'.members,
        (Callgroups.place { c with loads } id name g).groupOf.lookup x = some n := by
  have hother : ∀ x n, c.groupOf.lookup x = some n → x ≠ id := by
    rintro x n hx rfl
    rw [contains, hx] at hnew
    cases hnew
  intro n g' hmem
  rcases List.mem_cons.1 hmem with heq | hmem
  · cases heq
    refine ⟨List.ne_nil_of_mem (mem_join id g.members), fun x hx => ?_⟩
    simp only [place, lookup_entered_eq]
    split
    · rfl
    · next hne => exact hg x ((mem_of_mem_join hx).resolve_left hne)
  · obtain ⟨hne, hknown⟩ := h.known n g' (List.mem_filter.1 hmem).1
    refine ⟨hne, fun x hx => ?_⟩
    simp only [place, lookup_entered_eq, if_neg (hother x n (hknown x hx))]
    exact hknown x hx

theorem Exact.assign {c : Callgroups} (h : c.Exact) {id : SessionId}
    (hnew : c.contains id = false) (name : String) : (c.assign id name).1.Exact := by
  have hcounted := h.counted.assign id name
  refine ⟨hcounted.names, ?_, hcounted.loads⟩
  unfold Callgroups.assign
  cases hg : c.groups.lookup name with
  | some g =>
    have hmem : (name, g) ∈ c.groups :=
      (perm_without h.names hg).mem_iff.2 List.mem_cons_self
    exact h.known_place hnew (h.known name g hmem).2 c.loads
  | none => exact h.known_place hnew (by simp) _

/-! ## A session leaves -/

theorem Counted.release {c : Callgroups} (hs : c.Sound) (h : c.Counted) (id : SessionId) :
    (c.release id).1.Counted := by
  rcases release_eq hs id with ⟨-, heq⟩ | ⟨name, g, -, hg, heq⟩
  · rw [heq]
    exact h
  · rw [heq]
    have hothers : ∀ n g', (n, g') ∈ without name c.groups → g'.members ≠ [] :=
      fun n g' hmem => h.members n g' (List.mem_filter.1 hmem).1
    have hcount : ∀ i, c.groupsOn i =
        (without name c.groups).countP (·.2.worker = i) + if g.worker = i then 1 else 0 := by
      intro i
      rw [groupsOn, (perm_without h.names hg).countP_eq, List.countP_cons]
      simp only [decide_eq_true_eq]
    unfold leave
    dsimp only
    split
    · refine ⟨nodup_without h.names name, hothers, fun i load hload => ?_⟩
      have hmodify : (c.loads.modify g.worker (· - 1))[i]? = some load := hload
      rw [List.getElem?_modify] at hmodify
      obtain ⟨old, hold, hnewload⟩ := Option.map_eq_some_iff.1 hmodify
      have hold' := h.loads i old hold
      rw [hcount] at hold'
      rw [groupsOn, ← hnewload]
      split at hold' <;> simp_all
    · next hleft =>
      refine ⟨nodup_entered h.names _ _, fun n g' hmem => ?_, fun i load hload => ?_⟩
      · rcases List.mem_cons.1 hmem with heq' | hmem
        · cases heq'
          exact fun e => hleft (List.isEmpty_iff.2 e)
        · exact hothers n g' hmem
      · rw [h.loads i load hload, hcount, groupsOn, countP_entered]

theorem Exact.release {c : Callgroups} (hs : c.Sound) (h : c.Exact) (id : SessionId) :
    (c.release id).1.Exact := by
  have hcounted := h.counted.release hs id
  refine ⟨hcounted.names, fun n g' hmem => ⟨hcounted.members n g' hmem, ?_⟩, hcounted.loads⟩
  rcases release_eq hs id with ⟨-, heq⟩ | ⟨name, g, hn, hg, heq⟩
  · rw [heq] at hmem ⊢
    exact (h.known n g' hmem).2
  · rw [heq] at hmem ⊢
    have hknown := (h.known name g ((perm_without h.names hg).mem_iff.2 List.mem_cons_self)).2
    -- a session is a member of no callgroup but the one under which it is known
    have hothers : (n, g') ∈ without name c.groups →
        ∀ x ∈ g'.members, (without id c.groupOf).lookup x = some n := by
      intro hmem' x hx
      obtain ⟨hin, hne⟩ := List.mem_filter.1 hmem'
      have hx := (h.known n g' hin).2 x hx
      have hxid : x ≠ id := by
        rintro rfl
        have hsame : name = n := Option.some.inj (hn.symm.trans hx)
        simp [hsame] at hne
      rw [lookup_without, if_neg hxid]
      exact hx
    rw [groupOf_leave]
    unfold leave at hmem
    dsimp only at hmem
    split at hmem
    · exact hothers hmem
    · rcases List.mem_cons.1 hmem with heq' | hmem
      · cases heq'
        intro x hx
        obtain ⟨hx, hxid⟩ := List.mem_filter.1 hx
        rw [lookup_without, if_neg (of_decide_eq_true hxid)]
        exact hknown x hx
      · exact hothers hmem

/-- Exact callgroups that know no session are empty, and no worker has a load. -/
theorem Exact.empty {c : Callgroups} (h : c.Exact) (hnone : ∀ id, c.contains id = false) :
    c.groups = [] ∧ c.groupOf = [] ∧ ∀ load ∈ c.loads, load = 0 := by
  have hgroups : c.groups = [] := by
    refine List.eq_nil_iff_forall_not_mem.2 fun entry hentry => ?_
    obtain ⟨hmembers, hknown⟩ := h.known entry.1 entry.2 hentry
    obtain ⟨id, hid⟩ := List.exists_mem_of_ne_nil _ hmembers
    have hunknown := hnone id
    rw [contains, hknown id hid] at hunknown
    cases hunknown
  refine ⟨hgroups, ?_, fun load hload => ?_⟩
  · refine List.eq_nil_iff_forall_not_mem.2 fun entry hentry => ?_
    have hunknown : c.groupOf.lookup entry.1 = none := by
      simpa [contains] using hnone entry.1
    have hne := List.lookup_eq_none_iff.1 hunknown entry hentry
    simp at hne
  · obtain ⟨i, hi⟩ := List.mem_iff_getElem?.1 hload
    rw [h.loads i load hi, groupsOn, hgroups]
    rfl

end Callgroups

end CallBridge.Scheduler
