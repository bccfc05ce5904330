import CallBridge.Proofs.Toml.WrittenTables

/-!
# Written documents

The sections of a document are put together key by key: what is below a key makes up a table of its
own, as seen from inside of it. No key may come twice in a table, and the key that marks a date or
time may not come first.

Results:
* `entries?_rows`: rows mean their keys with the values that were written.
* `assemble?_inner`: a table with its own entries and with tables inside of it.
* `assemble?_rows`: a table with rows only.
-/

namespace CallBridge.Toml

open CallBridge.Settings (Tree)

variable {depth : Nat} {rows : List (String × Scalar)}

/-! ## Rows -/

/-- The tree that a written value means. -/
def Scalar.tree : Scalar → Tree
  | .flag value => .flag value
  | .number n => .integer n
  | .text value => .text value

/-- The entries that rows mean. -/
def rowEntries (rows : List (String × Scalar)) : List (String × Tree) :=
  rows.map fun row => (row.1, row.2.tree)

theorem keys_rowEntries (rows : List (String × Scalar)) :
    (rowEntries rows).map (·.1) = rows.map (·.1) := by
  rw [rowEntries, List.map_map]
  rfl

theorem tree?_value (s : Scalar) : s.value.tree? = some s.tree := by
  cases s <;> rw [Scalar.value, Scalar.tree, Value.tree?]

/-- Rows mean their keys with the values that were written. -/
theorem entries?_rows (h : (rows.map (·.1)).Nodup) :
    entries? (rowFields rows) = some (rowEntries rows) := by
  induction rows with
  | nil => rw [rowFields, List.map_nil, entries?]; rfl
  | cons row rows ih =>
    rw [List.map_cons, List.nodup_cons] at h
    obtain ⟨hfirst, hmore⟩ := h
    have habsent : (rowEntries rows).lookup row.1 = none := by
      rw [List.lookup_eq_none_iff]
      intro e he
      have hkey : e.1 ∈ rows.map (·.1) := keys_rowEntries rows ▸ List.mem_map_of_mem he
      exact bne_iff_ne.2 fun heq => hfirst (by rwa [heq])
    rw [rowFields, List.map_cons, entries?, tree?_value]
    show (entries? (rowFields rows) >>= _) = _
    rw [ih hmore]
    show (if ((rowEntries rows).lookup row.1).isSome then none else _) = _
    rw [habsent]
    rfl

/-! ## Tables inside of tables -/

/-- The sections below a key, as seen from inside of its table. -/
def below (key : String) (sections : List Section) : List Section :=
  (sections.filter (·.firstKey? = some key)).map Section.inside

theorem startsElement_below {sections : List Section}
    (hplain : ∀ s ∈ sections, s.header.element = false) (key : String) :
    (below key sections).any Section.startsElement = false := by
  rw [List.any_eq_false]
  intro s hs
  obtain ⟨s', hs', rfl⟩ := List.mem_map.1 hs
  have helement := hplain s' (List.mem_filter.1 hs').1
  simp [Section.startsElement, Section.inside, helement]

theorem eraseDups_of_nodup {keys : List String} (h : keys.Nodup) : keys.eraseDups = keys := by
  induction keys with
  | nil => exact List.eraseDups_nil
  | cons key keys ih =>
    obtain ⟨hfirst, hmore⟩ := List.nodup_cons.1 h
    have hfilter : keys.filter (fun other => !other == key) = keys :=
      List.filter_eq_self.2 fun other hother => by
        have hne : other ≠ key := by
          rintro rfl
          exact hfirst hother
        simpa using hne
    rw [List.eraseDups_cons, hfilter, ih hmore]

theorem distinct_of_nodup {keys : List String} (h : keys.Nodup) : distinct keys = true := by
  rw [distinct, eraseDups_of_nodup h]
  exact decide_eq_true rfl

/-- Looking for each key of some entries, the entries are found. -/
theorem mapM_keys {f : String → Option (String × Tree)} {es : List (String × Tree)}
    (h : ∀ e ∈ es, f e.1 = some e) : (es.map (·.1)).mapM f = some es := by
  induction es with
  | nil => rfl
  | cons e es ih =>
    obtain ⟨he, hmore⟩ := List.forall_mem_cons.1 h
    rw [List.map_cons, List.mapM_cons, he, ih hmore]
    rfl

/-- A table with its own entries and with tables inside of it. -/
theorem assemble?_inner {sections : List Section} {direct inner : List (String × Tree)}
    (hplain : ∀ s ∈ sections, s.header.element = false)
    (hkey : leadingKey? sections ≠ some momentKey) (hdirect : ownEntries? sections = some direct)
    (hkeys : innerKeys sections = inner.map (·.1))
    (hinner : ∀ e ∈ inner, assemble? depth (below e.1 sections) = some (e.2, []))
    (hnodup : ((direct ++ inner).map (·.1)).Nodup) :
    assemble? (depth + 1) sections = some (.table (direct ++ inner), []) := by
  rw [assemble?, if_neg hkey, hdirect, hkeys]
  simp only [Option.bind_eq_bind, Option.bind_some]
  rw [mapM_keys]
  · rw [Option.bind_some, if_pos (distinct_of_nodup hnodup)]
  · intro e he
    have hnone := startsElement_below hplain e.1
    have hhead : (below e.1 sections).head?.any Section.startsElement = false := by
      cases hb : below e.1 sections with
      | nil => rfl
      | cons s more =>
        rw [hb, List.any_cons, Bool.or_eq_false_iff] at hnone
        exact hnone.1
    rw [below] at hnone hhead
    rw [hhead, hnone, if_neg Bool.false_ne_true, if_neg Bool.false_ne_true, ← below, hinner e he]
    rfl

/-- A table with rows only. -/
theorem assemble?_rows (hkey : (rows.map (·.1)).head? ≠ some momentKey)
    (hnodup : (rows.map (·.1)).Nodup) :
    assemble? depth [⟨⟨[], false⟩, rowFields rows⟩] = some (.table (rowEntries rows), []) := by
  have hown : ownEntries? [⟨⟨[], false⟩, rowFields rows⟩] = some (rowEntries rows) :=
    entries?_rows hnodup
  have hlead : leadingKey? [⟨⟨[], false⟩, rowFields rows⟩] ≠ some momentKey := by
    cases rows with
    | nil => nofun
    | cons row rows => exact hkey
  rw [← keys_rowEntries] at hnodup
  cases depth with
  | zero =>
    rw [assemble?, if_neg hlead, hown]
    show (if distinct ((rowEntries rows ++ []).map Prod.fst) then _ else none) = _
    rw [List.append_nil, if_pos (distinct_of_nodup hnodup)]
  | succ depth =>
    have htable : assemble? (depth + 1) [⟨⟨[], false⟩, rowFields rows⟩] =
        some (.table (rowEntries rows ++ []), []) :=
      assemble?_inner (by simp) hlead hown rfl nofun (by rwa [List.append_nil])
    rwa [List.append_nil] at htable

/-- A table with rows and with one table inside of it. -/
theorem assemble?_rows_inner {key : String} {more : List (String × Scalar)}
    (hkey : (rows.map (·.1)).head?.getD key ≠ momentKey)
    (hnodup : (rows.map (·.1) ++ [key]).Nodup)
    (hmore : (more.map (·.1)).head? ≠ some momentKey) (hmoreNodup : (more.map (·.1)).Nodup) :
    assemble? (depth + 1)
        [⟨⟨[], false⟩, rowFields rows⟩, ⟨⟨[key], false⟩, rowFields more⟩] =
      some (.table (rowEntries rows ++ [(key, .table (rowEntries more))]), []) := by
  have hrows : (rows.map (·.1)).Nodup := (List.nodup_append.1 hnodup).1
  have hlead : leadingKey? [⟨⟨[], false⟩, rowFields rows⟩, ⟨⟨[key], false⟩, rowFields more⟩] ≠
      some momentKey := by
    cases rows with
    | nil => exact fun h => hkey (Option.some.inj h)
    | cons row rows => exact fun h => hkey (Option.some.inj h)
  have hbelow : below key [⟨⟨[], false⟩, rowFields rows⟩, ⟨⟨[key], false⟩, rowFields more⟩] =
      [⟨⟨[], false⟩, rowFields more⟩] := by
    simp [below, Section.firstKey?, Section.inside]
  refine assemble?_inner (by simp) hlead (entries?_rows hrows) ?_ ?_ ?_
  · have hnodup' : [key].Nodup := by simp
    exact eraseDups_of_nodup hnodup'
  · intro e he
    obtain rfl := List.mem_singleton.1 he
    rw [hbelow]
    exact assemble?_rows hmore hmoreNodup
  · rwa [List.map_append, keys_rowEntries]

end CallBridge.Toml
