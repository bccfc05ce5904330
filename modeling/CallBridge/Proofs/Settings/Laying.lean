import CallBridge.Settings.KeyPath

/-!
# Settings laid over each other

A tree shows another one if it has all of its entries, with the same single values and with tables
that show its tables. What is laid over a tree is shown by what comes out, as long as no name comes
twice in a table.

Results:
* `Tree.child?_put_self`, `Tree.child?_put_of_ne`: what becomes of the entries.
* `Tree.shows_self`: a tree shows itself.
* `Tree.shows_laid`: what was laid over a tree is shown, whatever the tree was.
* `KeyPath.layRoot_names`: a source whose keys are names is laid over entry by entry.
-/

namespace CallBridge.Settings

namespace Tree

/-! ## Entries -/

/-- What stands in place of a tree, if there was one, after a value was laid over it. -/
def laid (old : Option Tree) : Tree → Tree
  | table more => (old.getD (table [])).putAll more
  | value => value

theorem put_eq (t : Tree) (name : String) (value : Tree) :
    t.put name value = table (replaceEntry name (laid (t.child? name) value) t.entries) := by
  cases value <;> simp only [put, laid]

/-- The entry with its name is laid over. -/
theorem child?_put_self (t : Tree) (name : String) (value : Tree) :
    (t.put name value).child? name = some (laid (t.child? name) value) := by
  rw [put_eq, child?, entries, replaceEntry, List.lookup_cons_self]

/-- All other entries stay as they are. -/
theorem child?_put_of_ne (t : Tree) {name other : String} (value : Tree) (h : other ≠ name) :
    (t.put name value).child? other = t.child? other := by
  have hfilter : ∀ es : List (String × Tree),
      (es.filter (·.1 ≠ name)).lookup other = es.lookup other := by
    intro es
    induction es with
    | nil => rfl
    | cons e es ih =>
      obtain ⟨key, old⟩ := e
      by_cases hkey : key = name
      · subst hkey
        rw [List.filter_cons_of_neg (by simp), ih, List.lookup_cons, beq_false_of_ne h]
      · rw [List.filter_cons_of_pos (by simpa using hkey), List.lookup_cons, List.lookup_cons, ih]
  rw [put_eq, child?, entries, replaceEntry, List.lookup_cons, beq_false_of_ne h]
  exact hfilter t.entries

theorem child?_putAll_of_not_mem (t : Tree) {es : List (String × Tree)} {name : String}
    (h : name ∉ es.map (·.1)) : (t.putAll es).child? name = t.child? name := by
  induction es generalizing t with
  | nil => rfl
  | cons e es ih =>
    rw [List.map_cons, List.mem_cons, not_or] at h
    rw [putAll, ih _ h.2, child?_put_of_ne _ _ h.1]

/-- A tree with an entry is a table. -/
theorem eq_table_of_child? {t value : Tree} {name : String} (h : t.child? name = some value) :
    t = table t.entries := by
  cases t with
  | table es => rfl
  | _ => cases h

/-! ## What a tree shows -/

mutual

/-- Whether no name comes twice in a table inside of a tree. -/
def Distinct : Tree → Prop
  | table es => (es.map (·.1)).Nodup ∧ DistinctAll es
  | _ => True

/-- Whether no name comes twice in a table inside of some entries. -/
def DistinctAll : List (String × Tree) → Prop
  | [] => True
  | (_, value) :: es => value.Distinct ∧ DistinctAll es

end

mutual

/-- Whether a tree has the entries of another one, or is the same single value. -/
def Shows (t : Tree) : Tree → Prop
  | table es => t.ShowsAll es
  | value => t = value

/-- Whether a tree has entries that show some others. -/
def ShowsAll (t : Tree) : List (String × Tree) → Prop
  | [] => True
  | (name, value) :: es => (∃ shown, t.child? name = some shown ∧ shown.Shows value) ∧ t.ShowsAll es

end

mutual

/-- What was laid over a tree is shown, whatever the tree was. -/
theorem shows_laid (old : Option Tree) (value : Tree) (h : value.Distinct) :
    (laid old value).Shows value := by
  cases value with
  | table es => exact showsAll_putAll (old.getD (table [])) es h.1 h.2
  | _ => simp only [laid, Shows]

theorem showsAll_putAll (t : Tree) (es : List (String × Tree)) (hnodup : (es.map (·.1)).Nodup)
    (h : DistinctAll es) : (t.putAll es).ShowsAll es := by
  cases es with
  | nil => trivial
  | cons e es =>
    obtain ⟨name, value⟩ := e
    rw [List.map_cons, List.nodup_cons] at hnodup
    obtain ⟨hfirst, hmore⟩ := hnodup
    refine ⟨⟨laid (t.child? name) value, ?_, shows_laid _ value h.1⟩, ?_⟩
    · rw [putAll, child?_putAll_of_not_mem _ hfirst, child?_put_self]
    · exact showsAll_putAll (t.put name value) es hmore h.2

end

theorem lookup_of_mem {es : List (String × Tree)} (hnodup : (es.map (·.1)).Nodup)
    {e : String × Tree} (he : e ∈ es) : es.lookup e.1 = some e.2 := by
  induction es with
  | nil => cases he
  | cons first es ih =>
    rw [List.map_cons, List.nodup_cons] at hnodup
    obtain ⟨hfirst, hmore⟩ := hnodup
    rcases List.mem_cons.1 he with rfl | he
    · exact List.lookup_cons_self
    · have hne : e.1 ≠ first.1 := by
        intro heq
        exact hfirst (heq ▸ List.mem_map_of_mem he)
      rw [List.lookup_cons, beq_false_of_ne hne]
      exact ih hmore he

mutual

/-- A tree shows itself. -/
theorem shows_self (value : Tree) (h : value.Distinct) : value.Shows value := by
  cases value with
  | table es => exact showsAll_of_child? es (fun e he => lookup_of_mem h.1 he) h.2
  | _ => simp only [Shows]

theorem showsAll_of_child? {t : Tree} (es : List (String × Tree))
    (hchild : ∀ e ∈ es, t.child? e.1 = some e.2) (h : DistinctAll es) : t.ShowsAll es := by
  cases es with
  | nil => trivial
  | cons e es =>
    obtain ⟨name, value⟩ := e
    obtain ⟨hfirst, hmore⟩ := List.forall_mem_cons.1 hchild
    exact ⟨⟨value, hfirst, shows_self value h.1⟩, showsAll_of_child? es hmore h.2⟩

end

end Tree

/-! ## Sources -/

namespace KeyPath

/-- A key that is one name. -/
def IsName (key : String) : Prop := key.toList ≠ [] ∧ ∀ c ∈ key.toList, isNameChar c = true

instance (key : String) : Decidable (IsName key) :=
  decidable_of_iff (key.toList ≠ [] ∧ key.toList.all isNameChar = true)
    (and_congr_right fun _ => List.all_eq_true)

/-- A name leads to its entry. -/
theorem IsName.steps {key : String} (h : IsName key) : steps key = [.entry key] := by
  obtain ⟨hne, hname⟩ := h
  have htake : (key.toList ++ []).takeWhile isNameChar = _ := List.takeWhile_append_of_pos hname
  have hdrop : (key.toList ++ []).dropWhile isNameChar = _ := List.dropWhile_append_of_pos hname
  rw [List.append_nil, List.takeWhile_nil, List.append_nil] at htake
  rw [List.append_nil, List.dropWhile_nil] at hdrop
  rw [KeyPath.steps, parse?, name?, htake, hdrop, if_neg hne, String.ofList_toList]
  rfl

/-- A source whose keys are names is laid over entry by entry. -/
theorem layRoot_names (t : Tree) {root : List (String × Tree)} (h : ∀ e ∈ root, IsName e.1) :
    layRoot t root = t.putAll root := by
  induction root generalizing t with
  | nil => rfl
  | cons e root ih =>
    obtain ⟨name, value⟩ := e
    obtain ⟨hname, hmore⟩ := List.forall_mem_cons.1 h
    rw [Tree.putAll, ← ih _ hmore]
    show layRoot (t.layAt (steps name) value) root = _
    rw [IsName.steps hname, Tree.layAt]

end KeyPath

end CallBridge.Settings
