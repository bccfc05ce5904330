import CallBridge.Toml.Parser

/-!
# Documents in TOML

The sections of a document are put together into one table. A section belongs to the table that its
path leads to; the tables on the way need no section of their own. A table may have one section of
its own at most, and no key twice. Headers in double brackets make a list: each of them starts an
element, to which all sections below it belong.

A table in which `momentKey` comes first is a date or time, and the sections inside of it are not
looked at. They are left for the next element where the table is an element of a list, and stand in
the way otherwise.

Results:
* `elementsOf_flatten`: parting sections loses none and keeps their order.
-/

namespace CallBridge.Toml

open CallBridge.Settings (Tree)

/-! ## Sections inside a table -/

namespace Section

/-- The first key of the path. -/
def firstKey? (s : Section) : Option String := s.header.path.head?

/-- The section as seen from one table further inside. -/
def inside (s : Section) : Section := { s with header.path := s.header.path.tail }

/-- Whether the section belongs to the table itself. -/
def isOwn (s : Section) : Bool := s.header.path.isEmpty

/-- Whether the section starts an element of the list that stands in place of the table. -/
def startsElement (s : Section) : Bool := s.isOwn && s.header.element

end Section

/-- Sections parted before every one that starts an element. -/
def elementsOf : List Section → List (List Section)
  | [] => []
  | s :: more =>
    match elementsOf more with
    | [] => [[s]]
    | group :: groups =>
      if group.head?.any Section.startsElement then [s] :: group :: groups
      else (s :: group) :: groups

theorem elementsOf_flatten (sections : List Section) :
    (elementsOf sections).flatten = sections := by
  induction sections with
  | nil => rfl
  | cons s more ih =>
    rw [elementsOf]
    split
    · simp_all
    · split <;> simp_all

/-- The keys of a table that sections inside of it belong to, each once, in order. -/
def innerKeys (sections : List Section) : List String :=
  (sections.filterMap Section.firstKey?).eraseDups

/-! ## Putting sections together -/

/-- The key that comes first in the table of sections, which may be the first key of a path. -/
def leadingKey? : List Section → Option String
  | [] => none
  | s :: more =>
    if s.isOwn then (s.fields.head?.map (·.1)).or (leadingKey? more) else s.firstKey?

/-- The date or time that sections make up, and the sections that were not looked at. The section
of the table itself has to come first. -/
def momentOf? : List Section → Option (Tree × List Section)
  | s :: more =>
    match s.isOwn, s.fields with
    | true, (_, value) :: _ => value.momentTree?.map fun t => (t, more)
    | _, _ => none
  | [] => none

/-- The entries of the table's own section, if it has not more than one. -/
def ownEntries? (sections : List Section) : Option (List (String × Tree)) :=
  match sections.filter Section.isOwn with
  | [] => some []
  | [own] => entries? own.fields
  | _ => none

/-- What sections make up whose paths have at most `depth` keys, and the sections that were not
looked at. -/
def assemble? : Nat → List Section → Option (Tree × List Section)
  | depth, sections =>
    if leadingKey? sections = some momentKey then momentOf? sections
    else do
      let direct ← ownEntries? sections
      let inner ← match depth with
        | 0 => some []
        | depth + 1 => (innerKeys sections).mapM fun key => do
          let below := (sections.filter (·.firstKey? = some key)).map Section.inside
          let (t, left) ←
            if below.head?.any Section.startsElement then do
              let (ts, left) ← (elementsOf below).foldlM (fun (ts, left) group => do
                let (t, left) ← assemble? depth (group.take 1 ++ left ++ group.drop 1)
                some (ts ++ [t], left)) ([], [])
              some (.list ts, left)
            else if below.any Section.startsElement then none
            else assemble? depth below
          if left.isEmpty then some (key, t) else none
      let entries := direct ++ inner
      if distinct (entries.map (·.1)) then some (.table entries, []) else none

/-- The most keys in the path of a section. -/
def depthOf (sections : List Section) : Nat :=
  sections.foldl (fun depth s => max depth s.header.path.length) 0

/-- The entries of a document, if it is one. A date or time has none. -/
def document? (text : String) : Option (List (String × Tree)) := do
  let sections ← sections? (← tokens? text)
  let (t, _) ← assemble? (depthOf sections) sections
  some t.entries

end CallBridge.Toml
