import CallBridge.Audio.Source

/-!
# Sources of a rehearsal

The alternate sources that a script makes, numbered one after the other. Ring buffers have writers,
numbered on their own, that go on writing after the source was taken out of use.
-/

namespace CallBridge.Rehearsal

open Audio (Feed Recording Source)

/-- The source that a script asks for. -/
inductive SourceSpec where
  | nothing
  | recording (data : List UInt8) (looping : Bool)
  | buffered (capacity : Nat)
  | broken
deriving DecidableEq, Repr, Inhabited

/-- The source that is made. -/
def SourceSpec.source? : SourceSpec → Option Source
  | nothing => none
  | recording data looping => some (.recording (Recording.ofBytes data looping))
  | buffered capacity => some (.buffered (Buffer.Ring.ofCapacity capacity))
  | broken => some (.broken "source failed")

/-- Whether the source has a writer. -/
def SourceSpec.hasWriter : SourceSpec → Bool
  | buffered _ => true
  | _ => false

/-- The sources made so far: the number of the next one, their names, the numbers of those that the
writers write to, and those that are out of use. -/
structure Sources where
  next : Nat
  names : List (Nat × String)
  writers : List Nat
  shelf : List Feed
deriving DecidableEq, Repr, Inhabited

namespace Sources

/-- The sources before the first was made. -/
def none : Sources := ⟨0, [], [], []⟩

/-- The sources after a source was made under a name, and that source. -/
def make (s : Sources) (name : String) (spec : SourceSpec) : Sources × Option Feed :=
  match spec.source? with
  | .none => (s, .none)
  | some source =>
    ({ s with
        next := s.next + 1
        names := (s.next, name) :: s.names
        writers := if spec.hasWriter then s.writers ++ [s.next] else s.writers },
      some ⟨s.next, source⟩)

/-- The sources after the next number was given to a source without a name that has a writer. -/
def reserve (s : Sources) : Sources :=
  { s with next := s.next + 1, writers := s.writers ++ [s.next] }

/-- The sources with some put out of use. -/
def shelve (s : Sources) (feeds : List Feed) : Sources := { s with shelf := s.shelf ++ feeds }

/-- The names of sources that were closed, those without a name left out. -/
def closed (s : Sources) (feeds : List Feed) : List String :=
  feeds.filterMap fun f => s.names.lookup f.serial

/-- The sources that are out of use after a writer wrote to one of them, and what the write did. -/
def writeShelf (serial : Nat) (data : List UInt8) :
    List Feed → List Feed × Option (Outcome Buffer.Written)
  | [] => ([], .none)
  | f :: rest =>
    if f.serial = serial then
      let (f, written) := f.write data
      (f :: rest, some written)
    else
      let (rest, written) := writeShelf serial data rest
      (f :: rest, written)

/-- The sources after a writer wrote to one that is out of use, and what the write did. -/
def write (s : Sources) (serial : Nat) (data : List UInt8) :
    Sources × Option (Outcome Buffer.Written) :=
  let (shelf, written) := writeShelf serial data s.shelf
  ({ s with shelf }, written)

end Sources

end CallBridge.Rehearsal
