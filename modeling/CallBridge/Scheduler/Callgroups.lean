import CallBridge.SessionId

/-!
# Callgroups

Sessions of one callgroup run on one worker. A callgroup is given to a worker with the fewest
callgroups when its first session comes, and stays there until its last member leaves. A session is
known under the callgroup that it was assigned to last.

In the media core, `Callgroups` is `CallgroupMap`, and `workerOf` is its `thread_of`.

Results:
* `workerOf_assign`: after a session came, its callgroup has the worker that was answered.
-/

namespace CallBridge.Scheduler

/-- A callgroup in use: its worker and the sessions that came to it. -/
structure Group where
  worker : Nat
  members : List SessionId
deriving DecidableEq, Repr, Inhabited

/-- The callgroups in use, the callgroup that each session is known under, and the number of
callgroups of each worker. -/
structure Callgroups where
  groups : List (String × Group)
  groupOf : List (SessionId × String)
  loads : List Nat
deriving DecidableEq, Repr, Inhabited

/-- A table without the entry of a key. -/
def without {α β : Type} [DecidableEq α] (key : α) (table : List (α × β)) : List (α × β) :=
  table.filter (·.1 ≠ key)

/-- A table with the entry of a key replaced. -/
def entered {α β : Type} [DecidableEq α] (key : α) (value : β) (table : List (α × β)) :
    List (α × β) :=
  (key, value) :: without key table

/-- The first index at which a list of loads is least. -/
def leastLoaded (loads : List Nat) : Nat :=
  loads.findIdx fun load => loads.all (load ≤ ·)

namespace Callgroups

/-- No callgroup, and a number of workers, at least one. -/
def start (workers : Nat) : Callgroups := ⟨[], [], List.replicate (max workers 1) 0⟩

/-- The worker of a callgroup. -/
def workerOf (c : Callgroups) (group : String) : Option Nat :=
  (c.groups.lookup group).map (·.worker)

/-- Whether a session is known. -/
def contains (c : Callgroups) (id : SessionId) : Bool := (c.groupOf.lookup id).isSome

/-- The number of sessions known. -/
def sessionCount (c : Callgroups) : Nat := c.groupOf.length

/-- The members with one more, unless it is there. -/
def join (id : SessionId) (members : List SessionId) : List SessionId :=
  if members.contains id then members else id :: members

/-- The callgroups with a callgroup in use on a worker. -/
def place (c : Callgroups) (id : SessionId) (name : String) (group : Group) : Callgroups :=
  { c with
    groups := entered name { group with members := join id group.members } c.groups
    groupOf := entered id name c.groupOf }

/-- The callgroups after a session came to a callgroup, and its worker. -/
def assign (c : Callgroups) (id : SessionId) (name : String) : Callgroups × Nat :=
  match c.groups.lookup name with
  | some group => (c.place id name group, group.worker)
  | none =>
    let worker := leastLoaded c.loads
    ({ c with loads := c.loads.modify worker (· + 1) }.place id name ⟨worker, []⟩, worker)

/-- The callgroups after a session left a callgroup; without members it is not in use. -/
def leave (c : Callgroups) (id : SessionId) (name : String) (group : Group) : Callgroups :=
  let members := group.members.filter (· ≠ id)
  if members.isEmpty then
    { c with
      groups := without name c.groups
      loads := c.loads.modify group.worker (· - 1) }
  else { c with groups := entered name { group with members } c.groups }

/-- The callgroups after a session was forgotten, and its worker if it was known. -/
def release (c : Callgroups) (id : SessionId) : Callgroups × Option Nat :=
  match c.groupOf.lookup id with
  | none => (c, none)
  | some name =>
    let c := { c with groupOf := without id c.groupOf }
    match c.groups.lookup name with
    | none => (c, none)
    | some group => (c.leave id name group, some group.worker)

theorem lookup_entered {α β : Type} [DecidableEq α] (key : α) (value : β) (table : List (α × β)) :
    (entered key value table).lookup key = some value := by simp [entered]

theorem workerOf_assign (c : Callgroups) (id : SessionId) (name : String) :
    (c.assign id name).1.workerOf name = some (c.assign id name).2 := by
  unfold assign workerOf
  split <;> simp [place, lookup_entered]

end Callgroups

end CallBridge.Scheduler
