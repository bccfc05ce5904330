/-!
# The two sides of a bridged call

Results:
* `Leg.opposite_opposite`: the side across from the side across is the side itself.
-/

namespace CallBridge

/-- One side of a bridged call: the caller or the callee. -/
inductive Leg where
  | a
  | b
deriving DecidableEq, Repr, Inhabited

namespace Leg

/-- The other side of the call. -/
def opposite : Leg → Leg
  | a => b
  | b => a

/-- Both sides, the caller first. -/
def both : List Leg := [a, b]

/-- The letter a side is shown as. -/
def letter : Leg → String
  | a => "A"
  | b => "B"

@[simp] theorem opposite_opposite (l : Leg) : l.opposite.opposite = l := by cases l <;> rfl

theorem opposite_ne (l : Leg) : l.opposite ≠ l := by cases l <;> simp [opposite]

theorem eq_or_eq_opposite (l other : Leg) : other = l ∨ other = l.opposite := by
  cases l <;> cases other <;> simp [opposite]

theorem mem_both (l : Leg) : l ∈ both := by cases l <;> simp [both]

theorem forall_iff {P : Leg → Prop} : (∀ l, P l) ↔ P a ∧ P b :=
  ⟨fun h => ⟨h a, h b⟩, fun h l => by cases l <;> simp [h]⟩

theorem exists_iff {P : Leg → Prop} : (∃ l, P l) ↔ P a ∨ P b :=
  ⟨fun ⟨l, h⟩ => by cases l <;> simp [h], fun h => h.elim (⟨a, ·⟩) (⟨b, ·⟩)⟩

end Leg

/-- A value for each side of a call. -/
structure PerLeg (α : Type) where
  a : α
  b : α
deriving DecidableEq, Repr, Inhabited

namespace PerLeg

variable {α : Type}

/-- The value of one side. -/
def get (p : PerLeg α) : Leg → α
  | .a => p.a
  | .b => p.b

/-- The values with that of one side replaced. -/
def set (p : PerLeg α) (l : Leg) (x : α) : PerLeg α :=
  match l with
  | .a => { p with a := x }
  | .b => { p with b := x }

/-- The values with that of one side changed by a function. -/
def modify (p : PerLeg α) (l : Leg) (f : α → α) : PerLeg α := p.set l (f (p.get l))

@[simp] theorem get_set_self (p : PerLeg α) (l : Leg) (x : α) : (p.set l x).get l = x := by
  cases l <;> rfl

@[simp] theorem get_set_opposite (p : PerLeg α) (l : Leg) (x : α) :
    (p.set l x).get l.opposite = p.get l.opposite := by cases l <;> rfl

@[simp] theorem get_opposite_set (p : PerLeg α) (l : Leg) (x : α) :
    (p.set l.opposite x).get l = p.get l := by cases l <;> rfl

@[simp] theorem set_get_self (p : PerLeg α) (l : Leg) : p.set l (p.get l) = p := by
  cases l <;> rfl

end PerLeg

end CallBridge
