/-!
# Payload masks

A payload mask is a finite set of RTP payload types, the numbers below 128, kept as 128 bits.
Larger numbers are no payload types: adding or removing one changes nothing, and no mask holds one.

Results:
* `contains_insert`, `contains_erase`, `contains_ofList`: membership after each operation.
* `contains_iff_mem_toList`: `toList` lists exactly the members.
* `ext`: two masks with the same members are equal.
-/

namespace CallBridge

/-- A set of payload types, bit `i` of `bits` telling whether `i` belongs to it. -/
structure PayloadMask where
  bits : BitVec 128
deriving DecidableEq, Repr, Inhabited

namespace PayloadMask

/-- The mask without a member. -/
def empty : PayloadMask := ⟨0⟩

/-- Whether a number is a member. -/
def contains (m : PayloadMask) (pt : UInt8) : Bool := m.bits.getLsbD pt.toNat

/-- The mask with a payload type added. -/
def insert (m : PayloadMask) (pt : UInt8) : PayloadMask := ⟨m.bits ||| BitVec.twoPow 128 pt.toNat⟩

/-- The mask with a payload type removed. -/
def erase (m : PayloadMask) (pt : UInt8) : PayloadMask := ⟨m.bits &&& ~~~BitVec.twoPow 128 pt.toNat⟩

/-- The mask of the payload types in a list. -/
def ofList (pts : List UInt8) : PayloadMask := pts.foldl insert empty

/-- The members in ascending order. -/
def toList (m : PayloadMask) : List UInt8 := ((List.range 128).map UInt8.ofNat).filter m.contains

/-- The number of members. -/
def size (m : PayloadMask) : Nat := ((List.range 128).filter m.bits.getLsbD).length

/-- Whether there is no member. -/
def isEmpty (m : PayloadMask) : Bool := m.bits == 0

/-- The members in ascending order, separated by commas, in braces. -/
def render (m : PayloadMask) : String :=
  "\x7b" ++ ",".intercalate (m.toList.map fun pt => toString pt.toNat) ++ "\x7d"

@[simp] theorem contains_empty (pt : UInt8) : empty.contains pt = false := by
  simp [contains, empty]

theorem contains_eq_false_of_le {m : PayloadMask} {pt : UInt8} (h : 128 ≤ pt.toNat) :
    m.contains pt = false := BitVec.getLsbD_of_ge _ _ h

theorem beq_eq_decide (p q : UInt8) : (p == q) = decide (p.toNat = q.toNat) := by
  by_cases h : p = q
  · subst h; simp
  · have : ¬ p.toNat = q.toNat := fun e => h (UInt8.toNat_inj.1 e)
    rw [beq_eq_false_iff_ne.2 h]; simp [this]

theorem contains_insert (m : PayloadMask) (pt q : UInt8) :
    (m.insert pt).contains q = (m.contains q || (pt == q && decide (pt.toNat < 128))) := by
  simp only [contains, insert, BitVec.getLsbD_or, BitVec.getLsbD_twoPow, beq_eq_decide]
  by_cases e : pt.toNat = q.toNat <;> simp [e]

theorem contains_erase (m : PayloadMask) (pt q : UInt8) :
    (m.erase pt).contains q = (m.contains q && !(pt == q)) := by
  by_cases hq : q.toNat < 128
  · simp only [contains, erase, BitVec.getLsbD_and, BitVec.getLsbD_not, BitVec.getLsbD_twoPow,
      beq_eq_decide]
    by_cases e : pt.toNat = q.toNat <;> simp [e, hq]
  · rw [contains_eq_false_of_le (by omega), contains_eq_false_of_le (by omega)]; rfl

theorem contains_foldl_insert (pts : List UInt8) (m : PayloadMask) (q : UInt8) :
    (pts.foldl insert m).contains q =
      (m.contains q || (pts.contains q && decide (q.toNat < 128))) := by
  induction pts generalizing m with
  | nil => simp
  | cons p ps ih =>
    rw [List.foldl_cons, ih, contains_insert, List.contains_cons]
    by_cases e : p = q
    · subst e; cases m.contains p <;> cases decide (p.toNat < 128) <;> simp
    · rw [beq_eq_false_iff_ne.2 e, beq_eq_false_iff_ne.2 fun h => e h.symm]; simp

theorem contains_ofList (pts : List UInt8) (q : UInt8) :
    (ofList pts).contains q = (pts.contains q && decide (q.toNat < 128)) := by
  rw [ofList, contains_foldl_insert]; simp

theorem contains_iff_mem_toList (m : PayloadMask) (pt : UInt8) :
    m.contains pt = true ↔ pt ∈ m.toList := by
  simp only [toList, List.mem_filter, List.mem_map, List.mem_range]
  refine ⟨fun h => ⟨⟨pt.toNat, ?_, by simp⟩, h⟩, fun h => h.2⟩
  by_cases hp : pt.toNat < 128
  · exact hp
  · rw [contains_eq_false_of_le (by omega)] at h; cases h

theorem ext {m n : PayloadMask} (h : ∀ pt, m.contains pt = n.contains pt) : m = n := by
  cases m with
  | mk x =>
    cases n with
    | mk y =>
      congr 1
      apply BitVec.eq_of_getLsbD_eq
      intro i hi
      have := h (UInt8.ofNat i)
      simpa [contains, Nat.mod_eq_of_lt (show i < 256 by omega)] using this

end PayloadMask

end CallBridge
