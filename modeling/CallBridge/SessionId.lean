/-!
# Session identifiers

Sessions are known to the media scheduler by a text. Identifiers are ordered by code points.

In the media core, `SessionId` is `MediaSessionId`.

Results:
* `mem_sortedDistinct`: sorting neither adds nor loses an identifier.
-/

namespace CallBridge

/-- The identifier of a media session. -/
structure SessionId where
  text : String
deriving DecidableEq, Repr, Inhabited, Hashable

namespace SessionId

/-- The identifier made from a token that occurs nowhere else. -/
def fresh (token : String) : SessionId := ⟨"media-" ++ token⟩

/-- The order of identifiers, by the code points of their texts. -/
def le (x y : SessionId) : Bool := !decide (y.text < x.text)

/-- The list with an identifier put in its place, unless it is there already. -/
def insertSorted (x : SessionId) : List SessionId → List SessionId
  | [] => [x]
  | y :: ys => if x = y then y :: ys else if le x y then x :: y :: ys else y :: insertSorted x ys

/-- The distinct identifiers of a list in ascending order. -/
def sortedDistinct (ids : List SessionId) : List SessionId := ids.foldr insertSorted []

theorem mem_insertSorted (x z : SessionId) (ys : List SessionId) :
    z ∈ insertSorted x ys ↔ z = x ∨ z ∈ ys := by
  induction ys with
  | nil => simp [insertSorted]
  | cons y ys ih =>
    rw [insertSorted]
    split
    · next h => subst h; simp
    · split
      · simp
      · simp only [List.mem_cons, ih]
        constructor
        · rintro (h | h | h) <;> simp [h]
        · rintro (h | h | h) <;> simp [h]

theorem mem_sortedDistinct (z : SessionId) (ids : List SessionId) :
    z ∈ sortedDistinct ids ↔ z ∈ ids := by
  induction ids with
  | nil => simp [sortedDistinct]
  | cons x xs ih =>
    have : sortedDistinct (x :: xs) = insertSorted x (sortedDistinct xs) := rfl
    rw [this, mem_insertSorted, ih, List.mem_cons]

end SessionId

end CallBridge
