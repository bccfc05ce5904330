/-!
# Ways of playing out received audio

In the media core, `Mode` is `PlayoutType`.
-/

namespace CallBridge.Playout

/-- How audio waits between its arrival and its use. -/
inductive Mode where
  /-- Frames wait in the order of their timestamps, with a delay that follows the jitter. -/
  | adaptive
  /-- Frames wait in the order of their arrival, with a fixed delay. -/
  | simple
deriving DecidableEq, Repr, Inhabited

/-- The word for a mode. -/
def Mode.word : Mode → String
  | .adaptive => "adaptive"
  | .simple => "simple"

/-- The mode that a word names. -/
def Mode.ofWord? (word : String) : Option Mode :=
  if word = "adaptive" then some .adaptive else if word = "simple" then some .simple else none

@[simp] theorem Mode.ofWord?_word (m : Mode) : Mode.ofWord? m.word = some m := by cases m <;> rfl

end CallBridge.Playout
