import CallBridge.Buffer.Ring

/-!
# Alternate audio

Audio that is played to a leg in place of the other leg's: a recording held in memory, audio that
another part of the program writes into a ring buffer, or a source that is out of order.

In the media core, `Recording` is `CachedAudio`, `Source` is the interface `AudioSource` with `get`
(`read`) and `close`, and `Feed` with a `Ring` is `BufferedAudio` with its `BufferedAudioWriter`.

Results:
* `Recording.length_play_le`: a read never exceeds what it asks for.
-/

namespace CallBridge.Audio

/-! ## Recordings -/

/-- Audio held in memory with a position in it. -/
structure Recording where
  data : List UInt8
  position : Nat
  looping : Bool
deriving DecidableEq, Repr, Inhabited

namespace Recording

/-- The recording of some bytes, at its start. -/
def ofBytes (data : List UInt8) (looping : Bool) : Recording := ⟨data, 0, looping⟩

/-- The recording at its start again. -/
def rewind (r : Recording) : Recording := { r with position := 0 }

/-- The recording with looping switched on or off. -/
def setLooping (r : Recording) (on : Bool) : Recording := { r with looping := on }

/-- Whether everything was played and nothing will be again. -/
def isFinished (r : Recording) : Bool := !r.looping && r.data.length ≤ r.position

/-- The position that playing goes on from: the start again after the end of a loop. -/
def resume (r : Recording) : Nat :=
  if r.position < r.data.length then r.position else if r.looping then 0 else r.position

/-- The next at most `len` bytes up to the end of the data. -/
def chunk (r : Recording) (len : Nat) : List UInt8 := (r.data.drop r.resume).take len

theorem length_chunk_le (r : Recording) (len : Nat) : (r.chunk len).length ≤ len := by
  simp only [chunk, List.length_take]; omega

/-- The recording after at most `len` bytes were played, and these bytes. -/
def play (r : Recording) (len : Nat) : Recording × List UInt8 :=
  if (r.chunk len).length = 0 then (r, [])
  else
    let rest := play { r with position := r.resume + (r.chunk len).length }
      (len - (r.chunk len).length)
    (rest.1, r.chunk len ++ rest.2)
termination_by len
decreasing_by
  have := length_chunk_le r len
  omega

/-- The recording played to its end for good. -/
def close (r : Recording) : Recording := { r with position := r.data.length, looping := false }

theorem length_play_le (r : Recording) (len : Nat) : (r.play len).2.length ≤ len := by
  fun_induction play r len with
  | case1 => simp
  | case2 r len h rest ih =>
    have := length_chunk_le r len
    simp only [List.length_append, rest] at *
    omega

end Recording

/-! ## Sources -/

/-- A source of alternate audio. -/
inductive Source where
  /-- A recording held in memory. -/
  | recording (r : Recording)
  /-- A ring buffer that another part of the program writes to. -/
  | buffered (r : Buffer.Ring)
  /-- A source that fails whenever it is read. -/
  | broken (reason : String)
deriving DecidableEq, Repr, Inhabited

namespace Source

/-- The source after at most `len` bytes were taken from it, and these bytes. -/
def take (s : Source) (len : Nat) : Source × Outcome (List UInt8) :=
  match s with
  | recording r => let (r', bs) := r.play len; (recording r', .ok bs)
  | buffered r => let (r', bs) := r.takeOldest len; (buffered r', .ok bs)
  | broken reason => (s, .error (.stream reason))

/-- The source after a read into a buffer, the buffer, and the number of bytes read. -/
def read (s : Source) (out : List UInt8) : Source × List UInt8 × Outcome Nat :=
  match s.take out.length with
  | (s', .ok bs) => (s', overlay bs out, .ok bs.length)
  | (s', .error f) => (s', out, .error f)

/-- The source after what it holds was given up. -/
def close : Source → Source
  | recording r => recording r.close
  | buffered r => buffered r.clear
  | broken reason => broken reason

end Source

/-- A source in use, with the number by which its writers know it. -/
structure Feed where
  serial : Nat
  source : Source
deriving DecidableEq, Repr, Inhabited

/-- The feed after its source gave up what it holds. -/
def Feed.close (f : Feed) : Feed := { f with source := f.source.close }

/-- The feed after one of its writers wrote to it, and what the write did. Only a ring buffer has
writers. -/
def Feed.write (f : Feed) (data : List UInt8) : Feed × Outcome Buffer.Written :=
  match f.source with
  | .buffered r => let (r, w) := r.write data; ({ f with source := .buffered r }, w)
  | _ => (f, .error (.stream "source has no writer"))

end CallBridge.Audio
