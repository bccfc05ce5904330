import CallBridge.Dtmf.Key

/-!
# Key presses

A press starts with the second of two neighbouring blocks of one key and ends with the second block
in a row that does not hold the key. Blocks come with the timestamp of the audio that completed
them; a press starts at the timestamp of its first block. How a block is analysed does not matter
here.

In the media core, `Press` is `ActiveTone`, and `Debouncer` is the part of `DtmfDetector` that
`on_block` changes.

Results:
* `step_idle`: without a press in progress a single block never completes one.
-/

namespace CallBridge.Dtmf

/-- A press in progress: the key, when it started, the blocks that held the key, and the blocks in
a row that did not. -/
structure Press where
  key : Key
  start : UInt64
  blocks : Nat
  missing : Nat
deriving DecidableEq, Repr, Inhabited

/-- The number of blocks with which a press starts. -/
def startBlocks : Nat := 2

/-- The number of blocks without the key with which a press ends. -/
def endBlocks : Nat := 2

/-- What is known after some blocks: the key of the last one with the timestamp of the first block
of its run, and the press in progress. -/
structure Debouncer where
  last : Option (Key × UInt64)
  active : Option Press
deriving DecidableEq, Repr, Inhabited

namespace Debouncer

/-- Nothing is known before the first block. -/
def start : Debouncer := ⟨none, none⟩

/-- The key of a block with the timestamp of the first block of its run. -/
def runOf (last : Option (Key × UInt64)) (ts : UInt64) (heard : Option Key) :
    Option (Key × UInt64) :=
  heard.map fun key =>
    match last with
    | some (k, t) => if k = key then (key, t) else (key, ts)
    | none => (key, ts)

/-- The press in progress after a block, and the press that the block completed. -/
def advance (d : Debouncer) (heard : Option Key) : Option Press × Option Press :=
  match d.active with
  | some p =>
    if heard = some p.key then (some { p with blocks := p.blocks + 1, missing := 0 }, none)
    else if endBlocks ≤ p.missing + 1 then (none, some { p with missing := p.missing + 1 })
    else (some { p with missing := p.missing + 1 }, none)
  | none =>
    match heard, d.last with
    | some key, some (k, t) =>
      if key = k then (some ⟨key, t, startBlocks, 0⟩, none) else (none, none)
    | _, _ => (none, none)

/-- What is known after one more block, and the press that the block completed. -/
def step (d : Debouncer) (ts : UInt64) (heard : Option Key) : Debouncer × Option Press :=
  let (active, done) := d.advance heard
  (⟨runOf d.last ts heard, active⟩, done)

theorem step_idle {d : Debouncer} (h : d.active = none) (ts : UInt64) (heard : Option Key) :
    (d.step ts heard).2 = none := by
  simp only [step, advance, h]
  split
  · split <;> rfl
  · rfl

end Debouncer

end CallBridge.Dtmf
