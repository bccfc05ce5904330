import CallBridge.Rehearsal.ScriptedStream
import CallBridge.Rtp.AudioStream

/-!
# Laws of streams

What a bridge relies on when it sets up relays: a relay that was set up has the mask it was asked
for, a relay that was switched off has none, and neither negotiation nor the choice of a playout
touches the relay or the port. The streams of the media path obey these laws, and so do the
scripted ones.

Results:
* `LawfulStream AudioStream`, `LawfulStream ScriptedStream`: the laws hold of both kinds of stream.
* `steady_port`: setting a stream up leaves it on its port.
-/

namespace CallBridge.Rtp

/-- The laws of relaying. -/
class LawfulStream (σ : Type) [MediaStream σ] : Prop where
  port_enableRelay : ∀ (s : σ) (mask : PayloadMask) (peer : UInt16),
    MediaStream.port (MediaStream.enableRelay s mask peer).1 = MediaStream.port s
  port_disableRelay : ∀ s : σ, MediaStream.port (MediaStream.disableRelay s) = MediaStream.port s
  port_negotiate : ∀ (s : σ) (now : Nat) (ours theirs : Sdp.Description) (line : Nat),
    MediaStream.port (MediaStream.negotiate s now ours theirs line).1 = MediaStream.port s
  port_setPlayout : ∀ (s : σ) (now : Nat) (mode : Playout.Mode),
    MediaStream.port (MediaStream.setPlayout s now mode) = MediaStream.port s
  relayMask_enableRelay : ∀ (s : σ) (mask : PayloadMask) (peer : UInt16),
    (MediaStream.enableRelay s mask peer).2 = .ok () →
      MediaStream.relayMask (MediaStream.enableRelay s mask peer).1 = some mask
  relayMask_disableRelay : ∀ s : σ, MediaStream.relayMask (MediaStream.disableRelay s) = none
  relayMask_negotiate : ∀ (s : σ) (now : Nat) (ours theirs : Sdp.Description) (line : Nat),
    MediaStream.relayMask (MediaStream.negotiate s now ours theirs line).1 =
      MediaStream.relayMask s
  relayMask_setPlayout : ∀ (s : σ) (now : Nat) (mode : Playout.Mode),
    MediaStream.relayMask (MediaStream.setPlayout s now mode) = MediaStream.relayMask s

/-- A property of streams that setting them up does not change. -/
structure Steady {σ : Type} [MediaStream σ] (P : σ → Prop) : Prop where
  enableRelay : ∀ {s : σ} (mask : PayloadMask) (peer : UInt16), P s →
    P (MediaStream.enableRelay s mask peer).1
  disableRelay : ∀ {s : σ}, P s → P (MediaStream.disableRelay s)
  negotiate : ∀ {s : σ} (now : Nat) (ours theirs : Sdp.Description) (line : Nat), P s →
    P (MediaStream.negotiate s now ours theirs line).1
  setPlayout : ∀ {s : σ} (now : Nat) (mode : Playout.Mode), P s →
    P (MediaStream.setPlayout s now mode)

theorem steady_port {σ : Type} [MediaStream σ] [LawfulStream σ] (port : UInt16) :
    Steady fun s : σ => MediaStream.port s = port where
  enableRelay mask peer h := (LawfulStream.port_enableRelay _ mask peer).trans h
  disableRelay h := (LawfulStream.port_disableRelay _).trans h
  negotiate now ours theirs line h := (LawfulStream.port_negotiate _ now ours theirs line).trans h
  setPlayout now mode h := (LawfulStream.port_setPlayout _ now mode).trans h

/-! ## Streams of the media path -/

namespace AudioStream

theorem negotiate_place (s : AudioStream) (now : Nat) (ours theirs : Sdp.Description)
    (line : Nat) : (s.negotiate now ours theirs line).1.place = s.place := by
  unfold negotiate
  split <;> rfl

theorem negotiate_relaying (s : AudioStream) (now : Nat) (ours theirs : Sdp.Description)
    (line : Nat) : (s.negotiate now ours theirs line).1.relaying = s.relaying := by
  unfold negotiate
  split <;> rfl

theorem setPlayout_place (s : AudioStream) (now : Nat) (mode : Playout.Mode) :
    (s.setPlayout now mode).place = s.place := by
  unfold setPlayout
  split <;> rfl

theorem setPlayout_relaying (s : AudioStream) (now : Nat) (mode : Playout.Mode) :
    (s.setPlayout now mode).relaying = s.relaying := by
  unfold setPlayout
  split <;> rfl

end AudioStream

instance : LawfulStream AudioStream where
  port_enableRelay _ _ _ := rfl
  port_disableRelay _ := rfl
  port_negotiate s now ours theirs line :=
    congrArg Net.Endpoint.port (s.negotiate_place now ours theirs line)
  port_setPlayout s now mode := congrArg Net.Endpoint.port (s.setPlayout_place now mode)
  relayMask_enableRelay _ _ _ _ := rfl
  relayMask_disableRelay _ := rfl
  relayMask_negotiate s now ours theirs line :=
    congrArg (Option.map RelayTo.mask) (s.negotiate_relaying now ours theirs line)
  relayMask_setPlayout s now mode :=
    congrArg (Option.map RelayTo.mask) (s.setPlayout_relaying now mode)

/-! ## Scripted streams -/

instance : LawfulStream Rehearsal.ScriptedStream where
  port_enableRelay _ _ _ := rfl
  port_disableRelay _ := rfl
  port_negotiate _ _ _ _ _ := rfl
  port_setPlayout _ _ _ := rfl
  relayMask_enableRelay _ _ _ _ := rfl
  relayMask_disableRelay _ := rfl
  relayMask_negotiate _ _ _ _ _ := rfl
  relayMask_setPlayout _ _ _ := rfl

end CallBridge.Rtp
