import CallBridge.Fault
import CallBridge.Leg
import CallBridge.PayloadMask
import CallBridge.Playout.Mode
import CallBridge.Rtp.Packet
import CallBridge.Sdp.Basic

/-!
# What a bridge asks of a stream

A stream is the end of one leg's audio on one media line. A bridge reads linear audio from it and
writes linear audio to it, each at the pace of the stream's gates, and lets it relay packets to the
stream of the other leg. `now` is the time on a clock that never goes back, in nanoseconds.

In the media core, `MediaStream` is the interface `RtpAudioStream`.
-/

namespace CallBridge.Rtp

/-- The operations of a stream. -/
class MediaStream (σ : Type) where
  /-- The port on which the stream receives. -/
  port : σ → UInt16
  /-- Whether there is a socket to receive on. -/
  hasSocket : σ → Bool
  /-- The bytes of linear audio in one packetization interval. -/
  frameSize : σ → Nat
  /-- The sampling rate of the negotiated codec. -/
  sampleRate : σ → UInt32
  /-- Whether a frame is to be sent at a timestamp. -/
  pollSend : σ → UInt64 → Nat → σ × Bool
  /-- Whether a frame is to be read at a timestamp. -/
  pollRead : σ → UInt64 → Nat → σ × Bool
  /-- A read into a buffer: the buffer after it, and the number of bytes at its front. -/
  read : σ → (now : Nat) → List UInt8 → σ × List UInt8 × Outcome Nat
  /-- Linear audio to be sent: the number of bytes taken over. -/
  put : σ → List UInt8 → σ × Outcome Nat
  /-- Received packets of the payload types are to be relayed to the stream on a port. -/
  enableRelay : σ → PayloadMask → (peer : UInt16) → σ × Outcome Unit
  /-- Nothing is relayed any more. -/
  disableRelay : σ → σ
  /-- The payload types relayed. -/
  relayMask : σ → Option PayloadMask
  /-- A packet that came in on the other leg is to be sent. -/
  relay : σ → Packet → σ × Outcome Unit
  /-- The stream is to serve a media line of a local and a remote description. -/
  negotiate : σ → (now : Nat) → Sdp.Description → Sdp.Description → Nat → σ × Outcome Unit
  /-- The way received audio waits. -/
  setPlayout : σ → (now : Nat) → Playout.Mode → σ
  /-- A datagram came in; a packet that is to be relayed is handed on, if the peer exists. -/
  receive : σ → (now : Nat) → (peerExists : Bool) → List UInt8 → σ × Option Packet
  /-- The time without received packets starts anew. -/
  clearTimeout : σ → (now : Nat) → σ

end CallBridge.Rtp
