import CallBridge.Audio.Pcm
import CallBridge.Audio.Source
import CallBridge.Bridge.Pair
import CallBridge.Bridge.Processing
import CallBridge.Bridge.Redirect
import CallBridge.Bridge.Session
import CallBridge.Buffer.Ring
import CallBridge.Codec.Basic
import CallBridge.Codec.Companding
import CallBridge.Codec.Registry
import CallBridge.Dtmf.Detector
import CallBridge.Dtmf.Key
import CallBridge.Dtmf.Press
import CallBridge.Dtmf.Tone
import CallBridge.Fault
import CallBridge.Leg
import CallBridge.Logging
import CallBridge.Net.Address
import CallBridge.Net.BigEndian
import CallBridge.Net.Network
import CallBridge.PayloadMask
import CallBridge.Playout.Jitter
import CallBridge.Playout.JitterBuffer
import CallBridge.Playout.Mode
import CallBridge.Playout.Queue
import CallBridge.Proofs.Bridge.AfterShutdown
import CallBridge.Proofs.Bridge.AudioFlow
import CallBridge.Proofs.Bridge.LawfulStream
import CallBridge.Proofs.Bridge.Ledger
import CallBridge.Proofs.Bridge.LedgerRun
import CallBridge.Proofs.Bridge.LinePlaces
import CallBridge.Proofs.Bridge.PairRecords
import CallBridge.Proofs.Bridge.References
import CallBridge.Proofs.Playout.Frames
import CallBridge.Proofs.Playout.Order
import CallBridge.Proofs.Rtp.Numbering
import CallBridge.Proofs.Rtp.Relaying
import CallBridge.Proofs.Rtp.WireFormat
import CallBridge.Proofs.Scheduler.Bookkeeping
import CallBridge.Proofs.Scheduler.Callgroups
import CallBridge.Proofs.Scheduler.Colocation
import CallBridge.Proofs.Scheduler.FailureIsolation
import CallBridge.Proofs.Scheduler.Interleaving
import CallBridge.Proofs.Scheduler.Loads
import CallBridge.Proofs.Scheduler.Settlement
import CallBridge.Proofs.Scheduler.Shutdown
import CallBridge.Proofs.Scheduler.Turns
import CallBridge.Proofs.Sdp.Parsed
import CallBridge.Proofs.Sdp.Printable
import CallBridge.Proofs.Sdp.Reprint
import CallBridge.Proofs.Sdp.RoundTrip
import CallBridge.Proofs.Text.Layout
import CallBridge.Proofs.Text.Parts
import CallBridge.Rehearsal.PairScript
import CallBridge.Rehearsal.Phones
import CallBridge.Rehearsal.PortScript
import CallBridge.Rehearsal.ReceiverScript
import CallBridge.Rehearsal.SchedulerScript
import CallBridge.Rehearsal.Script
import CallBridge.Rehearsal.ScriptedStream
import CallBridge.Rehearsal.SessionScript
import CallBridge.Rehearsal.Sources
import CallBridge.Rehearsal.StreamScript
import CallBridge.Rtp.AudioStream
import CallBridge.Rtp.Gate
import CallBridge.Rtp.MediaStream
import CallBridge.Rtp.Negotiation
import CallBridge.Rtp.Packet
import CallBridge.Rtp.PortAllocator
import CallBridge.Rtp.Receiver
import CallBridge.Scheduler.Callgroups
import CallBridge.Scheduler.Hook
import CallBridge.Scheduler.Pool
import CallBridge.Scheduler.Worker
import CallBridge.Sdp.Basic
import CallBridge.Sdp.Parser
import CallBridge.Sdp.Printer
import CallBridge.Sdp.StaticPayload
import CallBridge.SessionId
import CallBridge.Settings.Basic
import CallBridge.Settings.Environment
import CallBridge.Settings.KeyPath
import CallBridge.Settings.Load
import CallBridge.Settings.Render
import CallBridge.Settings.Tree
import CallBridge.Text.Blank
import CallBridge.Text.Decimal
import CallBridge.Text.Floating
import CallBridge.Text.Split
import CallBridge.Toml.Document
import CallBridge.Toml.Moment
import CallBridge.Toml.Number
import CallBridge.Toml.Parser
import CallBridge.Toml.Quoted
import CallBridge.Toml.Token
import CallBridge.Toml.Value
import CallBridge.Proofs.Bridge.Registrations
import CallBridge.Proofs.Bridge.Offers
import CallBridge.Proofs.Bridge.AnyOrder
import CallBridge.Proofs.Playout.Reassembly
import CallBridge.Proofs.Playout.Drain
import CallBridge.Proofs.Rtp.MediaPath
import CallBridge.Proofs.Buffer.Circle
import CallBridge.Proofs.Buffer.DropOldest
import CallBridge.Proofs.Audio.InPlace
import CallBridge.Proofs.Bridge.ScratchSecrecy
import CallBridge.Proofs.Bridge.SampleRates
import CallBridge.Proofs.Playout.FirstInFirstOut
import CallBridge.Proofs.Playout.FullBuffer
import CallBridge.Proofs.Scheduler.MediaClock
import CallBridge.Proofs.Bridge.StreamMaps
import CallBridge.Proofs.Bridge.KeyTapes
import CallBridge.Proofs.Bridge.KeyAttribution
import CallBridge.Proofs.Dtmf.Framing
import CallBridge.Proofs.Dtmf.Presses
import CallBridge.Proofs.Rtp.LongExtensions
import CallBridge.Proofs.Playout.Unwrapping
import CallBridge.Proofs.Playout.Position
import CallBridge.Proofs.Bridge.PairCreation
import CallBridge.Proofs.Rtp.CommonFormats
import CallBridge.Proofs.Rtp.DescribedFormats
import CallBridge.Proofs.Rtp.StreamRuns
import CallBridge.Proofs.Rtp.DecodedRates
import CallBridge.Proofs.Rtp.Continuity
import CallBridge.Proofs.Bridge.Redirecting
import CallBridge.Proofs.Rtp.Receiving
import CallBridge.Proofs.Rtp.OnePath
import CallBridge.Proofs.Dtmf.Evidence
import CallBridge.Proofs.Rtp.Pacing
import CallBridge.Proofs.Rtp.PortSearch
import CallBridge.Proofs.Scheduler.Placement
import CallBridge.Proofs.Audio.WholeSamples
import CallBridge.Proofs.Scheduler.LeftBehind
import CallBridge.Proofs.Sdp.NormalForm
import CallBridge.Proofs.Sdp.FreeLayout
import CallBridge.Proofs.Codec.Cells
import CallBridge.Proofs.Codec.Arithmetic
import CallBridge.Proofs.Codec.Transcoding
import CallBridge.Proofs.Codec.Appending
import CallBridge.Proofs.Audio.Playback
import CallBridge.Proofs.Playout.Accounting
import CallBridge.Proofs.Sdp.PayloadSets
import CallBridge.Proofs.Settings.ReadBack
