import Meshconf.AnnexB.Estimate
import Meshconf.AnnexB.Exact
import Meshconf.AnnexB.Extract
import Meshconf.AnnexB.Scanner
import Meshconf.Audio.Capture
import Meshconf.Audio.Datagrams
import Meshconf.Audio.Decode
import Meshconf.Audio.Mixer
import Meshconf.Audio.Mixing
import Meshconf.Audio.SoftClip
import Meshconf.Bandwidth.Basic
import Meshconf.Bandwidth.Estimator
import Meshconf.Bandwidth.Pacing
import Meshconf.Bandwidth.Quality
import Meshconf.Bandwidth.Recovery
import Meshconf.Bandwidth.RoundTrip
import Meshconf.Bandwidth.Stores
import Meshconf.Broadcast.AudioPath
import Meshconf.Broadcast.FanOut
import Meshconf.Broadcast.SendLoop
import Meshconf.Broadcast.Tasks
import Meshconf.Broadcast.Voice
import Meshconf.Buffers.Handles
import Meshconf.Buffers.Pool
import Meshconf.Bytes.BigEndian
import Meshconf.Bytes.Pieces
import Meshconf.Bytes.Reader
import Meshconf.Contacts.Agreement
import Meshconf.Contacts.Basic
import Meshconf.Contacts.Symmetry
import Meshconf.Contacts.Waiting
import Meshconf.Contacts.Wiring
import Meshconf.Control.Json
import Meshconf.Control.Message
import Meshconf.Control.Stream
import Meshconf.Jitter.Accounting
import Meshconf.Jitter.Arithmetic
import Meshconf.Jitter.Buffer
import Meshconf.Jitter.Concealment
import Meshconf.Jitter.Exact
import Meshconf.Jitter.Order
import Meshconf.Jitter.Timed
import Meshconf.Mesh.Agreement
import Meshconf.Mesh.Bookkeeping
import Meshconf.Mesh.Captions
import Meshconf.Mesh.Contacts
import Meshconf.Mesh.Convergence
import Meshconf.Mesh.Deadlock
import Meshconf.Mesh.Disconnect
import Meshconf.Mesh.Feedback
import Meshconf.Mesh.Gallery
import Meshconf.Mesh.Gossip
import Meshconf.Mesh.Handshakes
import Meshconf.Mesh.Identity
import Meshconf.Mesh.ListSize
import Meshconf.Mesh.Network
import Meshconf.Mesh.Node
import Meshconf.Mesh.Room
import Meshconf.Mesh.Sessions
import Meshconf.Mesh.Steps
import Meshconf.Protocol.Allocation
import Meshconf.Protocol.Codecs
import Meshconf.Protocol.Datagram
import Meshconf.Protocol.EmptyObject
import Meshconf.Protocol.Extensions
import Meshconf.Protocol.Framing
import Meshconf.Protocol.RoundTrip
import Meshconf.Protocol.Varint
import Meshconf.Raster.Buffer
import Meshconf.Raster.Grid
import Meshconf.Signal.Average
import Meshconf.Signal.Ladder
import Meshconf.Signal.Limiter
import Meshconf.Signal.Progress
import Meshconf.Signal.Spacing
import Meshconf.Signal.Timeline
import Meshconf.Terminal.Banner
import Meshconf.Terminal.Box
import Meshconf.Terminal.Cursor
import Meshconf.Terminal.Display
import Meshconf.Terminal.Kitty
import Meshconf.Terminal.SharedMemory
import Meshconf.Terminal.Slots
import Meshconf.Terminal.Tiles
import Meshconf.Terminal.Transmission
import Meshconf.Terminal.Turns
import Meshconf.Transition.Pool
import Meshconf.Transition.Publication
import Meshconf.Transition.Registry
import Meshconf.Transition.Run
import Meshconf.Transition.Tokens
import Meshconf.Transition.Totals
import Meshconf.Video.Composition
import Meshconf.Video.Compositor
import Meshconf.Video.DecodeOrder
import Meshconf.Video.Decoder
import Meshconf.Video.Delivery
import Meshconf.Video.Dispatch
import Meshconf.Video.Drawing
import Meshconf.Video.EncodeLoop
import Meshconf.Video.EndToEnd
import Meshconf.Video.Joining
import Meshconf.Video.KeyframeRequest
import Meshconf.Video.Layout
import Meshconf.Video.LossReport
import Meshconf.Video.Order
import Meshconf.Video.Painting
import Meshconf.Video.ParameterSets
import Meshconf.Video.Reconfigure
import Meshconf.Video.ReferenceChain
import Meshconf.Video.Sender
import Meshconf.Video.Session
import Meshconf.Video.View
import Meshconf.Video.Window
