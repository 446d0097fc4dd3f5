import AudioPlatform.Concurrency.Program
import AudioPlatform.Concurrency.Interleaving
import AudioPlatform.Concurrency.Machine
import AudioPlatform.Concurrency.Queued
import AudioPlatform.Concurrency.Progress
import AudioPlatform.Maps.Inverse
import AudioPlatform.Maps.Slots
import AudioPlatform.Maps.Bounded
import AudioPlatform.Sets.Gaps
import AudioPlatform.Numbers.Congruential
import AudioPlatform.Numbers.Ramp
import AudioPlatform.Numbers.SignificantBits
import AudioPlatform.Wire.BigEndian
import AudioPlatform.Wire.Frame
import AudioPlatform.Wire.Socket
import AudioPlatform.Wire.Reading
import AudioPlatform.Wire.Text
import AudioPlatform.Wire.Json
import AudioPlatform.Server.Protocol
import AudioPlatform.Server.State
import AudioPlatform.Server.Channel
import AudioPlatform.Server.Handlers
import AudioPlatform.Server.System
import AudioPlatform.Server.Deserted
import AudioPlatform.Server.Discipline
import AudioPlatform.Server.Standing
import AudioPlatform.Server.Coherence
import AudioPlatform.Server.Pool
import AudioPlatform.Server.Serial
import AudioPlatform.Server.History
import AudioPlatform.Server.Forwarding
import AudioPlatform.Server.Addresses
import AudioPlatform.Server.Registration
import AudioPlatform.Server.Solicited
import AudioPlatform.Server.Speaking
import AudioPlatform.Server.Roster
import AudioPlatform.Server.Telling
import AudioPlatform.Server.Agreement
import AudioPlatform.Server.Refusal
import AudioPlatform.Server.Encoding
import AudioPlatform.Server.Sockets
import AudioPlatform.Server.Progress
import AudioPlatform.Core.Rtp
import AudioPlatform.Core.Codecs
import AudioPlatform.Core.Tally
import AudioPlatform.Core.Crypto
import AudioPlatform.Core.DerivedKeys
import AudioPlatform.Core.Integrity
import AudioPlatform.Core.RingBuffer
import AudioPlatform.Core.SharedRing
import AudioPlatform.Core.JitterBuffer
import AudioPlatform.Core.JitterFifo
import AudioPlatform.Core.Mixer
import AudioPlatform.Core.Ramps
import AudioPlatform.Core.Engine
import AudioPlatform.Core.Process
import AudioPlatform.Core.Streams
import AudioPlatform.Core.Transport
import AudioPlatform.Core.Bounds
import AudioPlatform.Core.Calls
import AudioPlatform.Core.Capture
import AudioPlatform.Core.Connection
import AudioPlatform.Core.KeyTable
import AudioPlatform.Core.KeyMap
import AudioPlatform.Core.Isolation
import AudioPlatform.Core.Statistics
import AudioPlatform.Core.Steps
import AudioPlatform.Core.DecodeFrame
import AudioPlatform.Core.Gauges
import AudioPlatform.Core.Continuity
import AudioPlatform.Core.RoundTrip
import AudioPlatform.Core.StreamTable
import AudioPlatform.Core.TableMoves
import AudioPlatform.Core.Rejection
import AudioPlatform.Core.Vacancy
import AudioPlatform.Core.StreamLog
import AudioPlatform.Core.Eviction
import AudioPlatform.Core.Loss
import AudioPlatform.Core.Playout
import AudioPlatform.Core.Nonces
import AudioPlatform.Core.Playback
import AudioPlatform.Concurrency.Reservoir
import AudioPlatform.Core.Backlog
import AudioPlatform.Windows.AudioLoop
import AudioPlatform.Android.AudioCallback
import AudioPlatform.Android.Activity
import AudioPlatform.Android.Microphone
import AudioPlatform.Concurrency.Timer
import AudioPlatform.Core.Timers
import AudioPlatform.Core.Naming
import AudioPlatform.Core.Datagrams
import AudioPlatform.Core.Attribution
import AudioPlatform.Windows.Gui
import AudioPlatform.Windows.Agreement
import AudioPlatform.Windows.ChannelNames
import AudioPlatform.Windows.Signaling
import AudioPlatform.Windows.Dispatch
import AudioPlatform.Windows.Identity
import AudioPlatform.Windows.Lifecycle
import AudioPlatform.Windows.WebSocket
import AudioPlatform.Windows.Framing
import AudioPlatform.Windows.Requests
import AudioPlatform.Windows.Handshake
import AudioPlatform.Windows.Session
import AudioPlatform.Wire.Words
import AudioPlatform.Windows.Console
import AudioPlatform.Windows.Status
import AudioPlatform.Windows.Typing
import AudioPlatform.Windows.Unnamed
import AudioPlatform.EndToEnd.Air
import AudioPlatform.EndToEnd.Heard
