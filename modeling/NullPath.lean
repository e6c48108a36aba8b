import NullPath.Channel.Authenticity
import NullPath.Channel.Position
import NullPath.Session.Duplex
import NullPath.Session.SealingKeys
import NullPath.Channel.Atomic
import NullPath.AntiReplay.Window
import NullPath.Channel.Diagnosis
import NullPath.Channel.Reorder
import NullPath.Ffi.Basic
import NullPath.Ffi.Retry
import NullPath.Ffi.Numbering
import NullPath.Handshake.Types
import NullPath.Handshake.Basic
import NullPath.Handshake.Completion
import NullPath.Handshake.Run
import NullPath.Handshake.Agreement
import NullPath.Envelope.Format
import NullPath.Handshake.Encoding
import NullPath.Channel.Checked
import NullPath.Channel.Slots
import NullPath.Channel.Lifetime
import NullPath.Ffi.Agreement
import NullPath.Ffi.Handles
import NullPath.Channel.Opening
import NullPath.Channel.Window
import NullPath.Session.Authenticity
import NullPath.Session.Crossing
import NullPath.Session.Mailbox
import NullPath.Ffi.Delivery
import NullPath.Session.Progress
import NullPath.World.Peers
import NullPath.AntiReplay.Cost
import NullPath.Channel.Cost
import NullPath.Channel.Seizure
import NullPath.Channel.Storeless
import NullPath.Ffi.Acceptance
