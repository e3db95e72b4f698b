import Muxer.Proof.Relay
import Muxer.Proof.UniqueIds
import Muxer.Proof.ExactlyOnce
import Muxer.Proof.Deadlock
import Muxer.Proof.Handshake
import Muxer.Proof.Passes
import Muxer.Proof.Malformed
import Muxer.Proof.Server
import Muxer.Proof.Reset
import Muxer.Proof.Sendable
import Muxer.Proof.Routing
import Muxer.Proof.Sweeps
import Muxer.Proof.Reuse
import Muxer.Proof.FdSet
import Muxer.Proof.Processing
import Muxer.Proof.Queues
import Muxer.Proof.Represents
import Muxer.Proof.Config
import Muxer.Proof.Leaks
import Muxer.Proof.Shutdown
import Muxer.Proof.OutQueue
import Muxer.Proof.SettingsText
import Muxer.Proof.Wire
import Muxer.Proof.RoundTrip
import Muxer.Proof.Settling
import Muxer.Proof.Rest
