import Diskette.Bench
import Diskette.Machine.Clock
import Diskette.Pc.BounceBuffer
import Diskette.Text.Digest
import Diskette.Proofs.Agreement
import Diskette.Proofs.Baseline
import Diskette.Proofs.Careful
import Diskette.Proofs.Degradation
import Diskette.Proofs.Handshake
import Diskette.Proofs.InterruptFlag
import Diskette.Proofs.Ownership
import Diskette.Proofs.Recovery
import Diskette.Proofs.SectorStore
import Diskette.Proofs.Stabilization
import Diskette.Proofs.Takeover
import Diskette.Proofs.Traffic
import Diskette.Proofs.Arming.Restraint
import Diskette.Proofs.Arming.Window
import Diskette.Proofs.Arming.Commands
import Diskette.Proofs.Arming
import Diskette.Proofs.Payload.Progress
import Diskette.Proofs.Payload.Relay
import Diskette.Proofs.Payload
import Diskette.Proofs.Custody.Frame
import Diskette.Proofs.Custody.Operations
import Diskette.Proofs.Custody
import Diskette.Proofs.Rejection
import Diskette.Proofs.Coherence
import Diskette.Proofs.Success
import Diskette.Proofs.HeadPosition
import Diskette.Proofs.Rest.Disarming
import Diskette.Proofs.Rest
import Diskette.Proofs.Footprint.Bounce
import Diskette.Proofs.Footprint
import Diskette.Proofs.Prompt
import Diskette.Proofs.Encoding
import Diskette.Proofs.WatchedLine.Storms
import Diskette.Proofs.WatchedLine.Waiting
import Diskette.Proofs.Residue
import Diskette.Proofs.Spinning
import Diskette.Proofs.Discovery
import Diskette.Proofs.Delay
import Diskette.Proofs.SerialLine
