import SshAuthority.Connection.Turn
import SshAuthority.Host.Address
import SshAuthority.Host.Machine
import SshAuthority.Main
import SshAuthority.Proofs.Authority.Confirmation
import SshAuthority.Proofs.Config.Commit
import SshAuthority.Proofs.Connection.Faithful
import SshAuthority.Proofs.Wire.Streams
import SshAuthority.Proofs.Connection.Delivery
import SshAuthority.Proofs.Connection.Closing
import SshAuthority.Proofs.Connection.Accounting
import SshAuthority.Proofs.Config.Batch
import SshAuthority.Proofs.Authority.Isolation
import SshAuthority.Proofs.Connection.Cut
import SshAuthority.Proofs.Connection.TooLong
import SshAuthority.Proofs.Certificate
import SshAuthority.Proofs.Authority.Announcing
import SshAuthority.Proofs.Authority.Backend
import SshAuthority.Proofs.Authority.Turns
import SshAuthority.Proofs.Connection.Submitted
import SshAuthority.Proofs.Connection.Discretion
import SshAuthority.Proofs.Authority.Directories
import SshAuthority.Proofs.Command.Trusted
import SshAuthority.Proofs.Command.Containment
import SshAuthority.Proofs.Command.SignHost
import SshAuthority.Proofs.Wire.Parsing
import SshAuthority.Proofs.Config.LineRule
import SshAuthority.Proofs.Connection.Table
import SshAuthority.Proofs.Config.Torn
import SshAuthority.Proofs.Config.Complaint
import SshAuthority.Proofs.Key.Line
import SshAuthority.Proofs.Connection.Traceless
import SshAuthority.Proofs.Wire.Documents
import SshAuthority.Proofs.Config.Effective
import SshAuthority.Proofs.Authority.Input
import SshAuthority.Proofs.Command.Lines
import SshAuthority.Proofs.Command.Listed
import SshAuthority.Proofs.Command.Principals
