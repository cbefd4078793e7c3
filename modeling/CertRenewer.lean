import CertRenewer.Crash.Program
import CertRenewer.Crash.Directory
import CertRenewer.Certificate
import CertRenewer.Client
import CertRenewer.Identity
import CertRenewer.Journal
import CertRenewer.World
import CertRenewer.Files
import CertRenewer.Executor
import CertRenewer.Recovery
import CertRenewer.Normalizer
import CertRenewer.Protocol
import CertRenewer.System
import CertRenewer.Evidence
import CertRenewer.Invariant
import CertRenewer.Changes
import CertRenewer.Tidy
import CertRenewer.Reads
import CertRenewer.Rules
import CertRenewer.Emits
import CertRenewer.Writer
import CertRenewer.Locking
import CertRenewer.Installing
import CertRenewer.Committing
import CertRenewer.Installation
import CertRenewer.Recovering
import CertRenewer.Verifying
import CertRenewer.Reachable
import CertRenewer.Safety
import CertRenewer.Transactions
import CertRenewer.Authority
import CertRenewer.Progression
import CertRenewer.Reliable
import CertRenewer.RunResult
import CertRenewer.Worker
import CertRenewer.Convergence
import CertRenewer.Startup
import CertRenewer.Recovered
import CertRenewer.Preservation
import CertRenewer.Exclusion
import CertRenewer.Orphans
import CertRenewer.Intact
import CertRenewer.Failures
import CertRenewer.Gate.Normalized
import CertRenewer.Gate.Exceptions
import CertRenewer.Gate.Compare
import CertRenewer.Gate.Partition
import CertRenewer.Gate.Decision
import CertRenewer.Gate.Permutation
import CertRenewer.TrustPem
import CertRenewer.LiveTls
import CertRenewer.Canonical
import CertRenewer.Frozen
import CertRenewer.ProcessScan
import CertRenewer.ReleaseSignature
import CertRenewer.Opnsense
import CertRenewer.Arguments
import CertRenewer.Names
import CertRenewer.Freshness
import CertRenewer.Accounts
import CertRenewer.Threshold
import CertRenewer.Transfers
import CertRenewer.Frames
import CertRenewer.Codec
import CertRenewer.RoundTrip
import CertRenewer.Bounds
import CertRenewer.Responses
import CertRenewer.Concurrent.Process
import CertRenewer.Concurrent.System
import CertRenewer.Listener
import CertRenewer.Serving
import CertRenewer.Sharing
import CertRenewer.Restarting
import CertRenewer.Lifecycle
import CertRenewer.ChildRun
import CertRenewer.PosixPath
import CertRenewer.SecureFile
