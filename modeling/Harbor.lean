import Harbor.Groups.ReservedSafety
import Harbor.AwsAttest.Binding
import Harbor.DualControl.Veto
import Harbor.Consumer.Race
import Harbor.Collect.Delivery
import Harbor.Rollouts.Stamp
import Harbor.Groups.Revocation
import Harbor.Netblocks.FirstFit
import Harbor.Keys.Generation
import Harbor.Revocation.RateLimit
import Harbor.Blocklist.Coverage
import Harbor.Fleet.Reporting
import Harbor.Fleet.Reassertion
import Harbor.Keys.ConfigTrust
import Harbor.CaDrain.Retire
import Harbor.Trust.TwoPersons
import Harbor.Keys.Deletion
import Harbor.Lighthouse.Discovery
import Harbor.Queue.Poison
import Harbor.Queue.OneTimeRead
import Harbor.JoinKeys.Uses
import Harbor.Audit.Integrity
import Harbor.Signer.Ceiling
import Harbor.Nonce.Replay
import Harbor.Consumer.Quota
import Harbor.Releases.Affinity
import Harbor.Groups.Recorded
import Harbor.Policy.Difference
import Harbor.Policy.Query
import Harbor.Collect.Batch
import Harbor.Pilot.Renewal
import Harbor.DualControl.Latest
import Harbor.Fleet.Selection
import Harbor.Groups.Recheck
import Harbor.Ipam.Quarantine
import Harbor.Trust.Versions
import Harbor.Trust.Allowlist
import Harbor.Groups.NamePattern
import Harbor.Fleet.Health
import Harbor.Netblocks.RedZone
import Harbor.CaDrain.Accelerated
import Harbor.Gateway.Portal
import Harbor.Netblocks.Suggest
import Harbor.Queue.Retention
