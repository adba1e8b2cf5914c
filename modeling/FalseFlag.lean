import FalseFlag.JsParity
import FalseFlag.SdkGo
import FalseFlag.TraceFaithful
import FalseFlag.EvalErrors
import FalseFlag.RolloutStrings
import FalseFlag.Providers
import FalseFlag.JsClient
import FalseFlag.Polling
import FalseFlag.JsTimers
import FalseFlag.VersionNumbers
import FalseFlag.LatestVersions
import FalseFlag.Mutators
import FalseFlag.Operator.SegmentController
import FalseFlag.Operator.RolloutPolicies
import FalseFlag.Cli.SnapshotExport
import FalseFlag.TwoRuns
import FalseFlag.JsonEquality
import FalseFlag.Lookups
import FalseFlag.AuditLimit
import FalseFlag.Operator.Published
import FalseFlag.CelLite.Literals
import FalseFlag.CelLite.Precedence
import FalseFlag.Server.Isolation
