import Komari.Metric.PreserveRaw
import Komari.Traffic.Offset
import Komari.Billing.Agree
import Komari.Enrollment.Reuse
import Komari.Enrollment.Poll
import Komari.Remote.Stream
import Komari.Workspace.Bounds
import Komari.Reports.Once
import Komari.Traffic.CycleCache
import Komari.Traffic.Telescope
import Komari.Billing.NetZero
import Komari.TrustedCredential.SingleUse
import Komari.PrivilegedDelivery.Lifecycle
import Komari.Expiry.Renewals
import Komari.Expiry.NextDue
import Komari.Corn.Next
import Komari.FileManager.Relay
import Komari.ExecutionApp.Batch
import Komari.Upload.Assemble
import Komari.ReturnRoute.Classify
import Komari.MessageSender.Batches
import Komari.Notifier.Offline
import Komari.MessageSender.Template
import Komari.RateLimit.Budgets
import Komari.JsPath.Relative
import Komari.Metric.TierMigrationLaw
import Komari.Metric.PingMigration
import Komari.Billing.AmountText
import Komari.Metric.Quantile
import Komari.Rpc.Permission
import Komari.Plugin.Hooks
import Komari.Plugin.HtmlCalls
import Komari.JsPath.Decomposition
import Komari.Answers.Agree
import Komari.Block.ExternalRuns
import Komari.Metric.Repeat
import Komari.Seal.Runs
