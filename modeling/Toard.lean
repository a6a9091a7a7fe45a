import Toard.Pricing.IntervalCover
import Toard.Pricing.RepairRuns
import Toard.Shim.NoLoss
import Toard.Shim.QueueOwnership
import Toard.Shim.ImportRuns
import Toard.Shim.IsoPrinting
import Toard.Shim.LocalProject
import Toard.Shim.CodexTotals
import Toard.Shim.GeminiRuns
import Toard.Shim.ClaudeUsage
import Toard.Shim.CursorTranscriptRuns
import Toard.Server.Receipts
import Toard.Server.ToolOutcomes
import Toard.Storage.Retraction
import Toard.Storage.Rewrites
import Toard.Timezone.ReadPlan
import Toard.Deployment.Delivery
import Toard.Deployment.Offers
import Toard.Deployment.Progress
import Toard.Reconcile.Digest
import Toard.Reconcile.Ownership
import Toard.Accounts.InviteRuns
import Toard.Accounts.RateLimitRuns
import Toard.Keys.UserKeyCacheRuns
import Toard.Bridge.BridgeRuns
import Toard.History.SearchRuns
import Toard.Server.ContentAad
import Toard.Reports.ReportCsv
import Toard.Rollup.Order
import Toard.Rollup.Earned
import Toard.Storage.Compaction
import Toard.Storage.ControllerRuns
import Toard.Storage.TeamBackfillRuns
import Toard.Timezone.Activation
import Toard.Rollup.TaskSelection
import Toard.Pricing.RevisionChoice
import Toard.Pricing.CostLaw
import Toard.Json.Grammar
import Toard.Retry.Backoff
import Toard.Shim.Base64Url
import Toard.Shim.DedupKeys
import Toard.Server.Versions
import Toard.Shim.Crontab
import Toard.Shim.CursorUsage
import Toard.Shim.CursorHooks
import Toard.Bridge.Framing
import Toard.History.TurnUsage
