import Tqsdk.Runtime.SnapshotIsolation
import Tqsdk.Adapter.MarketFrame
import Tqsdk.Runtime.OrderConsistency
import Tqsdk.Runtime.RetainedRoots
import Tqsdk.Runtime.Cursors
import Tqsdk.Runtime.CommandRetention
import Tqsdk.Wait.Api
import Tqsdk.Wait.Changes
import Tqsdk.Wait.MarketHandles
import Tqsdk.HardRisk.AdmissionIdentity
import Tqsdk.Task.PlanTotals
import Tqsdk.Task.OverSubmit
import Tqsdk.Task.LedgerTotals
import Tqsdk.Task.SimReproducible
import Tqsdk.Task.SimDelivery
import Tqsdk.Task.ExecutionGroup
import Tqsdk.Task.ReportTotals
import Tqsdk.Task.ReplayBoundaries
import Tqsdk.Task.ReplayUnderlyings
import Tqsdk.Data.TradingTime
import Tqsdk.Data.SessionClose
import Tqsdk.Data.LiveTickCoverage
import Tqsdk.Data.TickFillCoverage
import Tqsdk.Data.ContextExact
import Tqsdk.Data.DailyReads
import Tqsdk.Data.KlineReads
import Tqsdk.Task.VolumeSlices
import Tqsdk.Task.AccountGroup
import Tqsdk.Relay.RollingRuns
import Tqsdk.Task.BacktestShows
import Tqsdk.Session.MarketDelivery
import Tqsdk.Relay.InterestCounts
import Tqsdk.Relay.PumpHistory
import Tqsdk.Relay.EventRuns
import Tqsdk.Relay.OfficialRows
import Tqsdk.Data.TickKlineRuns
import Tqsdk.HardRisk.AmbiguousSends
import Tqsdk.Session.OptionLevels
import Tqsdk.Data.SharedFills
import Tqsdk.Relay.TickRing
