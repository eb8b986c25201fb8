import AlphaLab.Runtime.CorporateRuns
import AlphaLab.Runtime.WholeRuns
import AlphaLab.Broker.DeliveryOrder
import AlphaLab.Allocation.Targets
import AlphaLab.Oms.BookRuns
import AlphaLab.Risk.PositionRuns
import AlphaLab.Execution.AlgorithmRuns
import AlphaLab.MarketData.Framing
import AlphaLab.Market.StreamLifeRuns
import AlphaLab.Market.MessageRuns
import AlphaLab.AltData.AcceptedAlike
import AlphaLab.Backtesting.ScheduleRuns
import AlphaLab.Persistence.RunStoreRuns
import AlphaLab.Portfolio.FxFeed
import AlphaLab.AltData.AggregateReads
import AlphaLab.Runtime.ObservationRuns
import AlphaLab.Portfolio.Revaluations
import AlphaLab.Runtime.FinishedRuns
import AlphaLab.Runtime.MarkedRuns
import AlphaLab.Runtime.TradableRuns
import AlphaLab.Simulation.FairAuctions
import AlphaLab.Margin.Borrow
import AlphaLab.Margin.PerPosition
import AlphaLab.Simulation.Limits
import AlphaLab.Allocation.CapitalFloors
import AlphaLab.Backtesting.ScheduledInputs
import AlphaLab.Instrument.Bands
import AlphaLab.Simulation.QueueRuns
import AlphaLab.Risk.BucketRuns
import AlphaLab.Runtime.StrategyParts
import AlphaLab.Runtime.CutRuns
import AlphaLab.Backtesting.DailyAccrual
import AlphaLab.Data.Sessions
import AlphaLab.Lifecycle.ManifestRuns
import AlphaLab.Optimizer.CostedOptimum
import AlphaLab.Optimizer.DiversificationAnswers
import AlphaLab.Simulation.QueueJoins
import AlphaLab.Common.AppendLog
import AlphaLab.Broker.SnapshotReconciliation
import AlphaLab.Common.PersistentMap
import AlphaLab.Lifecycle.GovernanceLog
import AlphaLab.Strategy.EngineRuns
