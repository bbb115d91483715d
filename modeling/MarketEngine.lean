import MarketEngine.Channel.Gated
import MarketEngine.Channel.Registry
import MarketEngine.Engine.Display
import MarketEngine.Engine.Session
import MarketEngine.Exchange.Scripted
import MarketEngine.Settings.Environment
import MarketEngine.Settings.File
import MarketEngine.Proofs.Lists
import MarketEngine.Proofs.Tables
import MarketEngine.Proofs.Files
import MarketEngine.Proofs.Trading.OrderHistory
import MarketEngine.Proofs.Trading.BoundedStore
import MarketEngine.Proofs.Trading.Turns
import MarketEngine.Proofs.Trading.Floor
import MarketEngine.Proofs.Trading.Ledger
import MarketEngine.Proofs.Trading.Bracket
import MarketEngine.Proofs.Channel.Delivery
import MarketEngine.Proofs.Channel.Scheduling
import MarketEngine.Proofs.Channel.Activity
import MarketEngine.Proofs.Evaluation.Stages
import MarketEngine.Proofs.Evaluation.Acceptance
import MarketEngine.Proofs.Evaluation.Process
import MarketEngine.Proofs.Evaluation.Histories
import MarketEngine.Proofs.Channel.RateLimit
import MarketEngine.Proofs.Trading.Closings
import MarketEngine.Proofs.Trading.LifeCycle
import MarketEngine.Proofs.Channel.Smooth
import MarketEngine.Proofs.Channel.Moves
import MarketEngine.Proofs.Channel.Live
import MarketEngine.Proofs.Channel.Progress
import MarketEngine.Proofs.Channel.Completion
import MarketEngine.Proofs.Evaluation.Cascade
import MarketEngine.Proofs.Evaluation.Building
import MarketEngine.Proofs.Evaluation.NoDeadlock
import MarketEngine.Proofs.Channel.Cancellation
import MarketEngine.Proofs.Market.CandleMerging
import MarketEngine.Proofs.Channel.Records
import MarketEngine.Proofs.Channel.Stable
import MarketEngine.Proofs.Channel.Dealings
import MarketEngine.Proofs.Channel.Story
import MarketEngine.Proofs.Evaluation.Posts
import MarketEngine.Proofs.Evaluation.Moments
import MarketEngine.Proofs.Evaluation.Courses
import MarketEngine.Proofs.Text.ByteOrder
import MarketEngine.Proofs.Evaluation.Snapshots
import MarketEngine.Proofs.Evaluation.Accounting
import MarketEngine.Proofs.Channel.Attendance
import MarketEngine.Proofs.Evaluation.Wiring
import MarketEngine.Proofs.Evaluation.Triggers
import MarketEngine.Proofs.Evaluation.Routing
import MarketEngine.Proofs.Channel.Registration
import MarketEngine.Proofs.Trading.Solvency
import MarketEngine.Proofs.Trading.Reports
import MarketEngine.Proofs.Trading.Redelivery
import MarketEngine.Proofs.Market.BoundedSeries
import MarketEngine.Proofs.Trading.FillDecision
import MarketEngine.Proofs.Evaluation.MatrixWrites
import MarketEngine.Proofs.Evaluation.CycleEffects
import MarketEngine.Proofs.Evaluation.ExportFiles
import MarketEngine.Proofs.Evaluation.ExportIsolation
import MarketEngine.Proofs.Channel.Selection
import MarketEngine.Proofs.Feed.Ticks
import MarketEngine.Proofs.Channel.Effects
import MarketEngine.Proofs.Feed.Answers
import MarketEngine.Proofs.Feed.Rounds
import MarketEngine.Proofs.Feed.Replay
import MarketEngine.Proofs.Feed.Readings
import MarketEngine.Proofs.Feed.Initialization
import MarketEngine.Proofs.Feed.Publication
import MarketEngine.Proofs.Feed.Polls
import MarketEngine.Proofs.Trading.OpenOrders
import MarketEngine.Proofs.Trading.TradersAtWork
import MarketEngine.Proofs.Trading.FillAccounting
import MarketEngine.Proofs.Evaluation.Ownership
import MarketEngine.Proofs.Trading.Counterparts
import MarketEngine.Proofs.Decimal.NumeralText
import MarketEngine.Proofs.Json.RoundTrip
import MarketEngine.Proofs.Json.Records
import MarketEngine.Proofs.Settings.OlderFiles
import MarketEngine.Proofs.Decimal.FiniteNumbers
import MarketEngine.Proofs.Settings.SavedFiles
import MarketEngine.Proofs.Json.Forms
import MarketEngine.Proofs.Codec.DataModel
import MarketEngine.Proofs.Evaluation.StrategyFeedback
import MarketEngine.Proofs.Comparison
import MarketEngine.Proofs.Market.CandleSnapshots
import MarketEngine.Proofs.Evaluation.MomentumNotes
import MarketEngine.Proofs.Evaluation.WeightedMeans
import MarketEngine.Proofs.Evaluation.EntryKeys
