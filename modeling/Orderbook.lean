import Orderbook.Lib.SortedMap
import Orderbook.Lib.Buffer
import Orderbook.Lib.Path
import Orderbook.Order
import Orderbook.OrderPool
import Orderbook.IdAllocator
import Orderbook.PriceLevel
import Orderbook.OrderBook
import Orderbook.Session
import Orderbook.LevelQueue
import Orderbook.LevelLinks
import Orderbook.BookSteps
import Orderbook.Matching
import Orderbook.Amending
import Orderbook.Runs
import Orderbook.Linked
import Orderbook.Placement
import Orderbook.TradeIntegrity
import Orderbook.TidyQueue
import Orderbook.Lib.Supply
import Orderbook.SharedIds
import Orderbook.SpscFifo
import Orderbook.Routing
import Orderbook.Assignment
import Orderbook.Delivery
import Orderbook.Uncrossed
import Orderbook.PoolStability
import Orderbook.Fills
import Orderbook.Lib.Priority
import Orderbook.Reference
import Orderbook.BookQueue
import Orderbook.PriceTime
import Orderbook.Terminal
import Orderbook.Admission
import Orderbook.AmendedQueues
import Orderbook.Termination
import Orderbook.Lib.Program
import Orderbook.PriceLevelV1
import Orderbook.LevelVersions
import Orderbook.LevelTotals
import Orderbook.LevelRuns
import Orderbook.Timestamps
import Orderbook.Threads
import Orderbook.Linearization
import Orderbook.Atomicity
import Orderbook.OpeningBlocks
import Orderbook.SystemIds
import Orderbook.WaitFree
import Orderbook.Lib.Fairness
import Orderbook.Shutdown
import Orderbook.Outcomes
import Orderbook.Backpressure
import Orderbook.Progress
import Orderbook.Lib.Waterfall
import Orderbook.IncomingOrder
import Orderbook.Lib.Table
import Orderbook.Printing
import Orderbook.TradeCount
import Orderbook.Report
import Orderbook.Benchmark
import Orderbook.Liveness
