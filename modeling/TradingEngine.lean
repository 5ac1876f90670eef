import TradingEngine.Common.Basic
import TradingEngine.Common.OkxConstants
import TradingEngine.Library.Exec
import TradingEngine.Library.Ghost
import TradingEngine.Library.Simulation
import TradingEngine.Library.SlotArray
import TradingEngine.Library.BoundedRanking
import TradingEngine.Library.JsonText
import TradingEngine.Library.JsonMembers
import TradingEngine.Library.BoundedTable
import TradingEngine.Library.Percentiles
import TradingEngine.Library.Unroll
import TradingEngine.Library.WordRecords
import TradingEngine.Util.Json
import TradingEngine.Util.JsonProperties
import TradingEngine.Util.JsonSuffix
import TradingEngine.Util.JsonValues
import TradingEngine.Util.JsonTermination
import TradingEngine.Util.JsonRendering
import TradingEngine.Util.JsonDocuments
import TradingEngine.MarketData.OrderBook
import TradingEngine.MarketData.OrderBookProperties
import TradingEngine.MarketData.MarketData
import TradingEngine.MarketData.SbeBbo
import TradingEngine.MarketData.SbeSchema
import TradingEngine.MarketData.TopOfBook
import TradingEngine.MarketData.BookRendering
import TradingEngine.MarketData.MarketDataProperties
import TradingEngine.MarketData.EmptyLevels
import TradingEngine.MarketData.Sequencing
import TradingEngine.MarketData.VenueBook
import TradingEngine.MarketData.BboFeed
import TradingEngine.Orders.OrderEvents
import TradingEngine.Orders.OrderLifecycle
import TradingEngine.Orders.OrderLifecycleProperties
import TradingEngine.Orders.OrderStore
import TradingEngine.Orders.OrderStoreProperties
import TradingEngine.Orders.OrderStoreArray
import TradingEngine.Orders.OrderStoreMap
import TradingEngine.Orders.OrderRequests
import TradingEngine.Connectivity.RateLimiter
import TradingEngine.Connectivity.RateLimiterProperties
import TradingEngine.Connectivity.TimestampRing
import TradingEngine.Risk.Risk
import TradingEngine.Risk.PositionProperties
import TradingEngine.Risk.AccountProperties
import TradingEngine.Engine.State
import TradingEngine.Orders.Reconciliation
import TradingEngine.Risk.KillSwitch
import TradingEngine.Orders.WsOrderRoundTrip
import TradingEngine.Strategy.NaiveQuoter
import TradingEngine.Engine.Engine
import TradingEngine.Engine.StateProperties
import TradingEngine.Orders.ReconciliationProperties
import TradingEngine.Orders.WsOrderRoundTripProperties
import TradingEngine.Strategy.NaiveQuoterProperties
import TradingEngine.Engine.Footprint
import TradingEngine.Engine.RequestTraffic
import TradingEngine.Engine.EngineProperties
import TradingEngine.Orders.OrderRows
import TradingEngine.Orders.ReconciliationAgreement
import TradingEngine.Orders.ReconciliationMembership
import TradingEngine.Strategy.SingleQuote
import TradingEngine.Strategy.AmendInFlight
import TradingEngine.Risk.KillSwitchProperties
import TradingEngine.Risk.KillSwitchCancels
import TradingEngine.Engine.InputFootprint
import TradingEngine.Engine.System
import TradingEngine.Engine.RequestIds
import TradingEngine.Engine.EndpointLimits
import TradingEngine.Risk.PreTradeRisk
import TradingEngine.Engine.SameOrders
import TradingEngine.Risk.CancelCoverage
import TradingEngine.Engine.OrderTracking
import TradingEngine.Risk.MissedFills
import TradingEngine.Engine.ExchangeSession
import TradingEngine.Orders.LiveOrders
import TradingEngine.Orders.RoundTripResponses
import TradingEngine.Strategy.QuoteHandles
import TradingEngine.Strategy.QuotedMid
import TradingEngine.Library.StreamDecoder
import TradingEngine.Library.CircularMemory
import TradingEngine.Net.RingBuffer
import TradingEngine.Net.RingBufferQueue
import TradingEngine.Net.WebSocketFrame
import TradingEngine.Net.WebSocketFrameProperties
import TradingEngine.Net.ClientFrames
import TradingEngine.Net.WebSocketHandshake
import TradingEngine.Net.WebSocketHandshakeProperties
import TradingEngine.Net.HeaderLookup
import TradingEngine.Connectivity.OkxWsClient
import TradingEngine.Connectivity.OkxWsClientProperties
import TradingEngine.Engine.ConnectionView
import TradingEngine.Connectivity.OrderedTransmission
import TradingEngine.Connectivity.ServerReads
import TradingEngine.Connectivity.ReadChunking
import TradingEngine.Connectivity.Fragmentation
import TradingEngine.Connectivity.ConnectionHistory
import TradingEngine.Connectivity.StaleCompletions
import TradingEngine.Connectivity.LatencyTraces
import TradingEngine.Connectivity.HandshakeBoundary
import TradingEngine.Connectivity.FrameSoundness
import TradingEngine.Common.DecimalText
import TradingEngine.Orders.BatchOrders
import TradingEngine.Strategy.QuotePrices
import TradingEngine.MarketData.PriceLevelArray
import TradingEngine.Log.AsyncLogger
import TradingEngine.Log.AsyncLoggerProperties
import TradingEngine.Log.LoggerShutdown
import TradingEngine.Perf.LatencyHistogram
import TradingEngine.Orders.RequestMessages
import TradingEngine.Strategy.TimedOutQuotes
