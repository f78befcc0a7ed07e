import MarketFeed.Config.Json
import MarketFeed.Connection.Address
import MarketFeed.Connection.Worker
import MarketFeed.Main
import MarketFeed.Market.Json
import MarketFeed.Proofs.Candles.Closing
import MarketFeed.Proofs.Candles.Newer
import MarketFeed.Proofs.Candles.Overfull
import MarketFeed.Proofs.Candles.Partition
import MarketFeed.Proofs.Candles.Reordered
import MarketFeed.Proofs.Candles.Volumes
import MarketFeed.Proofs.Config.Precedence
import MarketFeed.Proofs.Config.Retention
import MarketFeed.Proofs.Config.Sources
import MarketFeed.Proofs.Config.Validated
import MarketFeed.Proofs.Connection.Backoff
import MarketFeed.Proofs.Connection.Cancellation
import MarketFeed.Proofs.Connection.Operations
import MarketFeed.Proofs.Connection.Registered
import MarketFeed.Proofs.Connection.Retries
import MarketFeed.Proofs.Decimal.RoundTrip
import MarketFeed.Proofs.Decimal.Rounding
import MarketFeed.Proofs.Exchange.Entries
import MarketFeed.Proofs.Exchange.Fields
import MarketFeed.Proofs.Exchange.Priced
import MarketFeed.Proofs.Exchange.Subscriptions
import MarketFeed.Proofs.Feed.Added
import MarketFeed.Proofs.Feed.Answers
import MarketFeed.Proofs.Feed.Attribution
import MarketFeed.Proofs.Feed.Concurrent
import MarketFeed.Proofs.Feed.Delivery
import MarketFeed.Proofs.Feed.FanOut
import MarketFeed.Proofs.Feed.Handling
import MarketFeed.Proofs.Feed.Lookup
import MarketFeed.Proofs.Feed.Query
import MarketFeed.Proofs.Feed.Refused
import MarketFeed.Proofs.Feed.Requests
import MarketFeed.Proofs.Feed.TradeCandles
import MarketFeed.Proofs.Market.Records
