import Pewpew.Channel.Discard
import Pewpew.Channel.Wakeup
import Pewpew.Channel.Growth
import Pewpew.LoadPattern.Timing
import Pewpew.Stats.Conservation
import Pewpew.Expression.Iterate
import Pewpew.Expression.Construction
import Pewpew.Expression.Negation
import Pewpew.Expression.Dependence
import Pewpew.Request.Prefilter
import Pewpew.Expression.Agreement
import Pewpew.Expression.Indexing
import Pewpew.Stream.ZipRows
import Pewpew.Stream.SelectAny
import Pewpew.Request.AutoReturns
import Pewpew.Reload.Watcher
import Pewpew.Yaml.Alias
import Pewpew.Config.Panics
import Pewpew.TryRun.Closure
import Pewpew.Providers.LoggerKill
import Pewpew.Request.Parallelism
import Pewpew.Stats.Shutdown
import Pewpew.Stats.Clock
import Pewpew.Viewer.Recorded
import Pewpew.Providers.LineReader
import Pewpew.Providers.JsonChunks
import Pewpew.Config.Names
import Pewpew.Request.Delivery
import Pewpew.Request.Multipart
import Pewpew.Expression.RootData
import Pewpew.LoadPattern.Ticks
import Pewpew.LoadPattern.TransitionFrom
import Pewpew.Config.Shadowing
import Pewpew.Expression.Range
import Pewpew.Expression.MinMax
import Pewpew.Expression.Collect
import Pewpew.Expression.Replace
import Pewpew.Config.Headers
import Pewpew.Expression.StaticTemplate
import Pewpew.Config.Duration
import Pewpew.Config.Rates
import Pewpew.Expression.Identifier
import Pewpew.Expression.PestSound
import Pewpew.Providers.CsvRecords
import Pewpew.Providers.FileReader
import Pewpew.Stats.BucketSize
import Pewpew.Channel.Delivery
import Pewpew.Channel.SoftLimit
import Pewpew.Providers.FileDelivery
import Pewpew.Providers.ListRange
import Pewpew.Channel.OnDemand
import Pewpew.Request.OnDemand
import Pewpew.Request.InFlight
import Pewpew.TestEnd.Succession
import Pewpew.LoadPattern.Percent
import Pewpew.Viewer.Totals
import Pewpew.Expression.Encoding
import Pewpew.LineWriter.LogFile
import Pewpew.TryRun.Filter
