import MicroTrace.Library.Runs
import MicroTrace.Library.RangeLoops
import MicroTrace.Library.RingBuffer
import MicroTrace.Library.OrderStatistics
import MicroTrace.Library.Frames
import MicroTrace.Library.Utf8
import MicroTrace.Library.Text
import MicroTrace.Library.IpText
import MicroTrace.Library.Json
import MicroTrace.Library.JsonText
import MicroTrace.Library.JsonRecord
import MicroTrace.Library.LineStream
import MicroTrace.Library.JsonLines
import MicroTrace.Library.UrlQuery
import MicroTrace.Library.Slices
import MicroTrace.Library.Lives
import MicroTrace.Library.Merges
import MicroTrace.Library.Averages
import MicroTrace.Library.Growth
import MicroTrace.Library.Filling
import MicroTrace.Library.Clamping
import MicroTrace.Collector.Model
import MicroTrace.Collector.Reader
import MicroTrace.Collector.Lines
import MicroTrace.Collector.ConnStats
import MicroTrace.Collector.Window
import MicroTrace.Collector.Processor
import MicroTrace.Collector.SpikeBaseline
import MicroTrace.Collector.Flows
import MicroTrace.Collector.Evidence
import MicroTrace.Collector.Isolation
import MicroTrace.Collector.PortReuse
import MicroTrace.Collector.Lifecycle
import MicroTrace.Collector.Bounds
import MicroTrace.Collector.Coherence
import MicroTrace.Collector.Settling
import MicroTrace.Collector.Stalling
import MicroTrace.Collector.Outbound
import MicroTrace.Resolver.Docker
import MicroTrace.Resolver.Convergence
import MicroTrace.Resolver.StartUp
import MicroTrace.Resolver.Endpoints
import MicroTrace.Resolver.Static
import MicroTrace.Resolver.Enrich
import MicroTrace.Store.Store
import MicroTrace.Store.Batching
import MicroTrace.Store.Durability
import MicroTrace.Store.History
import MicroTrace.Store.Shutdown
import MicroTrace.Store.Handler
import MicroTrace.Agent.SockOps
import MicroTrace.Agent.Output
import MicroTrace.Agent.Wire
import MicroTrace.Agent.Pipe
import MicroTrace.Resolver.Addresses
import MicroTrace.Resource.Files
import MicroTrace.Resource.Snapshot
import MicroTrace.Resource.Baselines
import MicroTrace.Resource.IoBytes
import MicroTrace.Resource.Collect
import MicroTrace.Resource.Instances
import MicroTrace.Resource.Rates
import MicroTrace.Resource.Reader
import MicroTrace.Remote.Transport
import MicroTrace.Hub.Hub
import MicroTrace.Hub.Writes
import MicroTrace.Hub.Delivery
import MicroTrace.Hub.Passing
import MicroTrace.Hub.Closing
import MicroTrace.Hub.Progress
import MicroTrace.Dashboard.Client
import MicroTrace.Dashboard.System
import MicroTrace.Dashboard.Flow
import MicroTrace.Dashboard.Story
import MicroTrace.Dashboard.Listening
import MicroTrace.Dashboard.Joining
import MicroTrace.Dashboard.Session
import MicroTrace.Dashboard.Reconnect
import MicroTrace.Dashboard.Mirror
import MicroTrace.Dashboard.Reading
import MicroTrace.Dashboard.Fleet
import MicroTrace.Dashboard.Agreement
import MicroTrace.Dashboard.Measured
import MicroTrace.Dashboard.DetailPanel
import MicroTrace.Dashboard.Requests
import MicroTrace.Dashboard.PanZoom
