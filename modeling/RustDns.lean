import RustDns.Admin.Convergence
import RustDns.Admin.Gate
import RustDns.Admin.Logs
import RustDns.Admin.Machine
import RustDns.Admin.Portal
import RustDns.Admin.Restart
import RustDns.Admin.Sequential
import RustDns.Admin.Settings
import RustDns.Admin.Start
import RustDns.Admin.WriteAtomic
import RustDns.Blocklist.Agreement
import RustDns.Blocklist.Basic
import RustDns.Blocklist.Labels
import RustDns.Blocklist.Matching
import RustDns.Blocklist.NormalForm
import RustDns.Blocklist.RoundTrip
import RustDns.Blocklist.Url
import RustDns.Cache.Codec
import RustDns.Cache.Layer
import RustDns.Cache.Lifetime
import RustDns.Cache.Purge
import RustDns.Cache.Reload
import RustDns.Cache.Store
import RustDns.Cache.WarmRestart
import RustDns.Cache.Writer
import RustDns.Config.Addr
import RustDns.Config.Basic
import RustDns.Config.Display
import RustDns.Dns.CanonicalName
import RustDns.Dns.Message
import RustDns.Dns.Name
import RustDns.Library.Batching
import RustDns.Library.Directory
import RustDns.Library.Eviction
import RustDns.Library.FileSystem
import RustDns.Library.Framing
import RustDns.Library.History
import RustDns.Library.Indexed
import RustDns.Library.Numeral
import RustDns.Library.Page
import RustDns.Library.Progress
import RustDns.Library.Run
import RustDns.Library.Scan
import RustDns.Library.Sql
import RustDns.Qlog.Chronological
import RustDns.Qlog.OldestFirst
import RustDns.Qlog.Retention
import RustDns.Qlog.Segment
import RustDns.Qlog.Writer
import RustDns.Server.Accounting
import RustDns.Server.Blocking
import RustDns.Server.Chained
import RustDns.Server.Drain
import RustDns.Server.HotReload
import RustDns.Server.KeySoundness
import RustDns.Server.LogAccounting
import RustDns.Server.LogPage
import RustDns.Server.LogPrivacy
import RustDns.Server.Logging
import RustDns.Server.Machine
import RustDns.Server.Permits
import RustDns.Server.Requests
import RustDns.Server.ResponseSize
import RustDns.Server.SingleFlight
import RustDns.Server.Snapshot
import RustDns.Server.Soundness
import RustDns.Server.TcpStream
import RustDns.Server.TransactionId
import RustDns.System.Access
import RustDns.System.InForce
import RustDns.System.Machine
import RustDns.System.Recovery
import RustDns.System.Servers
import RustDns.System.Survival
import RustDns.Text.Str
import RustDns.Text.Unicode
import RustDns.Upstream.Failover
import RustDns.Upstream.Permits
import RustDns.Upstream.RateLimit
import RustDns.Upstream.Resolve
import RustDns.Upstream.Response
import RustDns.Upstream.Ttl
