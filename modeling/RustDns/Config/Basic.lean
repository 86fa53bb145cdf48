import RustDns.Config.Addr

/-! The configuration file and its defaults. -/
namespace RustDns

structure QlogConfig where
  enabled : Bool
  dir : Str
  maxBytes : UInt64
  flushSecs : UInt64
  flushRows : UInt64
  logClientIp : Bool
  memLimitMb : UInt64
  deriving DecidableEq

structure DnsConfig where
  bind : Str
  workers : UInt64
  sinkholeMode : Str
  sinkholeIpv4 : Ipv4Addr
  sinkholeIpv6 : Ipv6Addr
  sinkholeTtl : UInt32
  maxInflight : UInt64
  deriving DecidableEq

structure UpstreamConfig where
  servers : List Str
  timeoutMs : UInt64
  maxConcurrent : UInt64
  maxQps : UInt32
  deriving DecidableEq

structure CacheConfig where
  maxEntries : UInt64
  dbPath : Str
  flushMs : UInt64
  purgeIntervalSecs : UInt64
  minTtl : UInt32
  maxTtl : UInt32
  negativeTtl : UInt32
  deriving DecidableEq

structure WebConfig where
  bind : Str
  adminToken : Str
  blocklistPath : Str
  deriving DecidableEq

structure Config where
  dns : DnsConfig
  upstream : UpstreamConfig
  cache : CacheConfig
  web : WebConfig
  qlog : QlogConfig
  deriving DecidableEq

def QlogConfig.default : QlogConfig where
  enabled := true
  dir := "logs".toList
  maxBytes := 2 * 1024 * 1024 * 1024
  flushSecs := 5
  flushRows := 10000
  logClientIp := true
  memLimitMb := 128

def defaultMaxInflight : UInt64 := 8192
def defaultDbPath : Str := "cache.redb".toList
def defaultFlushMs : UInt64 := 500
def defaultPurgeIntervalSecs : UInt64 := 300

def Config.default : Config where
  dns :=
    { bind := "0.0.0.0:53".toList
      workers := 0
      sinkholeMode := "zero_ip".toList
      sinkholeIpv4 := Ipv4Addr.unspecified
      sinkholeIpv6 := Ipv6Addr.unspecified
      sinkholeTtl := 60
      maxInflight := defaultMaxInflight }
  upstream :=
    { servers := ["1.1.1.1:53".toList, "8.8.8.8:53".toList]
      timeoutMs := 2000
      maxConcurrent := 256
      maxQps := 2000 }
  cache :=
    { maxEntries := 500000
      dbPath := defaultDbPath
      flushMs := defaultFlushMs
      purgeIntervalSecs := defaultPurgeIntervalSecs
      minTtl := 30
      maxTtl := 86400
      negativeTtl := 60 }
  web :=
    { bind := "127.0.0.1:8080".toList
      adminToken := []
      blocklistPath := "blocklist.txt".toList }
  qlog := QlogConfig.default

/-- The servers of the configuration that parse, in their order. -/
def Config.upstreamAddrs (cfg : Config) : List SocketAddr :=
  cfg.upstream.servers.filterMap SocketAddr.parse

end RustDns
