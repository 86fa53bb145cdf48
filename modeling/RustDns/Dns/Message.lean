import RustDns.Config.Basic
import RustDns.Dns.Name

/-! DNS messages as far as the server reads and writes them, and the answers
it builds itself. Reading and writing the wire form belongs to the DNS
library and is a parameter. -/
namespace RustDns

abbrev Bytes := List UInt8

inductive OpCode where
  | query
  | status
  | notify
  | update
  | unknown (code : UInt8)
  deriving DecidableEq

inductive MessageType where
  | query
  | response
  deriving DecidableEq

inductive ResponseCode where
  | noError
  | servFail
  | nxDomain
  | other (code : UInt16)
  deriving DecidableEq

structure Query where
  name : Name
  queryType : UInt16
  queryClass : UInt16

inductive RData where
  | a (addr : Ipv4Addr)
  | aaaa (addr : Ipv6Addr)
  | other (rtype : UInt16) (data : Bytes)

structure Record where
  name : Name
  ttl : UInt32
  rdata : RData

structure Message where
  id : UInt16
  messageType : MessageType
  opCode : OpCode
  recursionDesired : Bool
  recursionAvailable : Bool
  responseCode : ResponseCode
  queries : List Query
  answers : List Record

/-- The DNS library's reader and writer of messages. A message has a header
of twelve bytes. -/
structure Wire where
  fromVec : Bytes → Option Message
  toVec : Message → Option Bytes
  header : ∀ data message, fromVec data = some message → 12 ≤ data.length

/-- A reader that knows the messages of a table and no other. -/
def Wire.ofTable (table : List (Bytes × Message)) (hTable : ∀ row ∈ table, 12 ≤ row.1.length) :
    Wire where
  fromVec data := (table.find? fun row => row.1 == data).map Prod.snd
  toVec _ := none
  header data message hRead := by
    obtain ⟨row, hFind, -⟩ := Option.map_eq_some_iff.mp hRead
    have hKey := List.find?_some hFind
    rw [← beq_iff_eq.mp hKey]
    exact hTable row (List.mem_of_find?_eq_some hFind)

namespace RecordType

def a : UInt16 := 1
def aaaa : UInt16 := 28

end RecordType

/-- Equality of the library's names: the same labels, with ASCII letters
compared without regard to case and every other byte as it is. -/
def Name.eqIgnoreCase (n m : Name) : Bool :=
  n.labels.map Label.lower == m.labels.map Label.lower

/-- Overwrite the transaction id. -/
def patchId (wire : Bytes) (id : UInt16) : Bytes :=
  match wire with
  | _ :: _ :: rest => (id >>> 8).toUInt8 :: (id &&& 0xff).toUInt8 :: rest
  | short => short

def baseResponse (request : Message) (query : Query) : Message where
  id := request.id
  messageType := .response
  opCode := request.opCode
  recursionDesired := request.recursionDesired
  recursionAvailable := true
  responseCode := .noError
  queries := [query]
  answers := []

variable (wire : Wire)

/-- The sinkhole answer: NXDOMAIN, or the configured address for the two
address types and no answer for the rest. -/
def buildBlocked (request : Message) (query : Query) (dns : DnsConfig) : Bytes :=
  let response := baseResponse request query
  if dns.sinkholeMode = "nxdomain".toList then
    (wire.toVec { response with responseCode := .nxDomain }).getD []
  else
    let answers :=
      if query.queryType = RecordType.a then
        [{ name := query.name, ttl := dns.sinkholeTtl, rdata := .a dns.sinkholeIpv4 }]
      else if query.queryType = RecordType.aaaa then
        [{ name := query.name, ttl := dns.sinkholeTtl, rdata := .aaaa dns.sinkholeIpv6 }]
      else []
    (wire.toVec { response with answers := answers }).getD []

def buildResponseCode (request : Message) (query : Query) (code : ResponseCode) : Bytes :=
  (wire.toVec { baseResponse request query with responseCode := code }).getD []

end RustDns
