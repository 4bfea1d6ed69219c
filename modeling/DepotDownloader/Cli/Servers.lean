import DepotDownloader.Cli.Discovery
import DepotDownloader.SteamFfi.Client

/-! # Servers

The servers of Steam are named by texts `host:port`: those to connect to in the answer of
the directory API, and those of the CDN in the answer of a service method. This module
embeds how they are read, and says which servers a login tries.
-/

namespace DepotDownloader.Cli

open Foundation Steam
open SteamFfi (CdnServer)

/-- `serde_json::Value`. An object is a map, so it has a key once. -/
inductive Json where
  | null
  | bool (value : Bool)
  | number (text : String)
  | string (text : String)
  | array (items : List Json)
  | object (fields : List (String × Json))

namespace Json

/-- `value[key]`. What is no object or has no such key gives null. -/
def index (value : Json) (key : String) : Json :=
  match value with
  | .object fields => (fields.lookup key).getD .null
  | _ => .null

def asArray : Json → Option (List Json)
  | .array items => some items
  | _ => none

def asStr : Json → Option String
  | .string text => some text
  | _ => none

end Json

/-- `str::rsplit_once(':')`. -/
def rsplitColon (text : String) : Option (String × String) :=
  match text.toList.reverse.dropWhile (· ≠ ':') with
  | [] => none
  | _ :: before =>
      some (.ofList before.reverse, .ofList (text.toList.reverse.takeWhile (· ≠ ':')).reverse)

/-- Connection protocol to a CM server. -/
inductive Protocol where
  | tcp
  | webSocket
  deriving DecidableEq, Repr

/-- Address for a CM server: either already resolved or a hostname to resolve. -/
inductive CmServerAddr where
  | resolved (octets : List UInt8) (port : UInt16)
  | dns (host : String) (port : UInt16)
  deriving DecidableEq, Repr

/-- A Steam CM server endpoint. -/
structure CmServer where
  addr : CmServerAddr
  protocol : Protocol
  deriving DecidableEq, Repr

def defaultCmServers : List CmServer :=
  ["ext1-sea1.steamserver.net", "ext1-iad1.steamserver.net", "ext1-lax1.steamserver.net",
    "ext1-ord1.steamserver.net"].map fun host => ⟨.dns host 27017, .tcp⟩

/-- Parse a "host:port" endpoint string into a CmServer. -/
def parseDnsServer (endpoint : String) (protocol : Protocol) : Option CmServer :=
  match rsplitColon endpoint with
  | none => none
  | some (host, port) =>
      (parseUnsigned UInt16.size port).map fun port => ⟨.dns host (.ofNat port), protocol⟩

/-- An entry of the directory's list. -/
def cmServer (entry : Json) : Option CmServer :=
  match (entry.index "endpoint").asStr with
  | none => none
  | some endpoint =>
      match (entry.index "type").asStr.getD "" with
      | "netfilter" => parseDnsServer endpoint .tcp
      | "websockets" => parseDnsServer endpoint .webSocket
      | _ => none

/-- The CM server list in the answer of the Steam Directory Web API. -/
def fetchCmServers (resp : Json) : List CmServer :=
  match ((resp.index "response").index "serverlist").asArray with
  | none => []
  | some entries => entries.filterMap cmServer

/-- The servers to connect to. There is no answer when the request fails. -/
def discoverServers (resp : Option Json) : List CmServer :=
  match resp.map fetchCmServers with
  | none => defaultCmServers
  | some servers =>
      let tcp := servers.filter fun server => server.protocol = .tcp
      if servers ≠ [] ∧ tcp ≠ [] then tcp else defaultCmServers

/-- What is read of the protobuf info of a CDN server. -/
structure ContentServerInfo where
  host : Option String
  httpsSupport : Option String
  vhost : Option String
  deriving DecidableEq, Repr

/-- Convert a protobuf server info into our CdnServer type. -/
def parseServerInfo (info : ContentServerInfo) : Option CdnServer :=
  let https := info.httpsSupport.any fun support =>
    support == "mandatory" || support == "optional"
  match info.host with
  | none => none
  | some host =>
      match rsplitColon host with
      | some (hostname, port) =>
          (parseUnsigned UInt16.size port).map fun port =>
            ⟨hostname, .ofNat port, https, info.vhost.getD hostname⟩
      | none => some ⟨host, if https then 443 else 80, https, info.vhost.getD host⟩

/-- The CDN servers in the answer of the content directory. -/
def cdnServers (servers : List ContentServerInfo) : List CdnServer :=
  servers.filterMap parseServerInfo

/-- The part before the last colon and the part behind it. -/
theorem rsplitColon_eq_some {text host port : String} :
    rsplitColon text = some (host, port) ↔ text = host ++ ":" ++ port ∧ ':' ∉ port.toList := by
  have hsplit := List.takeWhile_append_dropWhile (p := (· ≠ ':')) (l := text.toList.reverse)
  unfold rsplitColon
  constructor
  · intro heq
    split at heq
    next => cases heq
    next colon before hdrop =>
      cases heq
      have hcolon : colon = ':' := by
        have hhead := List.head?_dropWhile_not (· ≠ ':') text.toList.reverse
        rw [hdrop] at hhead
        simpa using hhead
      subst hcolon
      rw [hdrop] at hsplit
      constructor
      · apply String.toList_inj.mp
        have hback := congrArg List.reverse hsplit
        rw [List.reverse_reverse] at hback
        refine hback.symm.trans ?_
        simp
      · intro hmem
        rw [String.toList_ofList, List.mem_reverse] at hmem
        simpa using List.mem_takeWhile_imp hmem
  · rintro ⟨rfl, hport⟩
    have hall : ∀ char ∈ port.toList.reverse, decide (char ≠ ':') = true := fun char hmem =>
      decide_eq_true fun heq => hport (heq ▸ List.mem_reverse.mp hmem)
    have hreverse : (host ++ ":" ++ port).toList.reverse =
        port.toList.reverse ++ ':' :: host.toList.reverse := by simp
    rw [hreverse, List.dropWhile_append_of_pos hall, List.takeWhile_append_of_pos hall]
    simp

theorem parseUnsigned_toString {size value : Nat} (hvalue : value < size) :
    parseUnsigned size (toString value) = some value := by
  have hchars : (toString value).toList = Nat.toDigits 10 value := by simp
  have hdigit : ∀ char ∈ Nat.toDigits 10 value, char.isDigit := fun char hmem =>
    Nat.isDigit_of_mem_toDigits (by decide) (by decide) hmem
  unfold parseUnsigned
  rw [hchars]
  split
  next digits hplus =>
    have hsign := hdigit '+' (by rw [hplus]; exact List.mem_cons_self)
    cases hsign
  next =>
    rw [if_pos ⟨Nat.toDigits_ne_nil, List.all_eq_true.mpr hdigit⟩, ← Nat.ofDigitChars_eq_foldl,
      Nat.ofDigitChars_toDigits (by decide) (by decide)]
    exact if_pos hvalue

/-- A text `host:port`. -/
def endpointText (host : String) (port : UInt16) : String := host ++ ":" ++ toString port.toNat

theorem rsplitColon_endpointText (host : String) (port : UInt16) :
    rsplitColon (endpointText host port) = some (host, toString port.toNat) := by
  refine rsplitColon_eq_some.mpr ⟨rfl, fun hmem => ?_⟩
  have hchars : (toString port.toNat).toList = Nat.toDigits 10 port.toNat := by simp
  rw [hchars] at hmem
  exact absurd (Nat.isDigit_of_mem_toDigits (by decide) (by decide) hmem) (by decide)

theorem parsePort_toString (port : UInt16) :
    parseUnsigned UInt16.size (toString port.toNat) = some port.toNat :=
  parseUnsigned_toString port.toNat_lt

/-- The last colon ends the host, whatever it contains, and what follows is a port. -/
theorem parseDnsServer_eq_some {endpoint : String} {protocol : Protocol} {server : CmServer} :
    parseDnsServer endpoint protocol = some server ↔
      ∃ host text port, endpoint = host ++ ":" ++ text ∧ ':' ∉ text.toList ∧
        parseUnsigned UInt16.size text = some port ∧
        server = ⟨.dns host (.ofNat port), protocol⟩ := by
  unfold parseDnsServer
  constructor
  · intro heq
    split at heq
    next => cases heq
    next host text hsplit =>
      obtain ⟨port, hport, rfl⟩ := Option.map_eq_some_iff.mp heq
      obtain ⟨rfl, htext⟩ := rsplitColon_eq_some.mp hsplit
      exact ⟨host, text, port, rfl, htext, hport, rfl⟩
  · rintro ⟨host, text, port, rfl, htext, hport, rfl⟩
    rw [rsplitColon_eq_some.mpr ⟨rfl, htext⟩]
    simp only [hport, Option.map_some]

namespace CmServer

/-- A server by its name, as the directory lists it. -/
structure Listed where
  host : String
  port : UInt16
  protocol : Protocol
  deriving DecidableEq, Repr

namespace Listed

def server (listed : Listed) : CmServer := ⟨.dns listed.host listed.port, listed.protocol⟩

def entry (listed : Listed) : Json :=
  .object [("endpoint", .string (endpointText listed.host listed.port)),
    ("type", .string (match listed.protocol with
      | .tcp => "netfilter"
      | .webSocket => "websockets"))]

theorem cmServer_entry (listed : Listed) : cmServer listed.entry = some listed.server := by
  obtain ⟨host, port, protocol⟩ := listed
  have hparse (protocol : Protocol) :
      parseDnsServer (endpointText host port) protocol = some ⟨.dns host port, protocol⟩ := by
    unfold parseDnsServer
    rw [rsplitColon_endpointText]
    simp only [parsePort_toString, Option.map_some, UInt16.ofNat_toNat]
  cases protocol with
  | tcp => exact hparse .tcp
  | webSocket => exact hparse .webSocket

end Listed

end CmServer

/-- The answer of the directory that lists these servers. -/
def directoryOf (listed : List CmServer.Listed) : Json :=
  .object [("response", .object [("serverlist", .array (listed.map CmServer.Listed.entry))])]

/-- The info of a CDN server. -/
def contentServerInfo (server : CdnServer) : ContentServerInfo where
  host := some (endpointText server.host server.port)
  httpsSupport := some (if server.https then "mandatory" else "none")
  vhost := some server.vhost

theorem parseServerInfo_contentServerInfo (server : CdnServer) :
    parseServerInfo (contentServerInfo server) = some server := by
  obtain ⟨host, port, https, vhost⟩ := server
  unfold parseServerInfo contentServerInfo
  simp only [rsplitColon_endpointText, parsePort_toString]
  cases https <;> simp

/-- Whatever the directory answers, there is a server to connect to. -/
theorem discoverServers_tcp (resp : Option Json) :
    discoverServers resp ≠ [] ∧ ∀ server ∈ discoverServers resp, server.protocol = .tcp := by
  have hdefault : defaultCmServers ≠ [] ∧
      ∀ server ∈ defaultCmServers, server.protocol = .tcp := by decide
  unfold discoverServers
  split
  next => exact hdefault
  next servers _ =>
    simp only
    split
    next htcp => exact ⟨htcp.2, fun server hmem => by simpa using (List.mem_filter.mp hmem).2⟩
    next => exact hdefault

/-- The servers of both lists are read as they are written, with any host, and a login tries
those with a TCP endpoint, or the default ones if there is none. -/
theorem servers_read (listed : List CmServer.Listed) (cdn : List CdnServer) :
    fetchCmServers (directoryOf listed) = listed.map CmServer.Listed.server ∧
      cdnServers (cdn.map contentServerInfo) = cdn ∧
      discoverServers (some (directoryOf listed)) =
        (match (listed.filter fun server => server.protocol = .tcp) with
        | [] => defaultCmServers
        | tcp => tcp.map CmServer.Listed.server) := by
  have hfetch : fetchCmServers (directoryOf listed) = listed.map CmServer.Listed.server := by
    have hentries : (listed.map CmServer.Listed.entry).filterMap cmServer =
        listed.map CmServer.Listed.server := by
      rw [List.filterMap_map, ← List.filterMap_eq_map]
      exact List.filterMap_congr fun server _ => server.cmServer_entry
    exact hentries
  refine ⟨hfetch, ?_, ?_⟩
  · rw [cdnServers, List.filterMap_map]
    refine (List.filterMap_congr fun server _ => parseServerInfo_contentServerInfo server).trans ?_
    exact List.filterMap_some
  · have htcp : (listed.map CmServer.Listed.server).filter (fun server => server.protocol = .tcp) =
        (listed.filter fun server => server.protocol = .tcp).map CmServer.Listed.server := by
      rw [List.filter_map]
      rfl
    unfold discoverServers
    simp only [Option.map_some, hfetch, htcp]
    cases hlisted : listed.filter fun server => server.protocol = .tcp with
    | nil => simp
    | cons first rest =>
        have hne : listed ≠ [] := by
          rintro rfl
          cases hlisted
        simp [hne]

end DepotDownloader.Cli
