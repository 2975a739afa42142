import Maeglagi.Core.Fallible
import Maeglagi.Core.Urls

/-!
# Connections to an Ollama server

The address of a server is brought to one form, every address that the name server returns for
its host is checked, and a client is bound to one of them. The name server, the Unicode tables
and the HTTP library are given.
-/

namespace Maeglagi.Provider

open Core

/-- A `ValueError` of the module, or one of `urllib`. -/
inductive EndpointError where
  | value (message : Text)
  | url
  deriving DecidableEq

/-- `raise ValueError(message)` -/
def invalid {α : Type} (message : String) : Except EndpointError α := .error (.value message.toList)

/-- `raise ValueError(message)` unless a condition holds. -/
def valid (condition : Bool) (message : String) : Except EndpointError Unit :=
  if condition then .ok () else invalid message

/-- `raise ValueError(message) from exc` -/
def wrapped {α : Type} (result : Except EndpointError α) (message : String) :
    Except EndpointError α :=
  match result with
  | .ok x => .ok x
  | .error _ => invalid message

/-- The result of a function of `urllib`. -/
def ofUrllib {α : Type} (result : Option α) : Except EndpointError α :=
  match result with
  | some x => .ok x
  | none => .error .url

/-- A character of a host name but for the dot. -/
def isLabelChar (c : Char) : Bool := ('a' ≤ c && c ≤ 'z') || isAsciiDigit c || c = '-'

/-- `_HOST_LABEL.fullmatch` -/
def isHostLabel (label : Text) : Bool :=
  decide (0 < label.length) && decide (label.length ≤ 63) && label.all isLabelChar &&
    decide (label.head? ≠ some '-') && decide (label.getLast? ≠ some '-')

/-- `host.encode("idna")`, without a result where it raises `UnicodeError` -/
def encodeIdna (tables : UnicodeTables) (host : Text) : Option Text :=
  if isAscii host then
    let labels := host.splitOn '.'
    if labels.dropLast.all (fun label => decide (0 < label.length ∧ label.length < 64)) &&
        decide ((labels.getLastD []).length < 64) then
      some host
    else none
  else tables.idna host

/-- `_canonical_host` -/
def canonicalHost (tables : UnicodeTables) (host : Text) : Except EndpointError Text :=
  if host = [] ∨ '%' ∈ host ∨ host.getLast? = some '.' then invalid "Invalid Ollama hostname"
  else match ipAddress host with
    | some address => .ok address.text
    | none => match encodeIdna tables host with
      | none => invalid "Invalid Ollama hostname"
      | some ascii =>
        let asciiHost := ascii.map Char.toLower
        if 253 < asciiHost.length ∨ (asciiHost.splitOn '.').all isHostLabel = false then
          invalid "Invalid Ollama hostname"
        else .ok asciiHost

/-- `_MAX_URL_BYTES` -/
def maxUrlBytes : Nat := 2048

/-- The number of bytes in UTF-8. -/
def utf8Length (t : Text) : Nat := t.foldl (fun n c => n + c.utf8Size) 0

/-- The checks of a URL before it is split. -/
def urlTextValid (value : Text) : Bool :=
  !value.isEmpty && decide (utf8Length value ≤ maxUrlBytes) && decide (strip value = value) &&
    value.all fun c => decide (33 ≤ c.toNat ∧ c.toNat ≠ 127 ∧ c ∉ ['\\', '?', '#'])

/-- The parts of a URL, its host and its port. -/
def splitEndpoint (tables : UnicodeTables) (value : Text) :
    Except EndpointError (SplitResult × Text × Option Nat) := do
  let parts ← ofUrllib (urlsplit tables value)
  valid ((decide (parts.scheme = "http".toList) || decide (parts.scheme = "https".toList)) &&
    !parts.netloc.isEmpty) "Ollama URL must use HTTP or HTTPS"
  valid (decide ('@' ∉ parts.netloc ∧ '%' ∉ parts.netloc))
    "Ollama URL must not contain credentials or encoded authority"
  let host ← canonicalHost tables ((parts.hostname tables).getD [])
  let port ← ofUrllib parts.port
  return (parts, host, port)

/-- The check of a path. -/
def pathValid (path : Text) : Bool :=
  path.isEmpty || (decide (path.head? = some '/') && decide ('%' ∉ path) &&
    !decide (['/', '/'] <:+: path) &&
    (path.splitOn '/').all fun segment => decide (segment ∉ [['.'], ['.', '.']]))

/-- The host and the port of a URL. -/
def authority (host : Text) (port : Option Nat) : Text :=
  (if ':' ∈ host then '[' :: host ++ [']'] else host) ++
    match port with
    | some port => ':' :: Nat.toDigits 10 port
    | none => []

/-- `path.rstrip("/")` -/
def rstripSlash (path : Text) : Text := (path.reverse.dropWhile (· = '/')).reverse

/-- `normalize_ollama_url` -/
def normalizeOllamaUrl (tables : UnicodeTables) (value : Text) : Except EndpointError Text := do
  valid (decide (value.length ≤ maxUrlBytes)) "Invalid Ollama URL"
  valid (urlTextValid value) "Invalid Ollama URL"
  let split ← wrapped (splitEndpoint tables value) "Invalid Ollama URL"
  valid (decide (split.2.2 ≠ some 0 ∧ split.1.netloc.getLast? ≠ some ':')) "Invalid Ollama port"
  valid (pathValid split.1.path) "Invalid Ollama URL path"
  return split.1.scheme ++ "://".toList ++ authority split.2.1 split.2.2 ++ rstripSlash split.1.path

/-- The URL that an entry of the allowlist stands for. -/
def entryUrl (tables : UnicodeTables) (entry : Text) : Except EndpointError SplitResult := do
  let url ← normalizeOllamaUrl tables ("https://".toList ++ entry)
  ofUrllib (urlsplit tables url)

/-- `_allowed_host` -/
def allowedHost (tables : UnicodeTables) (host : Text) (port : Nat) :
    List Text → Except EndpointError Bool
  | [] => .ok false
  | entry :: entries => do
    let parsed ← wrapped (entryUrl tables entry) "Invalid administrator Ollama allowlist"
    valid parsed.path.isEmpty "Invalid administrator Ollama allowlist"
    if parsed.hostname tables ≠ some host then allowedHost tables host port entries
    else do
      let entryPort ← ofUrllib parsed.port
      if entryPort = none ∨ entryPort = some port then return true
      else allowedHost tables host port entries

/-- `_BLOCKED_IPV6_TRANSITIONS` -/
def blockedTransitions : List (Network 128) :=
  [network (hextets [0x64, 0xff9b] 0) 96, network (hextets [0x64, 0xff9b, 1] 0) 48,
    network (hextets [0x2001] 0) 32, network (hextets [0x2002] 0) 16]

/-- `_METADATA_ADDRESSES` -/
def metadataAddresses : List IpAddress :=
  [.v4 (octets 100 100 100 200), .v4 (octets 168 63 129 16), .v4 (octets 192 0 0 192),
    .v6 (hextets [0xfd00, 0xec2] 0x254) none, .v6 (hextets [0xfd20, 0xce] 0x254) none]

/-- An address of `_PRIVATE_NETWORKS` -/
def inPrivateNetworks : IpAddress → Bool
  | .v4 ip => [(network (octets 10 0 0 0) 8),
      network (octets 172 16 0 0) 12, network (octets 192 168 0 0) 16].any (·.contains ip)
  | .v6 ip _ => (network (hextets [0xfc00] 0) 7).contains ip

/-- The address that a mapped one stands for; another one stands for itself. -/
def unmapped (address : IpAddress) : IpAddress := address.ipv4Mapped.getD address

/-- The address is of IPv6 and has a scope or is in a transition network. -/
def scopedOrTransition : IpAddress → Bool
  | .v4 _ => false
  | .v6 ip scopeId => scopeId.isSome || blockedTransitions.any (·.contains ip)

/-- The address is one that no connection goes to. -/
def forbidden (address : IpAddress) : Bool :=
  decide (address ∈ metadataAddresses) || address.isLinkLocal || address.isMulticast ||
    address.isUnspecified

/-- `_safe_address` -/
def safeAddress (value : Text) (allowPrivate : Bool) : Bool :=
  match ipAddress value with
  | none => false
  | some address =>
    if scopedOrTransition address then false
    else
      let address := unmapped address
      if forbidden address || (address.isReserved && !address.isLoopback) then false
      else if address.isGlobal then true
      else allowPrivate && (address.isLoopback || inPrivateNetworks address)

/-- `_is_public_address` of a text that is an address -/
def isPublicAddress (value : Text) : Bool :=
  (ipAddress value).any fun address => (unmapped address).isGlobal

/-- `_resolve_addresses`; the name server has no result where `getaddrinfo` raises or takes too
long. -/
def resolveAddresses (getaddrinfo : Text → Nat → Option (List Text)) (host : Text) (port : Nat) :
    Except EndpointError (List Text) :=
  match getaddrinfo host port with
  | none => invalid "Ollama hostname could not be resolved"
  | some records =>
    if records.eraseDups = [] then invalid "Ollama hostname has no addresses"
    else .ok records.eraseDups

/-- `_PinnedTransport` and its `_PinnedNetworkBackend` -/
structure PinnedTransport where
  scheme : Text
  host : Text
  port : Nat
  address : Text
  deriving DecidableEq

/-- The `httpx.AsyncClient` that the factory returns. -/
structure OllamaClient where
  baseUrl : Text
  headers : List (Text × Text)
  transport : PinnedTransport
  deriving DecidableEq

/-- The port that a URL names, or else that of its scheme; zero names none. -/
def portOr (scheme : Text) (port : Option Nat) : Nat :=
  match port with
  | some (p + 1) => p + 1
  | _ => if scheme = "https".toList then 443 else 80

/-- The permission for private addresses. -/
def privatePermission (tables : UnicodeTables) (host : Text) (port : Nat)
    (allowPrivateNetwork : Bool) (allowedPrivateHosts : List Text) : Except EndpointError Bool :=
  if allowPrivateNetwork then .ok true else allowedHost tables host port allowedPrivateHosts

/-- `make_ollama_client` -/
def makeOllamaClient (tables : UnicodeTables) (getaddrinfo : Text → Nat → Option (List Text))
    (baseUrl apiKey : Text) (allowPrivateNetwork : Bool) (allowedPrivateHosts : List Text) :
    Except EndpointError OllamaClient := do
  let url ← normalizeOllamaUrl tables baseUrl
  let parts ← ofUrllib (urlsplit tables url)
  let host := (parts.hostname tables).getD []
  let urlPort ← ofUrllib parts.port
  let port := portOr parts.scheme urlPort
  let allowPrivate ← privatePermission tables host port allowPrivateNetwork allowedPrivateHosts
  let addresses ← resolveAddresses getaddrinfo host port
  valid (addresses.all fun address => safeAddress address allowPrivate)
    "Ollama address is not permitted"
  valid (!(decide (parts.scheme = "http".toList) &&
    (!allowPrivate || addresses.any isPublicAddress))) "Public Ollama endpoints require HTTPS"
  valid (apiKey.all fun c => decide (33 ≤ c.toNat ∧ c.toNat ≤ 126)) "Invalid Ollama API key"
  valid (!(!apiKey.isEmpty && decide (parts.scheme = "http".toList) && !allowPrivateNetwork))
    "Ollama API keys require HTTPS outside self-hosted private networks"
  let headers := if apiKey = [] then [] else [("Authorization".toList, "Bearer ".toList ++ apiKey)]
  return ⟨url, headers, ⟨parts.scheme, host, port, addresses.headD []⟩⟩

/-- The URL of a request as the HTTP library has it: `url.host` is decoded, and `url.port` is
left out where it is the default of the scheme. -/
structure RequestUrl where
  scheme : Text
  host : Text
  rawHost : Text
  port : Option Nat

/-- `_PinnedNetworkBackend.connect_tcp`: the address and the port that the connection goes to. -/
def PinnedTransport.connectTcp (transport : PinnedTransport) (host : Text) (port : Nat) :
    Except Text (Text × Nat) :=
  if host ≠ transport.host ∨ port ≠ transport.port then
    .error "Ollama destination changed".toList
  else .ok (transport.address, port)

/-- `_PinnedTransport.handle_async_request`; the library opens a connection to the host as it is
on the wire. -/
def PinnedTransport.handleAsyncRequest (transport : PinnedTransport) (url : RequestUrl) :
    Except Text (Text × Nat) :=
  if (url.scheme, url.host, portOr url.scheme url.port) ≠
      (transport.scheme, transport.host, transport.port) then
    .error "Ollama destination changed".toList
  else transport.connectTcp url.rawHost (portOr url.scheme url.port)

/-- What a request is sent with. -/
structure Sent where
  scheme : Text
  address : Text
  port : Nat
  headers : List (Text × Text)

/-- A request of the client, with no redirects followed. -/
def OllamaClient.send (client : OllamaClient) (url : RequestUrl) : Except Text Sent := do
  let connection ← client.transport.handleAsyncRequest url
  return ⟨url.scheme, connection.1, connection.2, client.headers⟩

end Maeglagi.Provider
