import Maeglagi.Provider.Outbound

/-!
# Whether a client reaches its own server

The HTTP library decodes a host that starts with `xn--` before the transport compares it with
the host in ASCII, so a client of such a host refuses every request of its own.
-/

namespace Maeglagi.Provider

open Core

/-- The start of an encoded label. -/
def acePrefix : Text := "xn--".toList

/-- A URL as the library reads it. -/
structure ParsedUrl where
  scheme : Text
  rawHost : Text
  port : Option Nat
  deriving DecidableEq

/-- The port of a URL, without that of the scheme. -/
def explicitPort (scheme : Text) (port : Option Nat) : Option Nat :=
  if port = some (portOr scheme none) then none else port

/-- What the HTTP library does with URLs. -/
structure HttpLibrary where
  /-- `httpx.URL`, without a result where it raises `InvalidURL` -/
  parse : Text → Option ParsedUrl
  /-- `idna.decode`, without a result where it raises -/
  decode : Text → Option Text
  /-- The host is read without brackets. -/
  parse_url : ∀ (e : Endpoint) (url : ParsedUrl), parse e.url = some url →
    url = ⟨e.scheme, e.host, explicitPort e.scheme e.port⟩
  /-- What is decoded was encoded. -/
  decode_ne : ∀ host, acePrefix <+: host → decode host ≠ some host

/-- `URL.host` -/
def HttpLibrary.host (library : HttpLibrary) (rawHost : Text) : Option Text :=
  if acePrefix <+: rawHost then library.decode rawHost else some rawHost

/-- The URL of a request; without a result it is not sent. -/
def HttpLibrary.requestUrl (library : HttpLibrary) (url : ParsedUrl) : Option RequestUrl :=
  (library.host url.rawHost).map fun host => ⟨url.scheme, host, url.rawHost, url.port⟩

/-- A request passes the checks of the transport and of its backend. -/
def Passes (library : HttpLibrary) (client : OllamaClient) (url : ParsedUrl) : Prop :=
  ∃ request connection, library.requestUrl url = some request ∧
    client.transport.handleAsyncRequest request = .ok connection

/-- Every request to a path under the base URL passes. -/
def Reaches (library : HttpLibrary) (client : OllamaClient) : Prop :=
  ∀ path : Text, (∀ c ∈ path.head?, c = '/') → (∀ c ∈ path, c ∉ ['\t', '\r', '\n']) →
    ∀ url, library.parse (client.baseUrl ++ path) = some url → Passes library client url

section reaches

variable {library : HttpLibrary} {client : OllamaClient} {e : Endpoint}

/-- A default port is left out and filled in again. -/
theorem portOr_explicitPort (scheme : Text) (port : Option Nat) :
    portOr scheme (explicitPort scheme port) = portOr scheme port := by
  unfold explicitPort
  split_ifs with hdefault
  · rw [hdefault]
    unfold portOr
    split_ifs <;> rfl
  · rfl

/-- A path under the base URL is the path of an endpoint with the same host. -/
theorem Endpoint.exists_append (e : Endpoint) {path : Text} (hhead : ∀ c ∈ path.head?, c = '/')
    (hchars : ∀ c ∈ path, c ∉ ['\t', '\r', '\n']) :
    ∃ e' : Endpoint, e'.url = e.url ++ path ∧ e'.scheme = e.scheme ∧ e'.host = e.host ∧
      e'.port = e.port := by
  refine ⟨⟨e.scheme, e.host, e.port, e.path ++ path, e.scheme_eq, e.host_chars, ?_, ?_⟩, ?_, rfl,
    rfl, rfl⟩
  · intro c hc
    cases hpath : e.path with
    | nil =>
      rw [hpath] at hc
      exact hhead c hc
    | cons d rest =>
      rw [hpath] at hc
      exact e.path_head c (by rw [hpath]; exact hc)
  · intro c hc
    rcases List.mem_append.mp hc with hc | hc
    · exact e.path_chars c hc
    · exact hchars c hc
  · exact (List.append_assoc _ _ _).symm

/-- A request to the client's own endpoint passes exactly when the library reads its host as it
is written. -/
theorem passes_iff (horigin : (client.transport.scheme, client.transport.host,
    client.transport.port) = (e.scheme, e.host, portOr e.scheme e.port)) :
    Passes library client ⟨e.scheme, e.host, explicitPort e.scheme e.port⟩ ↔
      library.host e.host = some e.host := by
  simp only [Prod.mk.injEq] at horigin
  obtain ⟨hscheme, hhost, hport⟩ := horigin
  constructor
  · rintro ⟨request, connection, hrequest, hsent⟩
    obtain ⟨host, hdecoded, rfl⟩ := Option.map_eq_some_iff.mp hrequest
    unfold PinnedTransport.handleAsyncRequest at hsent
    split_ifs at hsent with hsame
    have hsame := not_not.mp hsame
    simp only [Prod.mk.injEq] at hsame
    rw [hdecoded, hsame.2.1, hhost]
  · intro hself
    refine ⟨⟨e.scheme, e.host, e.host, explicitPort e.scheme e.port⟩,
      (client.transport.address, client.transport.port), ?_, ?_⟩
    · unfold HttpLibrary.requestUrl
      rw [hself]
      rfl
    · unfold PinnedTransport.handleAsyncRequest PinnedTransport.connectTcp
      simp [hscheme, hhost, hport, portOr_explicitPort]

/-- The library reads a host as it is written exactly when that is not an encoded one. -/
theorem host_eq_iff (library : HttpLibrary) (host : Text) :
    library.host host = some host ↔ ¬acePrefix <+: host := by
  unfold HttpLibrary.host
  split_ifs with hprefix
  · exact iff_of_false (library.decode_ne host hprefix) (not_not.mpr hprefix)
  · exact iff_of_true rfl hprefix

end reaches

/-- A client reaches its server exactly when the canonical host of its URL is not an encoded one.
The library took the base URL when the client was made. -/
theorem reaches_iff {tables : UnicodeTables} {getaddrinfo : Text → Nat → Option (List Text)}
    {baseUrl apiKey : Text} {allowPrivateNetwork : Bool} {allowedPrivateHosts : List Text}
    {client : OllamaClient} (library : HttpLibrary)
    (h : makeOllamaClient tables getaddrinfo baseUrl apiKey allowPrivateNetwork
      allowedPrivateHosts = .ok client) (hbase : (library.parse client.baseUrl).isSome = true) :
    ∃ parts host port, splitEndpoint tables baseUrl = .ok (parts, host, port) ∧
      (Reaches library client ↔ ¬acePrefix <+: host) := by
  obtain ⟨e, allowPrivate, records, hmade⟩ := makeOllamaClient_eq_ok h
  obtain ⟨parts, hsplit⟩ := hmade.split
  refine ⟨parts, e.host, e.port, hsplit, ?_⟩
  rw [← host_eq_iff library, ← passes_iff hmade.origin]
  rw [hmade.baseUrl] at hbase
  constructor
  · intro hreaches
    obtain ⟨url, hurl⟩ := Option.isSome_iff_exists.mp hbase
    have hpasses := hreaches [] nofun nofun url (by rw [hmade.baseUrl, List.append_nil, hurl])
    rwa [library.parse_url e url hurl] at hpasses
  · intro hpasses path hhead hchars url hurl
    obtain ⟨e', heq, hscheme, hhost, hport⟩ := e.exists_append hhead hchars
    rw [hmade.baseUrl, ← heq] at hurl
    rw [library.parse_url e' url hurl, hscheme, hhost, hport]
    exact hpasses

/-- A reading of URLs by the first separators. -/
def readUrl (url : Text) : Option ParsedUrl :=
  let split := splitScheme url
  let parts : SplitResult := ⟨split.1, (splitNetloc split.2).1, [], [], []⟩
  parts.port.map fun port => ⟨split.1, parts.hostinfo.1, explicitPort split.1 port⟩

theorem readUrl_eq (e : Endpoint) (url : ParsedUrl) (h : readUrl e.url = some url) :
    url = ⟨e.scheme, e.host, explicitPort e.scheme e.port⟩ := by
  obtain ⟨port, hport, rfl⟩ := Option.map_eq_some_iff.mp h
  rw [e.splitScheme_eq] at hport ⊢
  rw [e.splitNetloc_eq] at hport ⊢
  rw [e.port_eq rfl hport, e.hostinfo_eq rfl]

/-- A library for hosts of one name. -/
def bookLibrary : HttpLibrary where
  parse := readUrl
  decode _ := some "bücher.example".toList
  parse_url := readUrl_eq
  decode_ne host hprefix heq := by
    cases heq
    exact absurd hprefix (by decide)

/-- Unicode tables that encode this name. -/
def bookTables : UnicodeTables := ⟨id, id, fun _ => some "xn--bcher-kva.example".toList⟩

/-- A client of an address reaches its server. -/
theorem reaches_iff_address :
    ∃ client, makeOllamaClient bookTables (fun _ _ => some ["2001:4860::1".toList])
      "https://[2001:4860::1]:8443/v".toList [] false [] = .ok client ∧
      Reaches bookLibrary client := by
  have hmade : makeOllamaClient bookTables (fun _ _ => some ["2001:4860::1".toList])
      "https://[2001:4860::1]:8443/v".toList [] false [] =
      .ok ⟨"https://[2001:4860::1]:8443/v".toList, [],
        ⟨"https".toList, "2001:4860::1".toList, 8443, "2001:4860::1".toList⟩⟩ := by decide +kernel
  obtain ⟨parts, host, port, hsplit, hiff⟩ := reaches_iff bookLibrary hmade (by decide +kernel)
  refine ⟨_, hmade, hiff.mpr ?_⟩
  have hhost : (splitEndpoint bookTables "https://[2001:4860::1]:8443/v".toList).map
      (fun split => split.2.1) = .ok "2001:4860::1".toList := by decide +kernel
  rw [hsplit] at hhost
  cases hhost
  decide

/-- A client of an internationalized name does not reach its server. -/
theorem not_reaches_book :
    ¬∀ (library : HttpLibrary) (tables : UnicodeTables)
      (getaddrinfo : Text → Nat → Option (List Text)) (baseUrl apiKey : Text)
      (allowPrivateNetwork : Bool) (allowedPrivateHosts : List Text) (client : OllamaClient),
      makeOllamaClient tables getaddrinfo baseUrl apiKey allowPrivateNetwork
        allowedPrivateHosts = .ok client →
      (library.parse client.baseUrl).isSome = true → Reaches library client := by
  intro hall
  have hmade : makeOllamaClient bookTables (fun _ _ => some ["8.8.8.8".toList])
      "https://bücher.example".toList [] false [] =
      .ok ⟨"https://xn--bcher-kva.example".toList, [],
        ⟨"https".toList, "xn--bcher-kva.example".toList, 443, "8.8.8.8".toList⟩⟩ := by
    decide +kernel
  have hreaches := hall bookLibrary _ _ _ _ _ _ _ hmade (by decide +kernel)
  let url : ParsedUrl := ⟨"https".toList, "xn--bcher-kva.example".toList, none⟩
  have hurl : readUrl ("https://xn--bcher-kva.example".toList ++ "/api/tags".toList) =
      some url := by
    decide +kernel
  have hhead : ∀ c ∈ "/api/tags".toList.head?, c = '/' := by
    rintro c ⟨⟩
    rfl
  obtain ⟨request, connection, hrequest, hsent⟩ :=
    hreaches "/api/tags".toList hhead (forall_of_all (by decide)) url hurl
  have hdecoded : bookLibrary.host url.rawHost = some "bücher.example".toList :=
    if_pos (by decide)
  obtain ⟨host, hhost, rfl⟩ := Option.map_eq_some_iff.mp hrequest
  rw [hdecoded] at hhost
  cases hhost
  unfold PinnedTransport.handleAsyncRequest at hsent
  split_ifs at hsent with hsame
  exact absurd (not_not.mp hsame) (by decide)

end Maeglagi.Provider
