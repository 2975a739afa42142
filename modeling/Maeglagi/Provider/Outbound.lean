import Maeglagi.Provider.EndpointUrl

/-!
# Where an Ollama client connects to

A client that the factory returns connects only to an address that was checked, also where it
is written as an IPv4-mapped one. Every other destination is refused.
-/

namespace Maeglagi.Provider

open Core

/-- A text is an address, and a property holds of each form of it. -/
def EveryForm (p : IpAddress → Prop) (value : Text) : Prop :=
  ∃ address, ipAddress value = some address ∧ ∀ form ∈ address.forms, p form

section addresses

variable {ip : BitVec 128} {scopeId : Option Text}

/-- A mapped address is in none of the networks that connections must not go to. -/
theorem forbidden_mapped (h : IpAddress.mappedNetwork.contains ip = true) :
    forbidden (.v6 ip scopeId) = false := by
  have hlocal : (IpAddress.v6 ip scopeId).isLinkLocal = false :=
    (Network.contains_eq (by decide) h).trans (by decide)
  have hmulticast : (IpAddress.v6 ip scopeId).isMulticast = false :=
    (Network.contains_eq (by decide) h).trans (by decide)
  have hne : ∀ other : BitVec 128, IpAddress.mappedNetwork.contains other = false → ip ≠ other := by
    rintro other hother rfl
    rw [hother] at h
    cases h
  have hunspecified : (IpAddress.v6 ip scopeId).isUnspecified = false :=
    decide_eq_false (hne _ (by decide))
  have hmetadata : IpAddress.v6 ip scopeId ∉ metadataAddresses := by
    unfold metadataAddresses
    simp [hne _ (show IpAddress.mappedNetwork.contains (hextets [0xfd00, 0xec2] 0x254) = false by
      decide), hne _ (show IpAddress.mappedNetwork.contains (hextets [0xfd20, 0xce] 0x254) = false
      by decide)]
  unfold forbidden
  rw [hlocal, hmulticast, hunspecified, decide_eq_false hmetadata]
  rfl

/-- An address of a private network is private: the exceptions are elsewhere. -/
theorem isPrivate4_of_contains {ip : BitVec 32} {n : Network 32}
    (hn : n ∈ IpAddress.privateNetworks4) (hip : n.contains ip = true)
    (hexceptions : ∀ m ∈ IpAddress.privateExceptions4, n.contains m.address = false) :
    IpAddress.isPrivate4 ip = true := by
  have hlength : ∀ m ∈ IpAddress.privateExceptions4, m.length = 32 := by decide
  refine Bool.and_eq_true_iff.mpr ⟨List.any_eq_true.mpr ⟨n, hn, hip⟩, List.all_eq_true.mpr ?_⟩
  intro m hm
  cases hcontains : m.contains ip with
  | false => rfl
  | true =>
    have hle : n.length ≤ m.length := by
      rw [hlength m hm]
      exact n.length_le
    have heq := Network.contains_eq hle hcontains
    rw [hip, hexceptions m hm] at heq
    cases heq

/-- A private or loopback address of version 4 is not global. -/
theorem isPrivate4_of_private {ip : BitVec 32}
    (h : (IpAddress.v4 ip).isLoopback = true ∨ inPrivateNetworks (.v4 ip) = true) :
    IpAddress.isPrivate4 ip = true := by
  rcases h with h | h
  · exact isPrivate4_of_contains (by decide) h (by decide)
  · obtain ⟨n, hn, hip⟩ := List.any_eq_true.mp h
    have hall : ∀ m ∈ [(network (octets 10 0 0 0) 8),
        network (octets 172 16 0 0) 12, network (octets 192 168 0 0) 16],
        m ∈ IpAddress.privateNetworks4 ∧
          ∀ e ∈ IpAddress.privateExceptions4, m.contains e.address = false := by decide
    exact isPrivate4_of_contains (hall n hn).1 hip (hall n hn).2

/-- An address is its only form, or it is mapped from another one. -/
theorem forms_cases (address : IpAddress) :
    (address.forms = [address] ∧ unmapped address = address) ∨
      ∃ ip scopeId, address = .v6 ip scopeId ∧ IpAddress.mappedNetwork.contains ip = true ∧
        address.forms = [address, .v4 (ip.setWidth 32)] ∧
        unmapped address = .v4 (ip.setWidth 32) := by
  cases address with
  | v4 ip => exact .inl ⟨rfl, rfl⟩
  | v6 ip scopeId =>
    by_cases hmapped : IpAddress.mappedNetwork.contains ip = true
    · have hv4 : (IpAddress.v6 ip scopeId).ipv4Mapped = some (.v4 (ip.setWidth 32)) :=
        if_pos hmapped
      refine .inr ⟨ip, scopeId, rfl, hmapped, ?_, ?_⟩
      · rw [IpAddress.forms, hv4]
        rfl
      · rw [unmapped, hv4]
        rfl
    · have hnone : (IpAddress.v6 ip scopeId).ipv4Mapped = none := if_neg hmapped
      refine .inl ⟨?_, ?_⟩
      · rw [IpAddress.forms, hnone]
        rfl
      · rw [unmapped, hnone]
        rfl

variable {value : Text} {allowPrivate : Bool}

/-- What is known about an acceptable address. -/
theorem safeAddress_eq_true (h : safeAddress value allowPrivate = true) :
    ∃ address, ipAddress value = some address ∧ forbidden (unmapped address) = false ∧
      ((unmapped address).isGlobal = false → allowPrivate = true ∧
        ((unmapped address).isLoopback = true ∨ inPrivateNetworks (unmapped address) = true)) := by
  unfold safeAddress at h
  split at h
  · cases h
  · next address haddress =>
    refine ⟨address, haddress, ?_⟩
    dsimp only at h
    split_ifs at h with hscope hbad hglobal
    · exact ⟨(Bool.or_eq_false_iff.mp (Bool.eq_false_of_not_eq_true hbad)).1,
        fun hnot => absurd hglobal (by rw [hnot]; decide)⟩
    · obtain ⟨hallow, hprivate⟩ := Bool.and_eq_true_iff.mp h
      exact ⟨(Bool.or_eq_false_iff.mp (Bool.eq_false_of_not_eq_true hbad)).1,
        fun _ => ⟨hallow, Bool.or_eq_true_iff.mp hprivate⟩⟩

/-- No form of an acceptable address is a forbidden one. -/
theorem everyForm_not_forbidden (h : safeAddress value allowPrivate = true) :
    EveryForm (fun form => forbidden form = false) value := by
  obtain ⟨address, haddress, hnot, -⟩ := safeAddress_eq_true h
  refine ⟨address, haddress, ?_⟩
  rcases forms_cases address with ⟨hforms, hself⟩ | ⟨ip, scopeId, rfl, hmapped, hforms, hself⟩
  · rw [hforms]
    rw [hself] at hnot
    simpa using hnot
  · rw [hforms]
    rw [hself] at hnot
    simpa using ⟨forbidden_mapped hmapped, hnot⟩

/-- Without permission every form is global. -/
theorem everyForm_global (h : safeAddress value allowPrivate = true) (hnot : allowPrivate = false) :
    EveryForm (fun form => form.isGlobal = true) value := by
  obtain ⟨address, haddress, -, hprivate⟩ := safeAddress_eq_true h
  have hglobal : (unmapped address).isGlobal = true := by
    by_contra hcontra
    have hallow := (hprivate (Bool.eq_false_of_not_eq_true hcontra)).1
    rw [hnot] at hallow
    cases hallow
  refine ⟨address, haddress, ?_⟩
  rcases forms_cases address with ⟨hforms, hself⟩ | ⟨ip, scopeId, rfl, hmapped, hforms, hself⟩
  · rw [hforms]
    rw [hself] at hglobal
    simpa using hglobal
  · rw [hforms]
    rw [hself] at hglobal
    have hv6 : (IpAddress.v6 ip scopeId).isGlobal = !IpAddress.isPrivate4 (ip.setWidth 32) :=
      congrArg Bool.not (if_pos hmapped)
    have hpublic : (!IpAddress.isPrivate4 (ip.setWidth 32)) = true :=
      (Bool.and_eq_true_iff.mp hglobal).2
    simpa using ⟨hv6.trans hpublic, hglobal⟩

/-- No form of an acceptable address that is not public is global. -/
theorem everyForm_not_global (h : safeAddress value allowPrivate = true)
    (hnot : isPublicAddress value = false) :
    EveryForm (fun form => form.isGlobal = false) value := by
  obtain ⟨address, haddress, -, hprivate⟩ := safeAddress_eq_true h
  have hglobal : (unmapped address).isGlobal = false := by
    unfold isPublicAddress at hnot
    rwa [haddress] at hnot
  refine ⟨address, haddress, ?_⟩
  rcases forms_cases address with ⟨hforms, hself⟩ | ⟨ip, scopeId, rfl, hmapped, hforms, hself⟩
  · rw [hforms]
    rw [hself] at hglobal
    simpa using hglobal
  · rw [hforms]
    rw [hself] at hglobal hprivate
    have hv6 : (IpAddress.v6 ip scopeId).isGlobal = !IpAddress.isPrivate4 (ip.setWidth 32) :=
      congrArg Bool.not (if_pos hmapped)
    have hpriv := isPrivate4_of_private (hprivate hglobal).2
    rw [hpriv] at hv6
    simpa using ⟨hv6, hglobal⟩

end addresses

section clients

variable {tables : UnicodeTables} {getaddrinfo : Text → Nat → Option (List Text)}
  {baseUrl apiKey : Text} {allowPrivateNetwork : Bool} {allowedPrivateHosts : List Text}
  {client : OllamaClient}

/-- An entry of the allowlist names a host, with its port or with none. -/
def Permits (tables : UnicodeTables) (host : Text) (port : Nat) (entry : Text) : Prop :=
  ∃ parsed, entryUrl tables entry = .ok parsed ∧ parsed.path = [] ∧
    parsed.hostname tables = some host ∧
    (parsed.port = some none ∨ parsed.port = some (some port))

/-- A host is allowed by an entry that names it. -/
theorem exists_permits {host : Text} {port : Nat} {entries : List Text}
    (h : allowedHost tables host port entries = .ok true) :
    ∃ entry ∈ entries, Permits tables host port entry := by
  induction entries with
  | nil => cases h
  | cons entry entries ih =>
    obtain ⟨parsed, hparsed, h⟩ := bind_eq_ok.mp h
    obtain ⟨_, hpath, h⟩ := bind_eq_ok.mp h
    have hpath := List.isEmpty_iff.mp (valid_eq_ok hpath)
    have hrest : allowedHost tables host port entries = .ok true →
        ∃ other ∈ entry :: entries, Permits tables host port other := by
      intro hrest
      obtain ⟨other, hother, hpermits⟩ := ih hrest
      exact ⟨other, List.mem_cons_of_mem _ hother, hpermits⟩
    split_ifs at h with hhost
    · exact hrest h
    · obtain ⟨entryPort, hport, h⟩ := bind_eq_ok.mp h
      split_ifs at h with hmatch
      · have hport := ofUrllib_eq_ok hport
        refine ⟨entry, List.mem_cons_self, parsed, wrapped_eq_ok hparsed, hpath,
          not_not.mp hhost, ?_⟩
        rw [hport]
        exact hmatch.imp (congrArg some) (congrArg some)
      · exact hrest h

/-- What was checked for a client: the parts of its URL, the permission and the addresses. -/
structure Made (tables : UnicodeTables) (getaddrinfo : Text → Nat → Option (List Text))
    (baseUrl apiKey : Text) (allowPrivateNetwork : Bool) (allowedPrivateHosts : List Text)
    (client : OllamaClient) (e : Endpoint) (allowPrivate : Bool) (records : List Text) : Prop where
  split : ∃ parts, splitEndpoint tables baseUrl = .ok (parts, e.host, e.port)
  baseUrl : client.baseUrl = e.url
  origin : (client.transport.scheme, client.transport.host, client.transport.port) =
    (e.scheme, e.host, portOr e.scheme e.port)
  permission : privatePermission tables client.transport.host client.transport.port
    allowPrivateNetwork allowedPrivateHosts = .ok allowPrivate
  resolved : getaddrinfo client.transport.host client.transport.port = some records
  address : client.transport.address ∈ records
  safe : ∀ address ∈ records, safeAddress address allowPrivate = true
  http : e.scheme = "http".toList →
    allowPrivate = true ∧ ∀ address ∈ records, isPublicAddress address = false
  key : apiKey ≠ [] → e.scheme = "http".toList → allowPrivateNetwork = true
  headers : client.headers = if apiKey = [] then []
    else [("Authorization".toList, "Bearer ".toList ++ apiKey)]

/-- What the factory checked before it returned a client. -/
theorem makeOllamaClient_eq_ok (h : makeOllamaClient tables getaddrinfo baseUrl apiKey
    allowPrivateNetwork allowedPrivateHosts = .ok client) :
    ∃ e allowPrivate records, Made tables getaddrinfo baseUrl apiKey allowPrivateNetwork
      allowedPrivateHosts client e allowPrivate records := by
  obtain ⟨url, hurl, h⟩ := bind_eq_ok.mp h
  obtain ⟨parts, hparts, h⟩ := bind_eq_ok.mp h
  obtain ⟨port, hport, h⟩ := bind_eq_ok.mp h
  obtain ⟨allowPrivate, hallow, h⟩ := bind_eq_ok.mp h
  obtain ⟨addresses, haddresses, h⟩ := bind_eq_ok.mp h
  obtain ⟨_, hsafe, h⟩ := bind_eq_ok.mp h
  obtain ⟨_, hhttp, h⟩ := bind_eq_ok.mp h
  obtain ⟨_, -, h⟩ := bind_eq_ok.mp h
  obtain ⟨_, hkey, h⟩ := bind_eq_ok.mp h
  cases h
  obtain ⟨parts', host, port', hsplit, e, rfl, rfl, rfl⟩ := normalize_eq_ok hurl
  obtain ⟨hscheme, hnetloc⟩ := e.urlsplit_eq_some (ofUrllib_eq_ok hparts)
  have hport := e.port_eq hnetloc (ofUrllib_eq_ok hport)
  unfold resolveAddresses at haddresses
  split at haddresses
  · cases haddresses
  · next records hrecords =>
    split_ifs at haddresses with hempty
    · cases haddresses
    · cases haddresses
      have hmem : ∀ a, a ∈ records.eraseDups ↔ a ∈ records := fun a => List.mem_eraseDups
      have hsafe := List.all_eq_true.mp (valid_eq_ok hsafe)
      have hhttp := valid_eq_ok hhttp
      have hkey := valid_eq_ok hkey
      refine ⟨e, allowPrivate, records, ⟨parts', hsplit⟩, rfl, ?_, hallow, hrecords, ?_,
        fun a ha => hsafe a ((hmem a).mpr ha), ?_, ?_, rfl⟩
      · rw [e.hostname_eq tables hnetloc, hscheme, hport]
      · obtain ⟨a, rest, hlist⟩ := List.exists_cons_of_ne_nil hempty
        rw [← hmem, hlist]
        exact List.mem_cons_self
      · intro hplain
        rw [hscheme, decide_eq_true hplain] at hhttp
        simp only [Bool.true_and, Bool.not_eq_true', Bool.or_eq_false_iff, Bool.not_eq_false',
          List.any_eq_false] at hhttp
        exact ⟨hhttp.1, fun a ha =>
          Bool.eq_false_of_not_eq_true (hhttp.2 a ((hmem a).mpr ha))⟩
      · intro hne hplain
        rw [hscheme, decide_eq_true hplain] at hkey
        simpa [hne] using hkey

/-- Where a client connects to, with the addresses that the name server returned for its host. -/
structure OutboundPolicy (tables : UnicodeTables) (allowPrivateNetwork : Bool)
    (allowedPrivateHosts : List Text) (client : OllamaClient) (records : List Text) : Prop where
  /-- The addresses were checked with the permission of the client's own host and port. -/
  acceptable : ∃ allowPrivate, privatePermission tables client.transport.host
    client.transport.port allowPrivateNetwork allowedPrivateHosts = .ok allowPrivate ∧
    ∀ address ∈ records, safeAddress address allowPrivate = true
  /-- A request goes to one of the addresses, and to the port. -/
  pinned : ∀ url sent, client.send url = .ok sent → sent.address ∈ records ∧
    sent.port = client.transport.port ∧ sent.scheme = client.transport.scheme
  /-- Every other destination is refused. -/
  refused : ∀ url : RequestUrl, url.scheme ≠ client.transport.scheme ∨
    url.host ≠ client.transport.host ∨ url.rawHost ≠ client.transport.host ∨
    portOr url.scheme url.port ≠ client.transport.port →
    client.send url = .error "Ollama destination changed".toList
  /-- Without permission for private addresses all are global, and the scheme is `https`. -/
  restricted : allowPrivateNetwork = false → (∀ entry ∈ allowedPrivateHosts,
    ¬Permits tables client.transport.host client.transport.port entry) →
    client.transport.scheme = "https".toList ∧
      ∀ address ∈ records, EveryForm (fun form => form.isGlobal = true) address
  /-- No address is one of metadata, link-local, multicast or unspecified. -/
  never : ∀ address ∈ records, EveryForm (fun form => form ∉ metadataAddresses ∧
    form.isLinkLocal = false ∧ form.isMulticast = false ∧ form.isUnspecified = false) address
  /-- A key is sent over `http` only with the flag, and to no host with a public address. -/
  confidential : ∀ url sent, client.send url = .ok sent → sent.scheme = "http".toList →
    sent.headers ≠ [] → allowPrivateNetwork = true ∧
      ∀ address ∈ records, EveryForm (fun form => form.isGlobal = false) address

/-- A request is sent only to the scheme, the host and the port of the client. -/
theorem send_eq_ok {url : RequestUrl} {sent : Sent} (h : client.send url = .ok sent) :
    (url.scheme = client.transport.scheme ∧ url.host = client.transport.host ∧
      url.rawHost = client.transport.host ∧
      portOr url.scheme url.port = client.transport.port) ∧
    sent = ⟨client.transport.scheme, client.transport.address, client.transport.port,
      client.headers⟩ := by
  obtain ⟨connection, hconnection, h⟩ := bind_eq_ok.mp h
  unfold PinnedTransport.handleAsyncRequest at hconnection
  split_ifs at hconnection with horigin
  have horigin := not_not.mp horigin
  simp only [Prod.mk.injEq] at horigin
  unfold PinnedTransport.connectTcp at hconnection
  split_ifs at hconnection with hhost
  push Not at hhost
  cases hconnection
  cases h
  refine ⟨⟨horigin.1, horigin.2.1, hhost.1, horigin.2.2⟩, ?_⟩
  rw [horigin.2.2, horigin.1]

/-- A request to another destination is refused. -/
theorem send_refused {url : RequestUrl} (h : url.scheme ≠ client.transport.scheme ∨
    url.host ≠ client.transport.host ∨ url.rawHost ≠ client.transport.host ∨
    portOr url.scheme url.port ≠ client.transport.port) :
    client.send url = .error "Ollama destination changed".toList := by
  unfold OllamaClient.send PinnedTransport.handleAsyncRequest PinnedTransport.connectTcp
  split_ifs with horigin hhost
  · rfl
  · rfl
  · have horigin := not_not.mp horigin
    simp only [Prod.mk.injEq] at horigin
    push Not at hhost
    rcases h with h | h | h | h
    · exact absurd horigin.1 h
    · exact absurd horigin.2.1 h
    · exact absurd hhost.1 h
    · exact absurd horigin.2.2 h

/-- The text is an address none of whose forms may be connected to. -/
theorem never_of_safe {value : Text} {allowPrivate : Bool}
    (h : safeAddress value allowPrivate = true) :
    EveryForm (fun form => form ∉ metadataAddresses ∧ form.isLinkLocal = false ∧
      form.isMulticast = false ∧ form.isUnspecified = false) value := by
  obtain ⟨address, haddress, hforms⟩ := everyForm_not_forbidden h
  refine ⟨address, haddress, fun form hform => ?_⟩
  have hnot := hforms form hform
  unfold forbidden at hnot
  simp only [Bool.or_eq_false_iff, decide_eq_false_iff_not] at hnot
  exact ⟨hnot.1.1.1, hnot.1.1.2, hnot.1.2, hnot.2⟩

/-- Without the flag and without an entry that names the host there is no permission. -/
theorem permission_eq_false {host : Text} {port : Nat} {allowPrivate : Bool}
    (h : privatePermission tables host port allowPrivateNetwork allowedPrivateHosts =
      .ok allowPrivate) (hflag : allowPrivateNetwork = false)
    (hentries : ∀ entry ∈ allowedPrivateHosts, ¬Permits tables host port entry) :
    allowPrivate = false := by
  unfold privatePermission at h
  rw [hflag] at h
  cases allowPrivate with
  | false => rfl
  | true =>
    obtain ⟨entry, hentry, hpermits⟩ := exists_permits h
    exact absurd hpermits (hentries entry hentry)

/-- A client that is returned connects only to checked addresses. -/
theorem makeOllamaClient_outboundPolicy (h : makeOllamaClient tables getaddrinfo baseUrl apiKey
    allowPrivateNetwork allowedPrivateHosts = .ok client) :
    ∃ records, getaddrinfo client.transport.host client.transport.port = some records ∧
      OutboundPolicy tables allowPrivateNetwork allowedPrivateHosts client records := by
  obtain ⟨e, allowPrivate, records, hmade⟩ := makeOllamaClient_eq_ok h
  have hscheme : client.transport.scheme = e.scheme := (Prod.mk.inj hmade.origin).1
  refine ⟨records, hmade.resolved, ⟨allowPrivate, hmade.permission, hmade.safe⟩, ?_,
    fun url => send_refused, ?_, fun a ha => never_of_safe (hmade.safe a ha), ?_⟩
  · intro url sent hsent
    rw [(send_eq_ok hsent).2]
    exact ⟨hmade.address, rfl, rfl⟩
  · intro hflag hentries
    have hnot := permission_eq_false hmade.permission hflag hentries
    refine ⟨?_, fun a ha => everyForm_global (hmade.safe a ha) hnot⟩
    rw [hscheme]
    refine e.scheme_eq.resolve_left fun hplain => ?_
    have hallow := (hmade.http hplain).1
    rw [hnot] at hallow
    cases hallow
  · intro url sent hsent hplain hheaders
    rw [(send_eq_ok hsent).2] at hplain hheaders
    have hplain : e.scheme = "http".toList := hscheme.symm.trans hplain
    have hkey : apiKey ≠ [] := by
      rintro rfl
      exact hheaders hmade.headers
    exact ⟨hmade.key hkey hplain, fun a ha =>
      everyForm_not_global (hmade.safe a ha) ((hmade.http hplain).2 a ha)⟩

end clients

/-- Unicode tables that know no text that is not ASCII. -/
def asciiTables : UnicodeTables := ⟨id, id, fun _ => none⟩

/-- A key for a server in the private network, as the administrator allows it. -/
theorem makeOllamaClient_outboundPolicy_private :
    ∃ client records, makeOllamaClient asciiTables (fun _ _ => some ["172.18.0.3".toList])
      "http://ollama:11434".toList "key".toList true [] = .ok client ∧
      OutboundPolicy asciiTables true [] client records := by
  have hmade : makeOllamaClient asciiTables (fun _ _ => some ["172.18.0.3".toList])
      "http://ollama:11434".toList "key".toList true [] =
      .ok ⟨"http://ollama:11434".toList, [("Authorization".toList, "Bearer key".toList)],
        ⟨"http".toList, "ollama".toList, 11434, "172.18.0.3".toList⟩⟩ := by decide +kernel
  obtain ⟨records, -, hpolicy⟩ := makeOllamaClient_outboundPolicy hmade
  exact ⟨_, records, hmade, hpolicy⟩

end Maeglagi.Provider
