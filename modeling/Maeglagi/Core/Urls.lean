import Maeglagi.Core.Uuid

/-!
# URLs and IP addresses
-/

namespace Maeglagi.Core

/-!
## IP addresses

Addresses of versions 4 and 6, how they are written, and how they are classified by the
networks that they are in.
-/

/-- The addresses of `w` bits that share their first bits with an address. -/
structure Network (w : Nat) where
  address : BitVec w
  length : Nat
  length_le : length ≤ w
  deriving DecidableEq

/-- A network of a length; it has no more bits than an address. -/
def network {w : Nat} (address : BitVec w) (length : Nat) : Network w :=
  ⟨address, min length w, Nat.min_le_right length w⟩

/-- The network contains an address. -/
def Network.contains {w : Nat} (n : Network w) (a : BitVec w) : Bool :=
  decide (a.toNat >>> (w - n.length) = n.address.toNat >>> (w - n.length))

/-- Whether an address of a network is in a larger one is decided by the network's own address. -/
theorem Network.contains_eq {w : Nat} {m n : Network w} {a : BitVec w} (hle : n.length ≤ m.length)
    (ha : m.contains a = true) : n.contains a = n.contains m.address := by
  have hshift : w - n.length = (w - m.length) + (m.length - n.length) := by
    have hm := m.length_le
    omega
  have ha := of_decide_eq_true ha
  unfold Network.contains
  rw [hshift, Nat.shiftRight_add, Nat.shiftRight_add, ha, Nat.shiftRight_add]

/-- An IPv4 address of four octets. -/
def octets (a b c d : Nat) : BitVec 32 := BitVec.ofNat 32 (((a * 256 + b) * 256 + c) * 256 + d)

/-- The number that hextets are the digits of. -/
def hextetsValue (hextets : List Nat) : Nat := hextets.foldl (fun n h => n * 65536 + h) 0

/-- An IPv6 address of its first hextets; the others are zero. -/
def hextets (first : List Nat) (last : Nat) : BitVec 128 :=
  BitVec.ofNat 128 (hextetsValue (first ++ List.replicate (7 - first.length) 0) * 65536 + last)

/-- `IPv4Address` or `IPv6Address` -/
inductive IpAddress where
  | v4 (ip : BitVec 32)
  | v6 (ip : BitVec 128) (scopeId : Option Text)
  deriving DecidableEq

/-- `str.partition` at a character: what is before it, and what is after it where there is one. -/
def partition (separator : Char) (t : Text) : Text × Option Text :=
  match t.dropWhile (· ≠ separator) with
  | [] => (t, none)
  | _ :: after => (t.takeWhile (· ≠ separator), some after)

/-- An ASCII digit. -/
def isAsciiDigit (c : Char) : Bool := '0' ≤ c && c ≤ '9'

/-- `_parse_octet` -/
def parseOctet (t : Text) : Option Nat :=
  if t = [] ∨ t.all isAsciiDigit = false ∨ 3 < t.length ∨ (t ≠ ['0'] ∧ t.head? = some '0') then none
  else
    let octet := Nat.ofDigitChars 10 t 0
    if 255 < octet then none else some octet

/-- `IPv4Address(_)` of a text -/
def ipv4Address (t : Text) : Option (BitVec 32) :=
  if '/' ∈ t then none
  else match t.splitOn '.' with
    | [a, b, c, d] => do
      let a ← parseOctet a
      let b ← parseOctet b
      let c ← parseOctet c
      let d ← parseOctet d
      return octets a b c d
    | _ => none

/-- `_parse_hextet` -/
def parseHextet (t : Text) : Option Nat :=
  if t = [] ∨ 4 < t.length then none
  else do
    let digits ← t.mapM readDigit
    return digits.foldl (fun n d => n * 16 + d.val) 0

/-- `_split_scope_id` -/
def splitScopeId (t : Text) : Option (Text × Option Text) :=
  match partition '%' t with
  | (address, none) => some (address, none)
  | (address, some scope) => if scope = [] ∨ '%' ∈ scope then none else some (address, some scope)

/-- The parts of an IPv6 address, with an IPv4 suffix as two of them. -/
def ipv6Parts (t : Text) : Option (List Text) :=
  let parts := t.splitOn ':'
  if parts.length < 3 then none
  else
    let last := parts.getLastD []
    if '.' ∈ last then do
      let ip ← ipv4Address last
      return parts.dropLast ++
        [Nat.toDigits 16 (ip.toNat / 65536), Nat.toDigits 16 (ip.toNat % 65536)]
    else some parts

/-- The number of parts before or after `::`; an empty one at the end stands only beside it. -/
def besideSkip (parts : List Text) (atEnd : Option Text) : Option (List Text) :=
  if atEnd = some [] then if parts.length = 1 then some [] else none else some parts

/-- `_ip_int_from_string` of version 6 -/
def ipv6Value (t : Text) : Option Nat := do
  let parts ← ipv6Parts t
  if 9 < parts.length then none
  else match (List.range parts.length).filter fun i =>
      decide (0 < i) && decide (i + 1 < parts.length) && decide (parts[i]? = some []) with
    | [] =>
      if parts.length ≠ 8 then none
      else do
        let hextets ← parts.mapM parseHextet
        return hextetsValue hextets
    | [skip] => do
      let high ← besideSkip (parts.take skip) parts.head?
      let low ← besideSkip (parts.drop (skip + 1)) parts.getLast?
      if 8 - (high.length + low.length) < 1 then none
      else do
        let high' ← high.mapM parseHextet
        let low' ← low.mapM parseHextet
        return hextetsValue (high' ++ List.replicate (8 - (high.length + low.length)) 0 ++ low')
    | _ => none

/-- `IPv6Address(_)` of a text -/
def ipv6Address (t : Text) : Option (BitVec 128 × Option Text) :=
  if '/' ∈ t then none
  else do
    let split ← splitScopeId t
    let value ← ipv6Value split.1
    return (BitVec.ofNat 128 value, split.2)

/-- `ipaddress.ip_address`, without a result where it raises `ValueError` -/
def ipAddress (t : Text) : Option IpAddress :=
  match ipv4Address t with
  | some ip => some (.v4 ip)
  | none => (ipv6Address t).map fun a => .v6 a.1 a.2

/-- The longest run of zeros so far, and the one that the loop is in. -/
structure ZeroRuns where
  bestStart : Nat
  bestLength : Nat
  start : Nat
  length : Nat

/-- One round of the loop of `_compress_hextets` -/
def ZeroRuns.next (runs : ZeroRuns) (hextet : Text × Nat) : ZeroRuns :=
  if hextet.1 = ['0'] then
    let start := if runs.length = 0 then hextet.2 else runs.start
    let length := runs.length + 1
    if runs.bestLength < length then ⟨start, length, start, length⟩
    else { runs with start, length }
  else { runs with start := 0, length := 0 }

/-- `_compress_hextets` -/
def compressHextets (hextets : List Text) : List Text :=
  let runs := hextets.zipIdx.foldl ZeroRuns.next ⟨0, 0, 0, 0⟩
  let stop := runs.bestStart + runs.bestLength
  if 1 < runs.bestLength then
    (if runs.bestStart = 0 then [[]] else []) ++ hextets.take runs.bestStart ++ [[]] ++
      hextets.drop stop ++ (if stop = hextets.length then [[]] else [])
  else hextets

/-- `str` of an address -/
def IpAddress.text : IpAddress → Text
  | .v4 ip => List.intercalate ['.'] ([24, 16, 8, 0].map fun shift =>
      Nat.toDigits 10 (ip.toNat >>> shift % 256))
  | .v6 ip scopeId =>
    let text := List.intercalate [':'] (compressHextets
      ([112, 96, 80, 64, 48, 32, 16, 0].map fun shift =>
        Nat.toDigits 16 (ip.toNat >>> shift % 65536)))
    match scopeId with
    | some (c :: scope) => text ++ '%' :: c :: scope
    | _ => text

namespace IpAddress

/-- `_private_networks` of version 4 -/
def privateNetworks4 : List (Network 32) :=
  [network (octets 0 0 0 0) 8, network (octets 10 0 0 0) 8,
    network (octets 127 0 0 0) 8, network (octets 169 254 0 0) 16,
    network (octets 172 16 0 0) 12, network (octets 192 0 0 0) 24,
    network (octets 192 0 0 170) 31, network (octets 192 0 2 0) 24,
    network (octets 192 168 0 0) 16, network (octets 198 18 0 0) 15,
    network (octets 198 51 100 0) 24, network (octets 203 0 113 0) 24,
    network (octets 240 0 0 0) 4, network (octets 255 255 255 255) 32]

/-- `_private_networks_exceptions` of version 4 -/
def privateExceptions4 : List (Network 32) :=
  [network (octets 192 0 0 9) 32, network (octets 192 0 0 10) 32]

/-- `_private_networks` of version 6 -/
def privateNetworks6 : List (Network 128) :=
  [network (hextets [] 1) 128, network (hextets [] 0) 128,
    network (hextets [0, 0, 0, 0, 0, 0xffff] 0) 96,
    network (hextets [0x64, 0xff9b, 1] 0) 48, network (hextets [0x100] 0) 64,
    network (hextets [0x2001] 0) 23, network (hextets [0x2001, 0xdb8] 0) 32,
    network (hextets [0x2002] 0) 16, network (hextets [0x3fff] 0) 20,
    network (hextets [0xfc00] 0) 7, network (hextets [0xfe80] 0) 10]

/-- `_private_networks_exceptions` of version 6 -/
def privateExceptions6 : List (Network 128) :=
  [network (hextets [0x2001, 1] 1) 128, network (hextets [0x2001, 1] 2) 128,
    network (hextets [0x2001, 3] 0) 32, network (hextets [0x2001, 4, 0x112] 0) 48,
    network (hextets [0x2001, 0x20] 0) 28, network (hextets [0x2001, 0x30] 0) 28]

/-- `_reserved_networks` of version 6 -/
def reservedNetworks6 : List (Network 128) :=
  [network (hextets [0] 0) 8, network (hextets [0x100] 0) 8,
    network (hextets [0x200] 0) 7, network (hextets [0x400] 0) 6,
    network (hextets [0x800] 0) 5, network (hextets [0x1000] 0) 4,
    network (hextets [0x4000] 0) 3, network (hextets [0x6000] 0) 3,
    network (hextets [0x8000] 0) 3, network (hextets [0xa000] 0) 3,
    network (hextets [0xc000] 0) 3, network (hextets [0xe000] 0) 4,
    network (hextets [0xf000] 0) 5, network (hextets [0xf800] 0) 6,
    network (hextets [0xfe00] 0) 9]

/-- The network of the IPv4-mapped addresses. -/
def mappedNetwork : Network 128 := network (hextets [0, 0, 0, 0, 0, 0xffff] 0) 96

/-- `is_private` of version 4 -/
def isPrivate4 (ip : BitVec 32) : Bool :=
  privateNetworks4.any (·.contains ip) && privateExceptions4.all fun n => !n.contains ip

/-- `ipv4_mapped` -/
def ipv4Mapped : IpAddress → Option IpAddress
  | .v4 _ => none
  | .v6 ip _ => if mappedNetwork.contains ip then some (.v4 (ip.setWidth 32)) else none

/-- `is_private` -/
def isPrivate : IpAddress → Bool
  | .v4 ip => isPrivate4 ip
  | .v6 ip _ =>
    if mappedNetwork.contains ip then isPrivate4 (ip.setWidth 32)
    else privateNetworks6.any (·.contains ip) && privateExceptions6.all fun n => !n.contains ip

/-- `is_global` -/
def isGlobal (a : IpAddress) : Bool :=
  match a with
  | .v4 ip => !(network (octets 100 64 0 0) 10).contains ip && !a.isPrivate
  | .v6 _ _ => !a.isPrivate

/-- `is_reserved` -/
def isReserved : IpAddress → Bool
  | .v4 ip => (network (octets 240 0 0 0) 4).contains ip
  | .v6 ip _ => reservedNetworks6.any (·.contains ip)

/-- `is_loopback` -/
def isLoopback : IpAddress → Bool
  | .v4 ip => (network (octets 127 0 0 0) 8).contains ip
  | .v6 ip _ => decide (ip = hextets [] 1)

/-- `is_link_local` -/
def isLinkLocal : IpAddress → Bool
  | .v4 ip => (network (octets 169 254 0 0) 16).contains ip
  | .v6 ip _ => (network (hextets [0xfe80] 0) 10).contains ip

/-- `is_multicast` -/
def isMulticast : IpAddress → Bool
  | .v4 ip => (network (octets 224 0 0 0) 4).contains ip
  | .v6 ip _ => (network (hextets [0xff00] 0) 8).contains ip

/-- `is_unspecified` -/
def isUnspecified : IpAddress → Bool
  | .v4 ip => decide (ip = octets 0 0 0 0)
  | .v6 ip _ => decide (ip = hextets [] 0)

/-- An address, and the one that it is mapped from. -/
def forms (a : IpAddress) : List IpAddress := a :: a.ipv4Mapped.toList

end IpAddress

/-!
## Splitting URLs

`urllib.parse.urlsplit`, and the host and the port of what it returns. What the Unicode tables
say about text that is not ASCII is given.
-/

/-- What the Unicode tables say about text that is not ASCII. -/
structure UnicodeTables where
  /-- `unicodedata.normalize("NFKC", _)` -/
  nfkc : Text → Text
  /-- `str.lower` -/
  lower : Text → Text
  /-- `_.encode("idna")`, without a result where it raises `UnicodeError` -/
  idna : Text → Option Text

/-- `str.isascii` -/
def isAscii (t : Text) : Bool := t.all fun c => decide (c.toNat < 128)

/-- `str.lower` -/
def UnicodeTables.lowered (tables : UnicodeTables) (t : Text) : Text :=
  if isAscii t then t.map Char.toLower else tables.lower t

/-- An ASCII letter. -/
def isAsciiLetter (c : Char) : Bool := ('a' ≤ c && c ≤ 'z') || ('A' ≤ c && c ≤ 'Z')

/-- `SplitResult` -/
structure SplitResult where
  scheme : Text
  netloc : Text
  path : Text
  query : Text
  fragment : Text

/-- The scheme of a URL and what is after it; empty where the URL has none. -/
def splitScheme (url : Text) : Text × Text :=
  match partition ':' url with
  | (c :: scheme, some rest) =>
    if isAsciiLetter c && (c :: scheme).all fun d =>
        isAsciiLetter d || isAsciiDigit d || d = '+' || d = '-' || d = '.' then
      ((c :: scheme).map Char.toLower, rest)
    else ([], url)
  | _ => ([], url)

/-- A character that ends the authority of a URL. -/
def endsNetloc (c : Char) : Bool := c = '/' || c = '?' || c = '#'

/-- `_splitnetloc` behind `//` -/
def splitNetloc (url : Text) : Text × Text :=
  match url with
  | '/' :: '/' :: rest =>
    (rest.takeWhile fun c => !endsNetloc c, rest.dropWhile fun c => !endsNetloc c)
  | _ => ([], url)

/-- `_check_bracketed_host` -/
def bracketedHostValid (hostname : Text) : Bool :=
  match hostname with
  | 'v' :: rest =>
    let isHex : Char → Bool := fun c => (readDigit c).isSome
    match rest.takeWhile isHex, rest.dropWhile isHex with
    | _ :: _, '.' :: _ :: _ => true
    | _, _ => false
  | _ => match ipAddress hostname with
    | some (.v6 _ _) => true
    | _ => false

/-- What is behind the last `@`. -/
def hostAndPort (netloc : Text) : Text := (netloc.reverse.takeWhile (· ≠ '@')).reverse

/-- `_check_bracketed_netloc` -/
def bracketedNetlocValid (netloc : Text) : Bool :=
  match partition '[' (hostAndPort netloc) with
  | (before, some bracketed) =>
    let split := partition ']' bracketed
    before.isEmpty && (split.2.getD []).head?.all (fun c => decide (c = ':')) &&
      bracketedHostValid split.1
  | (rest, none) => bracketedHostValid (partition ':' rest).1

/-- The checks of the brackets of an authority. -/
def bracketsValid (netloc : Text) : Bool :=
  decide ('[' ∈ netloc ↔ ']' ∈ netloc) && (decide ('[' ∉ netloc) || bracketedNetlocValid netloc)

/-- `_checknetloc` -/
def netlocValid (tables : UnicodeTables) (netloc : Text) : Bool :=
  let n := netloc.filter fun c => decide (c ∉ ['@', ':', '#', '?'])
  isAscii netloc || decide (tables.nfkc n = n) ||
    (tables.nfkc n).all fun c => decide (c ∉ ['/', '?', '#', '@', ':'])

/-- `urlsplit`, without a result where it raises `ValueError` -/
def urlsplit (tables : UnicodeTables) (url : Text) : Option SplitResult :=
  let url := (url.dropWhile fun c => decide (c.toNat ≤ 32)).filter fun c =>
    decide (c ∉ ['\t', '\r', '\n'])
  let (scheme, url) := splitScheme url
  let (netloc, url) := splitNetloc url
  if bracketsValid netloc then
    let (url, fragment) := partition '#' url
    let (path, query) := partition '?' url
    if netlocValid tables netloc then
      some ⟨scheme, netloc, path, query.getD [], fragment.getD []⟩
    else none
  else none

namespace SplitResult

/-- `_hostinfo`; no port where it is empty. -/
def hostinfo (parts : SplitResult) : Text × Option Text :=
  let split := match partition '[' (hostAndPort parts.netloc) with
    | (_, some bracketed) =>
      let split := partition ']' bracketed
      (split.1, (partition ':' (split.2.getD [])).2)
    | (rest, none) => partition ':' rest
  (split.1, split.2.filter fun port => !port.isEmpty)

/-- `hostname` -/
def hostname (tables : UnicodeTables) (parts : SplitResult) : Option Text :=
  match parts.hostinfo.1 with
  | [] => none
  | c :: hostname => match partition '%' (c :: hostname) with
    | (host, none) => some (tables.lowered host)
    | (host, some zone) => some (tables.lowered host ++ '%' :: zone)

/-- `port`, without a result where it raises `ValueError` -/
def port (parts : SplitResult) : Option (Option Nat) :=
  match parts.hostinfo.2 with
  | none => some none
  | some port =>
    if port.all isAsciiDigit && decide (Nat.ofDigitChars 10 port 0 ≤ 65535) then
      some (some (Nat.ofDigitChars 10 port 0))
    else none

end SplitResult

end Maeglagi.Core
