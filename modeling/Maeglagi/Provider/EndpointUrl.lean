import Mathlib.Data.List.TakeWhile
import Maeglagi.Provider.OllamaEndpoint

/-!
# Normalized endpoints

What a normalized URL is made of, and that it is split into the same parts again.
-/

namespace Maeglagi.Provider

open Core

/-- A character of a canonical host: of a label, of a dotted address or of an IPv6 address. -/
def IsHostChar (c : Char) : Prop := isLabelChar c = true ∨ c = '.' ∨ c = ':'

instance (c : Char) : Decidable (IsHostChar c) := inferInstanceAs (Decidable (_ ∨ _ ∨ _))

section partition

variable {c : Char} {a b : Text}

theorem partition_append (h : c ∉ a) : partition c (a ++ c :: b) = (a, some b) := by
  have hne : ∀ d ∈ a, decide (d ≠ c) = true := fun d hd => decide_eq_true fun heq => h (heq ▸ hd)
  unfold partition
  rw [List.dropWhile_append_of_pos hne, List.takeWhile_append_of_pos hne]
  simp

theorem partition_of_notMem (h : c ∉ a) : partition c a = (a, none) := by
  have hdrop : a.dropWhile (fun d => decide (d ≠ c)) = [] :=
    List.dropWhile_eq_nil_iff.mpr fun d hd => decide_eq_true fun heq => h (heq ▸ hd)
  unfold partition
  rw [hdrop]

theorem mem_of_mem_partition_fst : ∀ d ∈ (partition c a).1, d ∈ a := by
  unfold partition
  split
  · exact fun d hd => hd
  · exact fun d hd => (List.takeWhile_prefix _).subset hd

theorem mem_of_mem_partition_snd {after : Text} (h : (partition c a).2 = some after) :
    ∀ d ∈ after, d ∈ a := by
  unfold partition at h
  split at h
  · cases h
  · next hdrop =>
    cases h
    intro d hd
    have hmem : d ∈ a.dropWhile fun d => decide (d ≠ c) := by
      rw [hdrop]
      exact List.mem_cons_of_mem _ hd
    exact (List.dropWhile_suffix _).subset hmem

/-- What is behind the last `@` of a text without one. -/
theorem hostAndPort_of_notMem (h : '@' ∉ a) : hostAndPort a = a := by
  have htake : a.reverse.takeWhile (fun d => decide (d ≠ '@')) = a.reverse :=
    List.takeWhile_eq_self_iff.mpr fun d hd =>
      decide_eq_true fun heq => h (heq ▸ List.mem_reverse.mp hd)
  unfold hostAndPort
  rw [htake, List.reverse_reverse]

end partition

section characters

theorem isLabelChar_digitChar {d : Nat} (h : d < 16) : isLabelChar (Nat.digitChar d) = true := by
  have hall : ∀ e ∈ List.range 16, isLabelChar (Nat.digitChar e) = true := by decide
  exact hall d (List.mem_range.mpr h)

/-- The digits of a number are characters of a label. -/
theorem isLabelChar_toDigits {b : Nat} (hb : 1 < b) (hb' : b ≤ 16) (n : Nat) :
    ∀ c ∈ Nat.toDigits b n, isLabelChar c = true := by
  induction n using Nat.strong_induction_on with
  | _ n ih =>
    intro c hc
    rw [Nat.toDigits_eq_if hb] at hc
    split_ifs at hc with hlt
    · rw [List.mem_singleton.mp hc]
      exact isLabelChar_digitChar (by omega)
    · have hpos : 0 < n := by omega
      rcases List.mem_append.mp hc with hc | hc
      · exact ih (n / b) (Nat.div_lt_self hpos hb) c hc
      · have hmod : n % b < b := Nat.mod_lt n (by omega)
        rw [List.mem_singleton.mp hc]
        exact isLabelChar_digitChar (by omega)

theorem mem_intercalate {c : Char} {sep : Text} {parts : List Text}
    (h : c ∈ List.intercalate sep parts) : c ∈ sep ∨ ∃ part ∈ parts, c ∈ part := by
  induction parts with
  | nil => exact absurd h List.not_mem_nil
  | cons part parts ih =>
    cases parts with
    | nil =>
      rw [List.intercalate_singleton] at h
      exact .inr ⟨part, List.mem_cons_self, h⟩
    | cons next parts =>
      rw [List.intercalate_cons_cons] at h
      rcases List.mem_append.mp h with h | h
      · rcases List.mem_append.mp h with h | h
        · exact .inr ⟨part, List.mem_cons_self, h⟩
        · exact .inl h
      · refine (ih h).imp_right ?_
        rintro ⟨other, hother, hc⟩
        exact ⟨other, List.mem_cons_of_mem _ hother, hc⟩

theorem eq_nil_of_mem_ite {p : Prop} [Decidable p] {part : Text}
    (h : part ∈ if p then [([] : Text)] else []) : part = [] := by
  split_ifs at h
  · exact List.mem_singleton.mp h
  · exact absurd h List.not_mem_nil

/-- Compressing leaves out hextets and adds empty ones. -/
theorem mem_compressHextets {part : Text} {parts : List Text}
    (h : part ∈ compressHextets parts) : part = [] ∨ part ∈ parts := by
  unfold compressHextets at h
  dsimp only at h
  split at h
  · rcases List.mem_append.mp h with h | h
    · rcases List.mem_append.mp h with h | h
      · rcases List.mem_append.mp h with h | h
        · rcases List.mem_append.mp h with h | h
          · exact .inl (eq_nil_of_mem_ite h)
          · exact .inr (List.mem_of_mem_take h)
        · exact .inl (List.mem_singleton.mp h)
      · exact .inr (List.mem_of_mem_drop h)
    · exact .inl (eq_nil_of_mem_ite h)
  · exact .inr h

/-- An address without a scope is written with characters of a host. -/
theorem isHostChar_text {address : IpAddress} (h : ∀ ip scope, address ≠ .v6 ip (some scope)) :
    ∀ c ∈ address.text, IsHostChar c := by
  intro c hc
  cases address with
  | v4 ip =>
    rcases mem_intercalate hc with hsep | ⟨part, hpart, hc⟩
    · exact .inr (.inl (List.mem_singleton.mp hsep))
    · obtain ⟨i, -, rfl⟩ := List.mem_map.mp hpart
      exact .inl (isLabelChar_toDigits (by decide) (by decide) _ c hc)
  | v6 ip scopeId =>
    cases scopeId with
    | some scope => exact absurd rfl (h ip scope)
    | none =>
      rcases mem_intercalate hc with hsep | ⟨part, hpart, hc⟩
      · exact .inr (.inr (List.mem_singleton.mp hsep))
      · rcases mem_compressHextets hpart with rfl | hpart
        · exact absurd hc List.not_mem_nil
        · obtain ⟨i, -, rfl⟩ := List.mem_map.mp hpart
          exact .inl (isLabelChar_toDigits (by decide) (by decide) _ c hc)

/-- A text without `%` is an address without a scope. -/
theorem scope_eq_none {t : Text} {ip : BitVec 128} {scopeId : Option Text} (ht : '%' ∉ t)
    (h : ipAddress t = some (.v6 ip scopeId)) : scopeId = none := by
  unfold ipAddress at h
  split at h
  · cases h
  · obtain ⟨⟨ip', scope'⟩, haddress, heq⟩ := Option.map_eq_some_iff.mp h
    cases heq
    unfold ipv6Address at haddress
    split_ifs at haddress
    obtain ⟨split, hsplit, haddress⟩ := Option.bind_eq_some_iff.mp haddress
    obtain ⟨value, -, haddress⟩ := Option.bind_eq_some_iff.mp haddress
    cases haddress
    unfold splitScopeId at hsplit
    rw [partition_of_notMem ht] at hsplit
    cases hsplit
    rfl

/-- A host of valid labels is written with characters of a host. -/
theorem isHostChar_of_labels {host : Text} (h : (host.splitOn '.').all isHostLabel = true) :
    ∀ c ∈ host, IsHostChar c := by
  intro c hc
  have hjoined : ['.'].intercalate (host.splitOn '.') = host := List.intercalate_splitOn '.'
  rw [← hjoined] at hc
  rcases mem_intercalate hc with hsep | ⟨label, hlabel, hc⟩
  · exact .inr (.inl (List.mem_singleton.mp hsep))
  · have hvalid := List.all_eq_true.mp h label hlabel
    unfold isHostLabel at hvalid
    simp only [Bool.and_eq_true, List.all_eq_true] at hvalid
    exact .inl (hvalid.1.1.2 c hc)

/-- A canonical host is written with characters of a host. -/
theorem isHostChar_canonicalHost {tables : UnicodeTables} {raw host : Text}
    (h : canonicalHost tables raw = .ok host) : ∀ c ∈ host, IsHostChar c := by
  unfold canonicalHost at h
  split_ifs at h with hraw
  · cases h
  · push Not at hraw
    split at h
    · next address haddress =>
      cases h
      refine isHostChar_text fun ip scope heq => ?_
      rw [heq] at haddress
      cases scope_eq_none hraw.2.1 haddress
    · split at h
      · cases h
      · next ascii hascii =>
        dsimp only at h
        split_ifs at h with hlabels
        · cases h
        · cases h
          push Not at hlabels
          exact isHostChar_of_labels (Bool.eq_true_of_not_eq_false hlabels.2)

/-- The characters of a host by their code points. -/
theorem IsHostChar.toNat {c : Char} (h : IsHostChar c) :
    45 ≤ c.toNat ∧ c.toNat ≤ 122 ∧ (c.toNat < 65 ∨ 90 < c.toNat) := by
  rcases h with h | rfl | rfl
  · unfold isLabelChar isAsciiDigit at h
    simp only [Bool.or_eq_true, Bool.and_eq_true, decide_eq_true_eq, Char.le_def,
      UInt32.le_iff_toNat_le] at h
    rcases h with (h | h) | rfl
    · have hlow : 97 ≤ c.toNat := h.1
      have hhigh : c.toNat ≤ 122 := h.2
      omega
    · have hlow : 48 ≤ c.toNat := h.1
      have hhigh : c.toNat ≤ 57 := h.2
      omega
    · decide
  · decide
  · decide

theorem IsHostChar.toLower {c : Char} (h : IsHostChar c) : c.toLower = c := by
  have hrange := h.toNat.2.2
  unfold Char.toLower
  split_ifs with hupper
  · have hlow : 65 ≤ c.toNat := UInt32.le_iff_toNat_le.mp hupper.1
    have hhigh : c.toNat ≤ 90 := UInt32.le_iff_toNat_le.mp hupper.2
    omega
  · rfl

/-- The separators of a URL are no characters of a host. -/
theorem notMem_of_isHostChar {t : Text} (h : ∀ c ∈ t, IsHostChar c) :
    ∀ c ∈ ['/', '?', '#', '@', '[', ']', '%', '\t', '\r', '\n'], c ∉ t := by
  have hseparators : ∀ c ∈ ['/', '?', '#', '@', '[', ']', '%', '\t', '\r', '\n'],
      ¬IsHostChar c := forall_of_all (by decide)
  exact fun c hc hmem => hseparators c hc (h c hmem)

theorem isAscii_of_isHostChar {t : Text} (h : ∀ c ∈ t, IsHostChar c) : isAscii t = true :=
  List.all_eq_true.mpr fun c hc => decide_eq_true (by have := (h c hc).toNat; omega)

/-- A host is in lower case. -/
theorem lowered_eq_self {tables : UnicodeTables} {t : Text} (h : ∀ c ∈ t, IsHostChar c) :
    tables.lowered t = t := by
  unfold UnicodeTables.lowered
  rw [if_pos (isAscii_of_isHostChar h)]
  exact (List.map_congr_left fun c hc => (h c hc).toLower).trans (List.map_id t)

/-- The digits of a port are characters of a host and read as the port. -/
theorem all_isAsciiDigit_toDigits (n : Nat) : (Nat.toDigits 10 n).all isAsciiDigit = true := by
  refine List.all_eq_true.mpr fun c hc => ?_
  have hdigit := Nat.isDigit_of_mem_toDigits (by decide) (by decide) hc
  unfold Char.isDigit at hdigit
  exact hdigit

end characters

/-- The path of a split URL is written with characters of the URL. -/
theorem mem_of_mem_path {tables : UnicodeTables} {value : Text} {parts : SplitResult}
    (h : urlsplit tables value = some parts) : ∀ c ∈ parts.path, c ∈ value := by
  intro c hc
  unfold urlsplit at h
  dsimp only at h
  generalize hclean : (value.dropWhile fun c => decide (c.toNat ≤ 32)).filter
    (fun c => decide (c ∉ ['\t', '\r', '\n'])) = clean at h
  split_ifs at h
  cases h
  have hmem : c ∈ (splitNetloc (splitScheme clean).2).2 :=
    mem_of_mem_partition_fst c (mem_of_mem_partition_fst c hc)
  have hscheme : c ∈ (splitScheme clean).2 := by
    unfold splitNetloc at hmem
    split at hmem
    · next heq =>
      rw [heq]
      exact List.mem_cons_of_mem _ (List.mem_cons_of_mem _ ((List.dropWhile_suffix _).subset hmem))
    · exact hmem
  have hcleanmem : c ∈ clean := by
    unfold splitScheme at hscheme
    split at hscheme
    · next heq =>
      split_ifs at hscheme
      · exact mem_of_mem_partition_snd (by rw [heq]) c hscheme
      · exact hscheme
    · exact hscheme
  rw [← hclean] at hcleanmem
  exact (List.dropWhile_suffix _).subset (List.mem_filter.mp hcleanmem).1

theorem rstripSlash_start (path : Text) : rstripSlash path <+: path := by
  unfold rstripSlash
  rw [← List.reverse_suffix, List.reverse_reverse]
  exact List.dropWhile_suffix _

/-- A valid path starts with a slash, also without the slashes at its end. -/
theorem head?_rstripSlash {path : Text} (h : pathValid path = true) :
    ∀ c ∈ (rstripSlash path).head?, c = '/' := by
  intro c hc
  obtain ⟨rest, hrest⟩ := rstripSlash_start path
  cases hstrip : rstripSlash path with
  | nil =>
    rw [hstrip] at hc
    cases hc
  | cons d stripped =>
    rw [hstrip] at hc hrest
    cases hc
    unfold pathValid at h
    rw [← hrest] at h
    simp only [List.cons_append, List.isEmpty_cons, Bool.false_or, List.head?_cons,
      Bool.and_eq_true, decide_eq_true_eq, Option.some.injEq] at h
    exact h.1.1.1

/-- The parts of a normalized URL. -/
structure Endpoint where
  scheme : Text
  host : Text
  port : Option Nat
  path : Text
  scheme_eq : scheme = "http".toList ∨ scheme = "https".toList
  host_chars : ∀ c ∈ host, IsHostChar c
  path_head : ∀ c ∈ path.head?, c = '/'
  path_chars : ∀ c ∈ path, c ∉ ['\t', '\r', '\n']

namespace Endpoint

variable (e : Endpoint)

/-- The host and the port. -/
def netloc : Text := authority e.host e.port

/-- The URL of the parts. -/
def url : Text := e.scheme ++ "://".toList ++ e.netloc ++ e.path

/-- The port as it is written. -/
def portText : Text :=
  match e.port with
  | some port => ':' :: Nat.toDigits 10 port
  | none => []

theorem isHostChar_portText : ∀ c ∈ e.portText, IsHostChar c := by
  intro c hc
  unfold portText at hc
  cases hport : e.port with
  | none =>
    rw [hport] at hc
    exact absurd hc List.not_mem_nil
  | some port =>
    rw [hport] at hc
    rcases List.mem_cons.mp hc with rfl | hc
    · exact .inr (.inr rfl)
    · exact .inl (isLabelChar_toDigits (by decide) (by decide) port c hc)

theorem netloc_eq : e.netloc =
    (if ':' ∈ e.host then '[' :: e.host ++ [']'] else e.host) ++ e.portText := rfl

/-- A separator but for brackets is not in the authority. -/
theorem notMem_netloc {c : Char} (hc : c ∈ ['/', '?', '#', '@', '%', '\t', '\r', '\n']) :
    c ∉ e.netloc := by
  have hseparator : c ∈ ['/', '?', '#', '@', '[', ']', '%', '\t', '\r', '\n'] := by
    have hsub : ∀ d ∈ ['/', '?', '#', '@', '%', '\t', '\r', '\n'],
        d ∈ ['/', '?', '#', '@', '[', ']', '%', '\t', '\r', '\n'] := forall_of_all (by decide)
    exact hsub c hc
  have hbracket : c ≠ '[' ∧ c ≠ ']' := by
    have hne : ∀ d ∈ ['/', '?', '#', '@', '%', '\t', '\r', '\n'], d ≠ '[' ∧ d ≠ ']' :=
      forall_of_all (by decide)
    exact hne c hc
  have hhost := notMem_of_isHostChar e.host_chars c hseparator
  have hport := notMem_of_isHostChar e.isHostChar_portText c hseparator
  rw [netloc_eq]
  split_ifs
  · simp [hbracket, hhost, hport]
  · simp [hhost, hport]

/-- The authority is what is before the path. -/
theorem splitNetloc_eq : splitNetloc ('/' :: '/' :: (e.netloc ++ e.path)) = (e.netloc, e.path) := by
  have hnetloc : ∀ c ∈ e.netloc, (!endsNetloc c) = true := by
    intro c hc
    unfold endsNetloc
    have hslash : c ≠ '/' := fun heq => e.notMem_netloc (by decide) (heq ▸ hc)
    have hquery : c ≠ '?' := fun heq => e.notMem_netloc (by decide) (heq ▸ hc)
    have hfragment : c ≠ '#' := fun heq => e.notMem_netloc (by decide) (heq ▸ hc)
    simp [hslash, hquery, hfragment]
  change ((e.netloc ++ e.path).takeWhile (fun c => !endsNetloc c),
    (e.netloc ++ e.path).dropWhile fun c => !endsNetloc c) = _
  rw [List.takeWhile_append_of_pos hnetloc, List.dropWhile_append_of_pos hnetloc]
  cases hpath : e.path with
  | nil => simp
  | cons c path =>
    have hc : c = '/' := e.path_head c (by rw [hpath]; rfl)
    simp [hc, endsNetloc]

theorem splitScheme_eq :
    splitScheme e.url = (e.scheme, '/' :: '/' :: (e.netloc ++ e.path)) := by
  have hurl : e.url = e.scheme ++ ':' :: '/' :: '/' :: (e.netloc ++ e.path) := by
    unfold url
    simp [List.append_assoc]
  have hcolon : ':' ∉ e.scheme := by
    rcases e.scheme_eq with h | h <;> rw [h] <;> decide
  unfold splitScheme
  rw [hurl, partition_append hcolon]
  rcases e.scheme_eq with h | h
  · rw [h]
    rfl
  · rw [h]
    rfl

/-- The URL has no characters that `urlsplit` removes. -/
theorem clean_url : (e.url.dropWhile fun c => decide (c.toNat ≤ 32)).filter
    (fun c => decide (c ∉ ['\t', '\r', '\n'])) = e.url := by
  have hscheme : ∀ c ∈ e.scheme ++ "://".toList, c ∉ ['\t', '\r', '\n'] := by
    rcases e.scheme_eq with h | h
    · rw [h]
      exact forall_of_all (by decide)
    · rw [h]
      exact forall_of_all (by decide)
  have hdrop : e.url.dropWhile (fun c => decide (c.toNat ≤ 32)) = e.url := by
    unfold url
    rcases e.scheme_eq with h | h
    · rw [h]
      rfl
    · rw [h]
      rfl
  rw [hdrop]
  refine List.filter_eq_self.mpr fun c hc => decide_eq_true fun hmem => ?_
  rcases List.mem_append.mp hc with hc | hc
  · rcases List.mem_append.mp hc with hc | hc
    · exact hscheme c hc hmem
    · have hsub : ∀ d ∈ ['\t', '\r', '\n'],
          d ∈ ['/', '?', '#', '@', '%', '\t', '\r', '\n'] := forall_of_all (by decide)
      exact e.notMem_netloc (hsub c hmem) hc
  · exact e.path_chars c hc hmem

/-- Splitting the URL finds its scheme and its authority. -/
theorem urlsplit_eq_some {tables : UnicodeTables} {parts : SplitResult}
    (h : urlsplit tables e.url = some parts) :
    parts.scheme = e.scheme ∧ parts.netloc = e.netloc := by
  unfold urlsplit at h
  dsimp only at h
  rw [e.clean_url, e.splitScheme_eq, e.splitNetloc_eq] at h
  split_ifs at h
  cases h
  exact ⟨rfl, rfl⟩

/-- The host and the port are found in the authority. -/
theorem hostinfo_eq {parts : SplitResult} (h : parts.netloc = e.netloc) :
    parts.hostinfo = (e.host, e.port.map (Nat.toDigits 10)) := by
  have hat : '@' ∉ e.netloc := e.notMem_netloc (by decide)
  have hhost := notMem_of_isHostChar e.host_chars
  have hport := notMem_of_isHostChar e.isHostChar_portText
  have hsplit : ∀ t : Text, (':' ∉ t) → partition ':' (t ++ e.portText) =
      (t, e.port.map (Nat.toDigits 10)) := by
    intro t ht
    unfold portText
    cases e.port with
    | none => rw [List.append_nil, partition_of_notMem ht]; rfl
    | some port => rw [partition_append ht]; rfl
  have hfilter : (e.port.map (Nat.toDigits 10)).filter (fun port => !port.isEmpty) =
      e.port.map (Nat.toDigits 10) := by
    cases e.port with
    | none => rfl
    | some port => simp [Nat.toDigits_ne_nil]
  unfold SplitResult.hostinfo
  rw [h, hostAndPort_of_notMem hat, netloc_eq]
  split_ifs with hcolon
  · have hopen : '[' :: e.host ++ [']'] ++ e.portText =
        [] ++ '[' :: (e.host ++ ']' :: e.portText) := by simp
    rw [hopen, partition_append List.not_mem_nil]
    dsimp only
    rw [partition_append (hhost ']' (by decide))]
    dsimp only [Option.getD_some]
    rw [← List.nil_append e.portText, hsplit [] List.not_mem_nil]
    rw [hfilter]
  · rw [partition_of_notMem (c := '[')]
    · dsimp only
      rw [hsplit _ hcolon, hfilter]
    · simp [hhost '[' (by decide), hport '[' (by decide)]

/-- The host of the split URL. -/
theorem hostname_eq (tables : UnicodeTables) {parts : SplitResult} (h : parts.netloc = e.netloc) :
    (parts.hostname tables).getD [] = e.host := by
  have hpercent := notMem_of_isHostChar e.host_chars '%' (by decide)
  have hlower : tables.lowered e.host = e.host := lowered_eq_self e.host_chars
  unfold SplitResult.hostname
  rw [e.hostinfo_eq h]
  dsimp only
  cases hhost : e.host with
  | nil => rfl
  | cons c host =>
    rw [hhost] at hpercent hlower
    dsimp only
    rw [partition_of_notMem hpercent]
    dsimp only [Option.getD_some]
    rw [hlower]

/-- The port of the split URL. -/
theorem port_eq {parts : SplitResult} (h : parts.netloc = e.netloc) {port : Option Nat}
    (hport : parts.port = some port) : port = e.port := by
  unfold SplitResult.port at hport
  rw [e.hostinfo_eq h] at hport
  cases he : e.port with
  | none =>
    rw [he] at hport
    exact (Option.some.inj hport).symm
  | some n =>
    rw [he] at hport
    dsimp only [Option.map_some] at hport
    rw [all_isAsciiDigit_toDigits, Nat.ofDigitChars_ten_toDigits] at hport
    split_ifs at hport
    exact (Option.some.inj hport).symm

end Endpoint

section normalized

variable {tables : UnicodeTables}

theorem valid_eq_ok {condition : Bool} {message : String} {u : Unit}
    (h : valid condition message = .ok u) : condition = true := by
  unfold valid at h
  split_ifs at h with hcondition
  · exact hcondition
  · cases h

theorem ofUrllib_eq_ok {α : Type} {result : Option α} {x : α} (h : ofUrllib result = .ok x) :
    result = some x := by
  unfold ofUrllib at h
  split at h
  · cases h
    rfl
  · cases h

theorem wrapped_eq_ok {α : Type} {result : Except EndpointError α} {message : String} {x : α}
    (h : wrapped result message = .ok x) : result = .ok x := by
  unfold wrapped at h
  split at h
  · cases h
    rfl
  · cases h

/-- What was checked about the parts of a URL. -/
theorem splitEndpoint_eq_ok {value host : Text} {parts : SplitResult} {port : Option Nat}
    (h : splitEndpoint tables value = .ok (parts, host, port)) :
    urlsplit tables value = some parts ∧
      (parts.scheme = "http".toList ∨ parts.scheme = "https".toList) ∧
      ∀ c ∈ host, IsHostChar c := by
  obtain ⟨parts', hsplit, h⟩ := bind_eq_ok.mp h
  obtain ⟨_, hscheme, h⟩ := bind_eq_ok.mp h
  obtain ⟨_, -, h⟩ := bind_eq_ok.mp h
  obtain ⟨host', hhost, h⟩ := bind_eq_ok.mp h
  obtain ⟨port', -, h⟩ := bind_eq_ok.mp h
  cases h
  have hscheme := valid_eq_ok hscheme
  simp only [Bool.and_eq_true, Bool.or_eq_true, decide_eq_true_eq] at hscheme
  exact ⟨ofUrllib_eq_ok hsplit, hscheme.1, isHostChar_canonicalHost hhost⟩

/-- A normalized URL is the URL of its parts. -/
theorem normalize_eq_ok {value url : Text} (h : normalizeOllamaUrl tables value = .ok url) :
    ∃ parts host port, splitEndpoint tables value = .ok (parts, host, port) ∧
      ∃ e : Endpoint, e.url = url ∧ e.host = host ∧ e.port = port := by
  obtain ⟨_, -, h⟩ := bind_eq_ok.mp h
  obtain ⟨_, htext, h⟩ := bind_eq_ok.mp h
  obtain ⟨⟨parts, host, port⟩, hsplit, h⟩ := bind_eq_ok.mp h
  obtain ⟨_, -, h⟩ := bind_eq_ok.mp h
  obtain ⟨_, hpath, h⟩ := bind_eq_ok.mp h
  cases h
  have hsplit := wrapped_eq_ok hsplit
  obtain ⟨hparts, hscheme, hhost⟩ := splitEndpoint_eq_ok hsplit
  have htext := valid_eq_ok htext
  unfold urlTextValid at htext
  simp only [Bool.and_eq_true, List.all_eq_true, decide_eq_true_eq] at htext
  refine ⟨parts, host, port, hsplit, ?_⟩
  refine ⟨⟨parts.scheme, host, port, rstripSlash parts.path, hscheme, hhost,
    head?_rstripSlash (valid_eq_ok hpath), ?_⟩, rfl, rfl, rfl⟩
  intro c hc hcontrol
  -- the path has no character below the space
  have hmem := mem_of_mem_path hparts c ((rstripSlash_start parts.path).subset hc)
  have hlow : ∀ d ∈ ['\t', '\r', '\n'], d.toNat < 33 := forall_of_all (by decide)
  have hrange := (htext.2 c hmem).1
  have := hlow c hcontrol
  omega

end normalized

end Maeglagi.Provider
