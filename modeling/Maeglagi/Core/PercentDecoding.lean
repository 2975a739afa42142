import Maeglagi.Core.JsStrings

/-!
# Percent-decoding

`decodeURIComponent`, which raises an error where an escape is malformed. An escape consumes
percent signs and hexadecimal digits only, so that every other unit of a string is in what it
decodes to, and a first unit that is no percent sign stays the first.
-/

namespace Maeglagi.Core

/-- `%` -/
abbrev percentSign : CodeUnit := 37

/-- The octet of an escape: `%` and two hexadecimal digits. -/
def escapedOctet : JsString → Option UInt8
  | c :: high :: low :: _ =>
    if c = percentSign then do
      let high ← hexValue high
      let low ← hexValue low
      return .ofNat (16 * high + low)
    else none
  | _ => none

/-- The octets of consecutive escapes. -/
def escapedOctets : Nat → JsString → Option (List UInt8)
  | 0, _ => some []
  | n + 1, s => do
    let octet ← escapedOctet s
    let octets ← escapedOctets n (s.drop 3)
    return octet :: octets

/-- The number of leading ones of an octet; every octet with more than four counts as five. -/
def leadingOnes (octet : UInt8) : Nat :=
  if octet < 0x80 then 0
  else if octet < 0xC0 then 1
  else if octet < 0xE0 then 2
  else if octet < 0xF0 then 3
  else if octet < 0xF8 then 4
  else 5

/-- The character that several octets encode: they are what UTF-8 makes of it. -/
def utf8Char (octets : List UInt8) : Option Char :=
  match octets with
  | [] => none
  | first :: rest =>
    let value := rest.foldl (fun value octet => value * 64 + octet.toNat % 64)
      (first.toNat % 2 ^ (7 - octets.length))
    if String.utf8EncodeChar (Char.ofNat value) = octets then some (Char.ofNat value) else none

/-- What the escape at the start of a string stands for, and the length of the escape. -/
def escape (s : JsString) : Option (JsString × Nat) := do
  let first ← escapedOctet s
  match leadingOnes first with
  | 0 => return ([first.toUInt16], 3)
  | 1 | 5 => none
  | n =>
    let octets ← escapedOctets n s
    let c ← utf8Char octets
    return (utf16 c, 3 * n)

/-- The rest of a string from which the units of an escape are dropped is decoded. -/
def decodeFrom : Nat → JsString → Option JsString
  | _, [] => some []
  | k + 1, _ :: rest => decodeFrom k rest
  | 0, c :: rest =>
    if c = percentSign then do
      let (decoded, length) ← escape (c :: rest)
      let rest ← decodeFrom (length - 1) rest
      return decoded ++ rest
    else do
      let rest ← decodeFrom 0 rest
      return c :: rest

/-- `decodeURIComponent`, without a result where it raises `URIError` -/
def decodeURIComponent (s : JsString) : Option JsString := decodeFrom 0 s

example : decodeURIComponent (codeUnits "/%2f%EA%B0%80%".toList) = none := by decide
example : decodeURIComponent (codeUnits "/%2f%EA%B0%80".toList) =
    some (codeUnits "//가".toList) := by decide

/-- A unit that an escape may have. -/
def Escaping (u : CodeUnit) : Prop := u = percentSign ∨ (hexValue u).isSome

theorem escaping_of_escapedOctet {s : JsString} {octet : UInt8} (h : escapedOctet s = some octet) :
    ∀ u ∈ s.take 3, Escaping u := by
  unfold escapedOctet at h
  split at h
  · next c high low rest =>
    split_ifs at h with hc
    simp only [Option.bind_eq_bind, Option.bind_eq_some_iff] at h
    obtain ⟨x, hhigh, y, hlow, -⟩ := h
    intro u hu
    simp only [List.take_succ_cons, List.take_zero, List.mem_cons, List.not_mem_nil, or_false] at hu
    rcases hu with rfl | rfl | rfl
    · exact .inl hc
    · exact .inr (by rw [hhigh]; rfl)
    · exact .inr (by rw [hlow]; rfl)
  · cases h

theorem escaping_of_escapedOctets {n : Nat} {s : JsString} {octets : List UInt8}
    (h : escapedOctets n s = some octets) : ∀ u ∈ s.take (3 * n), Escaping u := by
  induction n generalizing s octets with
  | zero => simp
  | succ n ih =>
    simp only [escapedOctets, Option.bind_eq_bind, Option.bind_eq_some_iff] at h
    obtain ⟨octet, hoctet, rest, hrest, -⟩ := h
    intro u hu
    rw [Nat.mul_succ, Nat.add_comm, List.take_add, List.mem_append] at hu
    rcases hu with hu | hu
    · exact escaping_of_escapedOctet hoctet u hu
    · exact ih hrest u hu

/-- An escape has percent signs and hexadecimal digits only. -/
theorem escaping_of_escape {s decoded : JsString} {n : Nat} (h : escape s = some (decoded, n)) :
    ∀ u ∈ s.take n, Escaping u := by
  simp only [escape, Option.bind_eq_bind, Option.bind_eq_some_iff] at h
  obtain ⟨first, hfirst, h⟩ := h
  split at h
  · cases h
    exact escaping_of_escapedOctet hfirst
  · cases h
  · cases h
  · simp only [Option.bind_eq_some_iff] at h
    obtain ⟨octets, hoctets, c, -, hlast⟩ := h
    cases hlast
    exact escaping_of_escapedOctets hoctets

theorem mem_of_decodeFrom {k : Nat} {s decoded : JsString} {u : CodeUnit}
    (h : decodeFrom k s = some decoded) (hu : ¬Escaping u) (hmem : u ∈ s.drop k) : u ∈ decoded := by
  induction s generalizing k decoded with
  | nil => simp at hmem
  | cons c rest ih =>
    cases k with
    | succ k => exact ih h hmem
    | zero =>
      unfold decodeFrom at h
      split_ifs at h with hc
      · simp only [Option.bind_eq_bind, Option.bind_eq_some_iff] at h
        obtain ⟨⟨unescaped, length⟩, hescape, later, hlater, hlast⟩ := h
        cases hlast
        rcases List.mem_cons.mp hmem with rfl | hmem
        · exact absurd (.inl hc) hu
        · rw [← List.take_append_drop (length - 1) rest, List.mem_append] at hmem
          rcases hmem with hmem | hmem
          · -- such a unit cannot be within the escape
            refine absurd (escaping_of_escape hescape u ?_) hu
            cases length with
            | zero => simp at hmem
            | succ n =>
              rw [List.take_succ_cons]
              exact List.mem_cons_of_mem _ hmem
          · exact List.mem_append_right _ (ih hlater hmem)
      · simp only [Option.bind_eq_bind, Option.bind_eq_some_iff] at h
        obtain ⟨later, hlater, hlast⟩ := h
        cases hlast
        rcases List.mem_cons.mp hmem with rfl | hmem
        · exact List.mem_cons_self
        · exact List.mem_cons_of_mem _ (ih hlater hmem)

/-- Decoding keeps every unit that no escape has. -/
theorem mem_of_decodeURIComponent {s decoded : JsString} {u : CodeUnit}
    (h : decodeURIComponent s = some decoded) (hu : ¬Escaping u) (hmem : u ∈ s) : u ∈ decoded :=
  mem_of_decodeFrom h hu hmem

/-- Decoding keeps a first unit that is no percent sign. -/
theorem decodeURIComponent_cons {c : CodeUnit} {rest decoded : JsString} (hc : c ≠ percentSign)
    (h : decodeURIComponent (c :: rest) = some decoded) :
    ∃ later, decodeURIComponent rest = some later ∧ decoded = c :: later := by
  unfold decodeURIComponent decodeFrom at h
  rw [if_neg hc] at h
  simp only [Option.bind_eq_bind, Option.bind_eq_some_iff] at h
  obtain ⟨later, hlater, hlast⟩ := h
  exact ⟨later, hlater, (Option.some.inj hlast).symm⟩

/-- A string, decoded several times. -/
def decodeTimes : Nat → JsString → Option JsString
  | 0, s => some s
  | k + 1, s => (decodeURIComponent s).bind (decodeTimes k)

/-- What decoding leaves as it is stays so. -/
theorem decodeTimes_of_fixed {s : JsString} (h : decodeURIComponent s = some s) (k : Nat) :
    decodeTimes k s = some s := by
  induction k with
  | zero => rfl
  | succ k ih => rw [decodeTimes, h, Option.bind_some, ih]

end Maeglagi.Core
