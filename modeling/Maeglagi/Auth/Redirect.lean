import Maeglagi.Core.PercentDecoding

/-!
# Redirects after a login

`auth-redirect.ts`: the path that a login goes on to. A path is accepted for what it decodes to,
but the redirect goes to the path as it was given.
-/

namespace Maeglagi.Auth

open Core

/-- `/` -/
abbrev slash : CodeUnit := 47

/-- `DEFAULT_NEXT` -/
def defaultNext : JsString := codeUnits "/workspaces".toList

/-- A backslash or a control character, as the pattern of `safeNextPath` has them. -/
def Forbidden (u : CodeUnit) : Prop := u = 92 ∨ u ≤ 0x1F ∨ u = 0x7F

instance : DecidablePred Forbidden := fun u =>
  inferInstanceAs (Decidable (u = 92 ∨ u ≤ 0x1F ∨ u = 0x7F))

/-- The loop of `safeNextPath`, with the rounds that are left: it ends when decoding changes
nothing, and gives up where it fails or after the last round. -/
def fullyDecoded : Nat → JsString → Option JsString
  | 0, _ => none
  | n + 1, decoded => do
    let next ← decodeURIComponent decoded
    if next = decoded then return decoded else fullyDecoded n next

/-- `safeNextPath` -/
def safeNextPath : Option JsString → JsString
  | none | some [] => defaultNext
  | some value =>
    match fullyDecoded 10 value with
    | none => defaultNext
    | some decoded =>
      if ¬[slash] <+: decoded ∨ [slash, slash] <+: decoded ∨ ∃ u ∈ decoded, Forbidden u then
        defaultNext
      else value

/-- A reference to a path of the same site, or one whose first unit is still encoded. -/
structure OnSite (s : JsString) : Prop where
  first : [slash] <+: s ∨ [percentSign] <+: s
  path : ¬[slash, slash] <+: s
  units : ∀ u ∈ s, ¬Forbidden u

theorem hexValue_of_lt {u : CodeUnit} (h : u.toNat < 48) : hexValue u = none := by
  have hnot : ∀ low high : CodeUnit, 48 ≤ low.toNat → ¬(low ≤ u ∧ u ≤ high) := by
    rintro low high hlow ⟨hle, -⟩
    have hnat := UInt16.le_iff_toNat_le.mp hle
    omega
  rw [hexValue, if_neg (hnot 48 57 (by decide)), if_neg (hnot 65 70 (by decide)),
    if_neg (hnot 97 102 (by decide))]

theorem not_escaping_of_forbidden {u : CodeUnit} (h : Forbidden u) : ¬Escaping u := by
  rcases h with rfl | h | rfl
  · unfold Escaping
    decide
  · have hnat : u.toNat ≤ 31 := UInt16.le_iff_toNat_le.mp h
    rintro (rfl | hsome)
    · exact absurd hnat (by decide)
    · rw [hexValue_of_lt (by omega)] at hsome
      cases hsome
  · unfold Escaping
    decide

/-- A string that decodes to a path of the site is one. -/
theorem OnSite.of_decoded {s decoded : JsString} (h : OnSite decoded)
    (hdecoded : decodeURIComponent s = some decoded) : OnSite s := by
  refine ⟨?_, ?_, fun u hu hforbidden => ?_⟩
  · cases s with
    | nil =>
      obtain rfl := Option.some.inj hdecoded
      simpa using h.first
    | cons c rest =>
      by_cases hc : c = percentSign
      · exact .inr ⟨rest, by rw [hc]; rfl⟩
      · obtain ⟨later, -, rfl⟩ := decodeURIComponent_cons hc hdecoded
        simpa using h.first
  · rintro ⟨rest, rfl⟩
    obtain ⟨later, hlater, rfl⟩ := decodeURIComponent_cons (by decide) hdecoded
    obtain ⟨last, -, rfl⟩ := decodeURIComponent_cons (by decide) hlater
    exact h.path ⟨last, rfl⟩
  · exact h.units u (mem_of_decodeURIComponent hdecoded (not_escaping_of_forbidden hforbidden) hu)
      hforbidden

/-- What the loop ends with decides about every decoding of its input. -/
theorem onSite_of_fullyDecoded {n k : Nat} {value decoded s : JsString}
    (hloop : fullyDecoded n value = some decoded) (h : OnSite decoded)
    (hs : decodeTimes k value = some s) : OnSite s := by
  induction n generalizing k value s with
  | zero => cases hloop
  | succ n ih =>
    simp only [fullyDecoded, Option.bind_eq_bind, Option.bind_eq_some_iff] at hloop
    obtain ⟨next, hnext, hloop⟩ := hloop
    split_ifs at hloop with hfixed
    · obtain rfl := Option.some.inj hloop
      rw [decodeTimes_of_fixed (hfixed ▸ hnext)] at hs
      exact Option.some.inj hs ▸ h
    · cases k with
      | zero =>
        cases hs
        exact (ih (k := 0) hloop rfl).of_decoded hnext
      | succ k =>
        rw [decodeTimes, hnext, Option.bind_some] at hs
        exact ih hloop hs

/-- The default, or the given path with a decoding on the site. -/
theorem safeNextPath_cases (value : Option JsString) :
    safeNextPath value = defaultNext ∨ ∃ v decoded, value = some v ∧ safeNextPath value = v ∧
      fullyDecoded 10 v = some decoded ∧ OnSite decoded := by
  unfold safeNextPath
  split
  · exact .inl rfl
  · exact .inl rfl
  · next v hempty =>
    split
    · exact .inl rfl
    · next decoded hdecoded =>
      split_ifs with hrefused
      · exact .inl rfl
      · push Not at hrefused
        obtain ⟨hfirst, hpath, hunits⟩ := hrefused
        exact .inr ⟨v, decoded, rfl, rfl, hdecoded, .inl hfirst, hpath, hunits⟩

theorem onSite_defaultNext : OnSite defaultNext := by
  have hunits : (defaultNext.all fun u => decide ¬Forbidden u) = true := by decide
  exact ⟨by decide, by decide, fun u hu => of_decide_eq_true (List.all_eq_true.mp hunits u hu)⟩

/-- The redirect goes to the default or to the given path, and no decoding of where it goes
leaves the site. -/
theorem safeNextPath_onSite (value : Option JsString) :
    (safeNextPath value = defaultNext ∨ some (safeNextPath value) = value) ∧
      ∀ k decoded, decodeTimes k (safeNextPath value) = some decoded → OnSite decoded := by
  rcases safeNextPath_cases value with hdefault | ⟨v, decoded, rfl, hgiven, hloop, honsite⟩
  · refine ⟨.inl hdefault, fun k decoded hdecoded => ?_⟩
    rw [hdefault, decodeTimes_of_fixed (by decide)] at hdecoded
    exact Option.some.inj hdecoded ▸ onSite_defaultNext
  · refine ⟨.inr (congrArg some hgiven), fun k s hs => ?_⟩
    rw [hgiven] at hs
    exact onSite_of_fullyDecoded hloop honsite hs

/-- An encoded letter is left as it was given. -/
theorem safeNextPath_onSite_encoded : OnSite (codeUnits "/workspaces/a".toList) :=
  (safeNextPath_onSite (some (codeUnits "/workspaces/%61".toList))).2 1 _ (by decide)

example : safeNextPath (some (codeUnits "/%252fevil.example".toList)) = defaultNext := by decide

end Maeglagi.Auth
