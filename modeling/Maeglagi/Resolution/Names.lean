import Mathlib.Order.MinMax
import Maeglagi.Ontology

/-!
# Names, keys and ids

The normal forms under which names and identifiers are compared, the canonical
spelling of an entity, and the deterministic ids of entities and relations.
-/

namespace Maeglagi.Resolution

open Core

variable {Id : Type}

/-- The characters that `normalize_name` removes. -/
def isSeparator (c : Char) : Bool := isSpace c || c ∈ ['·', '.', ',', '_', '-']

/-- The honorifics of Korean persons. -/
def personHonorifics : List Text := [['님'], ['씨']]

/-- The text without the first honorific it ends with, if enough of it remains. -/
def stripHonorific (honorifics : List Text) (text : Text) : Text :=
  match honorifics with
  | [] => text
  | h :: rest =>
    if h.isSuffixOf text && decide (h.length + 1 < text.length) then
      text.take (text.length - h.length)
    else stripHonorific rest text

/-- Spelling-insensitive key: NFKC, case, spacing and punctuation, honorifics. -/
def normalizeName (rt : Runtime Id) (name : Text) (kind : EntityKind) : Text :=
  let text := (rt.casefold (rt.nfkc name)).filter fun c => !isSeparator c
  if kind = .person then stripHonorific personHonorifics text else text

/-- The `mailto:` prefix that identifiers are compared without. -/
def mailtoPrefix : Text := "mailto:".toList

/-- Identifiers compare by folded text without surrounding space or `mailto:`. -/
def normalizeIdentifier (rt : Runtime Id) (value : Text) : Text :=
  strip (removePrefix mailtoPrefix (rt.casefold (strip (rt.nfkc value))))

/-- The prefix of identifiers that name a directory record. -/
def directoryPrefix : Text := "directory:".toList

/-- `value.startswith("directory:")` -/
def isDirectory (value : Text) : Bool := directoryPrefix.isPrefixOf value

/-- The second spelling is strictly more complete: longer normal form, shorter raw text. -/
def moreComplete (rt : Runtime Id) (kind : EntityKind) (best name : Text) : Bool :=
  let size := fun n => (normalizeName rt n kind).length
  decide (size best < size name) ||
    (decide (size best = size name) && decide (name.length < best.length))

/-- The first most complete spelling. Every caller passes at least one name; the empty
list, on which the source raises, gives the empty text. -/
def pickCanonical (rt : Runtime Id) (names : List Text) (kind : EntityKind) : Text :=
  match names.eraseDups with
  | [] => []
  | name :: rest =>
    rest.foldl (fun best n => if moreComplete rt kind best n then n else best) name

/-- The namespace under which the program's UUID names stand. -/
def idNamespace : Text := "maeglagi".toList

/-- Deterministic id of an entity. -/
def entityId (rt : Runtime Id) (workspaceId : Id) (kind : EntityKind) (key : Text) : Id :=
  rt.uuid5 (joinColon [idNamespace, rt.str workspaceId, kind.value, key])

/-- One id per relation period: the same triple can hold several. -/
def relationId (rt : Runtime Id) (workspaceId source target : Id) (kind : RelationKind)
    (validFrom : Option Instant) : Id :=
  rt.uuid5 (joinColon [idNamespace, rt.str workspaceId, rt.str source, kind.value,
    rt.str target, rt.printed validFrom])

/-- The prefix of keys taken from an identifier. -/
def identifierPrefix : Text := "id:".toList

/-- The key an entity's id is made from: its directory id or least identifier if it has
one, else its normalized name. -/
def stableKey (rt : Runtime Id) (groupKind : EntityKind) (canonical : Text)
    (identifiers : List Text) : Text :=
  match sortedSet (identifiers.filter isDirectory) with
  | directoryId :: _ => identifierPrefix ++ directoryId
  | [] =>
    match identifiers.min? with
    | some identifier => identifierPrefix ++ identifier
    | none => normalizeName rt canonical groupKind

theorem colon_notMem_idNamespace : ':' ∉ idNamespace := by decide +kernel

/-- The id of an entity determines workspace, kind and key. -/
theorem entityId_inj {rt : Runtime Id} {w w' : Id} {k k' : EntityKind} {key key' : Text}
    (h : entityId rt w k key = entityId rt w' k' key') : w = w' ∧ k = k' ∧ key = key' := by
  obtain ⟨-, h₁⟩ := append_colon_inj colon_notMem_idNamespace colon_notMem_idNamespace
    (rt.uuid5_injective h)
  obtain ⟨hw, h₂⟩ := append_colon_inj (rt.colon_notMem_str _) (rt.colon_notMem_str _) h₁
  obtain ⟨hk, hkey⟩ :=
    append_colon_inj (EntityKind.colon_notMem_value _) (EntityKind.colon_notMem_value _) h₂
  exact ⟨rt.str_injective hw, EntityKind.value_injective hk, hkey⟩

/-- The id of a relation determines its triple and its start. -/
theorem relationId_inj {rt : Runtime Id} {w w' s s' t t' : Id} {k k' : RelationKind}
    {v v' : Option Instant} (h : relationId rt w s t k v = relationId rt w' s' t' k' v') :
    w = w' ∧ s = s' ∧ t = t' ∧ k = k' ∧ v = v' := by
  obtain ⟨-, h₁⟩ := append_colon_inj colon_notMem_idNamespace colon_notMem_idNamespace
    (rt.uuid5_injective h)
  obtain ⟨hw, h₂⟩ := append_colon_inj (rt.colon_notMem_str _) (rt.colon_notMem_str _) h₁
  obtain ⟨hs, h₃⟩ := append_colon_inj (rt.colon_notMem_str _) (rt.colon_notMem_str _) h₂
  obtain ⟨hk, h₄⟩ :=
    append_colon_inj (RelationKind.colon_notMem_value _) (RelationKind.colon_notMem_value _) h₃
  obtain ⟨ht, hv⟩ := append_colon_inj (rt.colon_notMem_str _) (rt.colon_notMem_str _) h₄
  exact ⟨rt.str_injective hw, rt.str_injective hs, rt.str_injective ht,
    RelationKind.value_injective hk, rt.printed_injective hv⟩

end Maeglagi.Resolution
