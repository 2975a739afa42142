import Maeglagi.Ontology
import Maeglagi.Resolution.Resolve
import Maeglagi.Sources.Directory

/-!
# Directory ids on extracted entities

An extracted person or project that the confirmed directory knows takes the directory's
spelling and a trusted identifier; every other identifier of that namespace is dropped.
-/

namespace Maeglagi

open Core Resolution

section

variable {Id : Type} [DecidableEq Id]

/-- A directory record that an extracted entity may stand for. -/
structure DirectoryEntry (Id : Type) where
  kind : EntityKind
  id : Id
  name : Text
  email : Option Text
  aliases : List Text

omit [DecidableEq Id] in
/-- The people and projects of a snapshot. -/
def Snapshot.entries (s : Snapshot Id) : List (DirectoryEntry Id) :=
  ((s.people ++ s.roster).map fun p => ⟨.person, p.id, p.name, p.email, p.aliases⟩) ++
    (if s.projects = [] then s.project.toList else s.projects).map fun p =>
      ⟨.project, p.id, p.name, none, []⟩

/-- The record is listed under a key of its kind; blank names of people are not. -/
def DirectoryEntry.listedUnder (rt : Runtime Id) (key : Text) (e : DirectoryEntry Id) : Bool :=
  (e.name :: e.aliases).any fun name =>
    (decide (e.kind ≠ .person) || decide (strip name ≠ [])) &&
      decide (normalizeName rt name e.kind = key)

/-- The record's email is an identifier of the entity and stands in one of its quotations. -/
def DirectoryEntry.mailedBy (rt : Runtime Id) (entity : ExtractedEntity)
    (e : DirectoryEntry Id) : Bool :=
  e.email.any fun email =>
    decide (normalizeIdentifier rt email ∈ entity.identifiers.map (normalizeIdentifier rt)) &&
      entity.sourceRefs.any fun ref => decide (rt.casefold email <:+: rt.casefold ref)

/-- The last of some records, if they are all of one id. -/
def soleEntry (entries : List (DirectoryEntry Id)) : Option (DirectoryEntry Id) :=
  if (entries.map DirectoryEntry.id).eraseDups.length = 1 then entries.getLast? else none

/-- The record an entity stands for, and whether its email says so. -/
def directoryMatch (rt : Runtime Id) (entries : List (DirectoryEntry Id))
    (entity : ExtractedEntity) : Option (DirectoryEntry Id × Bool) :=
  let ofKind := entries.filter fun e => decide (e.kind = entity.kind)
  let named := soleEntry (ofKind.filter
    (DirectoryEntry.listedUnder rt (normalizeName rt entity.name entity.kind)))
  match entity.kind with
  | .person =>
    match soleEntry (ofKind.filter (DirectoryEntry.mailedBy rt entity)) with
    | some e => some (e, true)
    | none => named.map fun e => (e, false)
  | .project => named.map fun e => (e, false)
  | _ => none

/-- The identifier that names a directory record. -/
def directoryIdentifier (rt : Runtime Id) (e : DirectoryEntry Id) : Text :=
  directoryPrefix ++ e.kind.value.map Char.toLower ++ ':' :: rt.str e.id

/-- A quotation that the source contains. -/
def quotedIn (sourceText ref : Text) : Bool :=
  decide (strip ref ≠ []) && decide (strip ref <:+: sourceText)

/-- The record that an entity is replaced by, if the source quotes it. -/
def directoryRecord (rt : Runtime Id) (entries : List (DirectoryEntry Id)) (eventNames : List Text)
    (sourceText : Text) (entity : ExtractedEntity) : Option (DirectoryEntry Id) := do
  guard (entity.name ∉ eventNames ∧ entity.sourceRefs.any (quotedIn sourceText) = true)
  let (e, matchedEmail) ← directoryMatch rt entries entity
  guard (matchedEmail = true ∨ (e.name :: e.aliases).any (fun label =>
    decide (label ≠ []) && entity.sourceRefs.any fun ref =>
      decide (label <:+: ref) && decide (strip ref <:+: sourceText)) = true)
  return e

/-- The entity under the record's spelling and identifier. -/
def ExtractedEntity.recorded (rt : Runtime Id) (entity : ExtractedEntity)
    (e : DirectoryEntry Id) : ExtractedEntity :=
  { entity with
    name := e.name
    identifiers := if directoryIdentifier rt e ∈ entity.identifiers then entity.identifiers
      else entity.identifiers ++ [directoryIdentifier rt e] }

/-- The entity without identifiers of the directory's namespace. -/
def ExtractedEntity.unclaimed (rt : Runtime Id) (entity : ExtractedEntity) : ExtractedEntity :=
  { entity with
    identifiers := entity.identifiers.filter fun value =>
      !isDirectory (normalizeIdentifier rt value) }

/-- `canonicalize_directory_entities`: the rewritten result and the trusted identifiers. -/
def canonicalizeDirectoryEntities (rt : Runtime Id) (result : AnalysisResult)
    (directory : Option (Snapshot Id)) (sourceText : Text) : AnalysisResult × List Text :=
  let entities := result.entities.map (ExtractedEntity.unclaimed rt)
  match directory with
  | none => ({ result with entities }, [])
  | some s =>
    let record := directoryRecord rt s.entries (result.events.map ExtractedEvent.name) sourceText
    let renamed := fun name => (entities.reverse.findSome? fun entity =>
      if entity.name = name then (record entity).map DirectoryEntry.name else none).getD name
    ({ result with
        entities := entities.map fun entity =>
          (record entity).elim entity (entity.recorded rt)
        relations := result.relations.map fun relation =>
          { relation with source := renamed relation.source, target := renamed relation.target } },
      (entities.filterMap record).map (directoryIdentifier rt))

end

/-!
## What canonicalization does

Canonicalization entity by entity: the record that each extracted entity stands for, why it is the
only one, and which identifiers of the directory's namespace come out.
-/

section

variable {Id : Type} [DecidableEq Id]

omit [DecidableEq Id] in
/-- The records of a directory that may be missing. -/
def directoryEntries (directory : Option (Snapshot Id)) : List (DirectoryEntry Id) :=
  directory.elim [] Snapshot.entries

/-- The record that an extracted entity stands for. -/
def recordOf (rt : Runtime Id) (result : AnalysisResult) (directory : Option (Snapshot Id))
    (sourceText : Text) (item : ExtractedEntity) : Option (DirectoryEntry Id) :=
  directoryRecord rt (directoryEntries directory) (result.events.map ExtractedEvent.name) sourceText
    (item.unclaimed rt)

/-- The entity that canonicalization makes of an extracted one. -/
def canonicalEntity (rt : Runtime Id) (result : AnalysisResult) (directory : Option (Snapshot Id))
    (sourceText : Text) (item : ExtractedEntity) : ExtractedEntity :=
  (recordOf rt result directory sourceText item).elim (item.unclaimed rt)
    ((item.unclaimed rt).recorded rt)

theorem soleEntry_eq_some {entries : List (DirectoryEntry Id)} {e : DirectoryEntry Id}
    (h : soleEntry entries = some e) : e ∈ entries ∧ ∀ other ∈ entries, other.id = e.id := by
  unfold soleEntry at h
  split at h
  · next hone =>
    have hmem := List.mem_of_getLast? h
    refine ⟨hmem, fun other hother => ?_⟩
    obtain ⟨id, hid⟩ := List.length_eq_one_iff.mp hone
    have heq : ∀ x ∈ entries, x.id = id := fun x hx => by
      have hin : x.id ∈ (entries.map DirectoryEntry.id).eraseDups :=
        List.mem_eraseDups.mpr (List.mem_map_of_mem hx)
      rwa [hid, List.mem_singleton] at hin
    rw [heq other hother, heq e hmem]
  · cases h

theorem directoryRecord_nil (rt : Runtime Id) (eventNames : List Text) (sourceText : Text)
    (entity : ExtractedEntity) : directoryRecord rt [] eventNames sourceText entity = none := by
  have hmatch : directoryMatch rt ([] : List (DirectoryEntry Id)) entity = none := by
    unfold directoryMatch
    cases entity.kind <;> rfl
  rw [directoryRecord, hmatch]
  simp

theorem canonicalize_entities (rt : Runtime Id) (result : AnalysisResult)
    (directory : Option (Snapshot Id)) (sourceText : Text) :
    (canonicalizeDirectoryEntities rt result directory sourceText).1.entities =
      result.entities.map (canonicalEntity rt result directory sourceText) := by
  cases directory with
  | none =>
    refine List.map_congr_left fun item _ => ?_
    simp [canonicalEntity, recordOf, directoryEntries, directoryRecord_nil]
  | some s =>
    simp only [canonicalizeDirectoryEntities, List.map_map]
    rfl

theorem canonicalize_trusted (rt : Runtime Id) (result : AnalysisResult)
    (directory : Option (Snapshot Id)) (sourceText : Text) :
    (canonicalizeDirectoryEntities rt result directory sourceText).2 =
      (result.entities.filterMap (recordOf rt result directory sourceText)).map
        (directoryIdentifier rt) := by
  cases directory with
  | none =>
    have hnone : ∀ item, recordOf rt result none sourceText item = none := fun item => by
      simp [recordOf, directoryEntries, directoryRecord_nil]
    simp [canonicalizeDirectoryEntities, hnone]
  | some s =>
    simp only [canonicalizeDirectoryEntities, List.filterMap_map]
    rfl

/-- The record is the only one of its kind that is listed under the entity's name, or the only
one whose email the entity has. -/
def SoleMatch (rt : Runtime Id) (entries : List (DirectoryEntry Id)) (entity : ExtractedEntity)
    (e : DirectoryEntry Id) : Prop :=
  e ∈ entries ∧ e.kind = entity.kind ∧ ∃ matched : DirectoryEntry Id → Bool,
    (matched = DirectoryEntry.listedUnder rt (normalizeName rt entity.name entity.kind) ∨
      (entity.kind = .person ∧ matched = DirectoryEntry.mailedBy rt entity)) ∧
    matched e = true ∧
    ∀ other ∈ entries, other.kind = e.kind → matched other = true → other.id = e.id

theorem soleMatch_of_soleEntry {rt : Runtime Id} {entries : List (DirectoryEntry Id)}
    {entity : ExtractedEntity} {e : DirectoryEntry Id} {matched : DirectoryEntry Id → Bool}
    (hmatched : matched = DirectoryEntry.listedUnder rt (normalizeName rt entity.name entity.kind) ∨
      (entity.kind = .person ∧ matched = DirectoryEntry.mailedBy rt entity))
    (h : soleEntry ((entries.filter fun e => decide (e.kind = entity.kind)).filter matched) =
      some e) : SoleMatch rt entries entity e := by
  obtain ⟨hmem, honly⟩ := soleEntry_eq_some h
  rw [List.filter_filter, List.mem_filter, Bool.and_eq_true, decide_eq_true_eq] at hmem
  obtain ⟨hentries, hmatch, hkind⟩ := hmem
  refine ⟨hentries, hkind, matched, hmatched, hmatch, fun other hother hsame hother' => ?_⟩
  refine honly other ?_
  rw [List.filter_filter, List.mem_filter, Bool.and_eq_true, decide_eq_true_eq]
  exact ⟨hother, hother', hsame.trans hkind⟩

theorem soleMatch_of_directoryMatch {rt : Runtime Id} {entries : List (DirectoryEntry Id)}
    {entity : ExtractedEntity} {e : DirectoryEntry Id} {mailed : Bool}
    (h : directoryMatch rt entries entity = some (e, mailed)) : SoleMatch rt entries entity e := by
  unfold directoryMatch at h
  dsimp only at h
  split at h
  · next hperson =>
    split at h
    · next found hmail =>
      cases h
      exact soleMatch_of_soleEntry (.inr ⟨hperson, rfl⟩) hmail
    · obtain ⟨found, hnamed, heq⟩ := Option.map_eq_some_iff.mp h
      cases heq
      exact soleMatch_of_soleEntry (.inl rfl) hnamed
  · obtain ⟨found, hnamed, heq⟩ := Option.map_eq_some_iff.mp h
    cases heq
    exact soleMatch_of_soleEntry (.inl rfl) hnamed
  · cases h

theorem soleMatch_of_recordOf {rt : Runtime Id} {result : AnalysisResult}
    {directory : Option (Snapshot Id)} {sourceText : Text} {item : ExtractedEntity}
    {e : DirectoryEntry Id} (h : recordOf rt result directory sourceText item = some e) :
    SoleMatch rt (directoryEntries directory) (item.unclaimed rt) e := by
  simp only [recordOf, directoryRecord, Option.bind_eq_bind, Option.bind_eq_some_iff] at h
  obtain ⟨_, -, ⟨found, mailed⟩, hmatch, _, -, heq⟩ := h
  cases heq
  exact soleMatch_of_directoryMatch hmatch

end

end Maeglagi
