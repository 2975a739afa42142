import Maeglagi.Snapshot.Remap

/-!
# The references of the rows

Every reference of a row with the table it points into, in the order of the columns, and the
texts of the columns that a restore copies. A restore relabels the one and keeps the other.
-/

namespace Maeglagi.Snapshot

open Core

variable {U : Type}

/-- What an id is the id of. -/
inductive Table where
  | workspace
  | person
  | project
  | source
  | chunk
  | context
  | contextStore
  | node
  | edge
  | association
  deriving DecidableEq, Repr

/-- An id of a row and the table it points into. -/
structure Reference where
  table : Table
  id : Option Text
  deriving DecidableEq, Repr

/-- The UUID that a reference spells. -/
def Reference.uuid (uuids : Uuids U) (ref : Reference) : Option U := ref.id.bind uuids.parse

/-- What a restore makes of a reference. -/
def Reference.relabel (uuids : Uuids U) (fresh : Fresh U) (ref : Reference) : Reference :=
  if ref.table = .workspace then { ref with id := some (uuids.str fresh.target) }
  else { ref with id := remap uuids fresh ref.id }

/-- The table that the kind of a directory identifier names. -/
def directoryTable (kind : Text) : Table := if kind = "person".toList then .person else .project

/-- The reference of a directory identifier whose id is one. -/
def identifierReference (uuids : Uuids U) (value : Text) : Option Reference :=
  match directoryParts value with
  | some (kind, id) => (uuids.parse id).map fun _ => ⟨directoryTable kind, some id⟩
  | none => none

/-- The UUIDs that a text spells or names as a directory identifier. -/
def mentioned (uuids : Uuids U) (text : Text) : List U :=
  (uuids.parse text).toList ++ ((directoryParts text).bind fun parts => uuids.parse parts.2).toList

/-! ## The references and the copied texts of each row -/

def WorkspaceRow.references (row : WorkspaceRow) : List Reference := [⟨.workspace, row.id⟩]

def WorkspaceRow.texts (row : WorkspaceRow) : List Text :=
  row.embedding.1 :: row.embedding.2 :: row.others

def PersonRow.references (row : PersonRow) : List Reference :=
  [⟨.person, row.id⟩, ⟨.workspace, row.workspaceId⟩]

def PersonRow.texts (row : PersonRow) : List Text :=
  row.role.toList ++ row.emailNormalized.toList ++ row.others

def ProjectRow.references (row : ProjectRow) : List Reference :=
  [⟨.project, row.id⟩, ⟨.workspace, row.workspaceId⟩, ⟨.person, row.ownerPersonId⟩]

def AssociationRow.references (row : AssociationRow) : List Reference :=
  [⟨.association, row.id⟩, ⟨.workspace, row.workspaceId⟩, ⟨.source, row.sourceId⟩,
    ⟨.project, row.projectId⟩, ⟨.person, row.personId⟩]

def AssociationRow.texts (row : AssociationRow) : List Text := row.role.toList

def UtteranceEntry.reference (entry : UtteranceEntry) : Reference := ⟨.person, entry.personId⟩

def ProjectEntry.references (entry : ProjectEntry) : List Reference :=
  [⟨.project, entry.id⟩, ⟨.person, entry.ownerPersonId⟩]

def PersonEntry.reference (entry : PersonEntry) : Reference := ⟨.person, entry.id⟩

def ConfirmedSnapshot.references (snapshot : ConfirmedSnapshot) : List Reference :=
  snapshot.project.toList.flatMap (·.references) ++ snapshot.projects.flatMap (·.references) ++
    snapshot.people.map (·.reference) ++ snapshot.roster.map (·.reference)

def ConfirmedSnapshot.texts (snapshot : ConfirmedSnapshot) : List Text :=
  snapshot.project.toList.flatMap (·.others) ++ snapshot.projects.flatMap (·.others) ++
    snapshot.people.flatMap (·.others) ++ snapshot.roster.flatMap (·.others) ++ snapshot.others

def SourceRow.references (row : SourceRow) : List Reference :=
  [⟨.source, row.id⟩, ⟨.workspace, row.workspaceId⟩, ⟨.project, row.projectId⟩] ++
    row.reviewUtterances.map (·.reference) ++ row.rawUtterances.map (·.reference) ++
    row.confirmedSnapshot.toList.flatMap (·.references)

def SourceRow.texts (row : SourceRow) : List Text :=
  row.status :: row.processingStage :: row.errorMessage.toList ++
    row.reviewUtterances.flatMap (·.others) ++ row.rawUtterances.flatMap (·.others) ++
    row.confirmedSnapshot.toList.flatMap (·.texts) ++ row.analysisCheckpoint ++ row.others

def ChunkRow.references (row : ChunkRow) : List Reference :=
  [⟨.chunk, row.id⟩, ⟨.workspace, row.workspaceId⟩, ⟨.source, row.sourceId⟩]

def ContextRow.references (row : ContextRow) : List Reference :=
  [⟨.context, row.id⟩, ⟨.workspace, row.workspaceId⟩, ⟨.source, row.sourceId⟩,
    ⟨.chunk, row.chunkId⟩]

def StoreEntry.reference (entry : StoreEntry) : Reference := ⟨.source, entry.sourceId⟩

/-- The items of the three lists of a Context Store. -/
def StoreRow.entries (row : StoreRow) : List StoreEntry :=
  row.openIssues ++ row.decisions ++ row.nextActions

def StoreRow.references (row : StoreRow) : List Reference :=
  [⟨.contextStore, row.id⟩, ⟨.workspace, row.workspaceId⟩] ++
    row.sourceIds.map (fun id => ⟨.source, id⟩) ++ row.entries.map (·.reference)

def StoreRow.texts (row : StoreRow) : List Text := row.entries.flatMap (·.others) ++ row.others

def NodeRow.references (uuids : Uuids U) (row : NodeRow) : List Reference :=
  [⟨.node, row.id⟩, ⟨.workspace, row.workspaceId⟩, ⟨.source, row.sourceId⟩,
      ⟨.chunk, row.chunkId⟩, ⟨.node, row.supersededBy⟩] ++
    row.sourceIds.map (fun id => ⟨.source, id⟩) ++
    row.identifiers.filterMap (identifierReference uuids)

def NodeRow.texts (uuids : Uuids U) (row : NodeRow) : List Text :=
  row.identifiers.filter (fun value => (identifierReference uuids value).isNone) ++ row.others

def EdgeRow.references (row : EdgeRow) : List Reference :=
  [⟨.edge, row.id⟩, ⟨.workspace, row.workspaceId⟩, ⟨.source, row.sourceId⟩,
    ⟨.chunk, row.chunkId⟩, ⟨.node, row.source⟩, ⟨.node, row.target⟩]

def EdgeRow.texts (row : EdgeRow) : List Text := row.kind :: row.others

namespace Rows

/-- The references of all rows but those of the edges. -/
def rowReferences (uuids : Uuids U) (rows : Rows) : List Reference :=
  rows.workspace.references ++ rows.people.flatMap (·.references) ++
    rows.projects.flatMap (·.references) ++ rows.projectMembers.flatMap (·.references) ++
    rows.sourceProjects.flatMap (·.references) ++ rows.sourcePeople.flatMap (·.references) ++
    rows.sources.flatMap (·.references) ++ rows.chunks.flatMap (·.references) ++
    rows.contexts.flatMap (·.references) ++ rows.contextStores.flatMap (·.references) ++
    rows.nodes.flatMap (·.references uuids)

/-- Every reference of the rows and the graph. -/
def references (uuids : Uuids U) (rows : Rows) : List Reference :=
  rows.rowReferences uuids ++ rows.edges.flatMap (·.references)

/-- Every text that a restore copies. -/
def texts (uuids : Uuids U) (rows : Rows) : List Text :=
  rows.workspace.texts ++ rows.people.flatMap (·.texts) ++
    rows.projects.flatMap (·.others) ++ rows.projectMembers.flatMap (·.texts) ++
    rows.sourceProjects.flatMap (·.texts) ++ rows.sourcePeople.flatMap (·.texts) ++
    rows.sources.flatMap (·.texts) ++ rows.chunks.flatMap (·.others) ++
    rows.contexts.flatMap (·.others) ++ rows.contextStores.flatMap (·.texts) ++
    rows.nodes.flatMap (·.texts uuids) ++ rows.edges.flatMap (·.texts)

/-- The items, as the references of the rows to themselves. -/
def items (rows : Rows) : List Reference :=
  ⟨.workspace, rows.workspace.id⟩ :: rows.people.map (fun row => ⟨.person, row.id⟩) ++
    rows.projects.map (fun row => ⟨.project, row.id⟩) ++
    (rows.projectMembers ++ rows.sourceProjects ++ rows.sourcePeople).map
      (fun row => ⟨.association, row.id⟩) ++
    rows.sources.map (fun row => ⟨.source, row.id⟩) ++
    rows.chunks.map (fun row => ⟨.chunk, row.id⟩) ++
    rows.contexts.map (fun row => ⟨.context, row.id⟩) ++
    rows.contextStores.map (fun row => ⟨.contextStore, row.id⟩) ++
    rows.nodes.map (fun row => ⟨.node, row.id⟩) ++ rows.edges.map (fun row => ⟨.edge, row.id⟩)

/-- Every UUID that the rows refer to or mention. -/
def uuids (uuids : Uuids U) (rows : Rows) : List U :=
  (rows.references uuids).filterMap (·.uuid uuids) ++
    (rows.texts uuids).flatMap (mentioned uuids)

end Rows

/-! ## What a restore does to them -/

section Restore

variable (uuids : Uuids U) (fresh : Fresh U) (ownerId : U) (attempt : Text)

@[simp] theorem relabel_workspace (id : Option Text) :
    Reference.relabel uuids fresh ⟨.workspace, id⟩ = ⟨.workspace, some (uuids.str fresh.target)⟩ :=
  rfl

theorem relabel_of_ne {table : Table} (h : table ≠ .workspace) (id : Option Text) :
    Reference.relabel uuids fresh ⟨table, id⟩ = ⟨table, remap uuids fresh id⟩ :=
  if_neg h

/-- A list of entries with one reference each. -/
theorem map_reference_restore {α : Type} {restore : α → α} {reference : α → Reference}
    (h : ∀ a, reference (restore a) = (reference a).relabel uuids fresh) (l : List α) :
    (l.map restore).map reference = (l.map reference).map (·.relabel uuids fresh) := by
  rw [List.map_map, List.map_map]
  exact List.map_congr_left fun a _ => h a

/-- A list of rows. -/
theorem flatMap_references_restore {α : Type} {restore : α → α} {references : α → List Reference}
    (h : ∀ a, references (restore a) = (references a).map (·.relabel uuids fresh)) (l : List α) :
    (l.map restore).flatMap references = (l.flatMap references).map (·.relabel uuids fresh) := by
  rw [List.flatMap_map, List.map_flatMap]
  simp only [h]

theorem ConfirmedSnapshot.references_restore (snapshot : ConfirmedSnapshot) :
    (snapshot.restore uuids fresh).references =
      snapshot.references.map (·.relabel uuids fresh) := by
  have hproject : ∀ entry : ProjectEntry, (entry.restore uuids fresh).references =
      entry.references.map (·.relabel uuids fresh) := fun _ => rfl
  have hperson : ∀ entry : PersonEntry, (entry.restore uuids fresh).reference =
      entry.reference.relabel uuids fresh := fun _ => rfl
  simp only [references, restore, List.map_append,
    ← flatMap_references_restore uuids fresh hproject, ← map_reference_restore uuids fresh hperson,
    Option.toList_map]

theorem ConfirmedSnapshot.texts_restore (snapshot : ConfirmedSnapshot) :
    (snapshot.restore uuids fresh).texts = snapshot.texts := by
  simp only [texts, restore, List.flatMap_map, Option.toList_map, ProjectEntry.restore,
    PersonEntry.restore]

theorem SourceRow.references_restore (row : SourceRow) :
    (row.restore uuids fresh ownerId attempt).references =
      row.references.map (·.relabel uuids fresh) := by
  have hutterance : ∀ entry : UtteranceEntry, (entry.restore uuids fresh).reference =
      entry.reference.relabel uuids fresh := fun _ => rfl
  simp only [references, restore, List.map_append,
    ← map_reference_restore uuids fresh hutterance, Option.toList_map,
    ← flatMap_references_restore uuids fresh (ConfirmedSnapshot.references_restore uuids fresh)]
  rfl

theorem SourceRow.texts_restore (row : SourceRow) :
    (row.restore uuids fresh ownerId attempt).texts = row.texts := by
  simp only [texts, restore, List.flatMap_map, Option.toList_map, UtteranceEntry.restore,
    ConfirmedSnapshot.texts_restore]

theorem StoreRow.entries_restore (row : StoreRow) :
    (row.restore uuids fresh ownerId).entries = row.entries.map (·.restore uuids fresh) := by
  simp only [entries, restore, List.map_append]

theorem StoreRow.references_restore (row : StoreRow) :
    (row.restore uuids fresh ownerId).references =
      row.references.map (·.relabel uuids fresh) := by
  have hentry : ∀ entry : StoreEntry, (entry.restore uuids fresh).reference =
      entry.reference.relabel uuids fresh := fun _ => rfl
  have hsource : ∀ id : Option Text, (⟨.source, remap uuids fresh id⟩ : Reference) =
      Reference.relabel uuids fresh ⟨.source, id⟩ := fun _ => rfl
  simp only [references, entries_restore, List.map_append,
    ← map_reference_restore uuids fresh hentry]
  simp only [restore, ← map_reference_restore uuids fresh hsource]
  rfl

theorem StoreRow.texts_restore (row : StoreRow) :
    (row.restore uuids fresh ownerId).texts = row.texts := by
  simp only [texts, entries_restore, List.flatMap_map]
  rfl

/-- The parts of an identifier that is put together from a kind and an id. -/
theorem directoryParts_mk {kind : Text}
    (h : kind = "person".toList ∨ kind = "project".toList) (id : Text) :
    directoryParts ("directory:".toList ++ kind ++ ':' :: id) = some (kind, id) := by
  rcases h with rfl | rfl <;> rfl

/-- The kind of an identifier is one of two. -/
theorem kind_of_directoryParts {value kind id : Text} (h : directoryParts value = some (kind, id)) :
    kind = "person".toList ∨ kind = "project".toList := by
  unfold directoryParts at h
  split at h
  · split at h
    · split at h
      · rename_i hkinds
        cases h
        exact hkinds.2
      · cases h
    · cases h
  · cases h

/-- The remapped identifier refers to the remapped id; the others are copied. -/
theorem identifierReference_remap (value : Text) :
    identifierReference uuids (remapDirectoryIdentifier uuids fresh value) =
      (identifierReference uuids value).map (·.relabel uuids fresh) := by
  cases hparts : directoryParts value with
  | none => simp [identifierReference, remapDirectoryIdentifier, hparts]
  | some parts =>
    obtain ⟨kind, id⟩ := parts
    cases hid : uuids.parse id with
    | none => simp [identifierReference, remapDirectoryIdentifier, hparts, hid]
    | some u =>
      have hne : id ≠ [] := by
        rintro rfl
        rw [uuids.parse_nil] at hid
        cases hid
      have htable : directoryTable kind ≠ .workspace := by
        unfold directoryTable
        split <;> exact Table.noConfusion
      have hremap : remap uuids fresh (some id) = some (uuids.str (fresh.uuid5 id)) :=
        if_neg hne
      simp only [remapDirectoryIdentifier, hparts, hid, hremap, Option.getD_some,
        identifierReference, directoryParts_mk (kind_of_directoryParts hparts), uuids.parse_str,
        Option.map_some, relabel_of_ne uuids fresh htable]

theorem remapDirectoryIdentifier_of_none {value : Text}
    (h : identifierReference uuids value = none) :
    remapDirectoryIdentifier uuids fresh value = value := by
  unfold identifierReference at h
  unfold remapDirectoryIdentifier
  cases hparts : directoryParts value with
  | none => rfl
  | some parts =>
    rw [hparts] at h
    have hid : uuids.parse parts.2 = none := Option.map_eq_none_iff.mp h
    simp only [hid]

theorem NodeRow.references_restore (row : NodeRow) :
    (row.restore uuids fresh).references uuids =
      (row.references uuids).map (·.relabel uuids fresh) := by
  have hsource : ∀ id : Option Text, (⟨.source, remap uuids fresh id⟩ : Reference) =
      Reference.relabel uuids fresh ⟨.source, id⟩ := fun _ => rfl
  simp only [references, restore, List.map_append, ← map_reference_restore uuids fresh hsource,
    List.filterMap_map, List.map_filterMap, Function.comp_def, identifierReference_remap]
  rfl

theorem NodeRow.texts_restore (row : NodeRow) :
    (row.restore uuids fresh).texts uuids = row.texts uuids := by
  have hkept : ∀ value, (identifierReference uuids value).isNone = true →
      remapDirectoryIdentifier uuids fresh value = value := fun value h =>
    remapDirectoryIdentifier_of_none uuids fresh (Option.isNone_iff_eq_none.mp h)
  simp only [texts, restore, List.filter_map, Function.comp_def, identifierReference_remap,
    Option.isNone_map]
  rw [List.map_congr_left fun value hvalue => hkept value (List.mem_filter.mp hvalue).2,
    List.map_id']

/-- Every edge of the rows is created. -/
def Rows.Linked (rows : Rows) : Prop :=
  ∀ edge ∈ rows.edges, ∀ id ∈ [edge.source, edge.target],
    ∃ node ∈ rows.nodes, remap uuids fresh node.id = remap uuids fresh id

theorem edges_restoredRows {rows : Rows} (h : rows.Linked uuids fresh) :
    (restoredRows uuids fresh ownerId attempt rows).edges =
      rows.edges.map (·.restore uuids fresh) := by
  refine List.filter_eq_self.mpr fun edge hedge => ?_
  obtain ⟨old, hold, rfl⟩ := List.mem_map.mp hedge
  have hend : ∀ id ∈ [old.source, old.target],
      ((rows.nodes.map (·.restore uuids fresh)).any fun node =>
        decide (node.id = remap uuids fresh id)) = true := by
    intro id hid
    obtain ⟨node, hnode, heq⟩ := h old hold id hid
    refine List.any_eq_true.mpr ⟨node.restore uuids fresh, List.mem_map_of_mem hnode, ?_⟩
    exact decide_eq_true heq
  exact Bool.and_eq_true_iff.mpr ⟨hend old.source (List.mem_cons_self ..),
    hend old.target (List.mem_cons_of_mem _ (List.mem_cons_self ..))⟩

theorem rowReferences_restoredRows (rows : Rows) :
    (restoredRows uuids fresh ownerId attempt rows).rowReferences uuids =
      (rows.rowReferences uuids).map (·.relabel uuids fresh) := by
  have hperson : ∀ row : PersonRow, (row.restore uuids fresh ownerId).references =
      row.references.map (·.relabel uuids fresh) := fun _ => rfl
  have hproject : ∀ row : ProjectRow, (row.restore uuids fresh ownerId).references =
      row.references.map (·.relabel uuids fresh) := fun _ => rfl
  have hassociation : ∀ row : AssociationRow, (row.restore uuids fresh).references =
      row.references.map (·.relabel uuids fresh) := fun _ => rfl
  have hchunk : ∀ row : ChunkRow, (row.restore uuids fresh ownerId).references =
      row.references.map (·.relabel uuids fresh) := fun _ => rfl
  have hcontext : ∀ row : ContextRow, (row.restore uuids fresh ownerId).references =
      row.references.map (·.relabel uuids fresh) := fun _ => rfl
  simp only [Rows.rowReferences, restoredRows, List.map_append,
    ← flatMap_references_restore uuids fresh hperson,
    ← flatMap_references_restore uuids fresh hproject,
    ← flatMap_references_restore uuids fresh hassociation,
    ← flatMap_references_restore uuids fresh
      (SourceRow.references_restore uuids fresh ownerId attempt),
    ← flatMap_references_restore uuids fresh hchunk,
    ← flatMap_references_restore uuids fresh hcontext,
    ← flatMap_references_restore uuids fresh (StoreRow.references_restore uuids fresh ownerId),
    ← flatMap_references_restore uuids fresh (NodeRow.references_restore uuids fresh)]
  rfl

/-- A restore relabels every reference, when every edge is created. -/
theorem references_restoredRows {rows : Rows} (h : rows.Linked uuids fresh) :
    (restoredRows uuids fresh ownerId attempt rows).references uuids =
      (rows.references uuids).map (·.relabel uuids fresh) := by
  have hedge : ∀ row : EdgeRow, (row.restore uuids fresh).references =
      row.references.map (·.relabel uuids fresh) := fun _ => rfl
  rw [Rows.references, rowReferences_restoredRows, edges_restoredRows uuids fresh _ _ h,
    flatMap_references_restore uuids fresh hedge, ← List.map_append]
  rfl

/-- A restore copies every other text, when every edge is created. -/
theorem texts_restoredRows {rows : Rows} (h : rows.Linked uuids fresh) :
    (restoredRows uuids fresh ownerId attempt rows).texts uuids = rows.texts uuids := by
  rw [Rows.texts, edges_restoredRows uuids fresh _ _ h]
  simp only [restoredRows, List.flatMap_map, SourceRow.texts_restore, StoreRow.texts_restore,
    NodeRow.texts_restore]
  rfl

end Restore

end Maeglagi.Snapshot
