import Mathlib.Data.Set.Function
import Maeglagi.Core.Uuid
import Maeglagi.Snapshot.References

/-!
# Restored references

The restored rows are isomorphic to the artifact, and free of its ids, exactly when every
reference to an item is spelled like the id of the item and no copied text mentions an id. The
checkpoint of an analysis is such a text.
-/

namespace Maeglagi.Snapshot

open Core

variable {U : Type}

namespace Rows

/-- The rows have an item of the table with this UUID. -/
def Has (uuids : Uuids U) (rows : Rows) (table : Table) (u : U) : Prop :=
  ∃ item ∈ rows.items, item.table = table ∧ item.uuid uuids = some u

/-- One renaming of the items carries the references of the first rows to those of the second,
and all else is the same. -/
def Isomorphic (uuids : Uuids U) (rows restored : Rows) : Prop :=
  ∃ image : Table → U → U,
    (∀ table, Set.InjOn (image table) {u | rows.Has uuids table u}) ∧
    List.Forall₂ (fun ref ref' : Reference => ref'.table = ref.table ∧
        ∀ u, ref.uuid uuids = some u → rows.Has uuids ref.table u →
          ref'.uuid uuids = some (image ref.table u))
      (rows.references uuids) (restored.references uuids) ∧
    restored.texts uuids = rows.texts uuids

/-- No id of the first rows is left in the second. -/
def KeepsNoId (uuids : Uuids U) (rows restored : Rows) : Prop :=
  ∀ u ∈ restored.uuids uuids, ∀ table, ¬ rows.Has uuids table u

/-- A reference to an item other than the workspace is spelled like the id of the item. -/
def SpelledAlike (uuids : Uuids U) (rows : Rows) : Prop :=
  ∀ ref ∈ rows.references uuids, ref.table ≠ .workspace → ∀ item ∈ rows.items,
    item.table = ref.table → ∀ u, ref.uuid uuids = some u → item.uuid uuids = some u →
      ref.id = item.id

/-- No text that is copied mentions the id of an item. -/
def CopiesNoId (uuids : Uuids U) (rows : Rows) : Prop :=
  ∀ text ∈ rows.texts uuids, ∀ u ∈ mentioned uuids text, ∀ table, ¬ rows.Has uuids table u

end Rows

/-- The ids that a restore chooses for the texts it remaps are distinct and new. -/
structure Chosen (uuids : Uuids U) (rows : Rows) (fresh : Fresh U) : Prop where
  injective : ∀ ref ∈ rows.references uuids, ∀ ref' ∈ rows.references uuids, ∀ text text',
    ref.id = some text → ref'.id = some text' → fresh.uuid5 text = fresh.uuid5 text' →
      text = text'
  new : ∀ ref ∈ rows.references uuids, ∀ text, ref.id = some text → ∀ table,
    ¬ rows.Has uuids table (fresh.uuid5 text)
  target_new : ∀ table, ¬ rows.Has uuids table fresh.target

/-! ## The items and their references -/

variable {uuids : Uuids U} {rows : Rows} {fresh : Fresh U} {ownerId : U} {attempt : Text}

/-- Every item refers to itself. -/
theorem Rows.items_subset (uuids : Uuids U) (rows : Rows) :
    rows.items ⊆ rows.references uuids := by
  have hmap : ∀ {α : Type} {f : α → Reference} {g : α → List Reference} (l : List α),
      (∀ a, f a ∈ g a) → ∀ ref ∈ l.map f, ref ∈ l.flatMap g := by
    intro α f g l h ref href
    obtain ⟨a, ha, rfl⟩ := List.mem_map.mp href
    exact List.mem_flatMap.mpr ⟨a, ha, h a⟩
  have hworkspace : ⟨.workspace, rows.workspace.id⟩ ∈ rows.workspace.references :=
    List.mem_cons_self ..
  have hpeople := hmap (g := (·.references)) rows.people fun _ => List.mem_cons_self ..
  have hprojects := hmap (g := (·.references)) rows.projects fun _ => List.mem_cons_self ..
  have hassociations := fun l : List AssociationRow =>
    hmap (g := (·.references)) l fun _ => List.mem_cons_self ..
  have hsources := hmap (g := (·.references)) rows.sources fun _ => List.mem_cons_self ..
  have hchunks := hmap (g := (·.references)) rows.chunks fun _ => List.mem_cons_self ..
  have hcontexts := hmap (g := (·.references)) rows.contexts fun _ => List.mem_cons_self ..
  have hstores := hmap (g := (·.references)) rows.contextStores fun _ => List.mem_cons_self ..
  have hnodes := hmap (g := (·.references uuids)) rows.nodes fun _ => List.mem_cons_self ..
  have hedges := hmap (g := (·.references)) rows.edges fun _ => List.mem_cons_self ..
  intro item hitem
  simp only [items, List.cons_append, List.map_append, List.mem_cons, List.mem_append] at hitem
  simp only [references, rowReferences, List.mem_append]
  grind

variable (fresh) in
/-- The UUID that a remapped reference spells. -/
theorem uuid_relabel {ref : Reference} {u : U} (hu : ref.uuid uuids = some u)
    (htable : ref.table ≠ .workspace) :
    ∃ text, ref.id = some text ∧
      (ref.relabel uuids fresh).uuid uuids = some (fresh.uuid5 text) := by
  obtain ⟨text, hid, hparse⟩ := Option.bind_eq_some_iff.mp hu
  have hne : text ≠ [] := by
    rintro rfl
    rw [uuids.parse_nil] at hparse
    cases hparse
  refine ⟨text, hid, ?_⟩
  rw [Reference.relabel, if_neg htable, Reference.uuid, hid, remap, if_neg hne]
  exact uuids.parse_str _

/-- What a relabelled reference spells is new. -/
theorem new_of_relabel {ref : Reference} (h : Chosen uuids rows fresh)
    (href : ref ∈ rows.references uuids) {u : U}
    (hu : (ref.relabel uuids fresh).uuid uuids = some u) (table : Table) :
    ¬ rows.Has uuids table u := by
  by_cases htable : ref.table = .workspace
  · rw [Reference.relabel, if_pos htable] at hu
    obtain rfl := Option.some.inj ((uuids.parse_str fresh.target).symm.trans hu)
    exact h.target_new table
  · rw [Reference.relabel, if_neg htable] at hu
    obtain ⟨text, hid, hparse⟩ := Option.bind_eq_some_iff.mp hu
    unfold remap at hid
    split at hid
    · cases hid
    · rename_i original horiginal
      split at hid
      · cases hid
      · obtain rfl := Option.some.inj hid
        obtain rfl := Option.some.inj ((uuids.parse_str _).symm.trans hparse)
        exact h.new ref href original horiginal table

/-! ## The edges that are created -/

/-- A check that passes. -/
theorem of_require {condition : Bool} {message : String} (h : require condition message = .ok ()) :
    condition = true := by
  unfold require at h
  split at h
  · assumption
  · cases h

/-- The ids that `_ids` returns are printed. -/
theorem exists_of_mem_ids {values : List (Option Text)} {label : String} {known : List Text}
    (h : ids uuids values label = .ok known) {text : Text} (htext : text ∈ known) :
    ∃ value ∈ values, ∃ u, value.bind uuids.parse = some u ∧ text = uuids.str u := by
  obtain ⟨texts, htexts, hrest⟩ := bind_eq_ok.mp h
  obtain ⟨⟨⟩, -, hknown⟩ := bind_eq_ok.mp hrest
  obtain rfl := pure_eq_ok.mp hknown
  obtain ⟨value, hvalue, huuid⟩ := exists_of_mem_mapM_ok htexts htext
  refine ⟨value, hvalue, ?_⟩
  unfold uuid at huuid
  split at huuid
  · exact ⟨_, ‹_›, (Except.ok.inj huuid).symm⟩
  · cases huuid

/-- Every end of an edge of an accepted artifact is the printed id of a node. -/
theorem ends_of_validate {payload : Payload} (h : validateArtifact uuids ownerId payload = .ok ()) :
    ∀ edge ∈ payload.edges, ∀ id ∈ [edge.source, edge.target],
      ∃ node ∈ payload.nodes, ∃ u, node.id.bind uuids.parse = some u ∧
        id = some (uuids.str u) := by
  obtain ⟨⟨workspaceId, sourceIds, chunkIds⟩, -, hgraph⟩ := bind_eq_ok.mp h
  obtain ⟨⟨⟩, -, hgraph⟩ := bind_eq_ok.mp hgraph
  obtain ⟨nodeIds, hnodeIds, hgraph⟩ := bind_eq_ok.mp hgraph
  obtain ⟨⟨⟩, -, hgraph⟩ := bind_eq_ok.mp hgraph
  obtain ⟨_, -, hedges⟩ := bind_eq_ok.mp hgraph
  intro edge hedge
  obtain ⟨⟨⟩, -, hrest⟩ := bind_eq_ok.mp (ok_of_forM_ok hedges edge hedge)
  obtain ⟨⟨⟩, hends, -⟩ := bind_eq_ok.mp hrest
  have hboth := Bool.and_eq_true_iff.mp (of_require hends)
  have hknown : ∀ id ∈ [edge.source, edge.target], id ∈ nodeIds.map some := by
    intro id hid
    rcases List.mem_cons.mp hid with rfl | hid
    · exact of_decide_eq_true hboth.1
    · rw [List.mem_singleton.mp hid]
      exact of_decide_eq_true hboth.2
  intro id hid
  obtain ⟨text, htext, rfl⟩ := List.mem_map.mp (hknown id hid)
  obtain ⟨value, hvalue, u, hu, rfl⟩ := exists_of_mem_ids hnodeIds htext
  obtain ⟨node, hnode, rfl⟩ := List.mem_map.mp hvalue
  exact ⟨node, hnode, u, hu, rfl⟩

/-- An accepted artifact that spells its references like the ids has all its edges created. -/
theorem linked_of_spelledAlike {payload : Payload}
    (h : validateArtifact uuids ownerId payload = .ok ())
    (hspelled : payload.SpelledAlike uuids) : payload.Linked uuids fresh := by
  intro edge hedge id hid
  obtain ⟨node, hnode, u, hu, rfl⟩ := ends_of_validate h edge hedge id hid
  refine ⟨node, hnode, ?_⟩
  have href : ⟨.node, some (uuids.str u)⟩ ∈ payload.references uuids := by
    refine List.mem_append_right _ (List.mem_flatMap.mpr ⟨edge, hedge, ?_⟩)
    rcases List.mem_cons.mp hid with heq | hid
    · simp [EdgeRow.references, heq]
    · simp [EdgeRow.references, List.mem_singleton.mp hid]
  have hitem : ⟨.node, node.id⟩ ∈ payload.items := by
    simp only [Rows.items, List.mem_append, List.mem_map]
    exact .inl (.inr ⟨node, hnode, rfl⟩)
  have hsame := hspelled _ href Table.noConfusion _ hitem rfl u (uuids.parse_str u) hu
  have hid : some (uuids.str u) = node.id := hsame
  rw [hid]

/-- Rows whose references all follow have all their edges created. -/
theorem linked_of_length
    (h : ((restoredRows uuids fresh ownerId attempt rows).references uuids).length =
      (rows.references uuids).length) : rows.Linked uuids fresh := by
  have hflat : ∀ edges : List EdgeRow, (edges.flatMap (·.references)).length =
      6 * edges.length := by
    intro edges
    induction edges with
    | nil => rfl
    | cons edge edges ih =>
      rw [List.flatMap_cons, List.length_append, ih, List.length_cons]
      show 6 + _ = _
      omega
  rw [Rows.references, Rows.references, rowReferences_restoredRows, List.length_append,
    List.length_append, List.length_map, hflat, hflat] at h
  have hlength : (restoredRows uuids fresh ownerId attempt rows).edges.length =
      (rows.edges.map (·.restore uuids fresh)).length := by
    rw [List.length_map]
    omega
  have hall := List.length_filter_eq_length_iff.mp hlength
  intro edge hedge id hid
  have hends := Bool.and_eq_true_iff.mp
    (hall (edge.restore uuids fresh) (List.mem_map_of_mem hedge))
  have hnode : ∀ id, ((rows.nodes.map (·.restore uuids fresh)).any fun node =>
      decide (node.id = remap uuids fresh id)) = true →
      ∃ node ∈ rows.nodes, remap uuids fresh node.id = remap uuids fresh id := by
    intro id hany
    obtain ⟨restored, hrestored, heq⟩ := List.any_eq_true.mp hany
    obtain ⟨node, hmem, rfl⟩ := List.mem_map.mp hrestored
    exact ⟨node, hmem, of_decide_eq_true heq⟩
  rcases List.mem_cons.mp hid with rfl | hid
  · exact hnode _ hends.1
  · rw [List.mem_singleton.mp hid]
    exact hnode _ hends.2

/-! ## The two directions -/

/-- The new UUID of an item: of the workspace the target, of others the hash of its id. -/
def Rows.image [DecidableEq U] (uuids : Uuids U) (fresh : Fresh U) (rows : Rows) (table : Table)
    (u : U) : U :=
  if table = .workspace then fresh.target
  else
    match rows.items.find? fun item =>
        decide (item.table = table) && decide (item.uuid uuids = some u) with
    | some item => fresh.uuid5 (item.id.getD [])
    | none => u

variable (fresh) in
/-- The new UUID of an item hashes the id of one item with its old one. -/
theorem Rows.image_of_has [DecidableEq U] {table : Table} {u : U} (h : rows.Has uuids table u)
    (htable : table ≠ .workspace) :
    ∃ item ∈ rows.items, item.table = table ∧ item.uuid uuids = some u ∧
      ∃ text, item.id = some text ∧ rows.image uuids fresh table u = fresh.uuid5 text := by
  unfold Rows.image
  rw [if_neg htable]
  cases hfind : rows.items.find? fun item =>
      decide (item.table = table) && decide (item.uuid uuids = some u) with
  | none =>
    obtain ⟨item, hitem, heq, hu⟩ := h
    have hno := List.find?_eq_none.mp hfind item hitem
    simp [heq, hu] at hno
  | some item =>
    have hboth : (decide (item.table = table) && decide (item.uuid uuids = some u)) = true := by
      simpa using List.find?_some hfind
    have hfound := Bool.and_eq_true_iff.mp hboth
    have hu := of_decide_eq_true hfound.2
    obtain ⟨text, hid, -⟩ := Option.bind_eq_some_iff.mp hu
    refine ⟨item, List.mem_of_find?_eq_some hfind, of_decide_eq_true hfound.1, hu, text, hid, ?_⟩
    show fresh.uuid5 (item.id.getD []) = fresh.uuid5 text
    rw [hid]
    rfl

/-- An artifact that spells its references like the ids is restored isomorphically. -/
theorem isomorphic_of_spelledAlike [DecidableEq U] (hchosen : Chosen uuids rows fresh)
    (hspelled : rows.SpelledAlike uuids) (hlinked : rows.Linked uuids fresh)
    (hone : ∀ item ∈ rows.items, item.table = .workspace → item.id = rows.workspace.id) :
    rows.Isomorphic uuids (restoredRows uuids fresh ownerId attempt rows) := by
  refine ⟨rows.image uuids fresh, fun table => ?_, ?_,
    texts_restoredRows uuids fresh ownerId attempt hlinked⟩
  · intro u hu u' hu' heq
    by_cases htable : table = .workspace
    · obtain ⟨item, hitem, hworkspace, huuid⟩ := hu
      obtain ⟨item', hitem', hworkspace', huuid'⟩ := hu'
      rw [Reference.uuid, hone item hitem (hworkspace.trans htable)] at huuid
      rw [Reference.uuid, hone item' hitem' (hworkspace'.trans htable)] at huuid'
      exact Option.some.inj (huuid.symm.trans huuid')
    · obtain ⟨item, hitem, -, huuid, text, hid, himage⟩ := Rows.image_of_has fresh hu htable
      obtain ⟨item', hitem', -, huuid', text', hid', himage'⟩ := Rows.image_of_has fresh hu' htable
      have hhash : fresh.uuid5 text = fresh.uuid5 text' :=
        himage.symm.trans (heq.trans himage')
      have htext := hchosen.injective item (rows.items_subset uuids hitem) item'
        (rows.items_subset uuids hitem') text text' hid hid' hhash
      rw [Reference.uuid, hid, htext, ← hid'] at huuid
      exact Option.some.inj (huuid.symm.trans huuid')
  · rw [references_restoredRows uuids fresh ownerId attempt hlinked]
    refine List.forall₂_map_right_iff.mpr (List.forall₂_same.mpr fun ref href => ?_)
    refine ⟨by unfold Reference.relabel; split <;> rfl, fun u hu hhas => ?_⟩
    by_cases htable : ref.table = .workspace
    · rw [Reference.relabel, if_pos htable, Rows.image, if_pos htable]
      exact uuids.parse_str _
    · obtain ⟨text, hid, hrelabel⟩ := uuid_relabel fresh hu htable
      obtain ⟨item, hitem, hsame, huuid, text', hid', himage⟩ :=
        Rows.image_of_has fresh hhas htable
      have halike := hspelled ref href htable item hitem hsame u hu huuid
      obtain rfl := Option.some.inj (hid.symm.trans (halike.trans hid'))
      rw [hrelabel, himage]

/-- An artifact that is restored isomorphically spells its references like the ids. -/
theorem spelledAlike_of_isomorphic (hchosen : Chosen uuids rows fresh)
    (hiso : rows.Isomorphic uuids (restoredRows uuids fresh ownerId attempt rows)) :
    rows.SpelledAlike uuids := by
  obtain ⟨image, -, hrefs, -⟩ := hiso
  have hlinked := linked_of_length hrefs.length_eq.symm
  rw [references_restoredRows uuids fresh ownerId attempt hlinked] at hrefs
  have hfollows := List.forall₂_same.mp (List.forall₂_map_right_iff.mp hrefs)
  intro ref href htable item hitem hsame u hu huuid
  have hhas : rows.Has uuids ref.table u := ⟨item, hitem, hsame, huuid⟩
  have hitemTable : item.table ≠ .workspace := hsame.symm ▸ htable
  have hself := rows.items_subset uuids hitem
  obtain ⟨text, hid, hrelabel⟩ := uuid_relabel fresh hu htable
  obtain ⟨text', hid', hrelabel'⟩ := uuid_relabel fresh huuid hitemTable
  have himage := (hfollows ref href).2 u hu hhas
  have himage' := (hfollows item hself).2 u huuid (hsame.symm ▸ hhas)
  rw [hsame] at himage'
  have hhash : fresh.uuid5 text = fresh.uuid5 text' :=
    Option.some.inj (hrelabel.symm.trans (himage.trans (himage'.symm.trans hrelabel')))
  rw [hid, hid', hchosen.injective ref href item hself text text' hid hid' hhash]

/-- The restored rows keep no id exactly when the copied texts mention none. -/
theorem keepsNoId_iff (hchosen : Chosen uuids rows fresh) (hlinked : rows.Linked uuids fresh) :
    rows.KeepsNoId uuids (restoredRows uuids fresh ownerId attempt rows) ↔
      rows.CopiesNoId uuids := by
  unfold Rows.KeepsNoId Rows.uuids
  rw [references_restoredRows uuids fresh ownerId attempt hlinked,
    texts_restoredRows uuids fresh ownerId attempt hlinked]
  constructor
  · intro h text htext u hu table
    exact h u (List.mem_append_right _ (List.mem_flatMap.mpr ⟨text, htext, hu⟩)) table
  · intro h u hu table
    rcases List.mem_append.mp hu with hu | hu
    · obtain ⟨ref', href', hu⟩ := List.mem_filterMap.mp hu
      obtain ⟨ref, href, rfl⟩ := List.mem_map.mp href'
      exact new_of_relabel hchosen href hu table
    · obtain ⟨text, htext, hu⟩ := List.mem_flatMap.mp hu
      exact h text htext u hu table

/-- The only item that is a workspace is the one of the artifact. -/
theorem workspace_item (rows : Rows) :
    ∀ item ∈ rows.items, item.table = .workspace → item.id = rows.workspace.id := by
  intro item hitem htable
  simp only [Rows.items, List.cons_append, List.mem_cons, List.mem_append, List.mem_map] at hitem
  grind

/-- An accepted artifact is restored isomorphically and without its old ids exactly when it
spells every reference like the id of the item and no text that is copied mentions an id. -/
theorem restore_isomorphic_iff [DecidableEq U] {payload : Payload}
    (haccepted : validateArtifact uuids ownerId payload = .ok ())
    (hchosen : Chosen uuids payload.toRows fresh) :
    (payload.Isomorphic uuids (restoredRows uuids fresh ownerId attempt payload.toRows) ∧
        payload.KeepsNoId uuids (restoredRows uuids fresh ownerId attempt payload.toRows)) ↔
      payload.SpelledAlike uuids ∧ payload.CopiesNoId uuids := by
  constructor
  · rintro ⟨hiso, hkeeps⟩
    have hspelled := spelledAlike_of_isomorphic hchosen hiso
    exact ⟨hspelled, (keepsNoId_iff hchosen (linked_of_spelledAlike haccepted hspelled)).mp hkeeps⟩
  · rintro ⟨hspelled, hcopies⟩
    have hlinked : payload.Linked uuids fresh := linked_of_spelledAlike haccepted hspelled
    exact ⟨isomorphic_of_spelledAlike hchosen hspelled hlinked (workspace_item _),
      (keepsNoId_iff hchosen hlinked).mpr hcopies⟩

/-! ## One artifact -/

/-- UUIDs as they are printed and read. -/
def plainUuids : Uuids Uuid := ⟨Uuid.parse, Uuid.str, Uuid.parse_str, rfl⟩

/-- A UUID of one digit, in the spelling of the digit. -/
def demoId (c : Char) : Text :=
  List.replicate 8 c ++ '-' :: List.replicate 4 c ++ '-' :: List.replicate 4 c ++
    '-' :: List.replicate 4 c ++ '-' :: List.replicate 12 c

/-- A source with one chunk, one context, one issue of the Context Store, and a node that is
related to itself. The issue spells its source as given. -/
def demoPayload (checkpoint : List Text) (issueSource : Text) : Payload where
  version := 1
  objects := [some (demoId 'a')]
  workspace := ⟨some (demoId '0'), some (demoId '9'), "Demo".toList,
    ("openai".toList, "text-embedding-3-small".toList), []⟩
  people := []
  projects := []
  projectMembers := []
  sourceProjects := []
  sourcePeople := []
  sources := [{
    id := some (demoId 'a')
    workspaceId := some (demoId '0')
    ownerId := some (demoId '9')
    projectId := none
    objectPath := demoId '9' ++ '/' :: demoId '0' ++ '/' :: demoId 'a' ++ "/demo.md".toList
    status := "succeeded".toList
    processingStage := "completed".toList
    errorMessage := none
    reviewUtterances := []
    rawUtterances := []
    confirmedSnapshot := none
    analysisCheckpoint := checkpoint
    others := [] }]
  chunks := [⟨some (demoId '1'), some (demoId '0'), some (demoId '9'), some (demoId 'a'), []⟩]
  contexts := [⟨some (demoId '3'), some (demoId '0'), some (demoId '9'), some (demoId 'a'),
    some (demoId '1'), []⟩]
  contextStores := [⟨some (demoId '5'), some (demoId '0'), some (demoId '9'),
    [some (demoId 'a')], [⟨some issueSource, []⟩], [], [], []⟩]
  nodes := [⟨some (demoId '6'), some (demoId '0'), some (demoId 'a'), some (demoId '1'),
    [some (demoId 'a')], none, [], []⟩]
  edges := [⟨some (demoId '7'), some (demoId '0'), some (demoId 'a'), some (demoId '1'),
    some (demoId '6'), some (demoId '6'), "RELATED_TO".toList, []⟩]

/-- A digit for each of the characters of the ids. -/
def demoDigit (c : Char) : Fin 16 := Fin.ofNat 16 (c.toNat + c.toNat / 16)

/-- New ids start with `f`. -/
def demoFresh : Fresh Uuid where
  target := ⟨List.replicate 32 15, List.length_replicate⟩
  uuid5 text := ⟨15 :: ((text.filter (· ≠ '-')).map demoDigit ++ List.replicate 31 0).take 31,
    by simp⟩

/-- A choice of ids is checked on the spellings of an artifact. -/
theorem chosen_of_forall {uuids : Uuids U} {rows : Rows} {fresh : Fresh U}
    (hinjective : ∀ ref ∈ rows.references uuids, ∀ ref' ∈ rows.references uuids,
      ref.id.map fresh.uuid5 = ref'.id.map fresh.uuid5 → ref.id = ref'.id)
    (hnew : ∀ ref ∈ rows.references uuids, ∀ item ∈ rows.items,
      (ref.id.map fresh.uuid5).isSome → item.uuid uuids ≠ ref.id.map fresh.uuid5)
    (htarget : ∀ item ∈ rows.items, item.uuid uuids ≠ some fresh.target) :
    Chosen uuids rows fresh where
  injective ref href ref' href' text text' hid hid' heq := by
    have hsame := hinjective ref href ref' href' (by rw [hid, hid']; exact congrArg some heq)
    exact Option.some.inj (hid.symm.trans (hsame.trans hid'))
  new ref href text hid table := by
    rintro ⟨item, hitem, -, hu⟩
    have hmap : ref.id.map fresh.uuid5 = some (fresh.uuid5 text) := by rw [hid]; rfl
    refine hnew ref href item hitem (by rw [hmap]; rfl) ?_
    rw [hmap]
    exact hu
  target_new table := by
    rintro ⟨item, hitem, -, hu⟩
    exact htarget item hitem hu

/-- The owner of the example. -/
def demoOwner : Uuid := ⟨List.replicate 32 9, List.length_replicate⟩

/-- An artifact whose source was never analysed, spelled as the ids are printed. -/
theorem restore_isomorphic_plain :
    (demoPayload [] (demoId 'a')).Isomorphic plainUuids
      (restoredRows plainUuids demoFresh demoOwner "0".toList (demoPayload [] (demoId 'a')).toRows) ∧
    (demoPayload [] (demoId 'a')).KeepsNoId plainUuids
      (restoredRows plainUuids demoFresh demoOwner "0".toList
        (demoPayload [] (demoId 'a')).toRows) := by
  have haccepted : validateArtifact plainUuids demoOwner (demoPayload [] (demoId 'a')) = .ok () :=
    rfl
  have hchosen : Chosen plainUuids (demoPayload [] (demoId 'a')).toRows demoFresh :=
    chosen_of_forall (by decide +kernel) (by decide +kernel) (by decide +kernel)
  have hspelled : ∀ ref ∈ (demoPayload [] (demoId 'a')).references plainUuids,
      ∀ item ∈ (demoPayload [] (demoId 'a')).items, (ref.uuid plainUuids).isSome →
        ref.uuid plainUuids = item.uuid plainUuids → ref.id = item.id := by decide +kernel
  have hcopies : ∀ text ∈ (demoPayload [] (demoId 'a')).texts plainUuids,
      mentioned plainUuids text = [] := by decide +kernel
  refine (restore_isomorphic_iff haccepted hchosen).mpr ⟨?_, ?_⟩
  · intro ref href _ item hitem _ u hu hu'
    exact hspelled ref href item hitem (by rw [hu]; rfl) (hu.trans hu'.symm)
  · intro text htext u hu
    rw [hcopies text htext] at hu
    cases hu

/-- Two accepted artifacts that are not restored faithfully. The checkpoint of an analysis keeps
the id of a node, and an issue that spells its source in upper case loses it. -/
theorem restore_not_isomorphic :
    (validateArtifact plainUuids demoOwner (demoPayload [demoId '6'] (demoId 'a')) = .ok () ∧
      Chosen plainUuids (demoPayload [demoId '6'] (demoId 'a')).toRows demoFresh ∧
      ¬ (demoPayload [demoId '6'] (demoId 'a')).KeepsNoId plainUuids
        (restoredRows plainUuids demoFresh demoOwner "0".toList
          (demoPayload [demoId '6'] (demoId 'a')).toRows)) ∧
    validateArtifact plainUuids demoOwner (demoPayload [] (demoId 'A')) = .ok () ∧
      Chosen plainUuids (demoPayload [] (demoId 'A')).toRows demoFresh ∧
      ¬ (demoPayload [] (demoId 'A')).Isomorphic plainUuids
        (restoredRows plainUuids demoFresh demoOwner "0".toList
          (demoPayload [] (demoId 'A')).toRows) := by
  have hchosen : Chosen plainUuids (demoPayload [] (demoId 'A')).toRows demoFresh :=
    chosen_of_forall (by decide +kernel) (by decide +kernel) (by decide +kernel)
  refine ⟨⟨rfl, chosen_of_forall (by decide +kernel) (by decide +kernel) (by decide +kernel),
    fun hkeeps => ?_⟩, rfl, hchosen, fun hiso => ?_⟩
  · have hmember : (⟨List.replicate 32 6, List.length_replicate⟩ : Uuid) ∈
        (restoredRows plainUuids demoFresh demoOwner "0".toList
          (demoPayload [demoId '6'] (demoId 'a')).toRows).uuids plainUuids := by decide +kernel
    refine hkeeps _ hmember .node ⟨⟨.node, some (demoId '6')⟩, by decide +kernel, rfl, ?_⟩
    decide +kernel
  · have hspelled := spelledAlike_of_isomorphic hchosen hiso
    have hsame := hspelled ⟨.source, some (demoId 'A')⟩ (by decide +kernel) Table.noConfusion
      ⟨.source, some (demoId 'a')⟩ (by decide +kernel) rfl
      ⟨List.replicate 32 10, List.length_replicate⟩ (by decide +kernel) (by decide +kernel)
    exact absurd hsame (by decide +kernel)

end Maeglagi.Snapshot
