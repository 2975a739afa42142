import Maeglagi.Core.Fallible
import Maeglagi.KnowledgeGraph.Shape
import Maeglagi.PlainRuntime

/-!
# The request for the graph

What a request reads is keyed by the stored ids and those of the sources, so that its response is
a graph exactly when nothing in it is repeated.
-/

namespace Maeglagi.KnowledgeGraph

open Core Graph Resolution

variable {Id H : Type} [DecidableEq Id]

/-- The nodes that are read are different ones. -/
theorem nodup_map_id_readNodes (rt : Runtime Id) (g : Stored Id) (workspaceId : Id) :
    ((readNodes rt g workspaceId).map (·.id)).Nodup := by
  have hperm := (List.perm_insertionSort (fun a b : NodeRow Id =>
    [a.name, rt.str a.id] ≤ [b.name, rt.str b.id]) ((g.nodes.entries.filter fun n =>
      decide (n.2.workspaceId = workspaceId)).map fun n => NodeRow.mk n.1 n.2.kind n.2.name
        n.2.sourceIds n.2.supersededBy n.2.identifiers)).map (·.id)
  refine hperm.nodup_iff.mpr ?_
  rw [List.map_map]
  exact (List.filter_sublist.map _).nodup g.nodes.nodup

section request

variable {rt : Runtime Id} {parseId : Text → Option Id} {workspaceId ownerId : Id}
  {instant : Option DateTime} {now : Instant} {includeMaterials : Bool}
  {store : Option (Stored Id)} {sources : List (Source Id H)} {directory : Directory Id}
  {input : GraphInput Id H}

theorem keyed_readGraph (h : readGraph rt parseId workspaceId ownerId instant now includeMaterials
    store sources directory = .ok input) : input.Keyed rt := by
  obtain ⟨at', hat, h⟩ := bind_eq_ok.mp h
  obtain ⟨wanted, hwanted, h⟩ := bind_eq_ok.mp h
  cases h
  refine ⟨?_, fun entry hentry => ?_⟩
  · cases store with
    | none => exact List.nodup_nil
    | some g => exact nodup_map_id_readNodes rt g workspaceId
  · exact (Dict.get?_collect.mp (Dict.get?_eq_some_iff.mpr hentry)).1.symm

/-- The response is a graph exactly when nothing of what the request has read is repeated. -/
theorem knowledgeGraph_isGraph_iff (hhex : rt.PrintsHex) (h : readGraph rt parseId workspaceId
      ownerId instant now includeMaterials store sources directory = .ok input) :
    ∃ response, getKnowledgeGraph rt parseId workspaceId ownerId instant now includeMaterials store
      sources directory = .ok response ∧ (IsGraph response ↔ input.Unrepeated rt parseId) := by
  refine ⟨input.response rt parseId, ?_, GraphInput.isGraph_response_iff rt parseId input hhex
    (keyed_readGraph h)⟩
  rw [getKnowledgeGraph, h]
  rfl

end request

/-- A text in two hexadecimal digits: each character as that many zeros and a one. -/
def unaryText (t : Text) : Text := t.flatMap fun c => List.replicate c.toNat '0' ++ ['1']

theorem unaryText_injective : Function.Injective unaryText := by
  intro a
  induction a with
  | nil =>
    rintro (_ | ⟨c, t⟩) h
    · rfl
    · simp [unaryText] at h
  | cons c s ih =>
    rintro (_ | ⟨d, t⟩) h
    · simp [unaryText] at h
    · have hone : ∀ n, '1' ∉ List.replicate n '0' := fun n hmem =>
        absurd (List.eq_of_mem_replicate hmem) (by decide)
      have hsplit : List.replicate c.toNat '0' ++ '1' :: unaryText s =
          List.replicate d.toNat '0' ++ '1' :: unaryText t := by
        simpa [unaryText] using h
      obtain ⟨hhead, htail⟩ := append_cons_inj (hone _) (hone _) hsplit
      have hlength := congrArg List.length hhead
      rw [List.length_replicate, List.length_replicate] at hlength
      rw [ih htail, Char.toNat_inj.mp hlength]

theorem mem_unaryText {t : Text} {c : Char} (h : c ∈ unaryText t) : c = '0' ∨ c = '1' := by
  obtain ⟨d, -, hc⟩ := List.mem_flatMap.mp h
  rcases List.mem_append.mp hc with hc | hc
  · exact .inl (List.eq_of_mem_replicate hc)
  · exact .inr (List.mem_singleton.mp hc)

/-- The runtime on ASCII text with names for UUIDs, printed in hexadecimal digits. -/
def hexRuntime : Runtime Text :=
  { plainRuntime with
    str := unaryText
    str_injective := unaryText_injective
    colon_notMem_str := fun t hmem => by
      rcases mem_unaryText hmem with h | h <;> revert h <;> decide }

theorem printsHex_hexRuntime : hexRuntime.PrintsHex := by
  intro t c hc
  rcases mem_unaryText hc with rfl | rfl
  · exact .inr (.inl (by decide))
  · exact .inr (.inl (by decide))

/-- A directory with two people of one project. -/
def plainDirectory : Directory Text where
  people := [⟨"p".toList, "Kim".toList, none, none, [], false⟩,
    ⟨"q".toList, "Lee".toList, none, none, [], false⟩]
  projects := [⟨"r".toList, "Plan".toList, none, none, none, none, none, false⟩]
  members := [⟨"r".toList, "p".toList⟩, ⟨"r".toList, "q".toList⟩]

/-- The directory alone is shown as a graph. -/
theorem knowledgeGraph_isGraph_iff_directory : ∃ response,
    getKnowledgeGraph (H := Unit) hexRuntime some "w".toList "u".toList none (instantAt 0) true none
      [] plainDirectory = .ok response ∧ IsGraph response := by
  have hread : readGraph (H := Unit) hexRuntime some "w".toList "u".toList none (instantAt 0) true
      none [] plainDirectory = .ok ⟨"w".toList, true, [], [], Dict.empty, plainDirectory⟩ := rfl
  obtain ⟨response, hresponse, hiff⟩ := knowledgeGraph_isGraph_iff printsHex_hexRuntime hread
  have hnone : ∀ {p : Source Text Unit → Prop}, ∀ source ∈ ([] : List (Source Text Unit)),
      p source := fun source hsource => absurd hsource List.not_mem_nil
  have hdrawn : ∀ {p : EdgeRow Text → Prop}, ∀ row ∈ ([] : List (EdgeRow Text)), p row :=
    fun row hrow => absurd hrow List.not_mem_nil
  exact ⟨response, hresponse, hiff.mpr
    ⟨hnone, List.nodup_nil, hdrawn, by decide +kernel, hnone, hnone, hnone⟩⟩

/-- A stored person who is identified as two people of the directory. -/
def mergedPerson : Stored Text where
  nodes := Dict.empty.set "n".toList {
    workspaceId := "w".toList, kind := .person, name := "Kim".toList, aliases := [], keys := [],
    identifiers := ["directory:person:p".toList, "directory:person:q".toList], sourceIds := [],
    evidence := ⟨"s".toList, none, none⟩, supersededBy := none }
  edges := []

/-- Two people who are one stored node are joined to their project by two edges of one id. -/
theorem not_isGraph_mergedPerson : ∃ response,
    getKnowledgeGraph (H := Unit) plainRuntime some "w".toList "u".toList none (instantAt 0) true
      (some mergedPerson) [] plainDirectory = .ok response ∧
    response.nodes.map (·.id) = ["n".toList, "maeglagi:w:Project:id:directory:project:r".toList] ∧
    response.edges.length = 2 ∧ ¬IsGraph response := by
  have hresponse : getKnowledgeGraph (H := Unit) plainRuntime some "w".toList "u".toList none
      (instantAt 0) true (some mergedPerson) [] plainDirectory = .ok _ := rfl
  refine ⟨_, hresponse, by decide +kernel, by decide +kernel, fun hgraph => ?_⟩
  exact absurd hgraph.edges (by decide +kernel)

end Maeglagi.KnowledgeGraph
