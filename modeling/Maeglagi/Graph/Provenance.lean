import Maeglagi.Graph.Effect

/-!
# Provenance across a write

A write keeps every node. It keeps what the node knows as long as some entity written to
the node was found to be it; a node that an entity falls back to by its own id alone is
overwritten with what the entities say.
-/

namespace Maeglagi.Graph

open Core Resolution

variable {Id : Type} [DecidableEq Id] {rt : Runtime Id}

/-- The later node has every source, key and identifier of the earlier one. -/
structure Keeps (before after : Node Id) : Prop where
  sources : ∀ x ∈ before.sourceIds, x ∈ after.sourceIds
  keys : ∀ x ∈ before.keys, x ∈ after.keys
  identifiers : ∀ x ∈ before.identifiers, x ∈ after.identifiers

/-- Every node is still there with everything it knew. -/
def Retained (g g' : Stored Id) : Prop :=
  ∀ id n, g.nodes.get? id = some n → ∃ n', g'.nodes.get? id = some n' ∧ Keeps n n'

/-- A chosen record is the stored node under its id. -/
theorem get?_of_mem_chosen {g : Stored Id} {graph : ResolvedGraph Id} {p : Pick Id}
    (hp : p ∈ picks rt g graph) {r : Found Id} (hr : r ∈ p.chosen) :
    r ∈ recordsOf g graph ∧ g.nodes.get? r.id = some r.node := by
  rcases (reconciled_loop rt g graph).chosen p hp with ⟨hnil, _⟩ | ⟨hc, _⟩
  · simp [hnil] at hr
  · rw [hc] at hr
    have hrec := (List.mem_filter.mp (List.mem_filter.mp (mem_of_mem_choose hr)).1).1
    exact ⟨hrec, (mem_recordsOf hrec).1⟩

/-- A pick that was matched at all was matched with the node it goes to. -/
theorem exists_own_iff {g : Stored Id} {graph : ResolvedGraph Id} {p : Pick Id}
    (hp : p ∈ picks rt g graph) {n : Node Id} (hn : g.nodes.get? p.target = some n)
    {of : Node Id → List Text} {x : Text} :
    (∃ r ∈ p.own, x ∈ of r.node) ↔ p.chosen ≠ [] ∧ x ∈ of n := by
  constructor
  · rintro ⟨r, hr, hx⟩
    obtain ⟨hc, hid⟩ := List.mem_filter.mp hr
    have hget := (get?_of_mem_chosen hp hc).2
    rw [of_decide_eq_true hid, hn] at hget
    cases hget
    exact ⟨List.ne_nil_of_mem hc, hx⟩
  · rintro ⟨hne, hx⟩
    rcases (reconciled_loop rt g graph).chosen p hp with ⟨hnil, _⟩ | ⟨_, hl⟩
    · exact absurd hnil hne
    · obtain ⟨r, hr, hid⟩ := List.mem_map.mp (leastId_mem hl)
      have hget := (get?_of_mem_chosen hp hr).2
      rw [hid, hn] at hget
      cases hget
      exact ⟨r, List.mem_filter.mpr ⟨hr, decide_eq_true hid⟩, hx⟩

/-- The node under an id that some entity goes to has the lists of its row. -/
theorem write_get?_of_target {g : Stored Id} {graph : ResolvedGraph Id} {id : Id}
    {m : Merged Id} (hm : (reconciled rt g graph).merged.get? id = some m) :
    ∃ s, (write rt g graph).1.nodes.get? id =
      some { (entityRow (reconciled rt g graph).idMap m).2 with supersededBy := s } := by
  rw [write_get?, upserted_get?, hm]
  exact ⟨_, rfl⟩

end Maeglagi.Graph
