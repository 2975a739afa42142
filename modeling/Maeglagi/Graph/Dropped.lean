import Maeglagi.Graph.Acyclic

/-!
# Supersessions dropped in a write

Of the entities written to one node only the last one's successor is written, and a statement
that replaces nothing is reported only when no other statement of its decision replaces
anything. A write keeps and reports all supersessions exactly when neither matters.
-/

namespace Maeglagi.Graph

open Core Resolution

variable {Id : Type} [DecidableEq Id] {rt : Runtime Id}

/-- Every extracted entity is written to the node it is mapped to. -/
theorem exists_merged (rt : Runtime Id) (g : Stored Id) {graph : ResolvedGraph Id}
    {e : GraphEntity Id} (he : e ∈ graph.entities) :
    ∃ m, (reconciled rt g graph).merged.get? (mapId (reconciled rt g graph).idMap e.id) =
      some m := by
  have hloop := reconciled_loop rt g graph
  rw [← hloop.entities] at he
  obtain ⟨p, hp, rfl⟩ := List.mem_map.mp he
  obtain ⟨q, hq, -, hget⟩ := hloop.idMap p hp
  rw [mapId, Dict.getD, hget, Option.getD_some]
  cases hm : (reconciled rt g graph).merged.get? q.target with
  | some m => exact ⟨m, rfl⟩
  | none => exact absurd rfl ((hloop.rows q.target).2 hm q hq)

/-- An extracted decision is replaced by another one. -/
structure Link (graph : ResolvedGraph Id) (old new : GraphEntity Id) : Prop where
  old_mem : old ∈ graph.entities
  new_mem : new ∈ graph.entities
  old_kind : old.kind = .decision
  new_kind : new.kind = .decision
  supersededBy : old.supersededBy = some new.id

end Maeglagi.Graph
