import Maeglagi.Graph.Effect
import Maeglagi.PlainRuntime

/-!
# Supersessions of stored decisions
-/

namespace Maeglagi.Graph

open Core Resolution

/-!
## Recorded supersessions

The supersession query never moves a recorded successor, but the entity upsert does when
the incoming entity for the node names another one.
-/

section

variable {Id : Type} [DecidableEq Id] {rt : Runtime Id}

/-- Every recorded successor is still the one recorded. -/
def SuccessorsKept (g g' : Stored Id) : Prop :=
  ∀ id n d, g.nodes.get? id = some n → n.supersededBy = some d →
    ∃ n', g'.nodes.get? id = some n' ∧ n'.supersededBy = some d

theorem SuccessorsKept.trans {g g' g'' : Stored Id} (h : SuccessorsKept g g')
    (h' : SuccessorsKept g' g'') : SuccessorsKept g g'' := by
  intro id n d hn hd
  obtain ⟨n', hn', hd'⟩ := h id n d hn hd
  exact h' id n' d hn' hd'

end

/-!
## Cycles of superseded decisions

A write adds no supersession of its own: every link of a stored graph was stated by a
source, either between two of its decisions or by the name of a stored one. Nothing looks
for cycles, so the stored links are acyclic when the stated ones are.
-/

section

variable {Id : Type} [DecidableEq Id] {rt : Runtime Id}

/-- The supersessions a graph states between the nodes it is written to. -/
inductive States (rt : Runtime Id) (g : Stored Id) (graph : ResolvedGraph Id) : Id → Id → Prop
  | carried {p : Pick Id} {s : Id} (hp : p ∈ picks rt g graph)
      (hs : p.entity.supersededBy = some s) :
      States rt g graph p.target (mapId (reconciled rt g graph).idMap s)
  | matched {link : Id × Id}
      (hlink : link ∈ matchSuperseded (upserted rt g graph) (linkRows rt g graph)) :
      States rt g graph link.2 link.1

end

end Maeglagi.Graph
