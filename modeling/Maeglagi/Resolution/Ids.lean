import Maeglagi.PlainRuntime
import Maeglagi.Resolution.Outcome
import Maeglagi.Resolution.Partition

/-!
# Which entities share an id

An identified group is keyed by one of its identifiers, which no other group of its
kind has. A bare group is keyed by the normal form of its canonical name, which is one
of its keys; without an ambiguous mention bare groups of a kind have no key in common.
-/

namespace Maeglagi.Resolution

open Core Temporal

variable {Id : Type}

/-- A group whose keys are the nonempty normal forms of its names, of which there is one. -/
structure Group.Named (rt : Runtime Id) (g : Group) : Prop where
  keys_ne : g.keys ≠ []
  keys_iff : ∀ x, x ∈ g.keys ↔ x ≠ [] ∧ ∃ n ∈ g.names, normalizeName rt n g.kind = x

/-- The keys of a mention are the nonempty normal forms of its spellings. -/
theorem Mention.mem_keys {rt : Runtime Id} {m : Mention} {x : Text} :
    x ∈ m.keys rt ↔ x ≠ [] ∧ ∃ n ∈ m.name :: m.aliases, normalizeName rt n m.kind = x := by
  rw [Mention.keys, List.mem_filter, List.mem_dedup, List.mem_map, decide_eq_true_eq, and_comm]

theorem Placed.named {rt : Runtime Id} {m : Mention} {p : Nat}
    {groups next joined kept : List Tracked} {new : Tracked}
    (hp : Placed rt m p groups next joined kept new) (hk : m.keys rt ≠ [])
    (h : ∀ t ∈ groups, t.1.Named rt) : ∀ t ∈ next, t.1.Named rt := by
  have hj : ∀ t ∈ joined, t ∈ groups := fun t ht =>
    hp.before.mem_iff.mpr (List.mem_append_left _ ht)
  intro t ht
  rcases List.mem_cons.mp (hp.after.mem_iff.mp ht) with rfl | ht
  · refine ⟨?_, fun x => ?_⟩
    · obtain ⟨x, hx⟩ := List.exists_mem_of_ne_nil _ hk
      exact List.ne_nil_of_mem ((hp.keys x).mpr (Or.inl hx))
    · rw [hp.keys, Mention.mem_keys]
      constructor
      · rintro (⟨hx, n, hn, hnx⟩ | ⟨s, hs, hx⟩)
        · exact ⟨hx, n, (hp.names n).mpr (Or.inl hn), hp.kind ▸ hnx⟩
        · obtain ⟨hne, n, hn, hnx⟩ := ((h s (hj s hs)).keys_iff x).mp hx
          exact ⟨hne, n, (hp.names n).mpr (Or.inr ⟨s, hs, hn⟩),
            hp.kind.trans (hp.joined_kind s hs).symm ▸ hnx⟩
      · rintro ⟨hne, n, hn, hnx⟩
        rcases (hp.names n).mp hn with hn | ⟨s, hs, hn⟩
        · exact Or.inl ⟨hne, n, hn, hp.kind ▸ hnx⟩
        · exact Or.inr ⟨s, hs, ((h s (hj s hs)).keys_iff x).mpr
            ⟨hne, n, hn, hp.kind.trans (hp.joined_kind s hs).symm ▸ hnx⟩⟩
  · exact h t (hp.before.mem_iff.mpr (List.mem_append_right _ ht))

/-- Groups of one kind share a name only when both are identified. -/
def Separate (groups : List Group) : Prop :=
  groups.Pairwise fun g g' => g.kind = g'.kind → (∃ x ∈ g.keys, x ∈ g'.keys) →
    g.identifiers ≠ [] ∧ g'.identifiers ≠ []

/-- The key that the id of a group's entity is made from. -/
def Group.key (rt : Runtime Id) (g : Group) : Text :=
  stableKey rt g.kind (pickCanonical rt g.names g.kind) g.identifiers

/-- A relation of the groups' entities is a relation of the graph's entities, as far as
it does not look at successors. -/
theorem Resolved.pairwise [DecidableEq Id] {rt : Runtime Id} {result : ExtractionResult}
    {info : SourceInfo Id} {graph : ResolvedGraph Id} (run : Resolved rt result info graph)
    {R : GraphEntity Id → GraphEntity Id → Prop}
    (h : (groupMentions rt run.ms).1.Pairwise fun g g' =>
      R (g.toEntity rt info) (g'.toEntity rt info)) :
    graph.entities.Pairwise fun e e' => R (unlinked e) (unlinked e') := by
  rw [← List.pairwise_map, run.map_unlinked, resolvedEntities, List.pairwise_map]
  exact h

end Maeglagi.Resolution
