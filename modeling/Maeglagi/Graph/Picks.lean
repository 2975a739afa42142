import Mathlib.Data.List.Induction
import Maeglagi.Graph.Writer

/-!
# What the reconcile loop leaves behind

Every row is the union of what its picks give: the entities written to the node, and the
node itself where one of them was found to be it. The row's kind and successor are those
of the last pick.
-/

namespace Maeglagi.Graph

open Core Resolution

variable {Id : Type} [DecidableEq Id] {rt : Runtime Id}

omit [DecidableEq Id] in
private theorem foldl_least_mem (l : List Id) (id : Id) :
    l.foldl (fun least i => if rt.str i < rt.str least then i else least) id ∈ id :: l := by
  induction l generalizing id with
  | nil => simp
  | cons i l ih =>
    rw [List.foldl_cons]
    split
    · exact List.mem_cons_of_mem _ (ih i)
    · rcases List.mem_cons.mp (ih id) with h | h
      · rw [h]
        exact List.mem_cons_self ..
      · exact List.mem_cons_of_mem _ (List.mem_cons_of_mem _ h)

omit [DecidableEq Id] in
/-- The least id is one of the ids. -/
theorem leastId_mem {ids : List Id} {id : Id} (h : leastId rt ids = some id) : id ∈ ids := by
  cases ids with
  | nil => cases h
  | cons i l =>
    cases h
    exact foldl_least_mem l i

omit [DecidableEq Id] in
theorem leastId_eq_none {ids : List Id} : leastId rt ids = none ↔ ids = [] := by
  cases ids <;> simp [leastId]

/-- Where a pick can go: to a node it was found to be, or to its own id without one. -/
theorem pick_cases (rt : Runtime Id) (merged : Dict Id (Merged Id)) (found : List (Found Id))
    (entity : GraphEntity Id) :
    (pick rt merged found entity).entity = entity ∧
    (((pick rt merged found entity).chosen = [] ∧
      (pick rt merged found entity).target = entity.id) ∨
    ((pick rt merged found entity).chosen = choose entity.identifiers found ∧
      leastId rt ((choose entity.identifiers found).map Found.id) =
        some (pick rt merged found entity).target)) := by
  have hplain : (choose entity.identifiers found = [] ∧
      (leastId rt ((choose entity.identifiers found).map Found.id)).getD entity.id = entity.id) ∨
      leastId rt ((choose entity.identifiers found).map Found.id) =
        some ((leastId rt ((choose entity.identifiers found).map Found.id)).getD entity.id) := by
    cases h : leastId rt ((choose entity.identifiers found).map Found.id) with
    | none => exact Or.inl ⟨List.map_eq_nil_iff.mp (leastId_eq_none.mp h), rfl⟩
    | some id => exact Or.inr rfl
  unfold pick
  dsimp only
  split
  · split
    · exact ⟨rfl, Or.inl ⟨rfl, rfl⟩⟩
    · exact ⟨rfl, hplain.imp id fun h => ⟨rfl, h⟩⟩
  · exact ⟨rfl, hplain.imp id fun h => ⟨rfl, h⟩⟩

omit [DecidableEq Id] in
/-- The nodes an entity is taken to be are found ones that no directory contradicts. -/
theorem mem_of_mem_choose {own : List Text} {found : List (Found Id)} {r : Found Id}
    (h : r ∈ choose own found) : r ∈ admitted own found := by
  unfold choose at h
  split at h
  · exact (List.mem_filter.mp h).1
  · split at h
    · exact absurd h List.not_mem_nil
    · exact (List.mem_filter.mp h).1

/-- What a pick gives to its row, for one of the lists of entities and nodes. -/
def Pick.Gives (p : Pick Id) (ofEntity : GraphEntity Id → List Text)
    (ofNode : Node Id → List Text) (x : Text) : Prop :=
  x ∈ ofEntity p.entity ∨ ∃ r ∈ p.own, x ∈ ofNode r.node

theorem mem_union {p : Pick Id} {of : Node Id → List Text} {previous start : List Text}
    {x : Text} : x ∈ p.union of previous start ↔
      (x ∈ start ∨ ∃ r ∈ p.own, x ∈ of r.node) ∨ x ∈ previous := by
  have hfold : ∀ (l : List (Found Id)) (s : List Text),
      x ∈ l.foldl (fun acc r => acc ∪ of r.node) s ↔ x ∈ s ∨ ∃ r ∈ l, x ∈ of r.node := by
    intro l
    induction l with
    | nil => simp
    | cons r l ih =>
      intro s
      rw [List.foldl_cons, ih]
      simp [or_assoc]
  rw [Pick.union, List.mem_union_iff, hfold]

/-- The sources that mention an entity. -/
def entitySources (rt : Runtime Id) (e : GraphEntity Id) : List Text :=
  [rt.str e.evidence.sourceId]

/-- The last pick that goes to an id. -/
def lastPick (picks : List (Pick Id)) (id : Id) : Option (Pick Id) :=
  picks.reverse.find? fun p => decide (p.target = id)

theorem lastPick_append (picks : List (Pick Id)) (p : Pick Id) (id : Id) :
    lastPick (picks ++ [p]) id = if p.target = id then some p else lastPick picks id := by
  simp only [lastPick, List.reverse_append, List.reverse_cons, List.reverse_nil, List.nil_append,
    List.cons_append, List.find?_cons]
  split <;> simp_all

theorem lastPick_mem {picks : List (Pick Id)} {id : Id} {p : Pick Id}
    (h : lastPick picks id = some p) : p ∈ picks ∧ p.target = id := by
  refine ⟨List.mem_reverse.mp (List.mem_of_find?_eq_some h), ?_⟩
  simpa using List.find?_some h

/-- A row of the loop against the picks made so far. -/
structure RowOf (rt : Runtime Id) (picks : List (Pick Id)) (id : Id) (m : Merged Id) : Prop where
  node : m.1.id = id
  last : ∃ p, lastPick picks id = some p ∧ m.1.workspaceId = p.entity.workspaceId ∧
    m.1.kind = p.entity.kind ∧ m.1.supersededBy = p.entity.supersededBy
  keys : ∀ x, x ∈ m.1.keys ↔
    ∃ p ∈ picks, p.target = id ∧ p.Gives GraphEntity.keys Node.keys x
  identifiers : ∀ x, x ∈ m.1.identifiers ↔
    ∃ p ∈ picks, p.target = id ∧ p.Gives GraphEntity.identifiers Node.identifiers x
  sources : ∀ x, x ∈ m.2 ↔
    ∃ p ∈ picks, p.target = id ∧ p.Gives (entitySources rt) Node.sourceIds x

/-- The loop invariant: rows, map and picks after the entities done so far. -/
structure Loop (rt : Runtime Id) (records : List (Found Id)) (done : List (GraphEntity Id))
    (state : Reconciled Id) : Prop where
  entities : state.picks.map Pick.entity = done
  chosen : ∀ p ∈ state.picks, (p.chosen = [] ∧ p.target = p.entity.id) ∨
    (p.chosen = choose p.entity.identifiers (foundFor records p.entity.id) ∧
      leastId rt (p.chosen.map Found.id) = some p.target)
  rows : ∀ id, (∀ m, state.merged.get? id = some m → RowOf rt state.picks id m) ∧
    (state.merged.get? id = none → ∀ p ∈ state.picks, p.target ≠ id)
  idMap : ∀ p ∈ state.picks, ∃ q ∈ state.picks, q.entity.id = p.entity.id ∧
    state.idMap.get? p.entity.id = some q.target

theorem Loop.start (rt : Runtime Id) (records : List (Found Id)) :
    Loop rt records [] ⟨Dict.empty, Dict.empty, [], []⟩ :=
  ⟨rfl, by simp, fun _ => ⟨by simp, by simp⟩, by simp⟩

private theorem mem_row_iff {picks : List (Pick Id)} {p : Pick Id} {claimed : Option (Merged Id)}
    {ofEntity : GraphEntity Id → List Text} {ofNode : Node Id → List Text}
    {ofRow : Merged Id → List Text} {x : Text}
    (hnone : claimed = none → ∀ q ∈ picks, q.target ≠ p.target)
    (hsome : ∀ m, claimed = some m → (x ∈ ofRow m ↔
      ∃ q ∈ picks, q.target = p.target ∧ q.Gives ofEntity ofNode x)) :
    x ∈ p.union ofNode ((claimed.map ofRow).getD []) (ofEntity p.entity) ↔
      ∃ q ∈ picks ++ [p], q.target = p.target ∧ q.Gives ofEntity ofNode x := by
  rw [mem_union]
  have hlast : (∃ q ∈ picks ++ [p], q.target = p.target ∧ q.Gives ofEntity ofNode x) ↔
      p.Gives ofEntity ofNode x ∨
        ∃ q ∈ picks, q.target = p.target ∧ q.Gives ofEntity ofNode x := by
    constructor
    · rintro ⟨q, hq, ht, hg⟩
      rcases List.mem_append.mp hq with hq | hq
      · exact Or.inr ⟨q, hq, ht, hg⟩
      · rw [List.mem_singleton] at hq
        exact Or.inl (hq ▸ hg)
    · rintro (hg | ⟨q, hq, ht, hg⟩)
      · exact ⟨p, List.mem_append_right _ (List.mem_singleton_self p), rfl, hg⟩
      · exact ⟨q, List.mem_append_left _ hq, ht, hg⟩
  rw [hlast]
  refine or_congr Iff.rfl ?_
  cases claimed with
  | none =>
    simp only [Option.map_none, Option.getD_none, List.not_mem_nil, false_iff]
    rintro ⟨q, hq, ht, _⟩
    exact hnone rfl q hq ht
  | some m =>
    rw [Option.map_some, Option.getD_some]
    exact hsome m rfl

/-- The row of a pick, given the row it joins. -/
theorem rowOf_row {picks : List (Pick Id)} {p : Pick Id} {claimed : Option (Merged Id)}
    (hnone : claimed = none → ∀ q ∈ picks, q.target ≠ p.target)
    (hsome : ∀ m, claimed = some m → RowOf rt picks p.target m) :
    RowOf rt (picks ++ [p]) p.target (p.row rt claimed) := by
  refine ⟨rfl, ⟨p, by rw [lastPick_append, if_pos rfl], rfl, rfl, rfl⟩, fun x => ?_, fun x => ?_,
    fun x => ?_⟩
  · rw [Pick.row, mem_sortedSet]
    exact mem_row_iff hnone fun m hm => (hsome m hm).keys x
  · rw [Pick.row, mem_sortedSet]
    exact mem_row_iff hnone fun m hm => (hsome m hm).identifiers x
  · have hiff : x ∈ p.union Node.sourceIds ((claimed.map Prod.snd).getD [])
        (entitySources rt p.entity) ↔ _ := mem_row_iff hnone fun m hm => (hsome m hm).sources x
    exact hiff

/-- A pick for another id leaves a row as it is. -/
theorem RowOf.append {picks : List (Pick Id)} {id : Id} {m : Merged Id}
    (h : RowOf rt picks id m) {p : Pick Id} (hp : p.target ≠ id) : RowOf rt (picks ++ [p]) id m := by
  have hmem : ∀ {P : Pick Id → Prop}, (∃ q ∈ picks, q.target = id ∧ P q) ↔
      ∃ q ∈ picks ++ [p], q.target = id ∧ P q := by
    intro P
    constructor
    · rintro ⟨q, hq, hrest⟩
      exact ⟨q, List.mem_append_left _ hq, hrest⟩
    · rintro ⟨q, hq, ht, hP⟩
      rcases List.mem_append.mp hq with hq | hq
      · exact ⟨q, hq, ht, hP⟩
      · rw [List.mem_singleton] at hq
        exact absurd (hq ▸ ht) hp
  exact ⟨h.node, by rw [lastPick_append, if_neg hp]; exact h.last,
    fun x => (h.keys x).trans hmem, fun x => (h.identifiers x).trans hmem,
    fun x => (h.sources x).trans hmem⟩

/-- One turn of the reconcile loop keeps the invariant. -/
theorem Loop.step {records : List (Found Id)} {done : List (GraphEntity Id)}
    {state : Reconciled Id} (h : Loop rt records done state) (entity : GraphEntity Id) :
    Loop rt records (done ++ [entity]) (reconcileStep rt records state entity) := by
  obtain ⟨hentity, hcases⟩ := pick_cases rt state.merged (foundFor records entity.id) entity
  have hpicks : (reconcileStep rt records state entity).picks =
      state.picks ++ [pick rt state.merged (foundFor records entity.id) entity] := rfl
  have hmerged : (reconcileStep rt records state entity).merged = state.merged.set
      (pick rt state.merged (foundFor records entity.id) entity).target
      ((pick rt state.merged (foundFor records entity.id) entity).row rt
        (state.merged.get? (pick rt state.merged (foundFor records entity.id) entity).target)) := rfl
  have hidMap : (reconcileStep rt records state entity).idMap = state.idMap.set entity.id
      (pick rt state.merged (foundFor records entity.id) entity).target := rfl
  generalize pick rt state.merged (foundFor records entity.id) entity = p at *
  subst hentity
  refine ⟨?_, ?_, fun id => ?_, ?_⟩
  · rw [hpicks, List.map_append, h.entities]
    rfl
  · rw [hpicks]
    intro q hq
    rcases List.mem_append.mp hq with hq | hq
    · exact h.chosen q hq
    · rw [List.mem_singleton] at hq
      subst hq
      rcases hcases with hown | ⟨hc, hl⟩
      · exact Or.inl hown
      · exact Or.inr ⟨hc, hc ▸ hl⟩
  · rw [hpicks, hmerged, Dict.get?_set]
    by_cases hid : id = p.target
    · subst hid
      rw [if_pos rfl]
      refine ⟨fun m hm => ?_, by simp⟩
      cases hm
      exact rowOf_row (h.rows p.target).2 (h.rows p.target).1
    · rw [if_neg hid]
      refine ⟨fun m hm => ((h.rows id).1 m hm).append (Ne.symm hid), fun hnone q hq => ?_⟩
      rcases List.mem_append.mp hq with hq | hq
      · exact (h.rows id).2 hnone q hq
      · rw [List.mem_singleton] at hq
        exact hq ▸ Ne.symm hid
  · rw [hpicks, hidMap]
    intro q hq
    by_cases hqe : q.entity.id = p.entity.id
    · exact ⟨p, List.mem_append_right _ (List.mem_singleton_self p), hqe.symm, by
        rw [hqe, Dict.get?_set_self]⟩
    · rcases List.mem_append.mp hq with hq | hq
      · obtain ⟨o, ho, hoe, hget⟩ := h.idMap q hq
        exact ⟨o, List.mem_append_left _ ho, hoe, by rw [Dict.get?_set_ne _ _ hqe, hget]⟩
      · rw [List.mem_singleton] at hq
        exact absurd (congrArg (fun o => o.entity.id) hq) hqe

/-- The loop over all entities. -/
theorem reconcile_loop (rt : Runtime Id) (g : Stored Id) (workspaceId : Id)
    (entities : List (GraphEntity Id)) :
    Loop rt (findExisting g workspaceId entities) entities
      (reconcile rt g workspaceId entities) := by
  unfold reconcile
  generalize findExisting g workspaceId entities = records
  suffices hrun : ∀ (todo done : List (GraphEntity Id)) (state : Reconciled Id),
      Loop rt records done state →
        Loop rt records (done ++ todo) (todo.foldl (reconcileStep rt records) state) by
    simpa using hrun entities [] _ (Loop.start rt records)
  intro todo
  induction todo with
  | nil => exact fun done state h => by simpa using h
  | cons entity todo ih =>
    intro done state h
    have hnext := ih (done ++ [entity]) _ (h.step entity)
    rwa [List.append_assoc, List.singleton_append] at hnext

/-- What every turn of the loop keeps about the picks holds of them all. -/
theorem reconcile_induct (rt : Runtime Id) (g : Stored Id) (workspaceId : Id)
    (entities : List (GraphEntity Id)) {P : List (Pick Id) → Prop} (hstart : P [])
    (hstep : ∀ done state, ∀ entity ∈ entities,
      Loop rt (findExisting g workspaceId entities) done state → done ⊆ entities →
      P state.picks → P (state.picks ++
        [pick rt state.merged (foundFor (findExisting g workspaceId entities) entity.id) entity])) :
    P (reconcile rt g workspaceId entities).picks := by
  unfold reconcile
  generalize findExisting g workspaceId entities = records at *
  suffices hrun : ∀ (todo done : List (GraphEntity Id)) (state : Reconciled Id),
      todo ⊆ entities → done ⊆ entities → Loop rt records done state → P state.picks →
      P (todo.foldl (reconcileStep rt records) state).picks from
    hrun entities [] _ (List.Subset.refl _) (List.nil_subset _) (Loop.start rt records) hstart
  intro todo
  induction todo with
  | nil => exact fun _ _ _ _ _ h => h
  | cons entity todo ih =>
    intro done state htodo hdone hloop h
    have hentity := htodo (List.mem_cons_self ..)
    refine ih (done ++ [entity]) _ (fun e he => htodo (List.mem_cons_of_mem _ he)) ?_
      (hloop.step entity) (hstep done state entity hentity hloop hdone h)
    exact List.append_subset.mpr ⟨hdone, List.cons_subset.mpr ⟨hentity, List.nil_subset _⟩⟩

end Maeglagi.Graph
