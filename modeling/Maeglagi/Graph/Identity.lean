import Maeglagi.Graph.Effect
import Maeglagi.Graph.Provenance
import Maeglagi.Resolution.Ids
import Maeglagi.Resolution.Linkage

/-!
# Identity across sources

Which stored nodes may share an identifier. An entity that shares identifiers with several
nodes is written to one of them, and the others keep theirs; without such bridges nodes of
one kind share an identifier only when the directory tells them apart.
-/

namespace Maeglagi.Graph

open Core Resolution

variable {Id : Type} [DecidableEq Id] {rt : Runtime Id} {w : Id} {g : Stored Id}
  {graph : ResolvedGraph Id}

/-- Nodes of one kind share an identifier only when they carry different directory
identifiers. -/
def ToldApart (g : Stored Id) : Prop :=
  ∀ i j n m, g.nodes.get? i = some n → g.nodes.get? j = some m → i ≠ j → n.kind = m.kind →
    ∀ x ∈ n.identifiers, x ∈ m.identifiers →
      directoryConflict n.identifiers m.identifiers = true

/-- The stored nodes that share an identifier with an entity and that no directory identifier
contradicts. -/
def sharing (g : Stored Id) (graph : ResolvedGraph Id) (e : GraphEntity Id) : List (Found Id) :=
  strong e.identifiers (foundFor (recordsOf g graph) e.id)

/-- No entity bridges stored nodes: it shares identifiers with one at most, or it carries no
directory identifier and the directory tells the others from the one with the least id. And an
identified entity shares an identifier with the node under its own id, if any entity does. -/
structure Unbridged (rt : Runtime Id) (g : Stored Id) (graph : ResolvedGraph Id) : Prop where
  bridge : ∀ e ∈ graph.entities, ∀ r ∈ sharing g graph e,
    leastId rt ((sharing g graph e).map Found.id) = some r.id →
    ∀ r' ∈ sharing g graph e, r'.id ≠ r.id → e.identifiers.filter isDirectory = [] ∧
      directoryConflict r.node.identifiers r'.node.identifiers = true
  own : ∀ e ∈ graph.entities, e.identifiers ≠ [] → ∀ e' ∈ graph.entities,
    ∀ r ∈ sharing g graph e', r.id = e.id → ∃ r' ∈ sharing g graph e, r'.id = e.id

/-- Some directory identifier is among the identifiers. -/
def Directed (identifiers : List Text) : Prop := ∃ d ∈ identifiers, isDirectory d = true

theorem directoryConflict_iff {a b : List Text} : directoryConflict a b = true ↔
    Directed a ∧ Directed b ∧ ∀ d ∈ a, isDirectory d = true → d ∉ b := by
  have hdirected : ∀ l : List Text, (!(l.filter isDirectory).isEmpty) = true ↔ Directed l := by
    intro l
    rw [Bool.not_eq_true', List.isEmpty_eq_false_iff_exists_mem]
    simp only [List.mem_filter, Directed]
  unfold directoryConflict
  rw [Bool.and_eq_true, Bool.and_eq_true, hdirected, hdirected, and_assoc, Bool.not_eq_true',
    meets_eq_false_iff]
  refine and_congr_right fun _ => and_congr_right fun _ => ?_
  constructor
  · intro h d hd hdir hdb
    exact h d (List.mem_filter.mpr ⟨hd, hdir⟩) (List.mem_filter.mpr ⟨hdb, hdir⟩)
  · intro h d hd hdb
    obtain ⟨hd, hdir⟩ := List.mem_filter.mp hd
    exact h d hd hdir (List.mem_filter.mp hdb).1

theorem not_directed_of_filter {l : List Text} (h : l.filter isDirectory = []) : ¬Directed l := by
  rintro ⟨d, hd, hdir⟩
  have hmem := List.mem_filter.mpr ⟨hd, hdir⟩
  rw [h] at hmem
  exact absurd hmem List.not_mem_nil

/-- Every entity of a source belongs to the workspace and has an id of its kind. -/
theorem Extracted.home (h : Extracted rt w graph) {e : GraphEntity Id} (he : e ∈ graph.entities) :
    e.workspaceId = w ∧ ∃ key, e.id = entityId rt w e.kind key := by
  obtain ⟨result, info, hw, hresolve⟩ := h
  obtain ⟨run⟩ := resolveExtraction_resolved hresolve
  have hmem : unlinked e ∈ resolvedEntities rt info run.ms :=
    run.map_unlinked ▸ List.mem_map_of_mem he
  obtain ⟨group, -, hgroup⟩ := List.mem_map.mp hmem
  refine ⟨?_, group.key rt, ?_⟩
  · exact (congrArg GraphEntity.workspaceId hgroup).symm.trans hw
  · have hid : (group.toEntity rt info).id = e.id :=
      (congrArg GraphEntity.id hgroup).trans (unlinked_id e)
    have hkind : (group.toEntity rt info).kind = e.kind :=
      (congrArg GraphEntity.kind hgroup).trans (unlinked_kind e)
    rw [← hid, ← hkind, ← hw]
    rfl

/-- Entities of one source and one kind have no identifier in common. -/
theorem Extracted.disjoint (h : Extracted rt w graph) :
    graph.entities.Pairwise fun e e' => e.kind = e'.kind → ∀ x ∈ e.identifiers,
      x ∉ e'.identifiers := by
  obtain ⟨result, info, -, hresolve⟩ := h
  obtain ⟨run⟩ := resolveExtraction_resolved hresolve
  refine run.pairwise (R := fun e e' => e.kind = e'.kind → ∀ x ∈ e.identifiers,
    x ∉ e'.identifiers) ?_
  refine (groupMentions_disjoint rt run.ms).imp fun {group group'} hdisjoint hkind x hx hx' => ?_
  exact hdisjoint hkind x (mem_sortedSet.mp hx) (mem_sortedSet.mp hx')

/-- Every node belongs to the workspace and has an id of its kind. -/
def Homed (rt : Runtime Id) (w : Id) (g : Stored Id) : Prop :=
  ∀ i n, g.nodes.get? i = some n → n.workspaceId = w ∧ ∃ key, i = entityId rt w n.kind key

/-- What a source is written to. -/
structure Setting (rt : Runtime Id) (w : Id) (g : Stored Id) (graph : ResolvedGraph Id) : Prop where
  homed : Homed rt w g
  apart : ToldApart g
  extracted : Extracted rt w graph
  unbridged : Unbridged rt g graph

theorem entity_of_pick {p : Pick Id} (hp : p ∈ picks rt g graph) : p.entity ∈ graph.entities := by
  have hentities : (picks rt g graph).map Pick.entity = graph.entities :=
    (reconciled_loop rt g graph).entities
  exact hentities ▸ List.mem_map_of_mem hp

/-- A node found for an entity is a stored one of its kind. -/
theorem Extracted.found (h : Extracted rt w graph) {e : GraphEntity Id} (he : e ∈ graph.entities)
    {r : Found Id} (hr : r ∈ foundFor (recordsOf g graph) e.id) :
    g.nodes.get? r.id = some r.node ∧ r.node.kind = e.kind := by
  obtain ⟨hrecord, hrow⟩ := List.mem_filter.mp hr
  obtain ⟨hn, -, e', he', hid, hkind, -⟩ := mem_recordsOf hrecord
  refine ⟨hn, hkind.trans ?_⟩
  obtain ⟨-, key, hkey⟩ := h.home he
  obtain ⟨-, key', hkey'⟩ := h.home he'
  have hsame : e'.id = e.id := hid.trans (of_decide_eq_true hrow)
  rw [hkey, hkey'] at hsame
  exact (entityId_inj hsame).2.1

theorem Extracted.workspace (h : Extracted rt w graph) {e : GraphEntity Id}
    (he : e ∈ graph.entities) : graphWorkspace graph = some w := by
  unfold graphWorkspace
  cases hentities : graph.entities with
  | nil =>
    rw [hentities] at he
    exact absurd he List.not_mem_nil
  | cons first rest =>
    have hfirst : first ∈ graph.entities := hentities ▸ List.mem_cons_self ..
    exact congrArg some (h.home hfirst).1

/-- A stored node that shares an identifier with an entity of its kind is found. -/
theorem found_of_shared (h : Extracted rt w graph) (hg : Homed rt w g) {e : GraphEntity Id}
    (he : e ∈ graph.entities) {i : Id} {n : Node Id} (hn : g.nodes.get? i = some n)
    (hkind : n.kind = e.kind) {x : Text} (hx : x ∈ e.identifiers) (hxn : x ∈ n.identifiers) :
    ⟨e.id, i, n⟩ ∈ foundFor (recordsOf g graph) e.id := by
  refine List.mem_filter.mpr ⟨?_, decide_eq_true rfl⟩
  unfold recordsOf
  rw [h.workspace he]
  refine List.mem_flatMap.mpr ⟨e, he, List.mem_map.mpr ⟨(i, n), List.mem_filter.mpr
    ⟨Dict.get?_eq_some_iff.mp hn, ?_⟩, rfl⟩⟩
  have hmeets : meets e.identifiers n.identifiers = true := meets_iff.mpr ⟨x, hx, hxn⟩
  simp [(hg i n hn).1, hkind, hmeets]

omit [DecidableEq Id] in
theorem mem_strong {own : List Text} {found : List (Found Id)} {r : Found Id} :
    r ∈ strong own found ↔ r ∈ found ∧ directoryConflict own r.node.identifiers = false ∧
      ∃ x ∈ own, x ∈ r.node.identifiers := by
  unfold strong admitted
  rw [List.mem_filter, List.mem_filter, meets_iff, Bool.not_eq_true', and_assoc]

omit [DecidableEq Id] in
/-- An entity that shares identifiers with nodes is one of them. -/
theorem choose_of_strong {own : List Text} {found : List (Found Id)}
    (h : strong own found ≠ []) : choose own found = strong own found := by
  unfold choose
  rw [if_pos]
  simpa using h

/-- A pick that is matched at all gives its row what the node knows. -/
theorem gives_of_chosen {p : Pick Id} (hp : p ∈ picks rt g graph) (hne : p.chosen ≠ [])
    {n : Node Id} (hn : g.nodes.get? p.target = some n) {x : Text} (hx : x ∈ n.identifiers) :
    p.Gives GraphEntity.identifiers Node.identifiers x :=
  .inr ((exists_own_iff hp hn).mpr ⟨hne, hx⟩)

omit [DecidableEq Id] in
/-- A pick that is not matched gives its row what the entity says. -/
theorem mem_entity_of_gives [DecidableEq Id] {p : Pick Id} (hnil : p.chosen = []) {x : Text}
    (h : p.Gives GraphEntity.identifiers Node.identifiers x) : x ∈ p.entity.identifiers := by
  rcases h with hx | ⟨r, hr, -⟩
  · exact hx
  · have hmem := (List.mem_filter.mp hr).1
    rw [hnil] at hmem
    exact absurd hmem List.not_mem_nil

/-- What a row took over from earlier picks disagrees with an entity that shares an identifier
with the node only if directory identifiers tell them apart. -/
theorem conflict_of_disagrees {own taken : List Text} {x : Text}
    (h : disagrees own taken = true) (hx : x ∈ own) (hxt : x ∈ taken) :
    directoryConflict own taken = true := by
  have hmeets : meets own taken = true := meets_iff.mpr ⟨x, hx, hxt⟩
  unfold disagrees at h
  rw [hmeets] at h
  simpa using h

/-- An identified entity that is written to a node some entity shares an identifier with is
matched with it. -/
theorem Setting.matched (h : Setting rt w g graph) {before after : List (Pick Id)} {p : Pick Id}
    (hsplit : picks rt g graph = before ++ p :: after) (hidentified : p.entity.identifiers ≠ [])
    {e : GraphEntity Id} (he : e ∈ graph.entities) {r : Found Id} (hr : r ∈ sharing g graph e)
    (htarget : r.id = p.target) : p.chosen ≠ [] := by
  induction hn : before.length using Nat.strong_induction_on generalizing before p after e r with
  | _ k ih =>
    have hp : p ∈ picks rt g graph := hsplit ▸ List.mem_append_right _ (List.mem_cons_self ..)
    have hpe := entity_of_pick hp
    cases picks_verdict hsplit with
    | found hchosen hleast =>
      rintro hnil
      rw [hnil] at hleast
      cases hleast
    | unmatched hnone hchosen hown =>
      obtain ⟨r', hr', -⟩ := h.unbridged.own _ hpe hidentified e he r hr (htarget.trans hown)
      have hstrong := choose_of_strong (List.ne_nil_of_mem hr')
      rw [hnone] at hstrong
      rw [sharing, ← hstrong] at hr'
      exact absurd hr' List.not_mem_nil
    | ousted u taken hleast hother hchosen hown htaken hdisagrees =>
      -- the entity was driven from another node, which it would have to be told apart from
      obtain ⟨r', hr', hid⟩ := h.unbridged.own _ hpe hidentified e he r hr (htarget.trans hown)
      rw [choose_of_strong (List.ne_nil_of_mem hr')] at hleast
      obtain ⟨least, hmem, rfl⟩ := List.mem_map.mp (leastId_mem hleast)
      obtain ⟨hplain, -⟩ := h.unbridged.bridge _ hpe least hmem hleast r' hr'
        (hid.trans_ne hother.symm)
      obtain ⟨hfound, -, x, hx, hxn⟩ := mem_strong.mp hmem
      have hstored := (h.extracted.found hpe hfound).1
      have hagain : ∀ q ∈ before, q.target = least.id → q.entity.identifiers ≠ [] →
          q.chosen ≠ [] := by
        intro q hq hqt hqi
        obtain ⟨front, back, rfl⟩ := List.append_of_mem hq
        have hearlier : picks rt g graph = front ++ q :: (back ++ p :: after) := by
          rw [hsplit, List.append_assoc, List.cons_append]
        refine ih front.length ?_ hearlier hqi hpe hmem hqt.symm rfl
        rw [← hn, List.length_append, List.length_cons]
        omega
      have hkept : ∀ q ∈ before, q.target = least.id → q.chosen ≠ [] → False := by
        intro q hq hqt hqc
        have hqp : q ∈ picks rt g graph := hsplit ▸ List.mem_append_left _ hq
        have hxt : x ∈ taken :=
          (htaken x).mpr ⟨q, hq, hqt, gives_of_chosen hqp hqc (hqt ▸ hstored) hxn⟩
        have hconflict := conflict_of_disagrees hdisagrees hx hxt
        exact not_directed_of_filter hplain (directoryConflict_iff.mp hconflict).1
      have hempty : taken = [] := by
        rw [List.eq_nil_iff_forall_not_mem]
        intro y hy
        obtain ⟨q, hq, hqt, hgives⟩ := (htaken y).mp hy
        by_cases hqc : q.chosen = []
        · have hyq := mem_entity_of_gives hqc hgives
          exact hkept q hq hqt (hagain q hq hqt (List.ne_nil_of_mem hyq))
        · exact hkept q hq hqt hqc
      rw [hempty] at hdisagrees
      simp [disagrees, directoryConflict] at hdisagrees

/-- The row under an id, as far as the picks tell: someone is matched with its node, and some
directory identifier goes into it. -/
structure TakenByOthers (rt : Runtime Id) (g : Stored Id) (graph : ResolvedGraph Id) (i : Id) :
    Prop where
  matched : ∃ q ∈ picks rt g graph, q.target = i ∧ q.chosen ≠ []
  directed : ∃ d, isDirectory d = true ∧ ∃ q ∈ picks rt g graph, q.target = i ∧
    q.Gives GraphEntity.identifiers Node.identifiers d

/-- An entity that shares identifiers with nodes is written to the one with the least id, unless
the directory tells it from the people who took that node. -/
theorem Setting.placed (h : Setting rt w g graph) {p : Pick Id} (hp : p ∈ picks rt g graph)
    {r : Found Id} (hr : r ∈ sharing g graph p.entity) :
    ∃ least ∈ sharing g graph p.entity,
      leastId rt ((sharing g graph p.entity).map Found.id) = some least.id ∧
      ((p.target = least.id ∧ p.chosen ≠ []) ∨
        (Directed p.entity.identifiers ∧ TakenByOthers rt g graph least.id ∧
          ∀ d ∈ p.entity.identifiers, isDirectory d = true → d ∉ least.node.identifiers)) := by
  have hpe := entity_of_pick hp
  have hstrong := choose_of_strong (List.ne_nil_of_mem hr)
  obtain ⟨before, after, hsplit⟩ := List.append_of_mem hp
  cases picks_verdict hsplit with
  | found hchosen hleast =>
    have hsharing : p.chosen = sharing g graph p.entity := hchosen.trans hstrong
    obtain ⟨least, hmem, hid⟩ := List.mem_map.mp (leastId_mem hleast)
    rw [hsharing] at hmem hleast
    refine ⟨least, hmem, hid ▸ hleast, .inl ⟨hid.symm, ?_⟩⟩
    rw [hsharing]
    exact List.ne_nil_of_mem hmem
  | unmatched hnone =>
    rw [hstrong] at hnone
    change r ∈ strong _ _ at hr
    rw [hnone] at hr
    exact absurd hr List.not_mem_nil
  | ousted u taken hleast hother hchosen hown htaken hdisagrees =>
    rw [hstrong] at hleast
    obtain ⟨least, hmem, rfl⟩ := List.mem_map.mp (leastId_mem hleast)
    obtain ⟨hfound, -, x, hx, hxn⟩ := mem_strong.mp hmem
    have hstored := (h.extracted.found hpe hfound).1
    have hbefore : ∀ q ∈ before, q ∈ picks rt g graph := fun q hq =>
      hsplit ▸ List.mem_append_left _ hq
    have hmatched : ∃ q ∈ before, q.target = least.id ∧ q.chosen ≠ [] := by
      have hnonempty : taken ≠ [] := by
        rintro rfl
        simp [disagrees, directoryConflict] at hdisagrees
      obtain ⟨y, hy⟩ := List.exists_mem_of_ne_nil _ hnonempty
      obtain ⟨q, hq, hqt, hgives⟩ := (htaken y).mp hy
      refine ⟨q, hq, hqt, ?_⟩
      by_cases hqc : q.chosen = []
      · obtain ⟨front, back, hq'⟩ := List.append_of_mem (hbefore q hq)
        exact h.matched hq' (List.ne_nil_of_mem (mem_entity_of_gives hqc hgives)) hpe hmem hqt.symm
      · exact hqc
    obtain ⟨q, hq, hqt, hqc⟩ := hmatched
    have hkept : ∀ y ∈ least.node.identifiers, y ∈ taken := fun y hy =>
      (htaken y).mpr ⟨q, hq, hqt, gives_of_chosen (hbefore q hq) hqc (hqt ▸ hstored) hy⟩
    obtain ⟨hdirected, ⟨d, hd, hdir⟩, happart⟩ :=
      directoryConflict_iff.mp (conflict_of_disagrees hdisagrees hx (hkept x hxn))
    obtain ⟨q', hq', hqt', hgives⟩ := (htaken d).mp hd
    refine ⟨least, hmem, hleast, .inr ⟨hdirected, ⟨⟨q, hbefore q hq, hqt, hqc⟩, d, hdir, q',
      hbefore q' hq', hqt', hgives⟩, ?_⟩⟩
    intro d' hd' hdir' hn
    exact happart d' hd' hdir' (hkept d' hn)

/-- The node under an id after a write: the stored one, or a row with what its picks give. -/
theorem identifiers_write {t : Id} {n : Node Id}
    (hn : (write rt g graph).1.nodes.get? t = some n) :
    (∃ n₀, g.nodes.get? t = some n₀ ∧ n.identifiers = n₀.identifiers ∧ n.kind = n₀.kind ∧
      n.workspaceId = n₀.workspaceId ∧ ∀ p ∈ picks rt g graph, p.target ≠ t) ∨
    ((∃ p ∈ picks rt g graph, p.target = t ∧ n.kind = p.entity.kind ∧
        n.workspaceId = p.entity.workspaceId) ∧
      ∀ x, x ∈ n.identifiers ↔ ∃ p ∈ picks rt g graph, p.target = t ∧
        p.Gives GraphEntity.identifiers Node.identifiers x) := by
  have hloop := reconciled_loop rt g graph
  cases hm : (reconciled rt g graph).merged.get? t with
  | none =>
    rw [write_get?, upserted_get?, hm] at hn
    obtain ⟨n₀, hn₀, rfl⟩ := Option.map_eq_some_iff.mp hn
    exact .inl ⟨n₀, hn₀, rfl, rfl, rfl, (hloop.rows t).2 hm⟩
  | some m =>
    obtain ⟨s, hs⟩ := write_get?_of_target hm
    rw [hs, Option.some.injEq] at hn
    have hrow := (hloop.rows t).1 m hm
    obtain ⟨p, hp, hws, hkind, -⟩ := hrow.last
    obtain ⟨hmem, htarget⟩ := lastPick_mem hp
    refine .inr ⟨⟨p, hmem, htarget, ?_, ?_⟩, ?_⟩
    · rw [← hn]
      exact hkind
    · rw [← hn]
      exact hws
    · rw [← hn]
      exact hrow.identifiers

/-- The kind of an entity shows in the id it is written to. -/
theorem pick_home (hx : Extracted rt w graph) (hg : Homed rt w g) {p : Pick Id}
    (hp : p ∈ picks rt g graph) : ∃ key, p.target = entityId rt w p.entity.kind key := by
  rcases (reconciled_loop rt g graph).chosen p hp with ⟨-, hown⟩ | ⟨hchosen, hleast⟩
  · obtain ⟨-, key, hkey⟩ := hx.home (entity_of_pick hp)
    exact ⟨key, hown.trans hkey⟩
  · obtain ⟨r, hr, hid⟩ := List.mem_map.mp (leastId_mem hleast)
    rw [hchosen] at hr
    obtain ⟨hn, hkind⟩ :=
      hx.found (entity_of_pick hp) (List.mem_filter.mp (mem_of_mem_choose hr)).1
    obtain ⟨-, key, hkey⟩ := hg _ _ hn
    exact ⟨key, hid.symm.trans (hkind ▸ hkey)⟩

/-- A write keeps the nodes in the workspace and under ids of their kinds. -/
theorem Homed.write (hg : Homed rt w g) (hx : Extracted rt w graph) :
    Homed rt w (write rt g graph).1 := by
  intro t n hn
  rcases identifiers_write hn with ⟨n₀, hn₀, -, hkind, hws, -⟩ | ⟨⟨p, hp, ht, hkind, hws⟩, -⟩
  · rw [hkind, hws]
    exact hg t n₀ hn₀
  · obtain ⟨key, hkey⟩ := pick_home hx hg hp
    refine ⟨hws.trans (hx.home (entity_of_pick hp)).1, key, ?_⟩
    rw [← ht, hkind]
    exact hkey

section
variable {t u : Id} {n m n₀ : Node Id} {p : Pick Id}

/-- An entity has the kind of the node it is written to. -/
theorem Setting.kind_of_pick (h : Setting rt w g graph)
    (hn : (Graph.write rt g graph).1.nodes.get? t = some n) (hp : p ∈ picks rt g graph)
    (ht : p.target = t) : p.entity.kind = n.kind := by
  obtain ⟨-, key, hkey⟩ := h.homed.write h.extracted t n hn
  obtain ⟨key', hkey'⟩ := pick_home h.extracted h.homed hp
  rw [← ht, hkey'] at hkey
  exact (entityId_inj hkey).2.1

/-- A node keeps its kind. -/
theorem Setting.kind_of_stored (h : Setting rt w g graph)
    (hn : (Graph.write rt g graph).1.nodes.get? t = some n) (hn₀ : g.nodes.get? t = some n₀) :
    n₀.kind = n.kind := by
  obtain ⟨-, key, hkey⟩ := h.homed.write h.extracted t n hn
  obtain ⟨-, key', hkey'⟩ := h.homed t n₀ hn₀
  rw [hkey'] at hkey
  exact (entityId_inj hkey).2.1

/-- A node takes in everything its entities give. -/
theorem mem_of_gives (hn : (Graph.write rt g graph).1.nodes.get? t = some n)
    (hp : p ∈ picks rt g graph) (ht : p.target = t) {x : Text}
    (hx : p.Gives GraphEntity.identifiers Node.identifiers x) : x ∈ n.identifiers := by
  rcases identifiers_write hn with ⟨-, -, -, -, -, hnone⟩ | ⟨-, hiff⟩
  · exact absurd ht (hnone p hp)
  · exact (hiff x).mpr ⟨p, hp, ht, hx⟩

/-- An identifier comes from an entity or from the stored node, all of which is kept. -/
theorem origin (hn : (Graph.write rt g graph).1.nodes.get? t = some n) {x : Text}
    (hx : x ∈ n.identifiers) :
    (∃ p ∈ picks rt g graph, p.target = t ∧ x ∈ p.entity.identifiers) ∨
      ∃ n₀, g.nodes.get? t = some n₀ ∧ x ∈ n₀.identifiers ∧
        ∀ y ∈ n₀.identifiers, y ∈ n.identifiers := by
  rcases identifiers_write hn with ⟨n₀, hn₀, hsame, -⟩ | ⟨-, hiff⟩
  · exact .inr ⟨n₀, hn₀, hsame ▸ hx, fun y hy => hsame ▸ hy⟩
  · obtain ⟨p, hp, ht, hx | ⟨r, hr, hx⟩⟩ := (hiff x).mp hx
    · exact .inl ⟨p, hp, ht, hx⟩
    · obtain ⟨hchosen, hid⟩ := List.mem_filter.mp hr
      have hstored := (get?_of_mem_chosen hp hchosen).2
      rw [of_decide_eq_true hid, ht] at hstored
      exact .inr ⟨r.node, hstored, hx, fun y hy => (hiff y).mpr ⟨p, hp, ht, .inr ⟨r, hr, hy⟩⟩⟩

omit [DecidableEq Id] in
theorem Directed.mono {a b : List Text} (h : Directed a) (hsub : ∀ x ∈ a, x ∈ b) : Directed b := by
  obtain ⟨d, hd, hdir⟩ := h
  exact ⟨d, hsub d hd, hdir⟩

/-- Two entities that share an identifier are one. -/
theorem Setting.pick_unique (h : Setting rt w g graph) {q : Pick Id} (hp : p ∈ picks rt g graph)
    (hq : q ∈ picks rt g graph) (hkind : p.entity.kind = q.entity.kind) {x : Text}
    (hx : x ∈ p.entity.identifiers) (hxq : x ∈ q.entity.identifiers) : p = q := by
  have hentities : (picks rt g graph).map Pick.entity = graph.entities :=
    (reconciled_loop rt g graph).entities
  have hdisjoint := h.extracted.disjoint
  rw [← hentities, List.pairwise_map] at hdisjoint
  by_contra hne
  exact rel_of_mem_ne hdisjoint (fun hab hkind' y hy hy' => hab hkind'.symm y hy' hy) hp hq hne
    hkind x hx hxq

/-- An entity that goes elsewhere than a node it shares an identifier with is told apart from
it by the directory. -/
theorem Setting.elsewhere (h : Setting rt w g graph)
    (hn : (Graph.write rt g graph).1.nodes.get? t = some n)
    (hm : (Graph.write rt g graph).1.nodes.get? u = some m) (hne : t ≠ u) (hkind : n.kind = m.kind)
    (hp : p ∈ picks rt g graph) (ht : p.target = t) (hn₀ : g.nodes.get? u = some n₀)
    (hkept : ∀ y ∈ n₀.identifiers, y ∈ m.identifiers) {x : Text}
    (hx : x ∈ p.entity.identifiers) (hx₀ : x ∈ n₀.identifiers) :
    Directed n.identifiers ∧ Directed m.identifiers ∧ isDirectory x = false := by
  have hpe := entity_of_pick hp
  have hown : ∀ y ∈ p.entity.identifiers, y ∈ n.identifiers := fun y hy =>
    mem_of_gives hn hp ht (.inl hy)
  have hsame : n₀.kind = p.entity.kind :=
    (h.kind_of_stored hm hn₀).trans (hkind.symm.trans (h.kind_of_pick hn hp ht).symm)
  have hfound := found_of_shared h.extracted h.homed hpe hn₀ hsame hx hx₀
  cases hconflict : directoryConflict p.entity.identifiers n₀.identifiers with
  | true =>
    obtain ⟨hdirected, hdirected₀, happart⟩ := directoryConflict_iff.mp hconflict
    refine ⟨hdirected.mono hown, hdirected₀.mono hkept, ?_⟩
    by_contra hdir
    exact happart x hx (by simpa using hdir) hx₀
  | false =>
    have hr : ⟨p.entity.id, u, n₀⟩ ∈ sharing g graph p.entity :=
      mem_strong.mpr ⟨hfound, hconflict, x, hx, hx₀⟩
    obtain ⟨least, hmem, hleast, ⟨htarget, hchosen⟩ | ⟨hdirected, htaken, happart⟩⟩ :=
      h.placed hp hr
    · -- the entity bridges the node it goes to and this one
      have hother : u ≠ least.id := fun hu => hne (ht.symm.trans (htarget.trans hu.symm))
      obtain ⟨hplain, htold⟩ := h.unbridged.bridge _ hpe least hmem hleast _ hr hother
      obtain ⟨hleastDirected, hdirected₀, -⟩ := directoryConflict_iff.mp htold
      have hstored := (h.extracted.found hpe (mem_strong.mp hmem).1).1
      rw [← htarget] at hstored
      refine ⟨hleastDirected.mono fun y hy =>
        mem_of_gives hn hp ht (gives_of_chosen hp hchosen hstored hy), hdirected₀.mono hkept, ?_⟩
      by_contra hdir
      exact not_directed_of_filter hplain ⟨x, hx, by simpa using hdir⟩
    · -- the entity was driven from the node
      have hid : u = least.id := by
        by_contra hother
        obtain ⟨hplain, -⟩ := h.unbridged.bridge _ hpe least hmem hleast _ hr hother
        exact not_directed_of_filter hplain hdirected
      have hstored := (h.extracted.found hpe (mem_strong.mp hmem).1).1
      rw [← hid, hn₀, Option.some.injEq] at hstored
      obtain ⟨d, hd, q, hq, hqt, hgives⟩ := htaken.directed
      refine ⟨hdirected.mono hown, ⟨d, mem_of_gives hm hq (hqt.trans hid.symm) hgives, hd⟩, ?_⟩
      by_contra hdir
      exact happart x hx (by simpa using hdir) (hstored ▸ hx₀)

/-- Two nodes of one kind that share an identifier after a write are told apart by others. -/
theorem Setting.shared (h : Setting rt w g graph)
    (hn : (Graph.write rt g graph).1.nodes.get? t = some n)
    (hm : (Graph.write rt g graph).1.nodes.get? u = some m) (hne : t ≠ u) (hkind : n.kind = m.kind)
    {x : Text} (hx : x ∈ n.identifiers) (hxm : x ∈ m.identifiers) :
    Directed n.identifiers ∧ Directed m.identifiers ∧ isDirectory x = false := by
  rcases origin hn hx with ⟨p, hp, ht, hxp⟩ | ⟨n₀, hn₀, hx₀, hkept⟩ <;>
    rcases origin hm hxm with ⟨q, hq, hu, hxq⟩ | ⟨m₀, hm₀, hxm₀, hkept'⟩
  · have hkinds : p.entity.kind = q.entity.kind :=
      (h.kind_of_pick hn hp ht).trans (hkind.trans (h.kind_of_pick hm hq hu).symm)
    obtain rfl := h.pick_unique hp hq hkinds hxp hxq
    exact absurd (ht.symm.trans hu) hne
  · exact h.elsewhere hn hm hne hkind hp ht hm₀ hkept' hxp hxm₀
  · obtain ⟨hm', hn', hdir⟩ := h.elsewhere hm hn hne.symm hkind.symm hq hu hn₀ hkept hxq hx₀
    exact ⟨hn', hm', hdir⟩
  · have hkinds : n₀.kind = m₀.kind :=
      (h.kind_of_stored hn hn₀).trans (hkind.trans (h.kind_of_stored hm hm₀).symm)
    obtain ⟨hdirected, hdirected', happart⟩ :=
      directoryConflict_iff.mp (h.apart t u n₀ m₀ hn₀ hm₀ hne hkinds x hx₀ hxm₀)
    refine ⟨hdirected.mono hkept, hdirected'.mono hkept', ?_⟩
    by_contra hdir
    exact happart x hx₀ (by simpa using hdir) hxm₀

/-- A write without bridges keeps nodes that share an identifier told apart. -/
theorem Setting.toldApart (h : Setting rt w g graph) : ToldApart (Graph.write rt g graph).1 := by
  intro t u n m hn hm hne hkind x hx hxm
  obtain ⟨hdirected, hdirected', -⟩ := h.shared hn hm hne hkind hx hxm
  refine directoryConflict_iff.mpr ⟨hdirected, hdirected', fun d hd hdir hdm => ?_⟩
  obtain ⟨-, -, hplain⟩ := h.shared hn hm hne hkind hd hdm
  rw [hdir] at hplain
  cases hplain

end

/-- In every run whose writes bridge no stored nodes, nodes of one kind share an identifier only
when they carry different directory identifiers. -/
theorem identity_across_sources (rt : Runtime Id) (w : Id) {g : Stored Id}
    (h : Runs rt (fun g graph => Extracted rt w graph ∧ Unbridged rt g graph) Stored.empty g) :
    ToldApart g := by
  have hboth : Homed rt w g ∧ ToldApart g := by
    refine Runs.invariant (P := fun g => Homed rt w g ∧ ToldApart g) ?_ h ⟨?_, ?_⟩
    · intro g graph ⟨hhomed, hapart⟩ ⟨hextracted, hunbridged⟩
      exact ⟨hhomed.write hextracted,
        Setting.toldApart ⟨hhomed, hapart, hextracted, hunbridged⟩⟩
    · intro i n hn
      cases hn
    · intro i j n m hn
      cases hn
  exact hboth.2

/-- One person with some identifiers. -/
def onePerson (name : String) (identifiers : List String) : ExtractionResult :=
  ⟨[plainPerson name identifiers], [], []⟩

/-- The stored graph after one person. -/
def afterKim : Stored Text :=
  (write plainRuntime Stored.empty (plainGraph (onePerson "Kim" ["a@x"]) "s")).1

/-- A second source knows another address of the same person. -/
theorem identity_across_sources_address : ToldApart
    (write plainRuntime afterKim (plainGraph (onePerson "Lee" ["a@x", "b@x"]) "t")).1 := by
  refine identity_across_sources plainRuntime "w".toList
    (.tail (.single ⟨_, ⟨⟨onePerson "Kim" ["a@x"], plainSource "s", rfl, ?_⟩, ?_⟩, rfl⟩)
      ⟨_, ⟨⟨onePerson "Lee" ["a@x", "b@x"], plainSource "t", rfl, ?_⟩, ?_⟩, rfl⟩)
  · decide +kernel
  · exact ⟨by decide +kernel, by decide +kernel⟩
  · decide +kernel
  · exact ⟨by decide +kernel, by decide +kernel⟩

/-- The stored graph after two people, and then one who has the addresses of both. -/
def bridged : Stored Text :=
  let both := (write plainRuntime afterKim (plainGraph (onePerson "Lee" ["b@x"]) "t")).1
  (write plainRuntime both (plainGraph (onePerson "Park" ["a@x", "b@x"]) "u")).1

/-- The third person is written to one of the two nodes; the other keeps its address. -/
theorem not_toldApart_bridged :
    Runs plainRuntime (fun _ graph => Extracted plainRuntime "w".toList graph) Stored.empty
      bridged ∧ ¬ToldApart bridged := by
  refine ⟨.tail (.tail (.single ⟨_, ⟨onePerson "Kim" ["a@x"], plainSource "s", rfl, ?_⟩, rfl⟩)
    ⟨_, ⟨onePerson "Lee" ["b@x"], plainSource "t", rfl, ?_⟩, rfl⟩)
    ⟨_, ⟨onePerson "Park" ["a@x", "b@x"], plainSource "u", rfl, ?_⟩, rfl⟩, ?_⟩
  · decide +kernel
  · decide +kernel
  · decide +kernel
  · intro h
    have hshared : ∃ e ∈ bridged.nodes.entries, ∃ e' ∈ bridged.nodes.entries, e.1 ≠ e'.1 ∧
        e.2.kind = e'.2.kind ∧ (∃ x ∈ e.2.identifiers, x ∈ e'.2.identifiers) ∧
        directoryConflict e.2.identifiers e'.2.identifiers = false := by decide +kernel
    obtain ⟨e, he, e', he', hne, hkind, ⟨x, hx, hx'⟩, hplain⟩ := hshared
    have hconflict := h e.1 e'.1 e.2 e'.2 (Dict.get?_eq_some_iff.mpr he)
      (Dict.get?_eq_some_iff.mpr he') hne hkind x hx hx'
    rw [hplain] at hconflict
    cases hconflict

end Maeglagi.Graph
