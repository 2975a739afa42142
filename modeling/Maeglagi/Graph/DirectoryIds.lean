import Maeglagi.Analysis.Grounding
import Maeglagi.Graph.Identity

/-!
# One directory record for each entity

Only shared identifiers bring two directory identifiers into one resolved entity. The writer
keeps entities and nodes of different records apart, unless a node without its record's
identifier stands under the id of an entity that has it.
-/

namespace Maeglagi.Graph

open Core Resolution

variable {Id : Type} [DecidableEq Id] {rt : Runtime Id} {w : Id} {g : Stored Id}
  {graph : ResolvedGraph Id}

/-- At most one of the identifiers is in the directory's namespace. -/
def OneDirectory (identifiers : List Text) : Prop :=
  ∀ d ∈ identifiers, ∀ d' ∈ identifiers, isDirectory d = true → isDirectory d' = true → d = d'

/-- Mentions of one kind that a chain of shared identifiers connects have the same directory
identifier. -/
def RecordsApart (rt : Runtime Id) (ms : List Mention) : Prop :=
  ∀ i j m n, Connected rt ms i j → ms[i]? = some m → m.keys rt ≠ [] → ms[j]? = some n →
    ∀ d ∈ m.identifiers, ∀ d' ∈ n.identifiers, isDirectory d = true → isDirectory d' = true →
      d = d'

omit [DecidableEq Id] in
theorem endsIn_of_connected {ms : List Mention} {i j k : Nat} (h : Connected rt ms i j)
    (hi : EndsIn rt ms i k) : EndsIn rt ms j k := by
  induction h with
  | refl => exact hi
  | tail _ hlast ih =>
    obtain ⟨l, hb, hc⟩ := together_of_overlap hlast
    rwa [hb.unique ih] at hc

/-- The resolver gives every entity one directory identifier at most exactly when no chain of
shared identifiers connects mentions with different ones. -/
theorem oneDirectory_entities_iff {result : ExtractionResult} (info : SourceInfo Id)
    {ms : List Mention} (hms : mentions rt result info.trustedDirectoryIdentifiers = .ok ms)
    (h : resolveExtraction rt result info = .ok graph) :
    (∀ e ∈ graph.entities, OneDirectory e.identifiers) ↔ RecordsApart rt ms := by
  constructor
  · intro hone i j m n hconnected hm hkeys hn d hd d' hd' hdir hdir'
    obtain ⟨k, hk⟩ := exists_endsIn hm hkeys
    obtain ⟨e, he⟩ := exists_entity_of_endsIn info hms h hk
    have hmem := fun x => mem_identifiers_iff (x := x) info hms h he
    exact hone e (List.mem_of_getElem? he) d ((hmem d).mpr ⟨i, m, hk, hm, hd⟩) d'
      ((hmem d').mpr ⟨j, n, endsIn_of_connected hconnected hk, hn, hd'⟩) hdir hdir'
  · intro hapart e he d hd d' hd' hdir hdir'
    obtain ⟨k, hk⟩ := List.mem_iff_getElem?.mp he
    obtain ⟨i, m, hik, hm, hdm⟩ := (mem_identifiers_iff info hms h hk).mp hd
    obtain ⟨j, n, hjk, hn, hdn⟩ := (mem_identifiers_iff info hms h hk).mp hd'
    have hconnected := connected_of_together ⟨k, hik, hjk⟩ ⟨m, hm, List.ne_nil_of_mem hdm⟩
      ⟨n, hn, List.ne_nil_of_mem hdn⟩
    exact hapart i j m n hconnected hm (keys_ne_of_endsIn hik hm) hn d hdm d' hdn hdir hdir'

/-- Identifiers without a conflict, each with one directory identifier at most, have the same. -/
theorem eq_of_not_conflict {a b : List Text} (h : directoryConflict a b = false)
    (ha : OneDirectory a) (hb : OneDirectory b) {d d' : Text} (hd : d ∈ a) (hd' : d' ∈ b)
    (hdir : isDirectory d = true) (hdir' : isDirectory d' = true) : d = d' := by
  by_contra hne
  have hconflict : directoryConflict a b = true := by
    refine directoryConflict_iff.mpr ⟨⟨d, hd, hdir⟩, ⟨d', hd', hdir'⟩, fun x hx hxdir hxb => ?_⟩
    rw [ha x hx d hd hxdir hdir] at hxb
    exact hne (hb d hxb d' hd' hdir hdir')
  rw [h] at hconflict
  cases hconflict

/-- A node stored under the id of an entity with a directory identifier carries it, or no other
entity shares an identifier with the node. -/
def OwnNodes (g : Stored Id) (graph : ResolvedGraph Id) : Prop :=
  ∀ e ∈ graph.entities, ∀ d ∈ e.identifiers, isDirectory d = true →
    ∀ n, g.nodes.get? e.id = some n → d ∈ n.identifiers ∨
      ∀ e' ∈ graph.entities, e' ≠ e → meets e'.identifiers n.identifiers = false

/-- What a write of entities of single records meets. -/
structure Singles (g : Stored Id) (graph : ResolvedGraph Id) : Prop where
  nodes : ∀ i n, g.nodes.get? i = some n → OneDirectory n.identifiers
  entities : ∀ e ∈ graph.entities, OneDirectory e.identifiers
  ids : ∀ e ∈ graph.entities, ∀ e' ∈ graph.entities, e.id = e'.id → ∀ d ∈ e.identifiers,
    ∀ d' ∈ e'.identifiers, isDirectory d = true → isDirectory d' = true → d = d'
  own : OwnNodes g graph

/-- A pick of an entity of the graph, which goes to a node it is taken to be or to its own. -/
structure Possible (g : Stored Id) (graph : ResolvedGraph Id) (p : Pick Id) : Prop where
  entity : p.entity ∈ graph.entities
  chosen : ∀ r ∈ p.chosen,
    r ∈ choose p.entity.identifiers (foundFor (recordsOf g graph) p.entity.id)
  target : p.target = p.entity.id ∨ ∃ r ∈ p.chosen, r.id = p.target

section possible
variable {p q : Pick Id} {x y : Text}

theorem Possible.stored (h : Possible g graph p) {r : Found Id} (hr : r ∈ p.chosen) :
    g.nodes.get? r.id = some r.node := by
  have hfound := (List.mem_filter.mp (mem_of_mem_choose (h.chosen r hr))).1
  exact (mem_recordsOf (List.mem_filter.mp hfound).1).1

/-- A chosen node with a directory identifier shares an identifier with the entity. -/
theorem Possible.meets_of_directory (h : Possible g graph p) {r : Found Id} (hr : r ∈ p.chosen)
    (hdirected : Directed p.entity.identifiers ∨ Directed r.node.identifiers) :
    meets p.entity.identifiers r.node.identifiers = true := by
  have hchoose := h.chosen r hr
  unfold choose at hchoose
  split at hchoose
  · exact (List.mem_filter.mp hchoose).2
  · split at hchoose
    · cases hchoose
    · obtain ⟨-, hweak⟩ := List.mem_filter.mp hchoose
      simp only [Bool.and_eq_true, Bool.not_eq_true', List.isEmpty_iff, List.any_eq_false] at hweak
      obtain ⟨⟨⟨-, hown⟩, hnode⟩, -⟩ := hweak
      rcases hdirected with hdirected | ⟨d, hd, hdir⟩
      · exact absurd hdirected (not_directed_of_filter hown)
      · exact absurd hdir (by simpa using hnode d hd)

/-- An entity and a node it is taken to be have the same directory identifier. -/
theorem Possible.eq_of_chosen (hs : Singles g graph) (h : Possible g graph p) {r : Found Id}
    (hr : r ∈ p.chosen) (hx : x ∈ p.entity.identifiers) (hy : y ∈ r.node.identifiers)
    (hxdir : isDirectory x = true) (hydir : isDirectory y = true) : x = y := by
  have hadmitted := (List.mem_filter.mp (mem_of_mem_choose (h.chosen r hr))).2
  rw [Bool.not_eq_true'] at hadmitted
  exact eq_of_not_conflict hadmitted (hs.entities _ h.entity) (hs.nodes _ _ (h.stored hr)) hx hy hxdir
    hydir

/-- What is stored under one id is one node. -/
theorem Possible.node_eq (hp : Possible g graph p) (hq : Possible g graph q) {r r' : Found Id}
    (hr : r ∈ p.chosen) (hr' : r' ∈ q.chosen) (hid : r'.id = r.id) : r'.node = r.node := by
  have hstored := hq.stored hr'
  rw [hid, hp.stored hr] at hstored
  exact (Option.some.inj hstored).symm

/-- A node that one entity is taken to be agrees with another entity that goes there. -/
theorem Possible.eq_of_node (hs : Singles g graph) (hp : Possible g graph p)
    (hq : Possible g graph q) {r : Found Id} (hr : r ∈ p.chosen) (hid : r.id = q.target)
    (hx : x ∈ r.node.identifiers) (hy : y ∈ q.entity.identifiers) (hxdir : isDirectory x = true)
    (hydir : isDirectory y = true) : x = y := by
  rcases hq.target with hown | ⟨r', hr', hid'⟩
  · have hstored := hp.stored hr
    rw [hid, hown] at hstored
    rcases hs.own q.entity hq.entity y hy hydir r.node hstored with hcarried | halone
    · exact hs.nodes _ _ hstored x hx y hcarried hxdir hydir
    · have hmeets := hp.meets_of_directory hr (.inr ⟨x, hx, hxdir⟩)
      have hsame : p.entity = q.entity := by
        by_contra hne
        rw [halone _ hp.entity hne] at hmeets
        cases hmeets
      rw [← hsame] at hy
      exact (hp.eq_of_chosen hs hr hy hx hydir hxdir).symm
  · have hnode := hp.node_eq hq hr hr' (hid'.trans hid.symm)
    exact (hq.eq_of_chosen hs hr' hy (hnode ▸ hx) hydir hxdir).symm

/-- Two entities agree that go to the id of one of them. -/
theorem Possible.eq_of_own (hs : Singles g graph) (hp : Possible g graph p)
    (hq : Possible g graph q) (hown : p.entity.id = q.target) (hx : x ∈ p.entity.identifiers)
    (hy : y ∈ q.entity.identifiers) (hxdir : isDirectory x = true)
    (hydir : isDirectory y = true) : x = y := by
  rcases hq.target with hqown | ⟨r, hr, hid⟩
  · exact hs.ids _ hp.entity _ hq.entity (hown.trans hqown) x hx y hy hxdir hydir
  · have hstored := hq.stored hr
    rw [hid, ← hown] at hstored
    rcases hs.own p.entity hp.entity x hx hxdir r.node hstored with hcarried | halone
    · exact (hq.eq_of_chosen hs hr hy hcarried hydir hxdir).symm
    · have hmeets := hq.meets_of_directory hr (.inl ⟨y, hy, hydir⟩)
      have hsame : q.entity = p.entity := by
        by_contra hne
        rw [halone _ hq.entity hne] at hmeets
        cases hmeets
      exact hs.entities _ hp.entity x hx y (hsame ▸ hy) hxdir hydir

/-- What two picks for one id give it is one directory identifier, if their entities agree. -/
theorem Possible.eq_of_gives (hs : Singles g graph) (hp : Possible g graph p)
    (hq : Possible g graph q) (htarget : p.target = q.target)
    (hentities : ∀ x ∈ p.entity.identifiers, ∀ y ∈ q.entity.identifiers, isDirectory x = true →
      isDirectory y = true → x = y)
    (hx : p.Gives GraphEntity.identifiers Node.identifiers x)
    (hy : q.Gives GraphEntity.identifiers Node.identifiers y) (hxdir : isDirectory x = true)
    (hydir : isDirectory y = true) : x = y := by
  have hnode : ∀ {p : Pick Id} {r : Found Id}, r ∈ p.own → r ∈ p.chosen ∧ r.id = p.target :=
    fun hr => ⟨(List.mem_filter.mp hr).1, of_decide_eq_true (List.mem_filter.mp hr).2⟩
  rcases hx with hx | ⟨r, hr, hx⟩
  · rcases hy with hy | ⟨r', hr', hy⟩
    · exact hentities x hx y hy hxdir hydir
    · obtain ⟨hr', hid'⟩ := hnode hr'
      exact (hq.eq_of_node hs hp hr' (hid'.trans htarget.symm) hy hx hydir hxdir).symm
  · obtain ⟨hr, hid⟩ := hnode hr
    rcases hy with hy | ⟨r', hr', hy⟩
    · exact hp.eq_of_node hs hq hr (hid.trans htarget) hx hy hxdir hydir
    · obtain ⟨hr', hid'⟩ := hnode hr'
      have hsame := hp.node_eq hq hr hr' (hid'.trans (htarget.symm.trans hid.symm))
      rw [hsame] at hy
      exact hs.nodes _ _ (hp.stored hr) x hx y hy hxdir hydir

end possible

/-- An entity that is written to another id than its own agrees with the row there. -/
theorem not_disagrees_pick (rt : Runtime Id) (merged : Dict Id (Merged Id))
    (found : List (Found Id)) {entity : GraphEntity Id} {claimed : Merged Id}
    (hne : (pick rt merged found entity).target ≠ entity.id)
    (hclaimed : merged.get? (pick rt merged found entity).target = some claimed) :
    disagrees entity.identifiers claimed.1.identifiers = false := by
  generalize hu : (leastId rt ((choose entity.identifiers found).map Found.id)).getD entity.id = u
  cases hget : merged.get? u with
  | none =>
    have hpick : pick rt merged found entity = ⟨entity, u, choose entity.identifiers found⟩ := by
      unfold pick
      simp only [hu, hget]
    rw [hpick] at hclaimed
    exact absurd (hget.symm.trans hclaimed) (by simp)
  | some taken =>
    by_cases hc : u ≠ entity.id ∧ disagrees entity.identifiers taken.1.identifiers = true
    · have hpick : pick rt merged found entity = ⟨entity, entity.id, []⟩ := by
        unfold pick
        simp only [hu, hget]
        rw [if_pos hc]
      rw [hpick] at hne
      exact absurd rfl hne
    · have hpick : pick rt merged found entity = ⟨entity, u, choose entity.identifiers found⟩ := by
        unfold pick
        simp only [hu, hget]
        rw [if_neg hc]
      rw [hpick] at hne hclaimed
      rw [← Option.some.inj (hget.symm.trans hclaimed)]
      rw [not_and, Bool.not_eq_true] at hc
      exact hc hne

/-- The picks are possible, and those for one id give it one directory identifier. -/
structure Agreed (g : Stored Id) (graph : ResolvedGraph Id) (picks : List (Pick Id)) : Prop where
  possible : ∀ p ∈ picks, Possible g graph p
  one : ∀ p ∈ picks, ∀ q ∈ picks, p.target = q.target → ∀ x y,
    p.Gives GraphEntity.identifiers Node.identifiers x →
    q.Gives GraphEntity.identifiers Node.identifiers y →
    isDirectory x = true → isDirectory y = true → x = y

/-- A turn of the loop keeps the picks agreed. -/
theorem Agreed.append (hs : Singles g graph) {done : List (GraphEntity Id)}
    {state : Reconciled Id} (hloop : Loop rt (recordsOf g graph) done state)
    (h : Agreed g graph state.picks) {entity : GraphEntity Id} (hentity : entity ∈ graph.entities) :
    Agreed g graph (state.picks ++
      [pick rt state.merged (foundFor (recordsOf g graph) entity.id) entity]) := by
  obtain ⟨hsame, hcases⟩ :=
    pick_cases rt state.merged (foundFor (recordsOf g graph) entity.id) entity
  have hguard := fun {claimed : Merged Id} => @not_disagrees_pick _ _ rt state.merged
    (foundFor (recordsOf g graph) entity.id) entity claimed
  generalize pick rt state.merged (foundFor (recordsOf g graph) entity.id) entity = p at *
  have hpossible : Possible g graph p := by
    rcases hcases with ⟨hnil, htarget⟩ | ⟨hchosen, hleast⟩
    · exact ⟨hsame ▸ hentity, fun r hr => absurd (hnil ▸ hr) List.not_mem_nil,
        .inl (hsame ▸ htarget)⟩
    · refine ⟨hsame ▸ hentity, fun r hr => hsame ▸ hchosen ▸ hr, .inr ?_⟩
      exact List.mem_map.mp (hchosen ▸ leastId_mem hleast)
  -- an older pick for the same id agrees with the new entity
  have hentities : ∀ q ∈ state.picks, p.target = q.target → ∀ x ∈ p.entity.identifiers,
      ∀ y ∈ q.entity.identifiers, isDirectory x = true → isDirectory y = true → x = y := by
    intro q hq htarget x hx y hy hxdir hydir
    by_cases hown : p.target = entity.id
    · exact hpossible.eq_of_own hs (h.possible q hq)
        ((congrArg GraphEntity.id hsame).trans (hown.symm.trans htarget)) hx hy hxdir hydir
    · cases hm : state.merged.get? p.target with
      | none => exact absurd htarget.symm ((hloop.rows p.target).2 hm q hq)
      | some claimed =>
        have hagree := hguard hown hm
        have hids := ((hloop.rows p.target).1 claimed hm).identifiers
        have hone : OneDirectory claimed.1.identifiers := by
          intro d hd d' hd' hdir hdir'
          obtain ⟨u, hu, hut, hud⟩ := (hids d).mp hd
          obtain ⟨v, hv, hvt, hvd⟩ := (hids d').mp hd'
          exact h.one u hu v hv (hut.trans hvt.symm) d d' hud hvd hdir hdir'
        rw [disagrees, Bool.or_eq_false_iff, ← hsame] at hagree
        exact eq_of_not_conflict hagree.1 (hs.entities _ hpossible.entity) hone hx
          ((hids y).mpr ⟨q, hq, htarget.symm, .inl hy⟩) hxdir hydir
  have hcases : ∀ {q : Pick Id}, q ∈ state.picks ++ [p] → q ∈ state.picks ∨ q = p :=
    fun hq => (List.mem_append.mp hq).imp_right List.mem_singleton.mp
  refine ⟨fun q hmem => ?_, fun q hmem q' hmem' htarget x y hx hy hxdir hydir => ?_⟩
  · rcases hcases hmem with hq | rfl
    · exact h.possible q hq
    · exact hpossible
  · rcases hcases hmem with hq | rfl <;> rcases hcases hmem' with hq' | rfl
    · exact h.one q hq q' hq' htarget x y hx hy hxdir hydir
    · exact (hpossible.eq_of_gives hs (h.possible q hq) htarget.symm
        (hentities q hq htarget.symm) hy hx hydir hxdir).symm
    · exact hpossible.eq_of_gives hs (h.possible q' hq') htarget (hentities q' hq' htarget) hx hy
        hxdir hydir
    · exact hpossible.eq_of_gives hs hpossible rfl (hs.entities _ hpossible.entity) hx hy hxdir
        hydir

/-- The picks of a write are agreed. -/
theorem agreed_picks (rt : Runtime Id) (hs : Singles g graph) :
    Agreed g graph (picks rt g graph) := by
  have hstart : Agreed g graph [] := ⟨by simp, by simp⟩
  unfold picks reconciled
  cases hw : graphWorkspace graph with
  | none => exact hstart
  | some workspaceId =>
    have hrecords : recordsOf g graph = findExisting g workspaceId graph.entities := by
      rw [recordsOf, hw]
    refine reconcile_induct rt g workspaceId graph.entities hstart ?_
    intro done state entity hentity hloop _ h
    rw [← hrecords] at hloop ⊢
    exact h.append hs hloop hentity

/-- A write keeps one directory identifier on each node. -/
theorem oneDirectory_write (hs : Singles g graph) {i : Id} {n : Node Id}
    (hn : (write rt g graph).1.nodes.get? i = some n) : OneDirectory n.identifiers := by
  rcases identifiers_write hn with ⟨n₀, hn₀, hids, -⟩ | ⟨-, hids⟩
  · rw [hids]
    exact hs.nodes i n₀ hn₀
  · intro d hd d' hd' hdir hdir'
    obtain ⟨p, hp, hpt, hpd⟩ := (hids d).mp hd
    obtain ⟨q, hq, hqt, hqd⟩ := (hids d').mp hd'
    exact (agreed_picks rt hs).one p hp q hq (hpt.trans hqt.symm) d d' hpd hqd hdir hdir'

/-- The id of an entity with a directory identifier is made from it. -/
theorem id_of_directory (h : Extracted rt w graph) {e : GraphEntity Id} (he : e ∈ graph.entities)
    (hone : OneDirectory e.identifiers) {d : Text} (hd : d ∈ e.identifiers)
    (hdir : isDirectory d = true) : e.id = entityId rt w e.kind (identifierPrefix ++ d) := by
  obtain ⟨result, info, rfl, hresolve⟩ := h
  obtain ⟨run⟩ := resolveExtraction_resolved hresolve
  have hmem : unlinked e ∈ resolvedEntities rt info run.ms :=
    run.map_unlinked ▸ List.mem_map_of_mem he
  obtain ⟨group, -, hgroup⟩ := List.mem_map.mp hmem
  have hids : sortedSet group.identifiers = e.identifiers :=
    (congrArg GraphEntity.identifiers hgroup).trans (unlinked_identifiers e)
  have hkind : group.kind = e.kind := (congrArg GraphEntity.kind hgroup).trans (unlinked_kind e)
  have hid : entityId rt info.workspaceId group.kind (group.key rt) = e.id :=
    (congrArg GraphEntity.id hgroup).trans (unlinked_id e)
  have hkey : group.key rt = identifierPrefix ++ d := by
    have hdgroup : d ∈ group.identifiers := mem_sortedSet.mp (hids ▸ hd)
    unfold Group.key stableKey
    cases hdirs : sortedSet (group.identifiers.filter isDirectory) with
    | nil =>
      have hmem := mem_sortedSet.mpr (List.mem_filter.mpr ⟨hdgroup, hdir⟩)
      rw [hdirs] at hmem
      cases hmem
    | cons x rest =>
      have hx : x ∈ sortedSet (group.identifiers.filter isDirectory) :=
        hdirs ▸ List.mem_cons_self ..
      obtain ⟨hx, hxdir⟩ := List.mem_filter.mp (mem_sortedSet.mp hx)
      rw [hone x (hids ▸ mem_sortedSet.mpr hx) d hd hxdir hdir]
  rw [← hid, hkind, hkey]

/-- What a source of single records meets. -/
theorem singles_of_extracted (h : Extracted rt w graph)
    (hnodes : ∀ i n, g.nodes.get? i = some n → OneDirectory n.identifiers)
    (hentities : ∀ e ∈ graph.entities, OneDirectory e.identifiers) (hown : OwnNodes g graph) :
    Singles g graph := by
  refine ⟨hnodes, hentities, ?_, hown⟩
  intro e he e' he' hsame d hd d' hd' hdir hdir'
  rw [id_of_directory h he (hentities e he) hd hdir,
    id_of_directory h he' (hentities e' he') hd' hdir'] at hsame
  exact List.append_cancel_left (entityId_inj hsame).2.2

/-- The graph is that of an extraction that is canonicalized against a directory and in which no
chain of shared identifiers connects mentions of different records. -/
def Recorded (rt : Runtime Id) (graph : ResolvedGraph Id) : Prop :=
  ∃ result directory sourceText info ms,
    mentions rt (canonicalizeDirectoryEntities rt result directory sourceText).1.toExtractionResult
      (canonicalizeDirectoryEntities rt result directory sourceText).2 = .ok ms ∧
    resolveCanonical rt result directory sourceText info = .ok graph ∧ RecordsApart rt ms

/-- The resolver gives every entity one directory identifier at most exactly when no chain of
shared identifiers connects mentions of different records; and in runs of such sources, in which
a node under the id of an entity of a record carries the record's identifier or shares none with
other entities, every node has one directory identifier at most. -/
theorem one_directory_record (rt : Runtime Id) :
    (∀ result directory sourceText info graph ms,
      mentions rt
        (canonicalizeDirectoryEntities rt result directory sourceText).1.toExtractionResult
        (canonicalizeDirectoryEntities rt result directory sourceText).2 = .ok ms →
      resolveCanonical rt result directory sourceText info = .ok graph →
      ((∀ e ∈ graph.entities, OneDirectory e.identifiers) ↔ RecordsApart rt ms)) ∧
    ∀ g, Runs rt (fun g graph => Recorded rt graph ∧ OwnNodes g graph) Stored.empty g →
      ∀ i n, g.nodes.get? i = some n → OneDirectory n.identifiers := by
  refine ⟨fun result directory sourceText info graph ms hms h => ?_, fun g hruns => ?_⟩
  · exact oneDirectory_entities_iff (canonicalInfo rt result directory sourceText info) hms h
  · refine Runs.invariant (P := fun g => ∀ i n, g.nodes.get? i = some n →
      OneDirectory n.identifiers) ?_ hruns ?_
    · rintro g graph hnodes ⟨⟨result, directory, sourceText, info, ms, hms, h, hapart⟩, hown⟩ i n hn
      have hentities := (oneDirectory_entities_iff
        (canonicalInfo rt result directory sourceText info) hms h).mpr hapart
      have hextracted : Extracted rt info.workspaceId graph :=
        ⟨_, canonicalInfo rt result directory sourceText info, rfl, h⟩
      exact oneDirectory_write (singles_of_extracted hextracted hnodes hentities hown) hn
    · intro i n hn
      cases hn

/-- The graph of a canonicalized result; without entities if the resolver raises. -/
def canonicalGraph (result : AnalysisResult) (directory : Option (Snapshot Text))
    (sourceText : String) : ResolvedGraph Text :=
  match resolveCanonical plainRuntime result directory sourceText.toList (plainSource "s") with
  | .ok graph => graph
  | .error _ => ⟨[], [], [], []⟩

/-- The graph of a source that quotes a person of the directory. -/
def kimGraph : ResolvedGraph Text :=
  canonicalGraph (mentionOf "Kim" ["Kim spoke"]) kimDirectory "Kim spoke"

theorem one_directory_record_kim :
    let g := (write plainRuntime Stored.empty kimGraph).1
    (∃ e ∈ g.nodes.entries, "directory:person:p".toList ∈ e.2.identifiers) ∧
      ∀ i n, g.nodes.get? i = some n → OneDirectory n.identifiers := by
  intro g
  refine ⟨by decide +kernel, (one_directory_record plainRuntime).2 g ?_⟩
  have hapart : ∀ ms, mentions plainRuntime
      (canonicalizeDirectoryEntities plainRuntime (mentionOf "Kim" ["Kim spoke"]) kimDirectory
        "Kim spoke".toList).1.toExtractionResult
      (canonicalizeDirectoryEntities plainRuntime (mentionOf "Kim" ["Kim spoke"]) kimDirectory
        "Kim spoke".toList).2 = .ok ms → RecordsApart plainRuntime ms := by
    intro ms hms
    have hgraph : resolveExtraction plainRuntime (canonicalizeDirectoryEntities plainRuntime
        (mentionOf "Kim" ["Kim spoke"]) kimDirectory "Kim spoke".toList).1.toExtractionResult
        (canonicalInfo plainRuntime
        (mentionOf "Kim" ["Kim spoke"]) kimDirectory "Kim spoke".toList (plainSource "s")) =
          .ok kimGraph := by decide +kernel
    refine (oneDirectory_entities_iff _ hms hgraph).mp ?_
    unfold OneDirectory
    decide +kernel
  refine Relation.ReflTransGen.single ⟨kimGraph, ⟨⟨mentionOf "Kim" ["Kim spoke"], kimDirectory,
    "Kim spoke".toList, plainSource "s", _, rfl, by decide +kernel, hapart _ rfl⟩, ?_⟩, rfl⟩
  intro e _ d _ _ n hn
  cases hn

/-- The directory with two people. -/
def pairDirectory : Option (Snapshot Text) :=
  some ⟨none, [], [⟨"p".toList, "Kim".toList, none, none, []⟩,
    ⟨"q".toList, "Lee".toList, none, none, []⟩], []⟩

/-- A result that gives both people one address. -/
def sharedMailbox : AnalysisResult :=
  { mentionOf "Kim" ["Kim spoke"] with
    entities := [⟨"Kim".toList, .person, [], ["team@x".toList], ["Kim spoke".toList]⟩,
      ⟨"Lee".toList, .person, [], ["team@x".toList], ["Lee spoke".toList]⟩] }

/-- Two people of the directory with one address become one entity and one node. -/
theorem two_directory_records :
    let graph := canonicalGraph sharedMailbox pairDirectory "Kim spoke. Lee spoke."
    resolveCanonical plainRuntime sharedMailbox pairDirectory "Kim spoke. Lee spoke.".toList
        (plainSource "s") = .ok graph ∧
      (∃ e ∈ graph.entities, ¬OneDirectory e.identifiers) ∧
      ∃ i n, (write plainRuntime Stored.empty graph).1.nodes.get? i = some n ∧
        ¬OneDirectory n.identifiers := by
  intro graph
  refine ⟨by decide +kernel, ?_, ?_⟩
  · unfold OneDirectory
    decide +kernel
  · have hnode : ∃ e ∈ (write plainRuntime Stored.empty graph).1.nodes.entries,
        ¬OneDirectory e.2.identifiers := by
      unfold OneDirectory
      decide +kernel
    obtain ⟨e, he, hnot⟩ := hnode
    exact ⟨e.1, e.2, Dict.get?_eq_some_iff.mpr he, hnot⟩

end Maeglagi.Graph
