import Maeglagi.Core.Gather
import Maeglagi.Resolution.Names
import Maeglagi.Temporal.Instant

/-!
# Grouping the mentions of one extraction

The single greedy pass of `resolve_extraction`: each mention joins the groups that
share one of its identifiers, or its name where that is not ambiguous. The pass is
also run with the positions of the mentions attached to the groups; forgetting the
positions gives the pass of the source.
-/

namespace Maeglagi.Resolution

open Core Temporal

variable {Id : Type}

/-- One mention of an entity, with its trusted normalized identifiers. -/
structure Mention where
  name : Text
  kind : EntityKind
  aliases : List Text
  identifiers : List Text
  occurredAt : Option Instant
  deriving DecidableEq

/-- The identifiers a mention keeps: nonblank, directory ones only when trusted. -/
def keptIdentifiers (rt : Runtime Id) (trusted identifiers : List Text) : List Text :=
  (identifiers.map (normalizeIdentifier rt)).dedup.filter fun normalized =>
    decide (normalized ≠ []) && (!isDirectory normalized || decide (normalized ∈ trusted))

/-- An extracted entity as a mention. -/
def entityMention (rt : Runtime Id) (trusted : List Text) (item : ExtractedEntity) : Mention :=
  ⟨item.name, item.kind, item.aliases, keptIdentifiers rt trusted item.identifiers, none⟩

/-- An extracted event as a mention: it has neither aliases nor identifiers. -/
def eventMention (rt : Runtime Id) (item : ExtractedEvent) : Except PyError Mention := do
  let occurredAt ← parseInstant rt item.occurredAt
  return ⟨item.name, item.kind, [], [], occurredAt⟩

/-- All mentions of an extraction, entities first. -/
def mentions (rt : Runtime Id) (result : ExtractionResult) (trusted : List Text) :
    Except PyError (List Mention) := do
  let events ← result.events.mapM (eventMention rt)
  return result.entities.map (entityMention rt trusted) ++ events

/-- The nonempty normalized names and aliases of a mention. -/
def Mention.keys (rt : Runtime Id) (m : Mention) : List Text :=
  ((m.name :: m.aliases).map fun value => normalizeName rt value m.kind).dedup.filter
    fun key => decide (key ≠ [])

/-- The mentions taken to be one entity so far. -/
structure Group where
  kind : EntityKind
  names : List Text
  keys : List Text
  identifiers : List Text
  timestamp : Option Instant
  deriving DecidableEq

/-- A group without mentions. -/
def Group.new (kind : EntityKind) : Group := ⟨kind, [], [], [], none⟩

/-- Take over everything another group knows. -/
def Group.absorb (self other : Group) : Group where
  kind := self.kind
  names := self.names ++ other.names
  keys := self.keys ∪ other.keys
  identifiers := self.identifiers ∪ other.identifiers
  timestamp := self.timestamp.or other.timestamp

/-- Add a mention to a group. -/
def Group.add (rt : Runtime Id) (m : Mention) (group : Group) : Group where
  kind := group.kind
  names := group.names ++ m.name :: m.aliases
  keys := group.keys ∪ m.keys rt
  identifiers := group.identifiers ∪ m.identifiers
  timestamp := group.timestamp.or m.occurredAt

/-- The groups of the mention's kind that share one of its identifiers. -/
def byIdentifier (m : Mention) (group : Group) : Bool :=
  decide (group.kind = m.kind) && meets group.identifiers m.identifiers

/-- The other groups of its kind that share a name; two identified sides are homonyms. -/
def byName (rt : Runtime Id) (m : Mention) (group : Group) : Bool :=
  decide (group.kind = m.kind) && meets group.keys (m.keys rt) && !byIdentifier m group &&
    (m.identifiers.isEmpty || group.identifiers.isEmpty)

/-- A mention without identifiers that fits several identified groups. -/
def ambiguous (rt : Runtime Id) (groups : List Group) (m : Mention) : Bool :=
  !groups.any (byIdentifier m) && m.identifiers.isEmpty &&
    decide (1 < (groups.filter fun group =>
      byName rt m group && !group.identifiers.isEmpty).length)

/-- The matched groups that come first: by identifier, else by name, else none. -/
def leads (rt : Runtime Id) (groups : List Group) (m : Mention) (group : Group) : Bool :=
  if groups.any (byIdentifier m) then byIdentifier m group
  else if ambiguous rt groups m then false
  else byName rt m group

/-- The unidentified same-name groups that join a match by identifier. -/
def follows (rt : Runtime Id) (groups : List Group) (m : Mention) (group : Group) : Bool :=
  groups.any (byIdentifier m) && byName rt m group && group.identifiers.isEmpty

/-- The groups after one mention with at least one key. -/
def placeMention (rt : Runtime Id) (groups : List Group) (m : Mention) : List Group :=
  gather (leads rt groups m) (follows rt groups m) Group.absorb (Group.add rt m)
    ((Group.new m.kind).add rt m) groups

/-- One turn of the pass: drop a mention without keys, else place it. -/
def groupMention (rt : Runtime Id) (state : List Group × List Warning) (m : Mention) :
    List Group × List Warning :=
  if m.keys rt = [] then (state.1, state.2 ++ [.emptyName m.name])
  else (placeMention rt state.1 m,
    if ambiguous rt state.1 m then state.2 ++ [.ambiguousName m.name] else state.2)

/-- The groups and the notices after all mentions. -/
def groupMentions (rt : Runtime Id) (ms : List Mention) : List Group × List Warning :=
  ms.foldl (groupMention rt) ([], [])

/-- A group with the positions of its mentions. -/
abbrev Tracked := Group × List Nat

/-- The turn of the pass that places a mention at a position. -/
def placeTracked (rt : Runtime Id) (groups : List Tracked) (m : Mention) (start : Nat) :
    List Tracked :=
  gather (leads rt (groups.map Prod.fst) m ∘ Prod.fst)
    (follows rt (groups.map Prod.fst) m ∘ Prod.fst)
    (fun self other => (self.1.absorb other.1, self.2 ++ other.2))
    (fun group => (group.1.add rt m, group.2 ++ [start]))
    ((Group.new m.kind).add rt m, [start]) groups

/-- The pass with the positions of the mentions attached, from position `start`. -/
def trackFrom (rt : Runtime Id) (start : Nat) (groups : List Tracked) :
    List Mention → List Tracked
  | [] => groups
  | m :: ms =>
    trackFrom rt (start + 1)
      (if m.keys rt = [] then groups else placeTracked rt groups m start) ms

/-- The tracked pass over a list of mentions. -/
def track (rt : Runtime Id) (ms : List Mention) : List Tracked := trackFrom rt 0 [] ms

/-- The mention at position `i` ended up in the `k`-th resolved entity. -/
def EndsIn (rt : Runtime Id) (ms : List Mention) (i k : Nat) : Prop :=
  ∃ t, (track rt ms)[k]? = some t ∧ i ∈ t.2

/-- The mentions at two positions ended up in the same resolved entity. -/
def Together (rt : Runtime Id) (ms : List Mention) (i j : Nat) : Prop :=
  ∃ k, EndsIn rt ms i k ∧ EndsIn rt ms j k

theorem groupMention_fst (rt : Runtime Id) (state : List Group × List Warning) (m : Mention) :
    (groupMention rt state m).1 =
      if m.keys rt = [] then state.1 else placeMention rt state.1 m := by
  unfold groupMention
  split <;> rfl

/-- A tracked turn is the turn of the source with positions attached. -/
theorem map_fst_placeTracked (rt : Runtime Id) (groups : List Tracked) (m : Mention)
    (start : Nat) :
    (placeTracked rt groups m start).map Prod.fst = placeMention rt (groups.map Prod.fst) m :=
  map_gather Prod.fst (fun _ _ => rfl) (fun _ => rfl) groups

private theorem map_fst_trackFrom (rt : Runtime Id) (ms : List Mention) (start : Nat)
    (groups : List Tracked) (warnings : List Warning) :
    (trackFrom rt start groups ms).map Prod.fst =
      (ms.foldl (groupMention rt) (groups.map Prod.fst, warnings)).1 := by
  induction ms generalizing start groups warnings with
  | nil => rfl
  | cons m ms ih =>
    rw [trackFrom, List.foldl_cons]
    have hstep : ∃ w, groupMention rt (groups.map Prod.fst, warnings) m =
        (if m.keys rt = [] then groups.map Prod.fst else
          placeMention rt (groups.map Prod.fst) m, w) :=
      ⟨_, Prod.ext (groupMention_fst rt _ m) rfl⟩
    obtain ⟨w, hw⟩ := hstep
    rw [hw]
    by_cases hk : m.keys rt = []
    · simp only [hk, if_true]
      exact ih (start + 1) groups w
    · simp only [hk, if_false]
      rw [ih (start + 1) _ w, map_fst_placeTracked]

/-- Forgetting the positions gives the groups of the source. -/
theorem map_fst_track (rt : Runtime Id) (ms : List Mention) :
    (track rt ms).map Prod.fst = (groupMentions rt ms).1 :=
  map_fst_trackFrom rt ms 0 [] []

end Maeglagi.Resolution
