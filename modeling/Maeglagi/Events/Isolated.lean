import Mathlib.Algebra.GroupWithZero.Nat
import Mathlib.Data.List.Perm.Subperm
import Mathlib.Order.OrderIsoNat
import Maeglagi.Events.Bisection

/-!
# Bad ids are isolated

While the subscriptions stay as they are each refusal makes a weight of the channel smaller and
no other event makes it larger. If every batch with a bad id is answered in the end, no batch
has one from some point on.
-/

namespace Maeglagi.Events

open Core

/-- The subscriptions stay as they are. -/
def ChannelEvent.Fixed : ChannelEvent → Prop
  | .subscribe _ => False
  | .unsubscribe _ => False
  | _ => True

namespace Channel

variable {bad : SourceId → Bool} {c : Channel} {run run' : Run} {status : PermanentStatus}
  {runs rest : List Run} {ids pending synced : List SourceId}

/-- The batches of the runs of a generation, under the identities of the runs. -/
def batchesOf (generation : Nat) (runs : List Run) : List (Nat × List SourceId) :=
  (runs.filter fun run => decide (run.generation = generation)).map fun run => (run.serial, run.ids)

/-- The batches of the current generation, with the one whose outcome is handled. -/
def batches (c : Channel) : List (Nat × List SourceId) :=
  batchesOf c.generation (c.runs ++ c.handled)

/-- The server answers a batch. -/
def Answered (c : Channel) (batch : Nat × List SourceId) (event : Option ChannelEvent) : Prop :=
  ∃ run outcome, event = some (.outcome run outcome) ∧ outcome ≠ .failed ∧
    run.generation = c.generation ∧ (run.serial, run.ids) = batch

/-- What a channel does from some moment on with its subscriptions fixed: events and pauses, in
which each batch with a bad id is answered if it remains. -/
structure Unfolds (bad : SourceId → Bool) (cs : Nat → Channel)
    (events : Nat → Option ChannelEvent) : Prop where
  next : ∀ n event, events n = some event →
    event.Fixed ∧ event.Answers bad ∧ (cs n).step event = some (cs (n + 1))
  pause : ∀ n, events n = none → cs (n + 1) = cs n
  answered : ∀ n, ∀ batch ∈ (cs n).batches, batch.2.any bad = true →
    ∃ m ≥ n, batch ∉ (cs m).batches ∨ (cs m).Answered batch (events m)

theorem mem_batchesOf {generation : Nat} {batch : Nat × List SourceId} :
    batch ∈ batchesOf generation runs ↔
      ∃ run ∈ runs, run.generation = generation ∧ (run.serial, run.ids) = batch := by
  simp [batchesOf, and_assoc]

theorem batchesOf_append {generation : Nat} :
    batchesOf generation (runs ++ rest) = batchesOf generation runs ++ batchesOf generation rest := by
  simp [batchesOf]

theorem batchesOf_none {generation : Nat} (h : ∀ run ∈ runs, run.generation ≠ generation) :
    batchesOf generation runs = [] := by
  rw [batchesOf, List.filter_eq_nil_iff.mpr fun run hrun => by simpa using h run hrun]
  rfl

theorem batchesOf_perm {generation : Nat} (h : runs.Perm rest) :
    (batchesOf generation runs).Perm (batchesOf generation rest) :=
  (h.filter _).map _

/-- What it costs to isolate the bad ids of a batch. -/
def cost (bad : SourceId → Bool) (ids : List SourceId) : Nat :=
  if ids.any bad then 4 * ids.length - 2 else 0

/-- The costs of some batches. -/
def load (bad : SourceId → Bool) (batches : List (Nat × List SourceId)) : Nat :=
  (batches.map fun batch => cost bad batch.2).sum

theorem cost_le (bad : SourceId → Bool) (ids : List SourceId) : cost bad ids ≤ 4 * ids.length := by
  rw [cost]
  split
  · omega
  · omega

theorem load_append {batches batches' : List (Nat × List SourceId)} :
    load bad (batches ++ batches') = load bad batches + load bad batches' := by
  simp [load]

theorem load_perm {batches batches' : List (Nat × List SourceId)} (h : batches.Perm batches') :
    load bad batches = load bad batches' := (h.map _).sum_nat

/-- The batches cost at most as much as their ids. -/
theorem load_batchesOf_le (generation : Nat) (runs : List Run) :
    load bad (batchesOf generation runs) ≤ 4 * (watched generation runs).length := by
  rw [load, batchesOf, watched, List.map_map]
  induction runs.filter fun run => decide (run.generation = generation) with
  | nil => exact Nat.le_refl _
  | cons run runs ih =>
    have hrun := cost_le bad run.ids
    simp only [List.map_cons, List.sum_cons, List.flatMap_cons, List.length_append,
      Function.comp_apply] at ih ⊢
    omega

instance lawfulBEq_sourceId : LawfulBEq SourceId := inferInstance

/-- How many requests for bad ids there are that are not marked. -/
def unmarked (bad : SourceId → Bool) (c : Channel) : Nat :=
  (c.requested.filter fun id => bad id && decide (id ∉ c.invalid)).length

/-- The weight with some runs in hand: each bad id weighs more than a new start of the
streams, and an open `sync` more than the streams it starts. -/
def weightWith (bad : SourceId → Bool) (c : Channel) (rest : List Run) : Nat :=
  c.unmarked bad * (4 * c.requested.length + 3) +
    load bad (batchesOf c.generation (c.runs ++ rest)) +
    (4 * c.syncing.flatten.length + c.syncing.length)

/-- What is left to be done to isolate the bad ids. -/
def weight (bad : SourceId → Bool) (c : Channel) : Nat :=
  match c.handling with
  | none => c.weightWith bad []
  | some (.job run) => c.weightWith bad [run]
  | some (.failed run) => c.weightWith bad [run]
  | some (.refused run _) => c.weightWith bad [run] - 1
  | some (.marking _ _ _) => c.weightWith bad [] + (4 * c.requested.length + 2)

/-- The operations that are open while the subscriptions are fixed. -/
structure Steady (c : Channel) : Prop where
  syncing : c.syncing ≠ [] → c.handling = none
  refused : ∀ run status, c.handling = some (.refused run status) → run.generation = c.generation
  marking : ∀ run status rest, c.handling = some (.marking run status rest) → rest = []

/-- The step from a channel with runs in hand keeps the weight and the batches. -/
structure Keeps (bad : SourceId → Bool) (c : Channel) (rest : List Run) (c' : Channel) : Prop where
  steady : c'.Steady
  weight : c'.weight bad = c.weightWith bad rest
  batches : c'.batches.Perm (batchesOf c.generation (c.runs ++ rest))

/-- Runs that are put back as the same batches. -/
theorem keeps_runs {failing : List Nat} {state : SourceEventsConnection} (hidle : c.Idle)
    (hperm : (batchesOf c.generation runs).Perm (batchesOf c.generation (c.runs ++ rest))) :
    Keeps bad c rest { c with runs := runs, failing := failing, connectionState := state } := by
  obtain ⟨hhandling, hsyncing⟩ := hidle
  refine ⟨⟨fun _ => hhandling, fun run status heq => ?_, fun run status rest heq => ?_⟩, ?_, ?_⟩
  · rw [hhandling] at heq
    cases heq
  · rw [hhandling] at heq
    cases heq
  · have hload : load bad (batchesOf c.generation (runs ++ [])) =
        load bad (batchesOf c.generation (c.runs ++ rest)) := by
      rw [List.append_nil]
      exact load_perm hperm
    simp only [Channel.weight, hhandling]
    exact congrArg (fun n => c.unmarked bad * (4 * c.requested.length + 3) + n +
      (4 * c.syncing.flatten.length + c.syncing.length)) hload
  · simp only [Channel.batches, handled, hhandling]
    exact (List.append_nil runs).symm ▸ hperm

theorem batchesOf_update {generation : Nat} (hserial : run'.serial = run.serial)
    (hids : run'.ids = run.ids) (hgen : run'.generation = run.generation) :
    batchesOf generation [run'] = batchesOf generation [run] := by
  simp only [batchesOf, List.filter_cons, hgen, List.filter_nil]
  split <;> simp [hserial, hids]

/-- What else the run in hand records makes no difference. -/
theorem Keeps.update {c' : Channel} (h : Keeps bad c [run'] c') (hserial : run'.serial = run.serial)
    (hids : run'.ids = run.ids) (hgen : run'.generation = run.generation) :
    Keeps bad c [run] c' := by
  have hsame : batchesOf c.generation (c.runs ++ [run']) =
      batchesOf c.generation (c.runs ++ [run]) := by
    rw [batchesOf_append, batchesOf_append, batchesOf_update hserial hids hgen]
  refine ⟨h.steady, ?_, hsame ▸ h.batches⟩
  rw [h.weight, weightWith, weightWith, hsame]

theorem keeps_resume (run' : Run) {failing : List Nat} {state : SourceEventsConnection}
    (hidle : c.Idle)
    (hserial : run'.serial = run.serial) (hids : run'.ids = run.ids)
    (hgen : run'.generation = run.generation) :
    Keeps bad c [run]
      { c with runs := run' :: c.runs, failing := failing, connectionState := state } := by
  refine keeps_runs hidle ?_
  rw [← List.singleton_append, batchesOf_append, batchesOf_append,
    batchesOf_update hserial hids hgen]
  exact List.perm_append_comm

/-- The callbacks of a run that goes on as the same batch. -/
theorem keeps_pause {failing : List Nat} {state : SourceEventsConnection} {handling : Handling}
    (hidle : c.Idle) (hhandling : handling = .job run' ∨ handling = .failed run')
    (hserial : run'.serial = run.serial) (hids : run'.ids = run.ids)
    (hgen : run'.generation = run.generation) :
    Keeps bad c [run]
      { c with failing := failing, connectionState := state, handling := some handling } := by
  have hsame : batchesOf c.generation (c.runs ++ [run']) =
      batchesOf c.generation (c.runs ++ [run]) := by
    rw [batchesOf_append, batchesOf_append, batchesOf_update hserial hids hgen]
  have hload := congrArg (fun batches => c.unmarked bad * (4 * c.requested.length + 3) +
    load bad batches + (4 * c.syncing.flatten.length + c.syncing.length)) hsame
  rcases hhandling with rfl | rfl
  · exact ⟨⟨fun hne => absurd hidle.2 hne, nofun, nofun⟩, hload, .of_eq hsame⟩
  · exact ⟨⟨fun hne => absurd hidle.2 hne, nofun, nofun⟩, hload, .of_eq hsame⟩

theorem keeps_finish (hidle : c.Idle) (hgen : run.generation ≠ c.generation) :
    Keeps bad c [run] (c.finish run) := by
  rw [finish, if_neg hgen]
  have hnone : batchesOf c.generation [run] = [] := batchesOf_none (by simpa using hgen)
  refine keeps_runs hidle (.of_eq ?_)
  rw [batchesOf_append, hnone, List.append_nil]

theorem Covers.keeps_delay (h : Covers c [run] pending synced) (hidle : c.Idle) :
    Keeps bad c [run] (c.delay run) := by
  rw [delay]
  split
  · next hstale => exact keeps_finish hidle (h.old_of_stale hstale)
  · exact keeps_resume _ hidle rfl rfl rfl

/-- Cutting a batch with a bad id costs less than the batch. -/
theorem cost_halves (hlong : 1 < ids.length) (hbad : ids.any bad = true) :
    cost bad (ids.take (ids.length / 2)) + cost bad (ids.drop (ids.length / 2)) + 2 ≤
      cost bad ids := by
  have hhalf : ∀ half : List SourceId, 0 < half.length → cost bad half + 2 ≤ 4 * half.length := by
    intro half hpos
    rw [cost]
    split
    · omega
    · omega
  have hfirst := hhalf (ids.take (ids.length / 2)) (by rw [List.length_take]; omega)
  have hsecond := hhalf (ids.drop (ids.length / 2)) (by rw [List.length_drop]; omega)
  rw [List.length_take] at hfirst
  rw [List.length_drop] at hsecond
  rw [show cost bad ids = 4 * ids.length - 2 from if_pos hbad]
  omega

/-- Marking a requested id leaves one request less. -/
theorem unmarked_mark {id : SourceId} (status : PermanentStatus) (hrequested : id ∈ c.requested) (hvalid : id ∉ c.invalid)
    (hbad : bad id = true) :
    unmarked bad { c with invalidIds := c.invalidIds ++ [(id, status)] } < c.unmarked bad := by
  have hsub : (c.requested.filter fun id' => bad id' &&
      decide (id' ∉ ({ c with invalidIds := c.invalidIds ++ [(id, status)] } : Channel).invalid)) =
      (c.requested.filter fun id' => bad id' && decide (id' ∉ c.invalid)).filter
        fun id' => decide (id' ≠ id) := by
    rw [List.filter_filter]
    refine List.filter_congr fun id' _ => ?_
    have hinvalid : id' ∈ ({ c with invalidIds := c.invalidIds ++ [(id, status)] } :
        Channel).invalid ↔ id' ∈ c.invalid ∨ id' = id := by simp [invalid]
    simp only [hinvalid]
    by_cases heq : id' = id
    · simp [heq]
    · simp [heq]
  rw [unmarked, unmarked]
  change (c.requested.filter fun id' => bad id' && decide (id' ∉
    ({ c with invalidIds := c.invalidIds ++ [(id, status)] } : Channel).invalid)).length < _
  rw [hsub]
  refine List.length_filter_lt_length_iff_exists.mpr ⟨id, ?_, by simp⟩
  simp [hrequested, hvalid, hbad]

theorem load_current {generation : Nat} (hgen : run.generation = generation) :
    load bad (batchesOf generation [run]) = cost bad run.ids := by
  simp [load, batchesOf, hgen]

/-- A refused batch with a bad id is worth more than what comes of it. -/
theorem Covers.weight_refuse (h : Covers c [run] [] synced) (hidle : c.Idle) (hids : c.ids = synced)
    (hgen : run.generation = c.generation) (hdivides : status.divides = true)
    (hbad : run.ids.any bad = true) :
    (c.refuse run status).Steady ∧ (c.refuse run status).weight bad + 2 ≤ c.weightWith bad [run] := by
  obtain ⟨hhandling, hsyncing⟩ := hidle
  by_cases hlong : 1 < run.ids.length
  · have hgoing := (h.sound run (by simp)).2.2 hgen
    have hcost := cost_halves hlong hbad
    rw [refuse, if_pos ⟨hdivides, hlong⟩]
    rw [start_start hgoing hgen]
    refine ⟨⟨fun _ => hhandling, fun run status heq => ?_, fun run status rest heq => ?_⟩, ?_⟩
    · rw [hhandling] at heq
      cases heq
    · rw [hhandling] at heq
      cases heq
    · simp only [Channel.weight, hhandling]
      change c.unmarked bad * (4 * c.requested.length + 3) + load bad (batchesOf c.generation
        ((c.runs ++ [_, _]) ++ [])) + (4 * c.syncing.flatten.length + c.syncing.length) + 2 ≤
        c.unmarked bad * (4 * c.requested.length + 3) +
        load bad (batchesOf c.generation (c.runs ++ [run])) +
        (4 * c.syncing.flatten.length + c.syncing.length)
      rw [List.append_nil, ← List.singleton_append (l := [_]), batchesOf_append, batchesOf_append,
        batchesOf_append, load_append, load_append, load_append]
      simp only [load_current, hgen]
      omega
  · obtain ⟨id, hone, hb⟩ := all_bad_of_short hlong hbad
    have hwatched : id ∈ c.ids := hids ▸ h.covered.subset (List.mem_append_left _
      (mem_watched.mpr ⟨run, by simp, hgen, by simp [hone]⟩))
    obtain ⟨hrequested, hvalid⟩ := mem_ids.mp hwatched
    have hasked : (c.subscribers.any fun s => decide (id ∈ s.ids)) = true := by
      obtain ⟨s, hs, hid⟩ := List.mem_flatMap.mp hrequested
      exact List.any_eq_true.mpr ⟨s, hs, decide_eq_true hid⟩
    have hless := unmarked_mark status hrequested hvalid hb
    have hcost : cost bad run.ids = 2 := by simp [cost, hone, hb]
    rw [refuse, if_neg (fun hcut => hlong hcut.2), hone, mark, if_neg hvalid]
    simp only
    rw [if_pos hasked]
    refine ⟨⟨fun hne => absurd hsyncing hne, fun run status heq => ?_,
      fun run status rest heq => ?_⟩, ?_⟩
    · cases heq
    · cases heq
      rfl
    · have hmul := Nat.mul_le_mul_right (4 * c.requested.length + 3) hless
      rw [Nat.succ_mul] at hmul
      change unmarked bad { c with invalidIds := c.invalidIds ++ [(id, status)] } *
        (4 * c.requested.length + 3) + load bad (batchesOf c.generation (c.runs ++ [])) +
        (4 * c.syncing.flatten.length + c.syncing.length) + (4 * c.requested.length + 2) + 2 ≤
        c.unmarked bad * (4 * c.requested.length + 3) +
        load bad (batchesOf c.generation (c.runs ++ [run])) +
        (4 * c.syncing.flatten.length + c.syncing.length)
      have hload : load bad (batchesOf c.generation (c.runs ++ [run])) =
          load bad (batchesOf c.generation c.runs) + 2 := by
        rw [batchesOf_append, load_append, load_current hgen, hcost]
      rw [hload, List.append_nil]
      omega

/-- Invalid ids that are asked for are kept. -/
theorem unmarked_prune : c.prune.unmarked bad = c.unmarked bad := by
  refine congrArg List.length (List.filter_congr fun id hid => ?_)
  have hinvalid : id ∈ c.prune.invalid ↔ id ∈ c.invalid := mem_invalid_prune hid
  simp only [hinvalid]

/-- The ids to be watched are no more than the requests. -/
theorem length_ids_le (c : Channel) : c.ids.length ≤ c.requested.length :=
  (List.subperm_of_subset (nodup_ids c) fun _ hid => (mem_ids.mp hid).1).length_le

/-- The `sync` at the end of the marking costs at most a new start of the streams. -/
theorem Covers.weight_sync (h : Covers c rest pending synced) (bad : SourceId → Bool)
    (hidle : c.Idle) :
    c.sync.Steady ∧ c.sync.weight bad ≤ c.weightWith bad [] + (4 * c.requested.length + 1) := by
  obtain ⟨hhandling, hsyncing⟩ := hidle
  obtain ⟨hsubs, hinvalid, hhandled⟩ := sync_frame c
  rw [hhandling] at hhandled
  refine ⟨⟨fun _ => hhandled, fun run status heq => ?_, fun run status rest heq => ?_⟩, ?_⟩
  · rw [hhandled] at heq
    cases heq
  · rw [hhandled] at heq
    cases heq
  · simp only [Channel.weight, hhandled]
    have hrequested : c.sync.requested = c.requested := by rw [requested, hsubs, requested]
    have hunmarked : c.sync.unmarked bad = c.unmarked bad := by
      rw [← unmarked_prune (c := c), unmarked, invalid, hrequested, hinvalid]
      rfl
    by_cases hkey : key c.ids = c.idsKey
    · rw [weightWith, hunmarked, hrequested, sync_of_eq hkey]
      exact Nat.le_add_right _ _
    · have hcovers := (h.sync_of_ne hkey (by rw [hsyncing]; rfl)).1
      have hcount := hcovers.covered.length_eq
      have hload : load bad (batchesOf c.sync.generation (c.sync.runs ++ [])) ≤
          4 * (watched c.sync.generation (c.sync.runs ++ rest)).length := by
        refine (load_batchesOf_le _ _).trans (Nat.mul_le_mul_left 4 ?_)
        simp [watched_append]
      have hids := length_ids_le c
      have hopen : c.sync.syncing.length ≤ 1 := by
        rcases syncing_sync c with heq | heq
        · simp [heq, hsyncing]
        · simp [heq, hsyncing]
      rw [List.length_append] at hcount
      rw [weightWith, weightWith, hunmarked, hrequested]
      omega

/-- A `sync` whose callbacks have returned is worth more than the streams it starts. -/
theorem Covers.weight_stream {outer : List (List SourceId)} (h : Covers c rest pending synced)
    (hhandling : c.handling = none) (hsyncing : c.syncing = ids :: outer) :
    (({ c with syncing := outer } : Channel).stream ids).Steady ∧
    (({ c with syncing := outer } : Channel).stream ids).weight bad < c.weight bad := by
  obtain ⟨hsubs, hinvalid, hhandled, hopen⟩ :=
    stream_frame ({ c with syncing := outer } : Channel) ids
  obtain ⟨started, serials, controller, controllers, hstream, hids, hstarted, -⟩ :=
    exists_stream ({ c with syncing := outer } : Channel) ids
  have hfresh : c.controllers ∉ c.aborted := fun hmem => Nat.lt_irrefl _ (h.made.1 _ hmem)
  have hnone : (({ c with syncing := outer } : Channel).stream ids).handling = none :=
    hhandled.trans hhandling
  refine ⟨⟨fun _ => hnone, fun run status heq => ?_, fun run status rest heq => ?_⟩, ?_⟩
  · rw [hnone] at heq
    cases heq
  · rw [hnone] at heq
    cases heq
  · have hload : load bad (batchesOf c.generation started) ≤ 4 * ids.length := by
      have hle : load bad (batchesOf c.generation started) ≤
          4 * (watched c.generation started).length := load_batchesOf_le c.generation started
      rwa [watched_all fun run hrun => (hstarted run hrun).2.1, hids hfresh] at hle
    rw [Channel.weight, hnone, hstream, Channel.weight, hhandling]
    change c.unmarked bad * (4 * c.requested.length + 3) +
      load bad (batchesOf c.generation ((c.runs ++ started) ++ [])) +
      (4 * outer.flatten.length + outer.length) < c.unmarked bad * (4 * c.requested.length + 3) +
      load bad (batchesOf c.generation (c.runs ++ [])) +
      (4 * c.syncing.flatten.length + c.syncing.length)
    rw [hsyncing, List.append_nil, List.append_nil, batchesOf_append, load_append,
      List.flatten_cons, List.length_append, List.length_cons]
    omega

/-- The step from a channel with runs in hand makes it lighter. -/
def Lightens (bad : SourceId → Bool) (c : Channel) (rest : List Run) (c' : Channel) : Prop :=
  c'.Steady ∧ c'.weight bad < c.weightWith bad rest

/-- An outcome for a run in hand: a current batch with a bad id is refused if it is answered, and
the channel gets lighter. -/
theorem Covers.take_steady {outcome : Outcome} (h : Covers c [run] [] synced) (hidle : c.Idle)
    (hids : c.ids = synced) (hanswers : ChannelEvent.Answers bad (.outcome run outcome)) :
    Lightens bad c [run] (c.take run outcome) ∨
    Keeps bad c [run] (c.take run outcome) ∧
      (outcome ≠ .failed → run.generation = c.generation → run.ids.any bad = false) := by
  cases outcome with
  | job sourceId =>
    refine .inr ⟨?_, fun _ _ => hanswers⟩
    by_cases hstale : c.Stale run
    · rw [show c.take run (.job sourceId) = c.finish run from if_pos hstale]
      exact keeps_finish hidle (h.old_of_stale hstale)
    · cases sourceId with
      | none =>
        rw [show c.take run (.job none) = c.resume run from if_neg hstale]
        exact keeps_resume _ hidle rfl rfl rfl
      | some id =>
        rw [take, if_neg hstale]
        split
        · exact keeps_pause hidle (.inl rfl) rfl rfl rfl
        · exact keeps_resume { run with retry := 0 } hidle rfl rfl rfl
  | ended => exact .inr ⟨h.keeps_delay hidle, fun _ _ => hanswers⟩
  | failed =>
    refine .inr ⟨?_, fun hne => absurd rfl hne⟩
    have hfailed := h.update { run with retry := run.retry + 1 } rfl rfl rfl
    rw [take]
    split
    · next hsignal => exact keeps_finish hidle (h.old_of_stale (.inl hsignal))
    · dsimp only
      split
      · split
        · exact keeps_pause hidle (.inr rfl) rfl rfl rfl
        · have hmarked : Covers (c.markRun run.serial true)
              [{ run with retry := run.retry + 1 }] [] synced :=
            ⟨hfailed.idsKey, hfailed.covered, hfailed.sound, hfailed.made⟩
          have hkept : Keeps bad (c.markRun run.serial true) [run] _ :=
            (hmarked.keeps_delay hidle).update rfl rfl rfl
          exact ⟨hkept.steady, hkept.weight, hkept.batches⟩
      · exact (hfailed.keeps_delay hidle).update rfl rfl rfl
  | refused status =>
    obtain ⟨hdivides, hbad⟩ := hanswers
    rw [take]
    split
    · next hsignal =>
      have hold := h.old_of_stale (.inl hsignal)
      exact .inr ⟨keeps_finish hidle hold, fun _ hgen => absurd hgen hold⟩
    · split
      · next hgen =>
        refine .inl ?_
        have hmarked : Covers (c.markRun run.serial false) [run] [] synced :=
          ⟨h.idsKey, h.covered, h.sound, h.made⟩
        have hpos : 0 < c.weightWith bad [run] := by
          have hweight := (h.weight_refuse hidle hids hgen hdivides hbad).2
          omega
        dsimp only
        split
        · refine ⟨⟨fun hne => absurd hidle.2 hne, fun run' status' heq => ?_,
            fun run' status' rest heq => ?_⟩, ?_⟩
          · cases heq
            exact hgen
          · cases heq
          · exact Nat.sub_lt hpos Nat.one_pos
        · obtain ⟨hsteady, hweight⟩ := hmarked.weight_refuse hidle hids hgen hdivides hbad
          exact ⟨hsteady, Nat.lt_of_lt_of_le (Nat.lt_add_of_pos_right Nat.two_pos) hweight⟩
      · next hgen =>
        have hfailed := h.update { run with retry := run.retry + 1 } rfl rfl rfl
        exact .inr ⟨(hfailed.keeps_delay hidle).update rfl rfl rfl, fun _ hcurrent => absurd hcurrent hgen⟩

/-- What the callbacks of a run are followed by. -/
theorem Balanced.proceed_steady {handling : Handling} (h : Balanced c synced) (hs : c.Steady)
    (ho : OnlyBad bad c) (hsyncing : c.syncing = []) (hhandling : c.handling = some handling) :
    (({ c with handling := none } : Channel).proceed handling).Steady ∧
    ((({ c with handling := none } : Channel).proceed handling).weight bad < c.weight bad ∨
      (({ c with handling := none } : Channel).proceed handling).weight bad = c.weight bad ∧
      (({ c with handling := none } : Channel).proceed handling).batches.Perm c.batches) := by
  have hcovers := h.resumed hsyncing hhandling
  have hids := h.ids_of_handling hhandling
  have hidle : ({ c with handling := none } : Channel).Idle := ⟨rfl, hsyncing⟩
  have hbatches : c.batches = batchesOf c.generation (c.runs ++ [handling.run]) := by
    rw [batches, handled, hhandling]
    rfl
  rw [hbatches]
  cases handling with
  | job run =>
    have hweight : c.weight bad = weightWith bad { c with handling := none } [run] := by
      rw [Channel.weight, hhandling]
      rfl
    have hkept : Keeps bad { c with handling := none } [run]
        (({ c with handling := none } : Channel).proceed (.job run)) :=
      keeps_resume { run with retry := 0 } hidle rfl rfl rfl
    exact ⟨hkept.steady, .inr ⟨hkept.weight.trans hweight.symm, hkept.batches⟩⟩
  | failed run =>
    have hweight : c.weight bad = weightWith bad { c with handling := none } [run] := by
      rw [Channel.weight, hhandling]
      rfl
    have hkept : Keeps bad { c with handling := none } [run]
        (({ c with handling := none } : Channel).proceed (.failed run)) := hcovers.keeps_delay hidle
    exact ⟨hkept.steady, .inr ⟨hkept.weight.trans hweight.symm, hkept.batches⟩⟩
  | refused run status =>
    obtain ⟨hdivides, hbad⟩ := ho.refused run status hhandling
    obtain ⟨hsteady, hless⟩ := hcovers.weight_refuse hidle (hids.resolve_right (by simp))
      (hs.refused run status hhandling) hdivides hbad
    have hweight : c.weight bad = weightWith bad { c with handling := none } [run] - 1 := by
      rw [Channel.weight, hhandling]
      rfl
    refine ⟨hsteady, .inl ?_⟩
    rw [Channel.proceed, hweight]
    exact Nat.lt_of_lt_of_le (Nat.lt_succ_self _) (Nat.le_sub_of_add_le hless)
  | marking run status rest =>
    obtain ⟨hsteady, hle⟩ := hcovers.weight_sync bad hidle
    have hweight : c.weight bad = weightWith bad { c with handling := none } [] +
        (4 * c.requested.length + 2) := by
      rw [Channel.weight, hhandling]
      rfl
    rw [hs.marking run status rest hhandling]
    refine ⟨hsteady, .inl ?_⟩
    rw [Channel.proceed, mark, hweight]
    exact Nat.lt_succ_of_le hle

/-- While the subscriptions are fixed an event makes the channel lighter, or it keeps the
batches and is no answer to one with a bad id. -/
theorem Balanced.step_steady {c' : Channel} {event : ChannelEvent} (h : Balanced c synced)
    (hs : c.Steady) (ho : OnlyBad bad c) (hfixed : event.Fixed) (hanswers : event.Answers bad)
    (hstep : c.step event = some c') :
    c'.Steady ∧ (c'.weight bad < c.weight bad ∨
      c'.weight bad = c.weight bad ∧ c'.batches.Perm c.batches ∧
      ∀ batch, batch.2.any bad = true → ¬c.Answered batch (some event)) := by
  have htaken : ∀ run, c.Idle → run ∈ c.runs →
      (batchesOf c.generation (c.runs.erase run ++ [run])).Perm c.batches ∧
      weightWith bad { c with runs := c.runs.erase run } [run] = c.weight bad := by
    intro run hidle hrun
    have hperm : (c.runs.erase run ++ [run]).Perm (c.runs ++ c.handled) := by
      rw [handled, hidle.1]
      refine (List.perm_append_singleton run _).trans ?_
      exact (List.perm_cons_erase hrun).symm.trans (.of_eq (List.append_nil _).symm)
    refine ⟨batchesOf_perm hperm, ?_⟩
    have hload : load bad (batchesOf c.generation (c.runs.erase run ++ [run])) =
        load bad (batchesOf c.generation (c.runs ++ c.handled)) := load_perm (batchesOf_perm hperm)
    rw [handled, hidle.1] at hload
    rw [Channel.weight, hidle.1]
    exact congrArg (fun n => c.unmarked bad * (4 * c.requested.length + 3) + n +
      (4 * c.syncing.flatten.length + c.syncing.length)) hload
  cases event with
  | subscribe subscriber => exact hfixed.elim
  | unsubscribe key => exact hfixed.elim
  | outcome run outcome =>
    rw [Channel.step] at hstep
    split at hstep
    · next hpossible =>
      cases hstep
      obtain ⟨hidle, hrun, -⟩ := hpossible
      obtain ⟨hbatches, hweight⟩ := htaken run hidle hrun
      rcases (h.taken hidle hrun).take_steady hidle (h.of_idle hidle).2 hanswers with
        ⟨hsteady, hless⟩ | ⟨hkept, hclean⟩
      · exact ⟨hsteady, .inl (hweight ▸ hless)⟩
      · refine ⟨hkept.steady, .inr ⟨hkept.weight.trans hweight, hkept.batches.trans hbatches, ?_⟩⟩
        rintro batch hbad ⟨run', outcome', heq, hne, hgen, rfl⟩
        cases heq
        rw [hclean hne hgen] at hbad
        cases hbad
    · cases hstep
  | timer run =>
    rw [Channel.step] at hstep
    split at hstep
    · next hpossible =>
      obtain ⟨hidle, hrun, -⟩ := hpossible
      obtain ⟨hbatches, hweight⟩ := htaken run hidle hrun
      have hkept : Keeps bad { c with runs := c.runs.erase run } [run] c' := by
        cases hstep
        split
        · next hstale =>
          exact keeps_finish hidle ((h.taken hidle hrun).old_of_stale hstale)
        · exact keeps_resume { run with waiting := false } hidle rfl rfl rfl
      refine ⟨hkept.steady, .inr ⟨hkept.weight.trans hweight, hkept.batches.trans hbatches, ?_⟩⟩
      rintro batch - ⟨run', outcome, heq, -⟩
      cases heq
    · cases hstep
  | callbacksReturn =>
    rw [Channel.step] at hstep
    split at hstep
    · next ids outer hsyncing =>
      cases hstep
      have hnone : c.handling = none := hs.syncing (by simp [hsyncing])
      obtain ⟨hsteady, hless⟩ := Covers.weight_stream h.covers hnone hsyncing
      exact ⟨hsteady, .inl hless⟩
    · next handling hsyncing hhandling =>
      cases hstep
      obtain ⟨hsteady, hcase⟩ := h.proceed_steady hs ho hsyncing hhandling
      refine ⟨hsteady, hcase.imp_right fun hkept => ⟨hkept.1, hkept.2, ?_⟩⟩
      rintro batch - ⟨run', outcome, heq, -⟩
      cases heq
    · cases hstep

/-- What holds while the subscriptions are fixed. -/
structure Isolating (bad : SourceId → Bool) (c : Channel) : Prop where
  balanced : ∃ synced, Balanced c synced
  steady : c.Steady
  onlyBad : OnlyBad bad c

theorem Undisturbed.of_fixed {event : ChannelEvent} (h : event.Fixed) : c.Undisturbed event := by
  cases event with
  | subscribe subscriber => exact h.elim
  | unsubscribe key => exact h.elim
  | outcome run outcome => trivial
  | timer run => trivial
  | callbacksReturn => trivial

/-- One moment of a channel with fixed subscriptions: it gets lighter, or it keeps its batches
and no batch with a bad id is answered. -/
theorem Unfolds.step {cs : Nat → Channel} {events : Nat → Option ChannelEvent}
    (h : Unfolds bad cs events) {n : Nat} (hc : Isolating bad (cs n)) :
    Isolating bad (cs (n + 1)) ∧ ((cs (n + 1)).weight bad < (cs n).weight bad ∨
      (cs (n + 1)).weight bad = (cs n).weight bad ∧ (cs (n + 1)).batches.Perm (cs n).batches ∧
      ∀ batch, batch.2.any bad = true → ¬(cs n).Answered batch (events n)) := by
  obtain ⟨⟨synced, hb⟩, hs, ho⟩ := hc
  cases hevent : events n with
  | none =>
    rw [h.pause n hevent]
    refine ⟨⟨⟨synced, hb⟩, hs, ho⟩, .inr ⟨rfl, .refl _, ?_⟩⟩
    rintro batch - ⟨run, outcome, heq, -⟩
    cases heq
  | some event =>
    obtain ⟨hfixed, hanswers, hstep⟩ := h.next n event hevent
    obtain ⟨hsteady, hcase⟩ := hb.step_steady hs ho hfixed hanswers hstep
    exact ⟨⟨hb.step (.of_fixed hfixed) hstep, hsteady, ho.step hanswers hstep⟩, hcase⟩

theorem Unfolds.isolating {cs : Nat → Channel} {events : Nat → Option ChannelEvent}
    (h : Unfolds bad cs events) (hc : Isolating bad (cs 0)) (n : Nat) : Isolating bad (cs n) := by
  induction n with
  | zero => exact hc
  | succ n ih => exact (h.step ih).1

/-- From some point on no batch has a bad id. -/
theorem Unfolds.isolated {cs : Nat → Channel} {events : Nat → Option ChannelEvent}
    (h : Unfolds bad cs events) (hc : Isolating bad (cs 0)) :
    ∃ n, ∀ m ≥ n, ∀ batch ∈ (cs m).batches, ∀ id ∈ batch.2, bad id = false := by
  have hall := h.isolating hc
  have hweight : Antitone fun n => (cs n).weight bad := antitone_nat_of_succ_le fun n =>
    (h.step (hall n)).2.elim Nat.le_of_lt fun hkept => Nat.le_of_eq hkept.1
  obtain ⟨n, hn⟩ := WellFoundedLT.antitone_chain_condition hweight
  refine ⟨n, fun m hm batch hbatch id hid => ?_⟩
  by_contra hbad
  have hany : batch.2.any bad = true :=
    List.any_eq_true.mpr ⟨id, hid, by simpa using hbad⟩
  have hkept : ∀ k ≥ n, (cs (k + 1)).batches.Perm (cs k).batches ∧
      ¬(cs k).Answered batch (events k) := by
    intro k hk
    have hequal : (cs (k + 1)).weight bad = (cs k).weight bad :=
      (hn (k + 1) (Nat.le_succ_of_le hk)).symm.trans (hn k hk)
    obtain ⟨-, hperm, hnone⟩ := (h.step (hall k)).2.resolve_left (by omega)
    exact ⟨hperm, hnone batch hany⟩
  have hremains : ∀ k, batch ∈ (cs (m + k)).batches := by
    intro k
    induction k with
    | zero => exact hbatch
    | succ k ih => exact (hkept (m + k) (by omega)).1.mem_iff.mpr ih
  obtain ⟨k, hk, hgone | hanswered⟩ := h.answered m batch hbatch hany
  · have hstill := hremains (k - m)
    rw [Nat.add_sub_cancel' hk] at hstill
    exact hgone hstill
  · exact (hkept k (by omega)).2 hanswered

/-- In every run that disturbs no `sync` the channel watches between operations exactly the
requested ids that are not invalid. Against a server that refuses exactly the batches with a bad
id only bad ids are marked, and when the subscriptions stay fixed every batch is free of bad ids
after finitely many answers. -/
theorem channel_watches_exactly (bad : SourceId → Bool) :
    (∀ c, RunOf Channel.step Undisturbed .new c → c.Idle → c.WatchesExactly) ∧
    (∀ c, RunOf Channel.step (fun _ event => event.Answers bad) .new c →
      ∀ id ∈ c.invalid, bad id = true) ∧
    ∀ (cs : Nat → Channel) (events : Nat → Option ChannelEvent),
      RunOf Channel.step (fun c event => c.Undisturbed event ∧ event.Answers bad) .new (cs 0) →
      (cs 0).Idle → Unfolds bad cs events →
      ∃ n, ∀ m ≥ n, ∀ batch ∈ (cs m).batches, ∀ id ∈ batch.2, bad id = false := by
  refine ⟨fun c h hidle => watchesExactly_of_run h hidle, fun c h => (onlyBad_of_run h).invalid,
    fun cs events h hidle hunfolds => ?_⟩
  have hbalanced : ∃ synced, Balanced (cs 0) synced :=
    h.invariant (P := fun c => ∃ synced, Balanced c synced)
      (fun c event c' hb hok hstep => hb.elim fun synced hb => hb.step hok.1 hstep)
      ⟨[], balanced_new⟩
  have honly : OnlyBad bad (cs 0) :=
    h.invariant (fun _ _ _ hc hok hstep => hc.step hok.2 hstep)
      (onlyBad_of_none (by simp [new, invalid]) rfl)
  refine hunfolds.isolated ⟨hbalanced, ⟨fun hne => absurd hidle.2 hne, ?_, ?_⟩, honly⟩
  · intro run status heq
    rw [hidle.1] at heq
    cases heq
  · intro run status rest heq
    rw [hidle.1] at heq
    cases heq

/-- A view asks for a bad id, whose stream is refused. -/
def refusal : List ChannelEvent :=
  [.subscribe ⟨0, [firstId]⟩, .outcome ⟨0, [firstId], 0, 1, 0, false⟩ (.refused .notFound),
    .callbacksReturn]

/-- The channel after the given number of events of the refusal. -/
def refusedAfter (n : Nat) : Channel := (replay Channel.step .new (refusal.take n)).getD .new

/-- From the third event on nothing happens. -/
theorem refusedAfter_late (n : Nat) : refusedAfter (n + 3) = refusedAfter 3 := by
  have htake : refusal.take (n + 3) = refusal := List.take_of_length_le (Nat.le_add_left 3 n)
  rw [refusedAfter, htake]
  rfl

/-- The channel watches the bad id, then marks it, and then streams nothing. -/
theorem channel_watches_exactly_refusal :
    (refusedAfter 1).WatchesExactly ∧
    (∀ id ∈ (refusedAfter 3).invalid, decide (id = firstId) = true) ∧
    ∃ n, ∀ m ≥ n, ∀ batch ∈ (refusedAfter (m + 1)).batches, ∀ id ∈ batch.2,
      decide (id = firstId) = false := by
  obtain ⟨hwatches, honly, hisolated⟩ := channel_watches_exactly fun id => decide (id = firstId)
  have hsubscribed : Channel.step .new (.subscribe ⟨0, [firstId]⟩) = some (refusedAfter 1) := by
    decide +kernel
  have hcalm : Undisturbed .new (.subscribe ⟨0, [firstId]⟩) := by
    rintro ⟨ids, hids, -⟩
    cases hids
  have hanswers : ∀ c : Channel, ∀ event ∈ refusal,
      event.Answers fun id => decide (id = firstId) := by
    simp [refusal, ChannelEvent.Answers, PermanentStatus.divides]
  have hreplay : replay Channel.step .new refusal = some (refusedAfter 3) := by decide +kernel
  refine ⟨hwatches _ (.single ⟨_, hcalm, hsubscribed⟩) (by decide +kernel),
    honly _ (runOf_replay hanswers hreplay), ?_⟩
  refine hisolated (fun n => refusedAfter (n + 1)) (fun n => refusal[n + 1]?)
    (.single ⟨_, ⟨hcalm, trivial⟩, hsubscribed⟩) (by decide +kernel) ⟨?_, ?_, ?_⟩
  · intro n event hevent
    have hmem : event ∈ refusal := List.mem_of_getElem? hevent
    rcases n with _ | _ | n
    · cases hevent
      exact ⟨trivial, hanswers .new _ hmem, by decide +kernel⟩
    · cases hevent
      exact ⟨trivial, hanswers .new _ hmem, by decide +kernel⟩
    · cases hevent
  · intro n hnone
    rcases n with _ | _ | n
    · cases hnone
    · cases hnone
    · rw [refusedAfter_late n, refusedAfter_late (n + 1)]
  · intro n batch hbatch hbad
    rcases n with _ | n
    · refine ⟨0, Nat.le_refl _, .inr ⟨⟨0, [firstId], 0, 1, 0, false⟩, .refused .notFound, rfl,
        by decide, by decide +kernel, ?_⟩⟩
      have hone : (refusedAfter 1).batches = [(0, [firstId])] := by decide +kernel
      exact (List.mem_singleton.mp (hone ▸ hbatch)).symm
    · have hempty : (refusedAfter (n + 3)).batches = [] := by
        rw [refusedAfter_late]
        decide +kernel
      exact ⟨n + 2, by omega, .inl (by simp [hempty])⟩

end Channel

end Maeglagi.Events
