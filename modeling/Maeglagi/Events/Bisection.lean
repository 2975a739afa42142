import Maeglagi.Events.Undisturbed

/-!
# Only bad ids are marked

Against a server that refuses, with a status about ids, exactly the batches that contain a bad
id, a channel marks only bad ids, whatever its subscribers do.
-/

namespace Maeglagi.Events

open Core

/-- The server answers 404 or 422 exactly to batches with a bad id, and never 401 or 403. -/
def ChannelEvent.Answers (bad : SourceId → Bool) : ChannelEvent → Prop
  | .outcome run (.refused status) => status.divides = true ∧ run.ids.any bad = true
  | .outcome run (.job _) => run.ids.any bad = false
  | .outcome run .ended => run.ids.any bad = false
  | _ => True

namespace Channel

variable {bad : SourceId → Bool} {c : Channel} {run : Run} {status : PermanentStatus}
  {ids : List SourceId}

/-- Only bad ids are marked, or are about to be. -/
structure OnlyBad (bad : SourceId → Bool) (c : Channel) : Prop where
  invalid : ∀ id ∈ c.invalid, bad id = true
  refused : ∀ run status, c.handling = some (.refused run status) →
    status.divides = true ∧ run.ids.any bad = true
  marking : ∀ run status rest, c.handling = some (.marking run status rest) →
    ∀ id ∈ rest, bad id = true

theorem onlyBad_of_none (hinvalid : ∀ id ∈ c.invalid, bad id = true) (hnone : c.handling = none) :
    OnlyBad bad c := by
  refine ⟨hinvalid, fun run status heq => ?_, fun run status rest heq => ?_⟩
  · rw [hnone] at heq
    cases heq
  · rw [hnone] at heq
    cases heq

/-- Invalid ids are only forgotten by `sync`. -/
theorem mem_invalid_of_sync {id : SourceId} (h : id ∈ c.sync.invalid) : id ∈ c.invalid := by
  rw [invalid, (sync_frame c).2.1] at h
  obtain ⟨entry, hentry, rfl⟩ := List.mem_map.mp h
  exact List.mem_map_of_mem (List.mem_filter.mp hentry).1

theorem OnlyBad.sync (h : OnlyBad bad c) : OnlyBad bad c.sync := by
  have hhandling := (sync_frame c).2.2
  refine ⟨fun id hid => h.invalid id (mem_invalid_of_sync hid), ?_, ?_⟩
  · rw [hhandling]
    exact h.refused
  · rw [hhandling]
    exact h.marking

theorem onlyBad_mark (hinvalid : ∀ id ∈ c.invalid, bad id = true) (hnone : c.handling = none)
    (hids : ∀ id ∈ ids, bad id = true) : OnlyBad bad (c.mark run status ids) := by
  induction ids generalizing c with
  | nil => exact (onlyBad_of_none hinvalid hnone).sync
  | cons id ids ih =>
    obtain ⟨hid, hids⟩ := List.forall_mem_cons.mp hids
    rw [mark]
    split
    · exact ih hinvalid hnone hids
    · have hmarked : ∀ id' ∈ invalid { c with invalidIds := c.invalidIds ++ [(id, status)] },
          bad id' = true := by
        intro id' hid'
        rw [invalid, List.map_append, List.mem_append] at hid'
        rcases hid' with hid' | hid'
        · exact hinvalid id' hid'
        · rw [List.mem_singleton.mp hid']
          exact hid
      dsimp only
      split
      · refine ⟨hmarked, fun run status heq => ?_, fun run status rest heq => ?_⟩
        · cases heq
        · cases heq
          exact hids
      · exact ih hmarked hnone hids

/-- A refused batch of one id has a bad id only. -/
theorem all_bad_of_short (hids : ¬1 < ids.length) (hbad : ids.any bad = true) :
    ∃ id, ids = [id] ∧ bad id = true := by
  obtain ⟨id, hid, hb⟩ := List.any_eq_true.mp hbad
  have hone : ids.length = 1 := by
    have hpos := List.length_pos_of_mem hid
    omega
  obtain ⟨id', rfl⟩ := List.length_eq_one_iff.mp hone
  rw [List.mem_singleton.mp hid] at hb
  exact ⟨id', rfl, hb⟩

theorem onlyBad_refuse (hinvalid : ∀ id ∈ c.invalid, bad id = true) (hnone : c.handling = none)
    (hdivides : status.divides = true) (hbad : run.ids.any bad = true) :
    OnlyBad bad (c.refuse run status) := by
  rw [refuse]
  split
  · refine onlyBad_of_none (fun id hid => hinvalid id ?_) ?_
    · simpa only [invalid, start_frame] using hid
    · simpa only [start_frame] using hnone
  · next hcut =>
    refine onlyBad_mark hinvalid hnone fun id hid => ?_
    obtain ⟨only, hids, hb⟩ := all_bad_of_short (fun hlong => hcut ⟨hdivides, hlong⟩) hbad
    rw [hids, List.mem_singleton] at hid
    exact hid ▸ hb

theorem onlyBad_finish (hinvalid : ∀ id ∈ c.invalid, bad id = true) (hnone : c.handling = none) :
    OnlyBad bad (c.finish run) := by
  rw [finish]
  split
  · exact onlyBad_of_none hinvalid hnone
  · exact onlyBad_of_none hinvalid hnone

theorem onlyBad_delay (hinvalid : ∀ id ∈ c.invalid, bad id = true) (hnone : c.handling = none) :
    OnlyBad bad (c.delay run) := by
  rw [delay]
  split
  · exact onlyBad_finish hinvalid hnone
  · exact onlyBad_of_none hinvalid hnone

theorem OnlyBad.proceed {handling : Handling} (h : OnlyBad bad c)
    (hhandling : c.handling = some handling) :
    OnlyBad bad (({ c with handling := none } : Channel).proceed handling) := by
  cases handling with
  | job run => exact onlyBad_of_none h.invalid rfl
  | failed run => exact onlyBad_delay h.invalid rfl
  | refused run status =>
    obtain ⟨hdivides, hbad⟩ := h.refused run status hhandling
    exact onlyBad_refuse h.invalid rfl hdivides hbad
  | marking run status rest =>
    exact onlyBad_mark h.invalid rfl (h.marking run status rest hhandling)

theorem onlyBad_pause {handling : Handling} (hinvalid : ∀ id ∈ c.invalid, bad id = true)
    (hrefused : ∀ run status, handling = .refused run status →
      status.divides = true ∧ run.ids.any bad = true)
    (hmarking : ∀ run status rest, handling ≠ .marking run status rest) :
    OnlyBad bad { c with handling := some handling } :=
  ⟨hinvalid, fun run status heq => hrefused run status (Option.some.inj heq),
    fun run status rest heq => absurd (Option.some.inj heq) (hmarking run status rest)⟩

theorem onlyBad_take {outcome : Outcome} (hinvalid : ∀ id ∈ c.invalid, bad id = true)
    (hnone : c.handling = none) (hanswers : ChannelEvent.Answers bad (.outcome run outcome)) :
    OnlyBad bad (c.take run outcome) := by
  cases outcome with
  | job sourceId =>
    by_cases hstale : c.Stale run
    · rw [show c.take run (.job sourceId) = c.finish run from if_pos hstale]
      exact onlyBad_finish hinvalid hnone
    · cases sourceId with
      | none =>
        rw [show c.take run (.job none) = c.resume run from if_neg hstale]
        exact onlyBad_of_none hinvalid hnone
      | some id =>
        rw [take, if_neg hstale]
        split
        · exact onlyBad_pause hinvalid (by simp) (by simp)
        · exact onlyBad_of_none hinvalid hnone
  | ended => exact onlyBad_delay hinvalid hnone
  | failed =>
    rw [take]
    split
    · exact onlyBad_finish hinvalid hnone
    · dsimp only
      split
      · split
        · exact onlyBad_pause (c := c.markRun run.serial true) hinvalid (by simp) (by simp)
        · exact onlyBad_delay (c := c.markRun run.serial true) hinvalid hnone
      · exact onlyBad_delay hinvalid hnone
  | refused status =>
    obtain ⟨hdivides, hbad⟩ := hanswers
    rw [take]
    split
    · exact onlyBad_finish hinvalid hnone
    · split
      · dsimp only
        split
        · refine onlyBad_pause (c := c.markRun run.serial false) hinvalid ?_ (by simp)
          rintro run' status' ⟨⟩
          exact ⟨hdivides, hbad⟩
        · exact onlyBad_refuse (c := c.markRun run.serial false) hinvalid hnone hdivides hbad
      · exact onlyBad_delay hinvalid hnone

/-- Whatever the subscribers do, an event that obeys the server's rule marks only bad ids. -/
theorem OnlyBad.step {c' : Channel} {event : ChannelEvent} (h : OnlyBad bad c)
    (hanswers : event.Answers bad) (hstep : c.step event = some c') : OnlyBad bad c' := by
  cases event with
  | subscribe subscriber =>
    cases hstep
    have hadd : OnlyBad bad (c.add subscriber) := by
      rw [add]
      split
      · exact h
      · exact ⟨h.invalid, h.refused, h.marking⟩
    exact hadd.sync
  | unsubscribe key =>
    cases hstep
    exact OnlyBad.sync (c := c.delete key) ⟨h.invalid, h.refused, h.marking⟩
  | outcome run outcome =>
    rw [Channel.step] at hstep
    split at hstep
    · next hpossible =>
      cases hstep
      exact onlyBad_take h.invalid hpossible.1.1 hanswers
    · cases hstep
  | timer run =>
    rw [Channel.step] at hstep
    split at hstep
    · next hpossible =>
      cases hstep
      split
      · exact onlyBad_finish h.invalid hpossible.1.1
      · exact onlyBad_of_none h.invalid hpossible.1.1
    · cases hstep
  | callbacksReturn =>
    rw [Channel.step] at hstep
    split at hstep
    · next ids outer hsyncing =>
      cases hstep
      obtain ⟨-, hinvalid, hhandling, -⟩ := stream_frame ({ c with syncing := outer } : Channel) ids
      have hsame : (({ c with syncing := outer } : Channel).stream ids).invalid = c.invalid :=
        congrArg (List.map Prod.fst) hinvalid
      refine ⟨fun id hid => h.invalid id (hsame ▸ hid), ?_, ?_⟩
      · rw [hhandling]
        exact h.refused
      · rw [hhandling]
        exact h.marking
    · next handling hsyncing hhandling =>
      cases hstep
      exact h.proceed hhandling
    · cases hstep

/-- Against such a server only bad ids are ever marked. -/
theorem onlyBad_of_run (h : RunOf Channel.step (fun _ event => event.Answers bad) .new c) :
    OnlyBad bad c :=
  h.invariant (fun _ _ _ hc hanswers hstep => hc.step hanswers hstep)
    (onlyBad_of_none (by simp [new, invalid]) rfl)

end Channel

end Maeglagi.Events
