import Mathlib.Data.List.TakeWhile
import Maeglagi.Snapshot.Saga

/-!
# What a failed restore leaves

The cleanup runs only while the target row is not committed. It leaves something without a
word in two ways: an object whose upload raised something else than a transport error, and
anything whose deletion failed when the rollback after it fails too.
-/

namespace Maeglagi.Snapshot

variable {Id : Type} [DecidableEq Id] {sched : Schedule Id} {sources : List Id}

omit [DecidableEq Id] in
/-- The uploads note and store what the schedule says. -/
theorem upload_eq (a : Attempt Id) : a.upload sched sources =
    ({ a with
        objects := a.objects ++ sched.stored sources
        paths := a.paths ++ sched.noted sources }, (sched.raising sources).isNone) := by
  induction sources generalizing a with
  | nil => simp [Attempt.upload, Schedule.stored, Schedule.noted, Schedule.uploaded,
      Schedule.raising]
  | cons s rest ih =>
    unfold Attempt.upload
    by_cases hok : sched.upload s = .ok
    · have hraising : sched.raising (s :: rest) = sched.raising rest := by
        simp [Schedule.raising, hok]
      have huploaded : sched.uploaded (s :: rest) = s :: sched.uploaded rest := by
        simp [Schedule.uploaded, hok]
      simp [hok, ih, Schedule.stored, Schedule.noted, hraising, huploaded, Upload.effective,
        Upload.noted]
    · have hraising : sched.raising (s :: rest) = some s := by
        simp [Schedule.raising, hok]
      have huploaded : sched.uploaded (s :: rest) = [] := by
        simp [Schedule.uploaded, hok]
      cases heffective : (sched.upload s).effective <;> cases hnoted : (sched.upload s).noted <;>
        simp [hok, Schedule.stored, Schedule.noted, hraising, huploaded, heffective, hnoted,
          Option.filter]

/-- The attempt that the `try` block leaves when it ends before the commit of the rows or at
it. -/
def attempted (sched : Schedule Id) (sources : List Id) : Attempt Id where
  objects := if sched.uploads then sched.stored sources else []
  graph := sched.reachesGraph sources && sched.graphCommit.effective
  paths := if sched.uploads then sched.noted sources else []
  graphCreated := sched.reachesGraph sources
  cleanups := []

omit [DecidableEq Id] in
theorem body_eq (h : sched.targetExists = some false) :
    Attempt.body sched sources = (attempted sched sources, sched.reachesCommit sources) := by
  have huploads : sched.uploads =
      (sched.reserveRow && decide (sched.graphIsEmpty = some true)) := by
    simp [Schedule.uploads, h]
  unfold Attempt.body attempted
  by_cases hrow : sched.reserveRow = true
  swap
  · simp [Schedule.reachesCommit, Schedule.reachesGraph, huploads, hrow, Attempt.start]
  by_cases hempty : sched.graphIsEmpty = some true
  swap
  · simp [Schedule.reachesCommit, Schedule.reachesGraph, huploads, hempty, Attempt.start]
  have hstart : sched.uploads = true := by simp [huploads, hrow, hempty]
  rw [if_pos hrow, if_pos hempty, upload_eq]
  by_cases hraising : (sched.raising sources).isNone = true
  · by_cases hstatements : sched.graphStatements = true
    · simp [Schedule.reachesCommit, Schedule.reachesGraph, hstart, hraising, hstatements,
        Attempt.start]
    · simp [Schedule.reachesCommit, Schedule.reachesGraph, hstart, hraising, hstatements,
        Attempt.start]
  · simp [Schedule.reachesCommit, Schedule.reachesGraph, hstart, hraising, Attempt.start]

/-- A cleanup reports nothing exactly when no deletion raises. -/
theorem cleanup_errors (b : Bool) :
    ((attempted sched sources).cleanup sched b).2 = [] ↔ ¬ sched.DeletionRaises sources := by
  simp only [Attempt.cleanup, List.append_eq_nil_iff, List.map_eq_nil_iff, List.filter_eq_nil_iff,
    decide_eq_true_eq, Schedule.DeletionRaises, attempted]
  by_cases huploads : sched.uploads = true
  · by_cases hgraph : sched.reachesGraph sources = true
    · simp [huploads, hgraph, and_comm]
    · simp [huploads, hgraph]
  · have hgraph : sched.reachesGraph sources = false := by simp [Schedule.reachesGraph, huploads]
    simp [huploads, hgraph]

omit [DecidableEq Id] in
/-- An object that is stored without its path being noted. -/
theorem unnoted_iff : sched.Unnoted sources ↔
    sched.uploads = true ∧ ∃ o ∈ sched.stored sources, o ∉ sched.noted sources := by
  refine and_congr_right fun _ => ⟨?_, ?_⟩
  · rintro ⟨s, hs, hupload⟩
    have hnot : s ∉ sched.uploaded sources := by
      intro hmem
      have := List.mem_takeWhile_imp hmem
      simp [hupload] at this
    refine ⟨s, ?_, ?_⟩
    · simp [Schedule.stored, hs, hupload, Upload.effective]
    · simp [Schedule.noted, hs, hupload, Upload.noted, hnot, Option.filter]
  · rintro ⟨o, hstored, hnoted⟩
    rw [Schedule.stored, List.mem_append] at hstored
    rw [Schedule.noted, List.mem_append, not_or] at hnoted
    obtain hstored := hstored.resolve_left hnoted.1
    obtain ⟨hraising, heffective⟩ := Option.filter_eq_some_iff.mp (Option.mem_toList.mp hstored)
    refine ⟨o, hraising, ?_⟩
    have hsilent : (sched.upload o).noted = false := by
      by_contra hne
      rw [Bool.not_eq_false] at hne
      exact hnoted.2 (Option.mem_toList.mpr (Option.filter_eq_some_iff.mpr ⟨hraising, hne⟩))
    cases hupload : sched.upload o with
    | ok => simp [hupload, Upload.noted] at hsilent
    | raised transport effect =>
      rw [hupload] at hsilent heffective
      obtain rfl : transport = false := hsilent
      obtain rfl : effect = true := heffective
      rfl

/-- A cleanup leaves nothing exactly when every object is noted and every deletion works. -/
theorem cleanup_clean (b : Bool) :
    ((attempted sched sources).cleanup sched b).1.graph = false ∧
        ((attempted sched sources).cleanup sched b).1.objects = [] ↔
      ¬ sched.Unnoted sources ∧ ¬ sched.Undeleted sources := by
  have hreply : ∀ r : Reply, r.effective = true ↔ r ≠ .raised false := by
    intro r
    cases r with
    | ok => simp [Reply.effective]
    | raised effect => cases effect <;> simp [Reply.effective]
  have hgraph : ((attempted sched sources).cleanup sched b).1.graph = false ↔
      ¬ (sched.reachesGraph sources = true ∧ sched.graphCommit.effective = true ∧
        sched.deleteGraph = .raised false) := by
    have hdelete := hreply sched.deleteGraph
    simp only [Attempt.cleanup, attempted]
    cases sched.reachesGraph sources <;> cases sched.graphCommit.effective <;>
      cases hd : sched.deleteGraph.effective <;> simp_all
  have hobjects : ((attempted sched sources).cleanup sched b).1.objects = [] ↔
      (sched.uploads = true → ∀ o ∈ sched.stored sources,
        o ∈ sched.noted sources ∧ sched.delete o ≠ .raised false) := by
    simp only [Attempt.cleanup, attempted, List.filter_eq_nil_iff]
    by_cases huploads : sched.uploads = true
    · simp [huploads, hreply]
    · simp [huploads]
  rw [hgraph, hobjects, unnoted_iff, Schedule.Undeleted]
  by_cases huploads : sched.uploads = true
  · simp only [huploads, true_and, true_implies, not_or, not_exists, not_and]
    constructor
    · rintro ⟨hg, ho⟩
      exact ⟨fun o hstored hnot => hnot (ho o hstored).1,
        fun o _ hstored hraised => (ho o hstored).2 hraised, hg⟩
    · rintro ⟨hnoted, hdeleted, hg⟩
      refine ⟨hg, fun o hstored => ?_⟩
      have hmem : o ∈ sched.noted sources := not_not.mp (hnoted o hstored)
      exact ⟨hmem, hdeleted o hmem hstored⟩
  · have hnone : sched.reachesGraph sources = false := by simp [Schedule.reachesGraph, huploads]
    simp [huploads, hnone]

omit [DecidableEq Id] in
/-- What stays is not deleted, so a deletion raised. -/
theorem deletionRaises_of_undeleted (h : sched.Undeleted sources) :
    sched.DeletionRaises sources := by
  obtain ⟨huploads, ⟨p, hp, -, hraised⟩ | ⟨hgraph, -, hraised⟩⟩ := h
  · exact ⟨huploads, Or.inl ⟨p, hp, by rw [hraised]; exact Reply.noConfusion⟩⟩
  · exact ⟨huploads, Or.inr ⟨hgraph, by rw [hraised]; exact Reply.noConfusion⟩⟩

/-- When a cleanup followed by a rollback is honest. -/
theorem honest_cleanup_iff (b rolledBack : Bool) :
    Honest (((attempted sched sources).cleanup sched b).1,
        Attempt.reported ((attempted sched sources).cleanup sched b).2 rolledBack) ↔
      ¬ (sched.Unnoted sources ∧ ¬ sched.DeletionRaises sources ∨
        rolledBack = false ∧ (sched.Unnoted sources ∨ sched.Undeleted sources)) := by
  have hund : sched.Undeleted sources → sched.DeletionRaises sources := deletionRaises_of_undeleted
  unfold Honest Attempt.reported
  dsimp only
  rw [cleanup_clean]
  cases rolledBack with
  | false =>
    have hiff : (∀ e, Outcome.raised Raised.database = .raised e → e.reports = false →
        ¬ sched.Unnoted sources ∧ ¬ sched.Undeleted sources) ↔
          ¬ sched.Unnoted sources ∧ ¬ sched.Undeleted sources := by
      refine ⟨fun h => h _ rfl rfl, fun h _ _ _ => h⟩
    simp only [Bool.false_eq_true, if_false, hiff]
    tauto
  | true =>
    by_cases hraises : sched.DeletionRaises sources
    · have herrors : ((attempted sched sources).cleanup sched b).2 ≠ [] := fun h =>
        (cleanup_errors b).mp h hraises
      simp only [if_true, if_neg herrors, hraises, not_true, and_false, false_and, Bool.true_eq_false,
        or_self, not_false_iff, iff_true]
      rintro e ⟨⟩ hreports
      cases hreports
    · have herrors : ((attempted sched sources).cleanup sched b).2 = [] :=
        (cleanup_errors b).mpr hraises
      have hiff : (∀ e, Outcome.raised Raised.original = .raised e → e.reports = false →
          ¬ sched.Unnoted sources ∧ ¬ sched.Undeleted sources) ↔
            ¬ sched.Unnoted sources ∧ ¬ sched.Undeleted sources := by
        refine ⟨fun h => h _ rfl rfl, fun h _ _ _ => h⟩
      simp only [if_true, if_pos herrors, hiff]
      tauto

variable (sched sources) in
/-- The handler after a commit that raised. -/
theorem recover_eq (lands : Option Nat) :
    (∃ o, (attempted sched sources).recover sched lands = (attempted sched sources, o) ∧
        (o = .returned ∨ o = .raised .commitUncertain) ∧
        ¬ (lands = none ∧ sched.rollback = true ∧ sched.verify = true ∧
          sched.reserveAbsent = true)) ∨
      (lands = none ∧ sched.rollback = true ∧ sched.verify = true ∧ sched.reserveAbsent = true ∧
        (attempted sched sources).recover sched lands =
          (((attempted sched sources).cleanup sched false).1,
            Attempt.reported ((attempted sched sources).cleanup sched false).2 sched.release)) := by
  unfold Attempt.recover
  by_cases hrollback : sched.rollback = true
  swap
  · simp [hrollback]
  by_cases hverify : sched.verify = true
  swap
  · simp [hrollback, hverify]
  by_cases hreserve : sched.reserveAbsent = true
  · cases lands with
    | none =>
      right
      simp [hrollback, hverify, hreserve, Attempt.visible]
    | some k =>
      left
      by_cases hk : Attempt.visible (some k) 0 = true
      · simp [hrollback, hverify, hk]
      · by_cases hagain : (sched.verifyAgain && Attempt.visible (some k) 2) = true
        · simp [hrollback, hverify, hk, hagain]
        · simp [hrollback, hverify, hk, hagain]
  · left
    by_cases hk : Attempt.visible lands 0 = true
    · simp [hrollback, hverify, hreserve, hk]
    · by_cases hagain : (sched.verifyAgain && Attempt.visible lands 2) = true
      · simp [hrollback, hverify, hreserve, hk, hagain]
      · simp [hrollback, hverify, hreserve, hk, hagain]

omit [DecidableEq Id] in
/-- An end that says that something may be left, or raises nothing, is honest. -/
theorem honest_of_reports {a : Attempt Id} {o : Outcome}
    (h : ∀ e, o = .raised e → e.reports = true) : Honest (a, o) := by
  intro e he hreports
  rw [h e he] at hreports
  cases hreports

/-- A cleanup never runs while the target row is committed. -/
theorem cleanups_uncommitted (sched : Schedule Id) (sources : List Id) :
    ∀ b ∈ (restoreSnapshot sched sources).1.cleanups, b = false := by
  unfold restoreSnapshot
  cases htarget : sched.targetExists with
  | none => rintro b ⟨⟩
  | some found =>
    cases found with
    | true => rintro b ⟨⟩
    | false =>
      dsimp only
      rw [body_eq htarget]
      dsimp only
      by_cases hreached : sched.reachesCommit sources = true
      · rw [if_pos hreached]
        cases sched.commit with
        | ok => rintro b ⟨⟩
        | raised lands =>
          dsimp only
          obtain ⟨o, hrecover, -⟩ | ⟨-, -, -, -, hrecover⟩ :=
            recover_eq sched sources lands
          · rw [hrecover]
            rintro b ⟨⟩
          · rw [hrecover]
            intro b hb
            exact List.mem_singleton.mp hb
      · rw [if_neg hreached]
        intro b hb
        exact List.mem_singleton.mp hb

/-- A cleanup never runs while the target row is committed; and a restore that raises without
saying that something may be left leaves nothing, but in the two silent ways. -/
theorem restore_honest_iff (sched : Schedule Id) (sources : List Id) :
    (∀ b ∈ (restoreSnapshot sched sources).1.cleanups, b = false) ∧
      (Honest (restoreSnapshot sched sources) ↔ ¬ sched.Silent sources) := by
  refine ⟨cleanups_uncommitted sched sources, ?_⟩
  unfold restoreSnapshot
  cases htarget : sched.targetExists with
  | none =>
    have hsilent : ¬ sched.Silent sources := fun h => by simp [h.1.1] at htarget
    exact iff_of_true (fun _ _ _ => ⟨rfl, rfl⟩) hsilent
  | some found =>
    cases found with
    | true =>
      have hsilent : ¬ sched.Silent sources := fun h => by simp [h.1.1] at htarget
      exact iff_of_true (fun _ _ _ => ⟨rfl, rfl⟩) hsilent
    | false =>
      dsimp only
      rw [body_eq htarget]
      dsimp only
      by_cases hreached : sched.reachesCommit sources = true
      swap
      · -- a call before the commit raised
        rw [if_neg hreached, honest_cleanup_iff]
        rw [Bool.not_eq_true] at hreached
        simp [Schedule.Silent, Schedule.CleansUp, Schedule.RollbackRaises, htarget, hreached]
      rw [if_pos hreached]
      cases hcommit : sched.commit with
      | ok =>
        dsimp only
        refine iff_of_true (honest_of_reports fun e he => ?_) fun h => ?_
        · split_ifs at he
          cases he
          rfl
        · rcases h.1.2 with hnot | ⟨hraised, -⟩
          · rw [hreached] at hnot
            cases hnot
          · rw [hcommit] at hraised
            cases hraised
      | raised lands =>
        dsimp only
        obtain ⟨o, hrecover, ho, hnot⟩ | ⟨rfl, hrollback, hverify, hreserve, hrecover⟩ :=
          recover_eq sched sources lands
        · rw [hrecover]
          refine iff_of_true (honest_of_reports fun e he => ?_) fun h => ?_
          · rcases ho with rfl | rfl
            · cases he
            · cases he
              rfl
          · rcases h.1.2 with hfail | ⟨hraised, hrest⟩
            · rw [hreached] at hfail
              cases hfail
            · rw [hcommit] at hraised
              cases hraised
              exact hnot ⟨rfl, hrest⟩
        · rw [hrecover, honest_cleanup_iff]
          simp [Schedule.Silent, Schedule.CleansUp, Schedule.RollbackRaises, htarget, hreached,
            hcommit, hrollback, hverify, hreserve]

/-- A schedule in which every call returns. -/
def Schedule.smooth : Schedule Nat where
  targetExists := some false
  reserveRow := true
  graphIsEmpty := some true
  upload _ := .ok
  graphStatements := true
  graphCommit := .ok
  rows := true
  inTime := true
  commit := .ok
  late := false
  rollback := true
  verify := true
  reserveAbsent := true
  deleteGraph := .ok
  delete _ := .ok
  release := true
  verifyAgain := true
  finalRollback := true

/-- The storage keeps the object and answers with a server error; or a row does not fit, the
object cannot be deleted, and the rollback raises. Neither is reported. -/
theorem restore_silent :
    ¬ Honest (restoreSnapshot
      { Schedule.smooth with upload := fun _ => .raised false true } [1]) ∧
    ¬ Honest (restoreSnapshot { Schedule.smooth with
      rows := false, delete := fun _ => .raised false, finalRollback := false } [1]) := by
  refine ⟨fun h => ?_, fun h => ?_⟩
  · have hleft := h .original (by decide) (by decide)
    exact absurd hleft.2 (by decide)
  · have hleft := h .database (by decide) (by decide)
    exact absurd hleft.2 (by decide)

end Maeglagi.Snapshot
