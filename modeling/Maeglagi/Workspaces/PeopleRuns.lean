import Maeglagi.Workspaces.PeopleKept

/-!
# Adding a person by address

Requests whose statements come in time lose nothing. Those that do not are served as well: an
alias that was added since a merge looked is written over.
-/

namespace Maeglagi.Workspaces

open Core

variable {Id : Type} [DecidableEq Id] {nfkc casefold : Text → Text} {rows : List (PersonRow Id)}

namespace Roster

variable {s s' : Roster Id} {e : RosterEvent Id}

/-- A statement whose outcome is good came in time. -/
theorem timely_of_served (h : s.Kept) {call : Creating Id} {id : Id}
    (hcall : CallKept (.create call)) {served : Served Id (CreateStage Id)}
    (hserved : call.proceed s.rows id = some served)
    (hanswered : ∀ status, served.stage ≠ .failed status)
    (hpaid : Paid served.rows (s.log ++ served.commits)) : call.Timely s id := by
  obtain ⟨hclean, hkey, hstage⟩ := hcall
  unfold Creating.proceed at hserved
  split at hserved
  · obtain rfl := Option.some.inj hserved
    rename_i hat
    unfold Creating.Timely
    rw [hat]
    intro key hk
    by_contra hno
    unfold Creating.find at hanswered
    rw [hk] at hanswered
    simp only [Creating.select, if_neg hno] at hanswered
    exact hanswered 500 rfl
  · obtain rfl := Option.some.inj hserved
    rename_i hat
    unfold Creating.Timely
    rw [hat]
    by_contra hno
    unfold Creating.insert insertRow at hanswered
    rw [if_pos (by simpa using hno)] at hanswered
    exact hanswered 500 rfl
  · obtain rfl := Option.some.inj hserved
    rename_i hat
    unfold Creating.Timely
    rw [hat]
    intro key hk
    unfold Creating.look at hanswered
    rw [hk] at hanswered
    by_cases hstorable : storable key = true
    · refine ⟨hstorable, ?_⟩
      dsimp only at hanswered
      rw [Creating.select_eq hstorable] at hanswered
      cases hfind : s.rows.find? fun r => decide (r.emailNormalized = some key) with
      | none =>
        rw [hfind] at hanswered
        exact absurd rfl (hanswered 409)
      | some existing =>
        exact ⟨existing, List.mem_of_find?_eq_some hfind, by simpa using List.find?_some hfind⟩
    · simp only [Creating.select, if_neg hstorable] at hanswered
      exact absurd rfl (hanswered 500)
  · rename_i loaded aliases hat
    obtain rfl := Option.some.inj hserved
    unfold Creating.StageKept at hstage
    unfold Creating.Timely
    rw [hat] at hstage ⊢
    obtain ⟨hloaded, -, hmerged⟩ := hstage
    obtain ⟨-, hmem, hbrings⟩ := merged_of_stageKept hclean hloaded hmerged
    cases hupdate : updateRow s.rows loaded.id
        (.between loaded { loaded with aliases := aliases, archivedAt := none }) with
    | error error =>
      unfold Creating.merge at hanswered
      rw [hupdate] at hanswered
      exact absurd rfl (hanswered 500)
    | ok rows' =>
      obtain ⟨⟨r, hr, hid⟩, hfits⟩ := (updateRow_merge s.rows loaded aliases).mp ⟨rows', hupdate⟩
      have hserved : call.merge s.rows loaded aliases = call.succeeds rows' loaded.id false := by
        unfold Creating.merge
        rw [hupdate]
      rw [hserved] at hpaid
      have hwrites : ∀ items, (RowChange.between loaded
          { loaded with aliases := aliases, archivedAt := none }).aliases = some items →
          CleanAliases items := by
        intro items hitems
        rw [written_eq_some hitems]
        exact (merged_of_stageKept hclean hloaded hmerged).1
      obtain ⟨hrows', rfl⟩ := wellformed_updateRow h.rows hwrites hupdate
      obtain ⟨r', hr', hid', hn', haliases⟩ := @exists_merge Id s.rows _ loaded r aliases hr hid
      -- The row that was written is the one that owes.
      have howes : ∀ normalized owed, Owed (s.log ++
          [.created loaded.id call.normalized call.input.aliases]) loaded.id normalized owed →
          r'.emailNormalized = normalized ∧ owed ⊆ r'.aliases := by
        intro normalized owed howed
        obtain ⟨x, hx, hxid, hxn, hsub⟩ := hpaid loaded.id normalized owed howed
        obtain rfl := hrows'.eq_of_id hx hr' (hxid.trans hid'.symm)
        exact ⟨hxn, hsub⟩
      obtain ⟨hn, hown⟩ := howes _ _ (owed_concat.mpr (.inl rfl))
      refine ⟨r, hr, hid, hn'.symm.trans hn, fun hsub => ?_, fun hfresh => ⟨?_, ?_⟩⟩
      · rw [haliases, if_pos (hbrings.mpr hsub)] at hown
        exact hown
      · rcases hfits with heq | hall
        · exact absurd (hbrings.mp heq) hfresh
        · exact List.all_eq_true.mpr fun a ha =>
            List.all_eq_true.mp hall a ((hmem a).mpr (.inr ha))
      · intro normalized owed howed a ha
        have hsub := (howes normalized owed (owed_concat.mpr (.inr ⟨howed, by simp⟩))).2 ha
        rw [haliases, if_neg fun heq => hfresh (hbrings.mp heq)] at hsub
        exact List.mem_append.mpr ((hmem a).mp hsub)
  · cases hserved
  · cases hserved

theorem timely_of_good (h : s.Kept) (hstep : s.step nfkc casefold e = some s') (hgood : s'.Good) :
    s.Timely e := by
  cases effect_of_step hstep with
  | created => trivial
  | updated => trivial
  | @creates i id now call served hfresh hcall hserved =>
    intro other hother
    obtain rfl := Call.create.inj (Option.some.inj (hcall.symm.trans hother))
    have hi := (List.getElem?_eq_some_iff.mp hcall).1
    refine timely_of_served h (h.calls _ (List.mem_of_getElem? hcall)) hserved
      (fun status hfailed => ?_) hgood.paid
    exact hgood.answered i { call with stage := served.stage } status (by simp [hi]) hfailed
  | @updates i id now call served hcall =>
    intro other hother
    cases hcall.symm.trans hother

end Roster

/-- How many statements a call of `create_person` executes at most. -/
def CreateStage.left : CreateStage Id → Nat
  | .finding => 4
  | .inserting => 3
  | .looking => 2
  | .merging _ _ => 1
  | .succeeded _ _ => 0
  | .failed _ => 0

/-- A statement brings a call that is not over nearer to its end. -/
theorem left_proceed {call : Creating Id} {id : Id} (h : call.stage.left ≠ 0) :
    ∃ served, call.proceed rows id = some served ∧ served.stage.left < call.stage.left := by
  unfold Creating.proceed
  cases hstage : call.stage with
  | finding =>
    refine ⟨_, rfl, ?_⟩
    unfold Creating.find
    repeat' split
    all_goals simp [Creating.goes, Creating.succeeds, CreateStage.left]
  | inserting =>
    refine ⟨_, rfl, ?_⟩
    unfold Creating.insert
    repeat' split
    all_goals simp [Creating.goes, Creating.succeeds, CreateStage.left]
  | looking =>
    refine ⟨_, rfl, ?_⟩
    unfold Creating.look
    repeat' split
    all_goals simp [Creating.goes, CreateStage.left]
  | merging loaded aliases =>
    refine ⟨_, rfl, ?_⟩
    unfold Creating.merge
    repeat' split
    all_goals simp [Creating.goes, Creating.succeeds, CreateStage.left]
  | succeeded id created =>
    rw [hstage] at h
    exact absurd rfl h
  | failed status =>
    rw [hstage] at h
    exact absurd rfl h

namespace Roster

variable {s s' : Roster Id} {e : RosterEvent Id}

/-- In every run whose statements come in time no two people have one address, no call of
`create_person` fails, each goes on to its end, and no row loses what it owes; and a step keeps
this exactly when it comes in time. -/
theorem good_of_run (hunicode : UnicodeText nfkc casefold) {rows : List (PersonRow Id)}
    (hrows : Wellformed rows) (h : RunOf (step nfkc casefold) Timely (start rows) s)
    (hstep : s.step nfkc casefold e = some s') :
    s.Good ∧ (s'.Good ↔ s.Timely e) ∧
      ∀ (i : Nat) (call : Creating Id), s.calls[i]? = some (.create call) →
        (∃ id created, call.stage = .succeeded id created) ∨
          ∀ (id : Id) (now : Nat), (∀ r ∈ s.rows, r.id ≠ id) → ∃ s'' call',
            s.step nfkc casefold (.proceed i id now) = some s'' ∧
              s''.calls[i]? = some (.create call') ∧ call'.stage.left < call.stage.left := by
  have hkept : s.Kept := RunOf.invariant (P := Kept)
    (fun _ _ _ hs htimely hnext => kept_step hunicode hs htimely hnext) h (kept_start hrows)
  refine ⟨hkept.good, ⟨timely_of_good hkept hstep, fun htimely =>
    (kept_step hunicode hkept htimely hstep).good⟩, fun i call hcall => ?_⟩
  by_cases hover : call.stage.left = 0
  · left
    cases hstage : call.stage with
    | succeeded id created => exact ⟨id, created, rfl⟩
    | failed status => exact absurd hstage (hkept.good.answered i call status hcall)
    | _ =>
      rw [hstage] at hover
      cases hover
  · right
    intro id now hfresh
    have hi := (List.getElem?_eq_some_iff.mp hcall).1
    obtain ⟨served, hserved, hless⟩ :
        ∃ served, call.proceed s.rows id = some served ∧ served.stage.left < call.stage.left :=
      left_proceed hover
    refine ⟨⟨served.rows, s.calls.set i (.create { call with stage := served.stage }),
      s.log ++ served.commits⟩, { call with stage := served.stage }, ?_, ?_, hless⟩
    · simp only [step]
      rw [if_neg (by simpa using hfresh), hcall]
      simp [hserved]
    · simp [hi]

/-- The Unicode functions on ASCII. -/
theorem unicodeText_ascii : UnicodeText (fun t => t) (List.map Char.toLower) where
  nfkc_nfkc := fun _ => rfl
  casefold_ne_nil := fun _ h hnil => h (List.map_eq_nil_iff.mp hnil)

/-- A row, a call that brings an alias, and its merge. -/
theorem good_of_run_merge : ∃ s s' : Roster Nat,
    s.rows.map PersonRow.aliases = [["kim".toList]] ∧
      s'.rows.map PersonRow.aliases = [["kim".toList, "k".toList]] ∧ s.Good ∧ s'.Good := by
  let row : PersonRow Nat :=
    ⟨1, "Kim".toList, some "k@a.b".toList, some "k@a.b".toList, none, ["kim".toList], none⟩
  let input : PersonInput := ⟨"Kim".toList, some "K@a.b".toList, none, ["k".toList]⟩
  have hrows : Wellformed [row] := by
    refine ⟨by decide, fun r hr r' hr' n _ _ => ?_, fun r hr => ?_, fun r hr => ?_⟩
    · rw [List.mem_singleton.mp hr, List.mem_singleton.mp hr']
    · rw [List.mem_singleton.mp hr]
      exact ⟨by decide, fun a ha => by rw [List.mem_singleton.mp ha]; decide⟩
    · rw [List.mem_singleton.mp hr]
      decide
  have hrun : ∃ s₁ s s' : Roster Nat,
      (start [row]).step (fun t => t) (List.map Char.toLower) (.create input) = some s₁ ∧
      s₁.step (fun t => t) (List.map Char.toLower) (.proceed 0 2 0) = some s ∧
      s.step (fun t => t) (List.map Char.toLower) (.proceed 0 2 0) = some s' ∧
      s₁.calls[0]? = some (.create ⟨input, input.email, some "k@a.b".toList, .finding⟩) ∧
      s.calls[0]? = some (.create ⟨input, input.email, some "k@a.b".toList,
        .merging row ["kim".toList, "k".toList]⟩) ∧
      s.rows = [row] ∧ s.log = [] ∧
      s'.rows.map PersonRow.aliases = [["kim".toList, "k".toList]] :=
    ⟨_, _, _, rfl, rfl, rfl, rfl, rfl, rfl, rfl, rfl⟩
  obtain ⟨s₁, s, s', hfirst, hsecond, hstep, hcall₁, hcall, hrows', hlog, haliases⟩ := hrun
  have htimely₁ : s₁.Timely (.proceed 0 2 0) := by
    intro call hcall
    obtain rfl := Call.create.inj (Option.some.inj (hcall₁.symm.trans hcall))
    intro key hkey
    obtain rfl := Option.some.inj hkey
    decide
  have htimely : s.Timely (.proceed 0 2 0) := by
    intro other hother
    obtain rfl := Call.create.inj (Option.some.inj (hcall.symm.trans hother))
    refine ⟨row, by rw [hrows']; simp, rfl, rfl, fun hsub => ?_, fun _ => ⟨by decide, ?_⟩⟩
    · exact absurd (hsub (List.mem_singleton.mpr rfl)) (by decide)
    · rintro normalized aliases ⟨before, after, heq, -⟩
      rw [hlog] at heq
      simp at heq
  have hreach : RunOf (step (fun t => t) (List.map Char.toLower)) Timely (start [row]) s :=
    .tail (.single ⟨.create input, trivial, hfirst⟩) ⟨.proceed 0 2 0, htimely₁, hsecond⟩
  obtain ⟨hgood, hafter, -⟩ := good_of_run unicodeText_ascii hrows hreach hstep
  refine ⟨s, s', by rw [hrows']; rfl, haliases, hgood, hafter.mpr htimely⟩

/-- Two calls read the row before either writes; the alias of the first is lost. -/
theorem not_good_lostAlias : ¬∀ s : Roster Nat,
    RunOf (step (fun t => t) (List.map Char.toLower)) anyEvent (start []) s → s.Good := by
  intro hall
  have hrun : ∃ (s : Roster Nat) (before after : List (Commit Nat)),
      replay (step (fun t => t) (List.map Char.toLower)) (start [])
        [.create ⟨"Kim".toList, some "k@a.b".toList, none, []⟩, .proceed 0 1 0, .proceed 0 1 0,
          .create ⟨"Kim".toList, some "k@a.b".toList, none, ["x".toList]⟩,
          .create ⟨"Kim".toList, some "k@a.b".toList, none, ["y".toList]⟩,
          .proceed 1 2 0, .proceed 2 2 0, .proceed 1 2 0, .proceed 2 2 0] = some s ∧
        s.rows.map PersonRow.aliases = [["y".toList]] ∧
        s.log = before ++ .created 1 (some "k@a.b".toList) ["x".toList] :: after ∧
        Commit.changed 1 ∉ after :=
    ⟨_, [.created 1 (some "k@a.b".toList) []], [.created 1 (some "k@a.b".toList) ["y".toList]],
      rfl, rfl, rfl, by decide⟩
  obtain ⟨s, before, after, hreplay, haliases, hlog, hno⟩ := hrun
  have hgood := hall s (runOf_replay (fun _ _ _ => trivial) hreplay)
  obtain ⟨r, hr, -, -, hsub⟩ := hgood.paid 1 _ _ ⟨before, after, hlog, hno⟩
  have hin : r.aliases ∈ s.rows.map PersonRow.aliases := List.mem_map.mpr ⟨r, hr, rfl⟩
  rw [haliases, List.mem_singleton] at hin
  rw [hin] at hsub
  exact absurd (hsub (List.mem_singleton.mpr rfl)) (by decide)

end Roster

end Maeglagi.Workspaces
