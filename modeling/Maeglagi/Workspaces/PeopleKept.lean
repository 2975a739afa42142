import Maeglagi.Workspaces.Merging

/-!
# What a row owes

Every call of `create_person` that succeeds with a row leaves it owing the aliases that the call
brought. A merge writes the whole list back: it comes in time if it read all that is owed.
-/

namespace Maeglagi.Workspaces

open Core

variable {Id : Type}

/-- The row owes the aliases and the address to a call that succeeded with it, since no later
update changed them. -/
def Owed (log : List (Commit Id)) (id : Id) (normalized : Option Text) (aliases : List Text) :
    Prop :=
  ∃ before after, log = before ++ .created id normalized aliases :: after ∧ .changed id ∉ after

theorem owed_concat {log : List (Commit Id)} {commit : Commit Id} {id : Id}
    {normalized : Option Text} {aliases : List Text} :
    Owed (log ++ [commit]) id normalized aliases ↔
      commit = .created id normalized aliases ∨
        (Owed log id normalized aliases ∧ commit ≠ .changed id) := by
  constructor
  · rintro ⟨before, after, heq, hno⟩
    rcases List.eq_nil_or_concat after with rfl | ⟨after, last, rfl⟩
    · exact .inl (List.append_inj_right' heq rfl |> List.cons.inj |>.1)
    · rw [List.concat_eq_append, ← List.cons_append, ← List.append_assoc] at heq
      obtain ⟨hlog, hlast⟩ := List.append_inj' heq rfl
      obtain rfl := (List.cons.inj hlast).1
      rw [List.concat_eq_append, List.mem_append, not_or] at hno
      exact .inr ⟨⟨before, after, hlog, hno.1⟩, fun hc => hno.2 (by simp [hc])⟩
  · rintro (rfl | ⟨⟨before, after, rfl, hno⟩, hne⟩)
    · exact ⟨log, [], rfl, by simp⟩
    · refine ⟨before, after ++ [commit], by simp, ?_⟩
      rw [List.mem_append, List.mem_singleton, not_or]
      exact ⟨hno, fun heq => hne heq.symm⟩

/-- What is owed is there. -/
def Paid (rows : List (PersonRow Id)) (log : List (Commit Id)) : Prop :=
  ∀ id normalized aliases, Owed log id normalized aliases →
    ∃ r ∈ rows, r.id = id ∧ r.emailNormalized = normalized ∧ aliases ⊆ r.aliases

/-- No two people have one address, no call of `create_person` fails, and no row loses an alias
that it owes. -/
structure Roster.Good (s : Roster Id) : Prop where
  unique : ∀ n, s.rows.countP (fun r => decide (r.emailNormalized = some n)) ≤ 1
  answered : ∀ (i : Nat) (call : Creating Id) (status : Nat), s.calls[i]? = some (.create call) →
    call.stage ≠ .failed status
  paid : Paid s.rows s.log

/-- The statement of a call comes in time: what it writes fits, the address that was taken is
still there, and a merge does not write over an alias that it did not read. -/
def Creating.Timely (call : Creating Id) (s : Roster Id) (id : Id) : Prop :=
  match call.stage with
  | .finding => ∀ key, call.key = some key → storable key = true
  | .inserting => (call.row id).fits = true
  | .looking => ∀ key, call.key = some key →
      storable key = true ∧ ∃ r ∈ s.rows, r.emailNormalized = some key
  | .merging loaded _ => ∃ r ∈ s.rows, r.id = loaded.id ∧ r.emailNormalized = call.normalized ∧
      (call.input.aliases ⊆ loaded.aliases → call.input.aliases ⊆ r.aliases) ∧
      (¬call.input.aliases ⊆ loaded.aliases → call.input.aliases.all storable = true ∧
        ∀ normalized aliases, Owed s.log loaded.id normalized aliases →
          aliases ⊆ loaded.aliases ++ call.input.aliases)
  | .succeeded _ _ => True
  | .failed _ => True

/-- Every statement of `create_person` comes in time. -/
def Roster.Timely (s : Roster Id) : RosterEvent Id → Prop
  | .proceed i id _ =>
    ∀ call, s.calls[i]? = some (.create call) → call.Timely s id
  | _ => True

/-- What the Unicode functions promise. -/
structure UnicodeText (nfkc casefold : Text → Text) : Prop where
  nfkc_nfkc : ∀ t, nfkc (nfkc t) = nfkc t
  casefold_ne_nil : ∀ t, t ≠ [] → casefold t ≠ []

section
variable {nfkc casefold : Text → Text}

/-- An address that was accepted is accepted again, and is not empty. -/
theorem normalizedEmail_again (hunicode : UnicodeText nfkc casefold) {value email n : Option Text}
    (h : normalizedEmail nfkc casefold value = some (email, n)) :
    ∃ n', normalizedEmail nfkc casefold email = some (email, n') ∧ n' ≠ some [] := by
  unfold normalizedEmail at h
  split at h
  · obtain ⟨rfl, rfl⟩ := Prod.mk.inj (Option.some.inj h)
    exact ⟨none, rfl, by simp⟩
  · dsimp only at h
    split_ifs at h with hblank hbad hparts
    · obtain ⟨rfl, rfl⟩ := Prod.mk.inj (Option.some.inj h)
      exact ⟨none, rfl, by simp⟩
    · obtain ⟨rfl, rfl⟩ := Prod.mk.inj (Option.some.inj h)
      rename_i value
      obtain ⟨hlength, hcount, hspace⟩ : (nfkc (strip value)).length ≤ 320 ∧
          (nfkc (strip value)).count '@' = 1 ∧ (nfkc (strip value)).any isSpace = false := by
        simpa using hbad
      have hnospace : ∀ c ∈ nfkc (strip value), isSpace c = false := fun c hc =>
        Bool.eq_false_iff.mpr (List.any_eq_false.mp hspace c hc)
      have hstrip : strip (nfkc (strip value)) = nfkc (strip value) :=
        strip_eq_self (fun c hc => hnospace c (List.mem_of_mem_head? hc))
          fun c hc => hnospace c (List.mem_of_mem_getLast? hc)
      have hne : nfkc (strip value) ≠ [] := by
        intro hnil
        rw [hnil] at hcount
        cases hcount
      refine ⟨some (casefold (nfkc (strip value))), ?_, fun hnil => ?_⟩
      · unfold normalizedEmail
        dsimp only
        rw [hstrip, if_neg hne, hunicode.nfkc_nfkc, if_neg hbad, if_neg hparts]
      · exact hunicode.casefold_ne_nil _ hne (Option.some.inj hnil)

/-- The aliases of a validated body are clean. -/
theorem clean_of_modelValidate {input valid : PersonInput}
    (h : input.modelValidate nfkc casefold = some valid) :
    CleanAliases valid.aliases ∧
      ∃ value n, normalizedEmail nfkc casefold value = some (valid.email, n) := by
  unfold PersonInput.modelValidate at h
  split_ifs at h
  split at h
  · rename_i aliases email n haliases hemail
    obtain rfl := Option.some.inj h
    exact ⟨clean_of_cleanAliases haliases, _, _, hemail⟩
  · cases h

theorem clean_of_patch {patch valid : PersonPatch} (h : patch.modelValidate nfkc casefold = some valid)
    {aliases : List Text} (haliases : valid.aliases = some (some aliases)) :
    CleanAliases aliases := by
  unfold PersonPatch.modelValidate at h
  split_ifs at h
  simp only [Option.bind_eq_bind, Option.bind_eq_some_iff, Option.pure_def] at h
  obtain ⟨cleaned, hcleaned, email, -, h⟩ := h
  obtain rfl := Option.some.inj h
  dsimp only at haliases
  obtain rfl := haliases
  cases hpatch : patch.aliases with
  | none =>
    rw [hpatch] at hcleaned
    cases hcleaned
  | some items =>
    rw [hpatch] at hcleaned
    cases items with
    | none => simp [Option.mapM_some] at hcleaned
    | some values =>
      have hvalues : cleanAliases values = some aliases := by
        simpa [Option.mapM_some] using hcleaned
      exact clean_of_cleanAliases hvalues

end

/-- How far a call of `create_person` is, with what it read. -/
def Creating.StageKept (call : Creating Id) : Prop :=
  match call.stage with
  | .finding => True
  | .inserting => True
  | .looking => call.key ≠ none
  | .merging loaded aliases => CleanAliases loaded.aliases ∧
      loaded.aliases.all storable = true ∧ call.merged loaded = some aliases
  | .succeeded _ _ => True
  | .failed _ => False

/-- What a request holds is clean, and no call of `create_person` has failed. -/
def CallKept : Call Id → Prop
  | .create call =>
    CleanAliases call.input.aliases ∧ call.normalized ≠ some [] ∧ call.StageKept
  | .update call =>
    (∀ aliases, call.patch.aliases = some (some aliases) → CleanAliases aliases) ∧
      ∀ loaded new, call.stage = .writing loaded new → CleanAliases new.aliases

/-- What timely requests keep. -/
structure Roster.Kept (s : Roster Id) : Prop where
  rows : Wellformed s.rows
  calls : ∀ call ∈ s.calls, CallKept call
  paid : Paid s.rows s.log

variable {call : Creating Id} {rows rows' : List (PersonRow Id)} {log : List (Commit Id)}

/-- The address that is looked for is the one that is stored. -/
theorem Creating.key_eq (h : call.normalized ≠ some []) : call.key = call.normalized := by
  unfold key
  cases hn : call.normalized with
  | none => rfl
  | some n =>
    have hne : n ≠ [] := by
      rintro rfl
      exact h hn
    simp [hne]

/-- A row that has the address and the aliases of a call that succeeds with it pays it. -/
theorem Paid.created (h : Paid rows log) {r : PersonRow Id} (hr : r ∈ rows) {n : Option Text}
    {aliases : List Text} (hn : r.emailNormalized = n) (haliases : aliases ⊆ r.aliases) :
    Paid rows (log ++ [.created r.id n aliases]) := by
  intro id normalized owed howed
  rcases owed_concat.mp howed with heq | ⟨hold, -⟩
  · obtain ⟨rfl, rfl, rfl⟩ := Commit.created.inj heq
    exact ⟨r, hr, rfl, hn, haliases⟩
  · exact h id normalized owed hold

/-- Rows that come to the others pay what was owed. -/
theorem Paid.append (h : Paid rows log) (more : List (PersonRow Id)) : Paid (rows ++ more) log := by
  intro id normalized aliases howed
  obtain ⟨r, hr, hrest⟩ := h id normalized aliases howed
  exact ⟨r, List.mem_append_left _ hr, hrest⟩

/-- What a statement of `create_person` leaves. -/
structure ServedKept (call : Creating Id) (log : List (Commit Id))
    (served : Served Id (CreateStage Id)) : Prop where
  rows : Wellformed served.rows
  stage : Creating.StageKept { call with stage := served.stage }
  paid : Paid served.rows (log ++ served.commits)

theorem servedKept_goes (hrows : Wellformed rows) (hpaid : Paid rows log) {stage : CreateStage Id}
    (hstage : Creating.StageKept { call with stage := stage }) :
    ServedKept call log (Creating.goes rows stage) :=
  ⟨hrows, hstage, by simpa [Creating.goes] using hpaid⟩

theorem Creating.select_eq {key : Text} (h : storable key = true) :
    Creating.select rows key = some (rows.find? fun r => decide (r.emailNormalized = some key)) := by
  unfold select
  rw [if_pos h]

/-- The first look in time. -/
theorem servedKept_find (hrows : Wellformed rows) (hpaid : Paid rows log)
    (hclean : CleanAliases call.input.aliases) (hkey : call.normalized ≠ some [])
    (htimely : ∀ key, call.key = some key → storable key = true) :
    ServedKept call log (call.find rows) := by
  unfold Creating.find
  cases hk : call.key with
  | none => exact servedKept_goes hrows hpaid trivial
  | some key =>
    dsimp only
    rw [Creating.select_eq (htimely key hk)]
    cases hfind : rows.find? fun r => decide (r.emailNormalized = some key) with
    | none => exact servedKept_goes hrows hpaid trivial
    | some existing =>
      have hmem := List.mem_of_find?_eq_some hfind
      have hn : existing.emailNormalized = some key := by simpa using List.find?_some hfind
      obtain ⟨aliases, hmerged, -, -, hsame⟩ :=
        cleanAliases_append (hrows.clean existing hmem) hclean
      have hmerged' : call.merged existing = some aliases := hmerged
      dsimp only
      rw [hmerged']
      dsimp only
      split_ifs with hnew
      · exact servedKept_goes hrows hpaid
          ⟨hrows.clean existing hmem, hrows.stored existing hmem, hmerged'⟩
      · rw [not_or, not_not] at hnew
        refine ⟨hrows, trivial, hpaid.created hmem ?_ (hsame.mp hnew.1)⟩
        rw [hn, ← hk, Creating.key_eq hkey]

/-- The look after a conflict, while the address is still there. -/
theorem servedKept_look (hrows : Wellformed rows) (hpaid : Paid rows log)
    (hclean : CleanAliases call.input.aliases) (hlooks : call.key ≠ none)
    (htimely : ∀ key, call.key = some key →
      storable key = true ∧ ∃ r ∈ rows, r.emailNormalized = some key) :
    ServedKept call log (call.look rows) := by
  unfold Creating.look
  cases hk : call.key with
  | none => exact absurd hk hlooks
  | some key =>
    obtain ⟨hstorable, r, hr, hn⟩ := htimely key hk
    dsimp only
    rw [Creating.select_eq hstorable]
    cases hfind : rows.find? fun r => decide (r.emailNormalized = some key) with
    | none =>
      have := List.find?_eq_none.mp hfind r hr
      simp [hn] at this
    | some existing =>
      have hmem := List.mem_of_find?_eq_some hfind
      obtain ⟨aliases, hmerged, -⟩ := cleanAliases_append (hrows.clean existing hmem) hclean
      have hmerged' : call.merged existing = some aliases := hmerged
      dsimp only
      rw [hmerged']
      exact servedKept_goes hrows hpaid
        ⟨hrows.clean existing hmem, hrows.stored existing hmem, hmerged'⟩

/-- The aliases of the row that a merge writes to. -/
theorem aliases_merge (loaded r : PersonRow Id) (aliases : List Text) :
    ((RowChange.between loaded { loaded with aliases := aliases, archivedAt := none }).apply
      r).aliases = if aliases = loaded.aliases then r.aliases else aliases := by
  rw [between_merge]
  simp only [RowChange.apply, written]
  split_ifs
  · rfl
  · rfl

/-- What the request brings is merged with what it read. -/
theorem merged_of_stageKept {loaded : PersonRow Id} {aliases : List Text}
    (hclean : CleanAliases call.input.aliases) (hloaded : CleanAliases loaded.aliases)
    (hmerged : call.merged loaded = some aliases) :
    CleanAliases aliases ∧ (∀ a, a ∈ aliases ↔ a ∈ loaded.aliases ∨ a ∈ call.input.aliases) ∧
      (aliases = loaded.aliases ↔ call.input.aliases ⊆ loaded.aliases) := by
  obtain ⟨aliases', hsome, hall⟩ := cleanAliases_append hloaded hclean
  obtain rfl := Option.some.inj (hmerged.symm.trans hsome)
  exact hall

variable [DecidableEq Id]

/-- A row that fits is inserted or in conflict. -/
theorem insertRow_cases {row : PersonRow Id} (hfits : row.fits = true) :
    insertRow rows row = .ok (rows ++ [row]) ∨
      (insertRow rows row = .error .integrityError ∧
        ∃ r ∈ rows, r.id = row.id ∨ row.emailNormalized ≠ none) := by
  unfold insertRow
  rw [if_neg (by simp [hfits])]
  split_ifs with hconflict
  · simp only [List.any_eq_true, Bool.or_eq_true, decide_eq_true_eq, Bool.and_eq_true] at hconflict
    obtain ⟨r, hr, hsame⟩ := hconflict
    refine .inr ⟨rfl, r, hr, hsame.imp id fun h => ?_⟩
    exact Option.isSome_iff_ne_none.mp h.1
  · exact .inl rfl

/-- The insertion of a row that fits. -/
theorem servedKept_insert (hrows : Wellformed rows) (hpaid : Paid rows log)
    (hclean : CleanAliases call.input.aliases) (hkey : call.normalized ≠ some []) {id : Id}
    (hfresh : ∀ r ∈ rows, r.id ≠ id) (htimely : (call.row id).fits = true) :
    ServedKept call log (call.insert rows id) := by
  unfold Creating.insert
  have hcases : insertRow rows (call.row id) = .ok (rows ++ [call.row id]) ∨
      (insertRow rows (call.row id) = .error .integrityError ∧
        ∃ r ∈ rows, r.id = id ∨ call.normalized ≠ none) := insertRow_cases htimely
  rcases hcases with hok | ⟨herror, r, hr, hconflict⟩
  · rw [hok]
    have hrow : CleanAliases (call.row id).aliases := hclean
    have hnew : call.row id ∈ rows ++ [call.row id] := by simp
    exact ⟨(wellformed_insertRow hrows hrow hok).1, trivial,
      (hpaid.append [call.row id]).created hnew rfl fun _ ha => ha⟩
  · rw [herror]
    dsimp only
    cases hk : call.key with
    | some key =>
      refine servedKept_goes hrows hpaid ?_
      change call.key ≠ none
      rw [hk]
      simp
    | none =>
      rw [Creating.key_eq hkey] at hk
      rcases hconflict with hid | hn
      · exact absurd hid (hfresh r hr)
      · exact absurd hk hn

/-- The row that a merge writes to, after it. -/
theorem exists_merge {loaded r : PersonRow Id} {aliases : List Text} (hr : r ∈ rows)
    (hid : r.id = loaded.id) :
    ∃ r' ∈ updateWhere (fun r => decide (r.id = loaded.id))
        (RowChange.between loaded
          { loaded with aliases := aliases, archivedAt := none }).apply rows,
      r'.id = loaded.id ∧ r'.emailNormalized = r.emailNormalized ∧
        r'.aliases = if aliases = loaded.aliases then r.aliases else aliases := by
  refine ⟨_, mem_updateWhere.mpr ⟨r, hr, rfl⟩, ?_⟩
  rw [if_pos (by simp [hid])]
  refine ⟨hid, ?_, aliases_merge loaded r aliases⟩
  rw [between_merge]
  rfl

/-- A merge in time. -/
theorem servedKept_merge (hrows : Wellformed rows) (hpaid : Paid rows log)
    (hclean : CleanAliases call.input.aliases) {loaded : PersonRow Id} {aliases : List Text}
    (hloaded : CleanAliases loaded.aliases) (hstored : loaded.aliases.all storable = true)
    (hmerged : call.merged loaded = some aliases) {r : PersonRow Id} (hr : r ∈ rows)
    (hid : r.id = loaded.id) (hn : r.emailNormalized = call.normalized)
    (hsame : call.input.aliases ⊆ loaded.aliases → call.input.aliases ⊆ r.aliases)
    (hnew : ¬call.input.aliases ⊆ loaded.aliases → call.input.aliases.all storable = true ∧
      ∀ normalized owed, Owed log loaded.id normalized owed →
        owed ⊆ loaded.aliases ++ call.input.aliases) :
    ServedKept call log (call.merge rows loaded aliases) := by
  obtain ⟨hcleaned, hmem, hbrings⟩ := merged_of_stageKept hclean hloaded hmerged
  have hfits : aliases = loaded.aliases ∨ aliases.all storable = true := by
    by_cases hsub : call.input.aliases ⊆ loaded.aliases
    · exact .inl (hbrings.mpr hsub)
    · refine .inr (List.all_eq_true.mpr fun a ha => ?_)
      rcases (hmem a).mp ha with hold | hown
      · exact List.all_eq_true.mp hstored a hold
      · exact List.all_eq_true.mp (hnew hsub).1 a hown
  obtain ⟨rows', hupdate⟩ := (updateRow_merge rows loaded aliases).mpr ⟨⟨r, hr, hid⟩, hfits⟩
  have hwrites : ∀ items, (RowChange.between loaded
      { loaded with aliases := aliases, archivedAt := none }).aliases = some items →
      CleanAliases items := by
    intro items hitems
    rw [between_merge] at hitems
    simp only [written] at hitems
    split_ifs at hitems
    exact Option.some.inj hitems ▸ hcleaned
  obtain ⟨hrows', rfl⟩ := wellformed_updateRow hrows hwrites hupdate
  have hpaid' : Paid (updateWhere (fun r => decide (r.id = loaded.id))
      (RowChange.between loaded
        { loaded with aliases := aliases, archivedAt := none }).apply rows) log := by
    intro id normalized owed howed
    obtain ⟨x, hx, rfl, rfl, hsub⟩ := hpaid id normalized owed howed
    by_cases hxid : x.id = loaded.id
    · obtain ⟨x', hx', hid', hn', haliases⟩ := @exists_merge Id rows _ loaded x aliases hx hxid
      refine ⟨x', hx', hid'.trans hxid.symm, hn', ?_⟩
      rw [haliases]
      split_ifs with hnone
      · exact hsub
      · intro a ha
        rw [hxid] at howed
        have hread := (hnew fun h => hnone (hbrings.mpr h)).2 _ _ howed ha
        exact (hmem a).mpr (List.mem_append.mp hread)
    · exact ⟨x, mem_updateWhere_of_neg hx (by simp [hxid]), rfl, rfl, hsub⟩
  obtain ⟨r', hr', hid', hn', haliases⟩ := @exists_merge Id rows _ loaded r aliases hr hid
  have hown : call.input.aliases ⊆ r'.aliases := by
    rw [haliases]
    split_ifs with hnone
    · exact hsame (hbrings.mp hnone)
    · exact fun a ha => (hmem a).mpr (.inr ha)
  unfold Creating.merge
  rw [hupdate]
  refine ⟨hrows', trivial, ?_⟩
  have hcreated := hpaid'.created hr' (hn'.trans hn) hown
  rw [hid'] at hcreated
  exact hcreated

section
variable {nfkc casefold : Text → Text}

omit [DecidableEq Id] in
/-- The aliases that an update leaves in memory are those of the row or of the patch. -/
theorem aliases_patched {call : Updating Id} {now : Nat} {person new : PersonRow Id}
    (h : call.patched nfkc casefold now person = .ok new) :
    new.aliases = person.aliases ∨ call.patch.aliases = some (some new.aliases) := by
  simp only [Updating.patched, bind_eq_ok, pure_eq_ok] at h
  obtain ⟨name, -, aliases, haliases, email, -, rfl⟩ := h
  unfold Updating.given at haliases
  split at haliases
  · exact .inl (Except.ok.inj haliases).symm
  · cases haliases
  · rename_i items hitems
    exact .inr (Except.ok.inj haliases ▸ hitems)

omit [DecidableEq Id] in
theorem written_eq_some {α : Type} [DecidableEq α] {old new value : α}
    (h : written old new = some value) : value = new := by
  unfold written at h
  split_ifs at h
  exact (Option.some.inj h).symm

/-- An update that changes neither the aliases nor the address pays what was owed; one that does
owes nothing. -/
theorem kept_write (hrows : Wellformed rows) (hpaid : Paid rows log) {loaded new : PersonRow Id}
    (hclean : CleanAliases new.aliases) :
    Wellformed (Updating.write rows loaded new).rows ∧
      Paid (Updating.write rows loaded new).rows
        (log ++ (Updating.write rows loaded new).commits) := by
  unfold Updating.write
  dsimp only
  split
  · rename_i rows' hupdate
    have hwrites : ∀ items, (RowChange.between loaded new).aliases = some items →
        CleanAliases items := fun items hitems => written_eq_some hitems ▸ hclean
    obtain ⟨hrows', rfl⟩ := wellformed_updateRow hrows hwrites hupdate
    refine ⟨hrows', fun id normalized owed howed => ?_⟩
    have hold : Owed log id normalized owed ∧
        (Updating.changes rows loaded.id (.between loaded new) = true → id ≠ loaded.id) := by
      dsimp only at howed
      split_ifs at howed with hchanges
      · rcases owed_concat.mp howed with heq | ⟨hold, hne⟩
        · cases heq
        · exact ⟨hold, fun _ heq => hne (by rw [heq])⟩
      · rw [List.append_nil] at howed
        exact ⟨howed, fun h => absurd h hchanges⟩
    obtain ⟨x, hx, rfl, rfl, hsub⟩ := hpaid id normalized owed hold.1
    by_cases hxid : x.id = loaded.id
    · have hno : Updating.changes rows loaded.id (.between loaded new) = false :=
        Bool.eq_false_iff.mpr fun h => hold.2 h hxid
      have hsame := List.any_eq_false.mp hno x hx
      simp only [hxid, decide_true, Bool.true_and, Bool.or_eq_true, decide_eq_true_eq, not_or,
        not_not] at hsame
      refine ⟨(RowChange.between loaded new).apply x,
        mem_updateWhere.mpr ⟨x, hx, by rw [if_pos (by simp [hxid])]⟩, rfl, hsame.2, ?_⟩
      rw [hsame.1.1]
      exact hsub
    · exact ⟨x, mem_updateWhere_of_neg hx (by simp [hxid]), rfl, rfl, hsub⟩
  · exact ⟨hrows, by simpa using hpaid⟩
  · exact ⟨hrows, by simpa using hpaid⟩

namespace Roster

variable {s s' : Roster Id} {e : RosterEvent Id}

/-- What a step does: a request arrives, or one that is not over is served. -/
inductive Effect (nfkc casefold : Text → Text) (s : Roster Id) : RosterEvent Id → Roster Id → Prop
  | created {input valid : PersonInput} (hvalid : input.modelValidate nfkc casefold = some valid) :
      Effect nfkc casefold s (.create input)
        { s with calls := s.calls ++ [Roster.call nfkc casefold valid] }
  | updated {id : Id} {patch valid : PersonPatch}
      (hvalid : patch.modelValidate nfkc casefold = some valid) :
      Effect nfkc casefold s (.update id patch)
        { s with calls := s.calls ++ [.update ⟨id, valid, .reading⟩] }
  | creates {i : Nat} {id : Id} {now : Nat} {call : Creating Id}
      {served : Served Id (CreateStage Id)} (hfresh : ∀ r ∈ s.rows, r.id ≠ id)
      (hcall : s.calls[i]? = some (.create call)) (hserved : call.proceed s.rows id = some served) :
      Effect nfkc casefold s (.proceed i id now)
        ⟨served.rows, s.calls.set i (.create { call with stage := served.stage }),
          s.log ++ served.commits⟩
  | updates {i : Nat} {id : Id} {now : Nat} {call : Updating Id}
      {served : Served Id (UpdateStage Id)} (hcall : s.calls[i]? = some (.update call))
      (hserved : call.proceed nfkc casefold s.rows now = some served) :
      Effect nfkc casefold s (.proceed i id now)
        ⟨served.rows, s.calls.set i (.update { call with stage := served.stage }),
          s.log ++ served.commits⟩

theorem effect_of_step (h : s.step nfkc casefold e = some s') : Effect nfkc casefold s e s' := by
  cases e with
  | create input =>
    simp only [step, Option.map_eq_some_iff] at h
    obtain ⟨valid, hvalid, rfl⟩ := h
    exact .created hvalid
  | update id patch =>
    simp only [step, Option.map_eq_some_iff] at h
    obtain ⟨valid, hvalid, rfl⟩ := h
    exact .updated hvalid
  | proceed i id now =>
    simp only [step] at h
    split_ifs at h with hused
    have hfresh : ∀ r ∈ s.rows, r.id ≠ id := by simpa using hused
    split at h
    · cases h
    · rename_i call hcall
      rw [Option.map_eq_some_iff] at h
      obtain ⟨served, hserved, rfl⟩ := h
      exact .creates hfresh hcall hserved
    · rename_i call hcall
      rw [Option.map_eq_some_iff] at h
      obtain ⟨served, hserved, rfl⟩ := h
      exact .updates hcall hserved

omit [DecidableEq Id] in
theorem kept_start {rows : List (PersonRow Id)} (h : Wellformed rows) : (start rows).Kept where
  rows := h
  calls := fun call hcall => by simp [start] at hcall
  paid := fun id normalized aliases howed => by
    obtain ⟨before, after, heq, -⟩ := howed
    simp [start] at heq

/-- The next statement of a call of `create_person`, in time. -/
theorem servedKept_proceed (h : s.Kept) {call : Creating Id} {id : Id}
    (hfresh : ∀ r ∈ s.rows, r.id ≠ id) (hcall : CallKept (.create call))
    (htimely : call.Timely s id) {served : Served Id (CreateStage Id)}
    (hserved : call.proceed s.rows id = some served) : ServedKept call s.log served := by
  obtain ⟨hclean, hkey, hstage⟩ := hcall
  unfold Creating.proceed at hserved
  unfold Creating.Timely at htimely
  unfold Creating.StageKept at hstage
  split at hserved
  · rename_i hat
    rw [hat] at htimely
    obtain rfl := Option.some.inj hserved
    exact servedKept_find h.rows h.paid hclean hkey htimely
  · rename_i hat
    rw [hat] at htimely
    obtain rfl := Option.some.inj hserved
    exact servedKept_insert h.rows h.paid hclean hkey hfresh htimely
  · rename_i hat
    rw [hat] at htimely hstage
    obtain rfl := Option.some.inj hserved
    exact servedKept_look h.rows h.paid hclean hstage htimely
  · rename_i loaded aliases hat
    rw [hat] at htimely hstage
    obtain rfl := Option.some.inj hserved
    obtain ⟨hloaded, hstored, hmerged⟩ := hstage
    obtain ⟨r, hr, hid, hn, hsame, hnew⟩ := htimely
    exact servedKept_merge h.rows h.paid hclean hloaded hstored hmerged hr hid hn hsame hnew
  · cases hserved
  · cases hserved

/-- The next statement of a call of `update_person`. -/
theorem kept_update (h : s.Kept) {call : Updating Id} {now : Nat}
    (hcall : CallKept (.update call)) {served : Served Id (UpdateStage Id)}
    (hserved : call.proceed nfkc casefold s.rows now = some served) :
    Wellformed served.rows ∧ Paid served.rows (s.log ++ served.commits) ∧
      ∀ loaded new, served.stage = .writing loaded new → CleanAliases new.aliases := by
  obtain ⟨hpatch, hwriting⟩ := hcall
  unfold Updating.proceed at hserved
  split at hserved
  · obtain rfl := Option.some.inj hserved
    unfold Updating.read
    split
    · exact ⟨h.rows, by simpa using h.paid, fun _ _ hstage => by cases hstage⟩
    · rename_i person hfind
      have hmem := List.mem_of_find?_eq_some hfind
      split
      · exact ⟨h.rows, by simpa using h.paid, fun _ _ hstage => by cases hstage⟩
      · rename_i new hnew
        refine ⟨h.rows, by simpa using h.paid, fun _ _ hstage => ?_⟩
        cases hstage
        rcases aliases_patched hnew with heq | hset
        · rw [heq]
          exact h.rows.clean person hmem
        · exact hpatch _ hset
  · rename_i loaded new hat
    obtain rfl := Option.some.inj hserved
    obtain ⟨hrows, hpaid⟩ := @kept_write Id s.rows s.log _ h.rows h.paid loaded new (hwriting loaded new hat)
    refine ⟨hrows, hpaid, fun _ _ hstage => ?_⟩
    unfold Updating.write at hstage
    dsimp only at hstage
    split at hstage
    · cases hstage
    · cases hstage
    · cases hstage
  · cases hserved
  · cases hserved

/-- Requests whose statements come in time keep everything. -/
theorem kept_step (hunicode : UnicodeText nfkc casefold) (h : s.Kept) (htimely : s.Timely e)
    (hstep : s.step nfkc casefold e = some s') : s'.Kept := by
  cases effect_of_step hstep with
  | @created input valid hvalid =>
    refine ⟨h.rows, fun call hcall => ?_, h.paid⟩
    rcases List.mem_append.mp hcall with hold | hnew
    · exact h.calls call hold
    · obtain ⟨hclean, value, n, hvalue⟩ := clean_of_modelValidate hvalid
      obtain ⟨n', hagain, hne⟩ := normalizedEmail_again hunicode hvalue
      rw [List.mem_singleton] at hnew
      rw [hnew]
      unfold Roster.call
      rw [hagain]
      exact ⟨hclean, hne, trivial⟩
  | @updated id patch valid hvalid =>
    refine ⟨h.rows, fun call hcall => ?_, h.paid⟩
    rcases List.mem_append.mp hcall with hold | hnew
    · exact h.calls call hold
    · rw [List.mem_singleton] at hnew
      rw [hnew]
      exact ⟨fun aliases haliases => clean_of_patch hvalid haliases, fun _ _ hat => by cases hat⟩
  | @creates i id now call served hfresh hcall hserved =>
    have hkept := h.calls _ (List.mem_of_getElem? hcall)
    have hafter := servedKept_proceed h hfresh hkept (htimely call hcall) hserved
    refine ⟨hafter.rows, fun other hother => ?_, hafter.paid⟩
    rcases List.mem_or_eq_of_mem_set hother with hold | rfl
    · exact h.calls other hold
    · exact ⟨hkept.1, hkept.2.1, hafter.stage⟩
  | @updates i id now call served hcall hserved =>
    have hkept := h.calls _ (List.mem_of_getElem? hcall)
    obtain ⟨hrows, hpaid, hwriting⟩ := kept_update h hkept hserved
    refine ⟨hrows, fun other hother => ?_, hpaid⟩
    rcases List.mem_or_eq_of_mem_set hother with hold | rfl
    · exact h.calls other hold
    · exact ⟨hkept.1, hwriting⟩

omit [DecidableEq Id] in
theorem Kept.good (h : s.Kept) : s.Good where
  unique := h.rows.countP_le
  answered := fun i call status hcall hfailed => by
    have := (h.calls _ (List.mem_of_getElem? hcall)).2.2
    unfold Creating.StageKept at this
    rw [hfailed] at this
    exact this
  paid := h.paid

end Roster

end

end Maeglagi.Workspaces
