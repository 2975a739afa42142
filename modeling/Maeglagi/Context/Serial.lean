import Maeglagi.Context.System
import Maeglagi.Sources.Merging

/-!
# Applications in series

Only the attempt that holds the lock of the workspace reads or writes the Context Store, so
what its session has read is still what is committed when it writes. The committed record is
the fold of the applications in the order of their commits.
-/

namespace Maeglagi.Context

open Core Jobs

variable {Id H : Type} [DecidableEq Id] [DecidableEq H]

/-- The key of the workspace's lock. -/
def workspaceKey (site : Site Id H) : Int := key site site.workspaceId - 1 <<< 63

section
omit [DecidableEq Id] [DecidableEq H]

/-- Both helpers take the same lock for a source. -/
@[simp] theorem lockKeys_source (site : Site Id H) (sourceId : Id) (m : AnalysisMode) :
    (lockKeys site sourceId m).source = key site sourceId := by
  cases m <;> rfl

/-- Both helpers take the same lock for the workspace. -/
@[simp] theorem lockKeys_workspace (site : Site Id H) (sourceId : Id) (m : AnalysisMode) :
    (lockKeys site sourceId m).workspace = workspaceKey site := by
  cases m <;> rfl

/-- The locks of sources and those of workspaces are apart. -/
theorem workspaceKey_lt_key (site : Site Id H) (sourceId : Id) :
    workspaceKey site < key site sourceId := by
  have hlow : site.leading site.workspaceId &&& (1 <<< 63 - 1) ≤ 1 <<< 63 - 1 := Nat.and_le_right
  unfold workspaceKey key
  omega

end

/-- What a session holds of the Context Store is what is committed. -/
structure Current (store : Option (ContextStoreRecord Id)) (session : Session Id) : Prop where
  cached : ∀ record, session.cached = some record → store = some record
  view : ∀ loaded, session.view = some loaded → loaded = store

/-- Locks are held by attempts, and only under the lock of the workspace has an attempt read
the Context Store. -/
structure Sound (site : Site Id H) (s : State Id H) : Prop where
  coherent : ∀ i, ∃ media, Sources.Coherent media (s.sources i)
  keyed : ∀ k i, s.locks k = some i →
    (s.sources i).active ≠ none ∧ (k = key site i ∨ k = workspaceKey site)
  current : ∀ i, (s.sources i).active ≠ none → s.sessions i = .fresh ∨
    (s.locks (workspaceKey site) = some i ∧ Current s.store (s.sessions i))

section
variable {site : Site Id H} {s s' : State Id H} {i j : Id} {next : Sources.State Id H}
  {event : Sources.Event Id H} {a : Application Id}

omit [DecidableEq H] in
@[simp] theorem put_self (s : State Id H) (i : Id) (next : Sources.State Id H) :
    (s.put i next).sources i = next := Function.update_self ..

omit [DecidableEq H] in
theorem put_of_ne (h : j ≠ i) (s : State Id H) (next : Sources.State Id H) :
    (s.put i next).sources j = s.sources j := Function.update_of_ne h ..

omit [DecidableEq H] in
theorem coherent_put (h : Sound site s) (hnext : ∃ media, Sources.Coherent media next) (j : Id) :
    ∃ media, Sources.Coherent media ((s.put i next).sources j) := by
  by_cases hj : j = i
  · rw [hj, put_self]
    exact hnext
  · rw [put_of_ne hj]
    exact h.coherent j

omit [DecidableEq H] in
/-- An attempt past its first lock that is admitted holds the lock of the workspace. -/
theorem holds_of_admitted (h : s.admitted site i = true) :
    (s.sources i).active ≠ none ∧ s.locks (workspaceKey site) = some i := by
  unfold State.admitted at h
  cases hactive : (s.sources i).active with
  | none =>
    rw [hactive] at h
    cases h
  | some active =>
    rw [hactive] at h
    refine ⟨by rintro ⟨⟩, ?_⟩
    simpa using h

omit [DecidableEq H] in
/-- What an event leaves of the transaction of an attempt: at most its load is forgotten. -/
theorem closed_frame (s : State Id H) (i : Id) (next : Sources.State Id H)
    (event : Sources.Event Id H) :
    (s.closed i next event).sources = s.sources ∧ (s.closed i next event).locks = s.locks ∧
      (s.closed i next event).store = s.store ∧
      (s.closed i next event).applications = s.applications ∧
      ∀ j, (s.closed i next event).sessions j = s.sessions j ∨
        (s.closed i next event).sessions j = { s.sessions j with view := none } := by
  have hforgotten : ∀ j, Function.update s.sessions i { s.sessions i with view := none } j =
      s.sessions j ∨ Function.update s.sessions i { s.sessions i with view := none } j =
        { s.sessions j with view := none } := by
    intro j
    by_cases hj : j = i
    · subst hj
      exact .inr (Function.update_self ..)
    · exact .inl (Function.update_of_ne hj ..)
  unfold State.closed
  split
  · split_ifs <;> exact ⟨rfl, rfl, rfl, rfl, hforgotten⟩
  · split_ifs <;> exact ⟨rfl, rfl, rfl, rfl, hforgotten⟩
  · split_ifs <;> exact ⟨rfl, rfl, rfl, rfl, hforgotten⟩
  · exact ⟨rfl, rfl, rfl, rfl, fun j => .inl rfl⟩

omit [DecidableEq H] in
/-- A step of one source keeps the sessions and the locks in order. -/
theorem Sound.settled (h : Sound site s) (hnext : ∃ media, Sources.Coherent media next)
    (hsettled : s.settled site i event next = some s') : Sound site s' := by
  have hwk : workspaceKey site ≠ key site i := (workspaceKey_lt_key site i).ne
  unfold State.settled at hsettled
  split at hsettled
  · -- no attempt before and none after
    next hbefore hafter =>
    cases hsettled
    refine ⟨coherent_put h hnext, ?_, ?_⟩
    · intro k j hk
      obtain ⟨hactive, hkey⟩ := h.keyed k j hk
      have hj : j ≠ i := fun hj => hactive (hj ▸ hbefore)
      rw [put_of_ne hj]
      exact ⟨hactive, hkey⟩
    · intro j hactive
      have hj : j ≠ i := by
        rintro rfl
        rw [put_self] at hactive
        exact hactive hafter
      rw [put_of_ne hj] at hactive
      exact h.current j hactive
  · -- an attempt begins under the lock of its source, with a fresh session
    next active hbefore hafter =>
    dsimp only at hsettled
    split_ifs at hsettled with hfree
    cases hsettled
    refine ⟨coherent_put h hnext, ?_, ?_⟩
    · intro k j hk
      change Function.update s.locks _ (some i) k = some j at hk
      by_cases hkey : k = (lockKeys site i (mode active)).source
      · rw [hkey, Function.update_self, Option.some.injEq] at hk
        subst hk
        refine ⟨?_, .inl (hkey.trans (lockKeys_source ..))⟩
        change ((s.put i next).sources i).active ≠ none
        rw [put_self, hafter]
        rintro ⟨⟩
      · rw [Function.update_of_ne hkey] at hk
        obtain ⟨hactive, hheld⟩ := h.keyed k j hk
        have hj : j ≠ i := fun hj => hactive (hj ▸ hbefore)
        change ((s.put i next).sources j).active ≠ none ∧ _
        rw [put_of_ne hj]
        exact ⟨hactive, hheld⟩
    · intro j hactive
      by_cases hj : j = i
      · subst hj
        exact .inl (Function.update_self ..)
      · change ((s.put i next).sources j).active ≠ none at hactive
        rw [put_of_ne hj] at hactive
        refine (h.current j hactive).imp (fun hfresh => ?_) fun ⟨hheld, hcurrent⟩ => ⟨?_, ?_⟩
        · exact (Function.update_of_ne hj ..).trans hfresh
        · refine (Function.update_of_ne ?_ ..).trans hheld
          rw [lockKeys_source]
          exact hwk
        · change Current s.store (Function.update s.sessions i .fresh j)
          rw [Function.update_of_ne hj]
          exact hcurrent
  · -- an attempt ends and releases what it held
    next active hbefore hafter =>
    cases hsettled
    refine ⟨coherent_put h hnext, ?_, ?_⟩
    · intro k j hk
      change (if s.locks k = some i then none else s.locks k) = some j at hk
      split_ifs at hk with hown
      obtain ⟨hactive, hheld⟩ := h.keyed k j hk
      have hj : j ≠ i := fun hj => hown (hj ▸ hk)
      change ((s.put i next).sources j).active ≠ none ∧ _
      rw [put_of_ne hj]
      exact ⟨hactive, hheld⟩
    · intro j hactive
      change ((s.put i next).sources j).active ≠ none at hactive
      by_cases hj : j = i
      · subst hj
        exact .inl (Function.update_self ..)
      · rw [put_of_ne hj] at hactive
        refine (h.current j hactive).imp (fun hfresh => ?_) fun ⟨hheld, hcurrent⟩ => ⟨?_, ?_⟩
        · exact (Function.update_of_ne hj ..).trans hfresh
        · change (if s.locks (workspaceKey site) = some i then none else _) = some j
          rw [if_neg]
          · exact hheld
          · rw [hheld, Option.some.injEq]
            exact hj
        · change Current s.store (Function.update s.sessions i .fresh j)
          rw [Function.update_of_ne hj]
          exact hcurrent
  · -- the attempt goes on
    next active active' hbefore hafter =>
    cases hsettled
    obtain ⟨hsources, hlocks, hstore, -, hsessions⟩ := closed_frame (s.put i next) i next event
    have hactive : ∀ j, ((s.put i next).sources j).active ≠ none ↔
        (s.sources j).active ≠ none := by
      intro j
      by_cases hj : j = i
      · subst hj
        rw [put_self, hbefore, hafter]
        exact ⟨fun _ => by rintro ⟨⟩, fun _ => by rintro ⟨⟩⟩
      · rw [put_of_ne hj]
    refine ⟨?_, ?_, ?_⟩
    · rw [hsources]
      exact coherent_put h hnext
    · intro k j hk
      rw [hlocks] at hk
      rw [hsources, hactive]
      exact h.keyed k j hk
    · intro j hj
      rw [hsources, hactive] at hj
      rw [hlocks, hstore]
      rcases hsessions j with hsame | hforgotten
      · rw [hsame]
        exact h.current j hj
      · rw [hforgotten]
        change { s.sessions j with view := none } = Session.fresh ∨ _
        refine (h.current j hj).imp (fun hfresh => ?_) fun ⟨hheld, hcurrent⟩ => ⟨hheld, ?_⟩
        · rw [hfresh]
          rfl
        · exact ⟨hcurrent.cached, fun _ hview => by cases hview⟩

omit [DecidableEq H] in
/-- The admitted attempt's session may come to hold what is committed. -/
theorem Sound.read (h : Sound site s) (hadmitted : s.admitted site i = true)
    {session : Session Id} (hcurrent : Current s.store session) (rowLock : Option Id) :
    Sound site { s with sessions := Function.update s.sessions i session, rowLock } := by
  refine ⟨h.coherent, h.keyed, fun j hj => ?_⟩
  by_cases hji : j = i
  · subst hji
    refine .inr ⟨(holds_of_admitted hadmitted).2, ?_⟩
    change Current s.store (Function.update s.sessions j session j)
    rwa [Function.update_self]
  · have hsame : Function.update s.sessions i session j = s.sessions j :=
      Function.update_of_ne hji ..
    change Function.update s.sessions i session j = _ ∨
      _ ∧ Current s.store (Function.update s.sessions i session j)
    rw [hsame]
    exact h.current j hj

omit [DecidableEq H] in
/-- A load under the lock of the workspace gives the committed record. -/
theorem Sound.loaded (h : Sound site s) (hadmitted : s.admitted site i = true) (kept : Bool) :
    Sound site (s.loaded i kept) := by
  have hcached : ∀ record, (s.sessions i).cached = some record → s.store = some record := by
    intro record hrecord
    rcases h.current i (holds_of_admitted hadmitted).1 with hfresh | ⟨-, hcurrent⟩
    · rw [hfresh] at hrecord
      cases hrecord
    · exact hcurrent.cached record hrecord
  unfold State.loaded
  split
  · next hstore =>
    apply h.read hadmitted
    refine ⟨hcached, ?_⟩
    rintro _ ⟨⟩
    exact hstore.symm
  · next row hstore =>
    have hrecord : (if kept then (s.sessions i).cached.getD row else row) = row := by
      split_ifs
      · cases hc : (s.sessions i).cached with
        | none => rfl
        | some record =>
          have hsame := hcached record hc
          rw [hstore, Option.some.injEq] at hsame
          exact hsame.symm
      · rfl
    apply h.read hadmitted
    rw [hrecord]
    constructor
    · rintro _ ⟨⟩
      exact hstore
    · rintro _ ⟨⟩
      exact hstore.symm

/-- A session that loaded what is committed leaves its own values. -/
@[simp] theorem flush_self (loaded assigned : ContextStoreRecord Id) :
    ContextStoreRecord.flush loaded assigned loaded = assigned := by
  unfold ContextStoreRecord.flush
  simp only [written_of_eq rfl]

theorem saved_self (store : Option (ContextStoreRecord Id)) (assigned : ContextStoreRecord Id) :
    saved store store assigned = some assigned := by
  cases store with
  | none => rfl
  | some current => exact congrArg some (flush_self current assigned)

/-- A commit writes the result of the application on the committed record. -/
theorem Sound.applied_cases (h : Sound site s) (hadmitted : s.admitted site i = true)
    (happlied : s.applied site i a = some s') :
    ∃ next, Sources.step site.env (s.sources i)
        (.act (.merge (a.apply site.env.rt s.store).2)) = some next ∧
      s'.sources = (s.put i next).sources ∧ s'.locks = s.locks ∧
      s'.store = some (a.apply site.env.rt s.store).1 ∧
      s'.applications = s.applications ++ [a] ∧
      s'.sessions i = ⟨some (a.apply site.env.rt s.store).1, none⟩ ∧
      ∀ j, j ≠ i → s'.sessions j = s.sessions j := by
  obtain ⟨hactive, -⟩ := holds_of_admitted hadmitted
  obtain ⟨loaded, hview, happlied⟩ := Option.bind_eq_some_iff.mp happlied
  have hloaded : loaded = s.store := by
    rcases h.current i hactive with hfresh | ⟨-, hcurrent⟩
    · rw [hfresh] at hview
      cases hview
    · exact hcurrent.view loaded hview
  subst hloaded
  obtain ⟨record, hsaved, happlied⟩ := Option.bind_eq_some_iff.mp happlied
  rw [saved_self, Option.some.injEq] at hsaved
  subst hsaved
  obtain ⟨next, hnext, rfl⟩ := Option.map_eq_some_iff.mp happlied
  refine ⟨next, hnext, rfl, rfl, rfl, rfl, Function.update_self .., fun j hj => ?_⟩
  change Function.update (Function.update s.sessions i _) i _ j = _
  rw [Function.update_of_ne hj, Function.update_of_ne hj]

/-- The step that merges a context takes it from the checkpoint, and the attempt goes on. -/
theorem merged_of_step {env : Env Id H} {source : Sources.State Id H} {warnings : List Text}
    (h : Sources.step env source (.act (.merge warnings)) = some next) :
    ∃ analyst session fresh c,
      source.active = some (.working analyst session (.merging fresh)) ∧
      session.analysisCheckpoint = some c ∧ next.active ≠ none ∧
      next.sinks = source.sinks ++ [.context (if fresh then c.result
        else (canonicalizeDirectoryEntities env.rt c.result (analyst.directory session)
          session.analyzed).1)] := by
  have hattempt : Sources.attemptStep env source (.act (.merge warnings)) = some next := by
    simpa [Sources.step, Sources.schedulerStep] using h
  unfold Sources.attemptStep at hattempt
  dsimp only at hattempt
  split at hattempt
  · next analyst session point hworking =>
    obtain ⟨t, hturn, rfl⟩ := Option.map_eq_some_iff.mp hattempt
    cases point with
    | merging fresh =>
      obtain ⟨c, hc, rfl⟩ := Option.map_eq_some_iff.mp hturn
      refine ⟨analyst, session, fresh, c, hworking, hc, ?_, ?_⟩
      · rw [Sources.turned_active]
        rintro ⟨⟩
      · rw [Sources.turned_sinks]
        rfl
    | _ => cases hturn
  · cases hattempt

/-- A commit of an application keeps the sessions and the locks in order. -/
theorem Sound.applied (h : Sound site s) (hadmitted : s.admitted site i = true)
    (happlied : s.applied site i a = some s') : Sound site s' := by
  obtain ⟨next, hnext, hsources, hlocks, hstore, -, hown, hothers⟩ :=
    h.applied_cases hadmitted happlied
  obtain ⟨hactive, hheld⟩ := holds_of_admitted hadmitted
  refine ⟨?_, ?_, ?_⟩
  · rw [hsources]
    obtain ⟨media, hcoherent⟩ := h.coherent i
    exact coherent_put h ⟨media, hcoherent.step hnext⟩
  · intro k j hk
    rw [hlocks] at hk
    refine ⟨?_, (h.keyed k j hk).2⟩
    rw [hsources]
    by_cases hj : j = i
    · obtain ⟨_, _, _, _, -, -, hgoes, -⟩ := merged_of_step hnext
      rw [hj, put_self]
      exact hgoes
    · rw [put_of_ne hj]
      exact (h.keyed k j hk).1
  · intro j hj
    rw [hlocks, hstore]
    by_cases hji : j = i
    · rw [hji, hown]
      refine .inr ⟨hheld, ?_, fun _ hview => by cases hview⟩
      rintro _ ⟨⟩
      rfl
    · -- every other attempt has read nothing yet
      rw [hsources, put_of_ne hji] at hj
      rw [hothers j hji]
      refine (h.current j hj).imp_right fun ⟨hother, _⟩ => ?_
      rw [hheld, Option.some.injEq] at hother
      exact absurd hother.symm hji

omit [DecidableEq Id] [DecidableEq H] in
/-- The lock of the workspace is taken by an attempt that holds the lock of its source. -/
theorem Sound.locked (h : Sound site s) (hactive : (s.sources i).active ≠ none)
    (hfree : s.locks (workspaceKey site) = none) :
    Sound site { s with locks := Function.update s.locks (workspaceKey site) (some i) } := by
  refine ⟨h.coherent, ?_, ?_⟩
  · intro k j hk
    change Function.update s.locks (workspaceKey site) (some i) k = some j at hk
    by_cases hkey : k = workspaceKey site
    · rw [hkey, Function.update_self, Option.some.injEq] at hk
      subst hk
      exact ⟨hactive, .inr hkey⟩
    · rw [Function.update_of_ne hkey] at hk
      exact h.keyed k j hk
  · intro j hj
    refine (h.current j hj).imp_right fun ⟨hheld, _⟩ => ?_
    rw [hfree] at hheld
    cases hheld

/-- The four kinds of steps in a workspace. -/
inductive Move (site : Site Id H) (s s' : State Id H) : Prop
  | went (i : Id) (event : Sources.Event Id H) (next : Sources.State Id H)
      (hnext : Sources.step site.env (s.sources i) event = some next)
      (hsettled : s.settled site i event next = some s')
  | locked (i : Id) (hactive : (s.sources i).active ≠ none)
      (hfree : s.locks (workspaceKey site) = none)
      (heq : s' = { s with locks := Function.update s.locks (workspaceKey site) (some i) })
  | loaded (i : Id) (kept : Bool) (hadmitted : s.admitted site i = true)
      (heq : s' = s.loaded i kept)
  | applied (i : Id) (subject : Text) (output : ContextUpdateOutput) (now : Instant)
      (a : Application Id) (hadmitted : s.admitted site i = true)
      (hpending : s.pending site i subject output now = some a)
      (happlied : s.applied site i a = some s')

theorem move_of_step {e : Event Id H} (h : step site s e = some s') : Move site s s' := by
  unfold step at h
  split at h
  · next i event =>
    split_ifs at h
    obtain ⟨next, hnext, hsettled⟩ := Option.bind_eq_some_iff.mp h
    exact .went i event next hnext hsettled
  · next i =>
    obtain ⟨active, hactive, hlock⟩ := Option.bind_eq_some_iff.mp h
    rw [lockKeys_workspace] at hlock
    dsimp only at hlock
    split_ifs at hlock with hfree
    cases hlock
    exact .locked i (by rw [hactive]; rintro ⟨⟩) hfree rfl
  · next i kept =>
    split_ifs at h with hload
    cases h
    exact .loaded i kept hload.1 rfl
  · next i subject output now =>
    split_ifs at h with hadmitted
    obtain ⟨a, hpending, happlied⟩ := Option.bind_eq_some_iff.mp h
    exact .applied i subject output now a hadmitted hpending happlied

/-- Every step keeps the sessions and the locks in order. -/
theorem Sound.step {e : Event Id H} (h : Sound site s) (hstep : step site s e = some s') :
    Sound site s' := by
  cases move_of_step hstep with
  | went i event next hnext hsettled =>
    obtain ⟨media, hcoherent⟩ := h.coherent i
    exact h.settled ⟨media, hcoherent.step hnext⟩ hsettled
  | locked i hactive hfree heq => exact heq ▸ h.locked hactive hfree
  | loaded i kept hadmitted heq => exact heq ▸ h.loaded hadmitted kept
  | applied i subject output now a hadmitted hpending happlied => exact h.applied hadmitted happlied

omit [DecidableEq H] in
theorem sound_initial (h : Initial site s) : Sound site s := by
  refine ⟨?_, ?_, ?_⟩
  · intro i
    obtain ⟨ids, creation, source, scheduling, now, hcreate, heq⟩ := h.sources i
    rw [heq]
    exact ⟨_, Sources.coherent_created hcreate⟩
  · intro k i hk
    rw [h.locks] at hk
    cases hk
  · intro i hactive
    obtain ⟨ids, creation, source, scheduling, now, hcreate, heq⟩ := h.sources i
    rw [heq, Sources.State.created, Sources.scheduled_active] at hactive
    exact absurd rfl hactive

theorem Sound.run (h : Sound site s) (hrun : RunOf (Context.step site) anyEvent s s') :
    Sound site s' :=
  RunOf.invariant (P := Sound site) (fun _ _ _ hs _ hstep => hs.step hstep) hrun h

/-- The application is of the extraction that the checkpoint of a source holds, once more
matched with the directory where the attempt resumed it. -/
structure Applies (env : Env Id H) (source : Source Id H) (a : Application Id) : Prop where
  sourceId : a.sourceId = source.id
  title : a.sourceTitle = source.title
  extraction : ∃ c directory text, source.analysisCheckpoint = some c ∧ c.phase = .extracted ∧
    (a.result = c.result ∨
      a.result = (canonicalizeDirectoryEntities env.rt c.result directory text).1)

omit [DecidableEq H] in
/-- A pending application is of the extraction of its source. -/
theorem Sound.applies {subject : Text} {output : ContextUpdateOutput} {now : Instant}
    (h : Sound site s) (hpending : s.pending site i subject output now = some a) :
    Applies site.env (s.sources i).source a := by
  unfold State.pending at hpending
  split at hpending
  · next analyst session fresh hworking =>
    obtain ⟨c, hc, rfl⟩ := Option.map_eq_some_iff.mp hpending
    obtain ⟨media, hcoherent⟩ := h.coherent i
    have hengaged := hcoherent.engaged _ _ _ hworking
    have hagrees := hengaged.agrees
    refine ⟨(congrArg Source.id hagrees).symm, (congrArg Source.title hagrees).symm, c,
      analyst.directory session, session.analyzed, ?_, ?_, ?_⟩
    · rw [← hagrees.analysisCheckpoint]
      exact hc
    · have hphase := hengaged.facts.2
      rw [Sources.phase, hc] at hphase
      exact Option.some.inj hphase
    · cases fresh
      · exact .inr rfl
      · exact .inl rfl
  · cases hpending

/-- The source remembers the application as its merge. -/
def Recorded (s s' : State Id H) (i : Id) (a : Application Id) : Prop :=
  Sources.contexts (s'.sources i).sinks = Sources.contexts (s.sources i).sinks ++ [a.result]

theorem recorded_of_pending {subject : Text} {output : ContextUpdateOutput} {now : Instant}
    {warnings : List Text} (hpending : s.pending site i subject output now = some a)
    (hnext : Sources.step site.env (s.sources i) (.act (.merge warnings)) = some next) :
    Sources.contexts next.sinks = Sources.contexts (s.sources i).sinks ++ [a.result] := by
  obtain ⟨analyst, session, fresh, c, hworking, hc, -, hsinks⟩ := merged_of_step hnext
  unfold State.pending at hpending
  rw [hworking] at hpending
  dsimp only at hpending
  rw [hc, Option.map_some, Option.some.injEq] at hpending
  rw [hsinks, Sources.contexts_append, ← hpending]
  rfl

omit [DecidableEq H] in
/-- A step of one source leaves the Context Store alone. -/
theorem settled_frame (h : s.settled site i event next = some s') :
    s'.store = s.store ∧ s'.applications = s.applications := by
  unfold State.settled at h
  split at h
  · cases h
    exact ⟨rfl, rfl⟩
  · dsimp only at h
    split_ifs at h
    cases h
    exact ⟨rfl, rfl⟩
  · cases h
    exact ⟨rfl, rfl⟩
  · cases h
    obtain ⟨-, -, hstore, happlications, -⟩ := closed_frame (s.put i next) i next event
    exact ⟨hstore, happlications⟩

/-- A step writes the Context Store only by applying an extraction of a source to the record
committed before. -/
theorem Sound.stored {e : Event Id H} (h : Sound site s) (hstep : Context.step site s e = some s') :
    (s'.store = s.store ∧ s'.applications = s.applications) ∨
      ∃ i a, Applies site.env (s.sources i).source a ∧ Recorded s s' i a ∧
        s'.store = some (a.apply site.env.rt s.store).1 ∧
        s'.applications = s.applications ++ [a] := by
  cases move_of_step hstep with
  | went i event next hnext hsettled =>
    obtain ⟨hstore, happlications⟩ := settled_frame hsettled
    exact .inl ⟨hstore, happlications⟩
  | locked i hactive hfree heq => exact heq ▸ .inl ⟨rfl, rfl⟩
  | loaded i kept hadmitted heq =>
    subst heq
    unfold State.loaded
    split <;> exact .inl ⟨rfl, rfl⟩
  | applied i subject output now a hadmitted hpending happlied =>
    obtain ⟨next, hnext, hsources, -, hstore, happlications, -⟩ :=
      h.applied_cases hadmitted happlied
    refine .inr ⟨i, a, h.applies hpending, ?_, hstore, happlications⟩
    unfold Recorded
    rw [hsources, put_self]
    exact recorded_of_pending hpending hnext

/-- The record after some applications, in their order. -/
def applyAll (rt : Runtime Id) (applications : List (Application Id))
    (record : Option (ContextStoreRecord Id)) : Option (ContextStoreRecord Id) :=
  applications.foldl (fun record a => some (a.apply rt record).1) record

omit [DecidableEq Id] in
theorem applyAll_append (rt : Runtime Id) (applications : List (Application Id))
    (a : Application Id) (record : Option (ContextStoreRecord Id)) :
    applyAll rt (applications ++ [a]) record =
      some (a.apply rt (applyAll rt applications record)).1 := List.foldl_append ..

omit [DecidableEq H] in
/-- An attempt that waits for the lock of the workspace holds only the lock of its source. -/
theorem Sound.ordered (h : Sound site s) : (s.lockTable site).Ordered (· > ·) := by
  intro p k held hwanted hheld
  obtain ⟨i, hi, rfl⟩ := Option.map_eq_some_iff.mp hheld
  obtain ⟨active, -, hwanted⟩ := Option.bind_eq_some_iff.mp hwanted
  dsimp only at hwanted
  rw [lockKeys_workspace] at hwanted
  split_ifs at hwanted with hworkspace
  cases hwanted
  rcases (h.keyed held i hi).2 with rfl | rfl
  · exact workspaceKey_lt_key site i
  · exact absurd hi hworkspace

/-- In every run the record of the Context Store is the fold of the applications in the order of
their commits, each commit applies an extraction of a source to the record committed before, and
the attempts never wait for each other's advisory locks in a circle. -/
theorem no_merge_lost {s₀ : State Id H} (h₀ : Initial site s₀)
    (hrun : RunOf (Context.step site) anyEvent s₀ s) :
    s.store = applyAll site.env.rt s.applications s₀.store ∧
      (∀ e s', Context.step site s e = some s' →
        (s'.store = s.store ∧ s'.applications = s.applications) ∨
          ∃ i a, Applies site.env (s.sources i).source a ∧ Recorded s s' i a ∧
            s'.store = some (a.apply site.env.rt s.store).1 ∧
            s'.applications = s.applications ++ [a]) ∧
      ¬(s.lockTable site).Deadlocked := by
  have hfolded : Sound site s ∧ s.store = applyAll site.env.rt s.applications s₀.store := by
    refine RunOf.invariant (P := fun s => Sound site s ∧
      s.store = applyAll site.env.rt s.applications s₀.store) ?_ hrun ⟨sound_initial h₀, ?_⟩
    · intro mid e mid' ⟨hsound, hfold⟩ _ hstep
      refine ⟨hsound.step hstep, ?_⟩
      rcases hsound.stored hstep with ⟨hstore, hsame⟩ | ⟨i, a, -, -, hstore, hadded⟩
      · rw [hstore, hsame]
        exact hfold
      · rw [hstore, hadded, applyAll_append, ← hfold]
    · rw [h₀.applications]
      rfl
  exact ⟨hfolded.2, fun _ _ hstep => hfolded.1.stored hstep, hfolded.1.ordered.not_deadlocked⟩

end

/-- A workspace without a Context Store, whose sources are short documents from an agent. -/
def plainSite : Site Text PlainDigest where
  env := plainEnv .postgres false
  workspaceId := "w".toList
  leading id := id.foldl (fun n c => 256 * n + c.toNat) 0

/-- The document under an id, as it is created. -/
def plainMemo (i : Text) : Sources.State Text PlainDigest :=
  match Sources.create plainSite.env ⟨i, "w".toList, "o".toList⟩ plainDocument with
  | .ok (source, scheduling) => Sources.State.created source scheduling 0
  | .error _ => Sources.State.created (Source.new ⟨i, "w".toList, "o".toList⟩ .document [] [] 0)
      .none 0

/-- The documents before anything happened. -/
def plainStart : State Text PlainDigest where
  sources := plainMemo
  locks _ := none
  sessions _ := .fresh
  store := none
  rowLock := none
  applications := []

theorem initial_plainStart : Initial plainSite plainStart := by
  refine ⟨fun i => ?_, fun i => ⟨rfl, rfl⟩, fun _ => rfl, rfl, rfl⟩
  exact ⟨⟨i, "w".toList, "o".toList⟩, plainDocument, _, _, 0, rfl, rfl⟩

/-- The steps of a submission on one source of the workspace, from its lock to its end. -/
def plainAnalysis (i : Text) : List (Event Text PlainDigest) :=
  [.lockWorkspace i, .load i false, .source i (.receive emptyDirectory []), .load i true,
    .source i (.act (.extract (plainResult []) [])), .load i true,
    .apply i "Plans".toList ⟨[], [], [], []⟩ (instantAt 0),
    .source i (.act (.writeGraph true)), .source i (.act .finish)]

/-- Two submissions that arrive together: the second waits for the lock of the workspace. -/
def plainPair : List (Event Text PlainDigest) :=
  [.source ['a'] (.submit (plainRequest (plainResult []))),
    .source ['b'] (.submit (plainRequest (plainResult [])))] ++
    plainAnalysis ['a'] ++ plainAnalysis ['b']

/-- They apply their extractions one after the other. -/
theorem no_merge_lost_pair : ∃ s, replay (step plainSite) plainStart plainPair = some s ∧
    s.applications.length = 2 ∧ s.store ≠ none ∧
    s.store = applyAll plainRuntime s.applications none ∧
    ¬(s.lockTable plainSite).Deadlocked := by
  have hends : (replay (step plainSite) plainStart plainPair).any (fun s =>
      decide (s.applications.length = 2 ∧ s.store ≠ none)) = true := by decide +kernel
  cases hreplay : replay (step plainSite) plainStart plainPair with
  | none =>
    rw [hreplay] at hends
    cases hends
  | some s =>
    rw [hreplay] at hends
    obtain ⟨htwo, hstored⟩ := of_decide_eq_true hends
    obtain ⟨hfolded, -, hfree⟩ :=
      no_merge_lost initial_plainStart (runOf_replay (fun _ _ _ => trivial) hreplay)
    exact ⟨s, rfl, htwo, hstored, hfolded, hfree⟩

end Maeglagi.Context
