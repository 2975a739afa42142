import Maeglagi.Demo.Clone

/-!
# Retrying the clone

Attempts one after another, each under its own plan of how the calls end. An attempt strands a
graph when the graph is committed, the rows are not, and the graph is not deleted again. A
stranded graph stops every later attempt, and nothing else does.
-/

namespace Maeglagi.Demo

open Core

variable {U : Type} [DecidableEq U]

/-- An attempt: how its calls end, and its time. -/
structure Attempt where
  plan : Call → Fate
  now : Instant

/-- No call fails. -/
def Attempt.undisturbed (now : Instant) : Attempt := ⟨fun _ => .ok, now⟩

section Attempts

variable (ids : Ids U) (demo : Published U) (connected : Bool) (ownerId : U)

/-- How an attempt ends, and what is stored then. -/
def Stores.clone (s : Stores U) (a : Attempt) : Ending Failure (WorkspaceRow U × Nat) × Stores U :=
  (cloneDemo ids demo connected ownerId a.now).run a.plan s

/-- What is stored after attempts, of which the first finds nothing. -/
def afterAttempts (attempts : List Attempt) : Stores U :=
  attempts.foldl (fun s a => (s.clone ids demo connected ownerId a).2) .empty

/-- The attempt gets to the commit of its graph if it finds nothing. -/
structure ReachesGraph (plan : Call → Fate) : Prop where
  lock : plan .lock = .ok
  getTarget : plan .getTarget = .ok
  reads : ∀ c ∈ readCalls connected, plan c = .ok
  flushes : ∀ c ∈ (List.range 6).map Call.flush, plan c = .ok
  beginGraph : plan .beginGraph = .ok
  countGraph : plan .countGraph = .ok
  creates : ∀ c ∈ createCalls (readGraph demo connected), plan c = .ok

/-- The graph is deleted again after a commit of the rows that has failed. -/
structure TakesBack (plan : Call → Fate) : Prop where
  commit : plan .commit = .raised false
  rollback : plan .rollback = .ok
  verify : plan .verify = .ok
  deleted : (plan .deleteGraph).effective = true

/-- The attempt commits its graph, not its rows, and does not delete the graph again: because
the commit of the graph raises although it takes effect, or because the process stops or a
call of the handler fails. -/
def Strands (plan : Call → Fate) : Prop :=
  copyGraph (readGraph demo connected) = true ∧ ReachesGraph demo connected plan ∧
    (plan .commitGraph = .raised true ∨
      plan .commitGraph = .ok ∧ (plan .commit).effective = false ∧ ¬TakesBack plan)

end Attempts

section Handler

variable {plan : Call → Fate} {s s' : Stores U} {α : Type}

/-- What is stored after the graph is deleted while there are no rows. -/
def Stores.takenBack (s : Stores U) : Stores U :=
  { s with graph := ⟨[], []⟩, deletions := s.deletions ++ [false] }

omit [DecidableEq U] in
/-- The handler of an attempt that has written no graph changes nothing. -/
theorem handle_unwritten (plan : Call → Fate) (s : Stores U) (error : Failure) :
    (handle false error : Step U α).Fails plan s s := by
  unfold handle
  rcases Calls.ask_cases plan s .rollback Failure.call fun _ => () with ⟨-, hrun⟩ | ⟨-, hfails⟩
  · exact Calls.fails_of_returned hrun (Calls.fails_of_raised rfl)
  · exact hfails.bind _

omit [DecidableEq U] in
/-- The handler keeps the graph when the rows are committed. -/
theorem handle_committed (hrows : s.rows.isSome = true) (error : Failure) :
    (handle true error : Step U α).Fails plan s s := by
  unfold handle
  rcases Calls.ask_cases plan s .rollback Failure.call fun _ => () with ⟨-, hrun⟩ | ⟨-, hfails⟩
  · refine Calls.fails_of_returned hrun ?_
    rw [if_pos rfl]
    cases hverify : plan .verify with
    | ok =>
      refine Calls.fails_of_returned (Calls.onRaise_returned (Calls.call_ok hverify _ _ _)) ?_
      rw [if_neg (by simp [hrows])]
      exact Calls.fails_of_raised rfl
    | raised effect =>
      have hassumed : (Calls.onRaise (.ask .verify Failure.call fun s : Stores U => s.rows.isSome)
          fun _ => pure true).run plan s = (.returned true, s) := by
        rw [Calls.onRaise_raised (Calls.call_raised hverify _ _ _), id, ite_self]
        rfl
      exact Calls.fails_of_returned hassumed (Calls.fails_of_raised rfl)
    | stopped =>
      exact (Calls.fails_of_stopped (Calls.onRaise_stopped
        (Calls.call_stopped hverify _ _ _))).bind _
  · exact hfails.bind _

omit [DecidableEq U] in
theorem deleteGraph_ok (h : plan .deleteGraph = .ok) (hrows : s.rows = none) :
    deleteGraph.run plan s = (.returned (), s.takenBack) := by
  unfold deleteGraph Stores.takenBack
  rw [Calls.call_ok h, hrows]
  rfl

omit [DecidableEq U] in
theorem deleteGraph_raised {effect : Bool} (h : plan .deleteGraph = .raised effect)
    (hrows : s.rows = none) : deleteGraph.run plan s =
      (.raised .call, if effect then s.takenBack else s) := by
  unfold deleteGraph Stores.takenBack
  rw [Calls.call_raised h, hrows]
  rfl

/-- What the handler leaves where the graph is committed and the rows are not. -/
def Stores.handled (s : Stores U) (plan : Call → Fate) : Stores U :=
  if plan .rollback = .ok ∧ plan .verify = .ok ∧ (plan .deleteGraph).effective = true then
    s.takenBack
  else s

omit [DecidableEq U] in
/-- Where the rows are not committed, the handler deletes the graph unless a call fails. -/
theorem handle_absent (plan : Call → Fate) (hrows : s.rows = none) (error : Failure) :
    (handle true error : Step U α).Fails plan s (s.handled plan) := by
  unfold handle
  rcases Calls.ask_cases plan s .rollback Failure.call fun _ => () with
    ⟨hrollback, hrun⟩ | ⟨hrollback, hfails⟩
  · refine Calls.fails_of_returned hrun ?_
    rw [if_pos rfl]
    cases hverify : plan .verify with
    | ok =>
      refine Calls.fails_of_returned (Calls.onRaise_returned (Calls.call_ok hverify _ _ _)) ?_
      rw [if_pos (by simp [hrows])]
      cases hdelete : plan .deleteGraph with
      | ok =>
        have hhandled : s.handled plan = s.takenBack := if_pos ⟨hrollback, hverify, by simp [hdelete,
          Fate.effective]⟩
        rw [hhandled]
        exact Calls.fails_of_returned (deleteGraph_ok hdelete hrows) (Calls.fails_of_raised rfl)
      | raised effect =>
        have hhandled : s.handled plan = if effect then s.takenBack else s := by
          simp [Stores.handled, hrollback, hverify, hdelete, Fate.effective]
        rw [hhandled]
        exact (Calls.fails_of_raised (deleteGraph_raised hdelete hrows)).bind _
      | stopped =>
        have hhandled : s.handled plan = s := if_neg (by simp [hdelete, Fate.effective])
        rw [hhandled]
        exact (Calls.fails_of_stopped (Calls.call_stopped hdelete _ _ _)).bind _
    | raised effect =>
      have hhandled : s.handled plan = s := if_neg (by simp [hverify])
      have hassumed : (Calls.onRaise (.ask .verify Failure.call fun s : Stores U => s.rows.isSome)
          fun _ => pure true).run plan s = (.returned true, s) := by
        rw [Calls.onRaise_raised (Calls.call_raised hverify _ _ _), id, ite_self]
        rfl
      rw [hhandled]
      exact Calls.fails_of_returned hassumed (Calls.fails_of_raised rfl)
    | stopped =>
      have hhandled : s.handled plan = s := if_neg (by simp [hverify])
      rw [hhandled]
      exact (Calls.fails_of_stopped (Calls.onRaise_stopped
        (Calls.call_stopped hverify _ _ _))).bind _
  · have hhandled : s.handled plan = s := if_neg fun h => hrollback h.1
    rw [hhandled]
    exact hfails.bind _

end Handler

section Writing

variable {plan : Call → Fate} {s : Stores U} {ids : Ids U} {target : U} {graph : Graph}

/-- What is stored once the graph is committed where there was none. -/
def Stores.written (s : Stores U) (ids : Ids U) (target : U) (graph : Graph) : Stores U :=
  { s with graph := graph.copy ids target }

/-- The statements before the commit of the graph return. -/
structure Stated (graph : Graph) (plan : Call → Fate) : Prop where
  beginGraph : plan .beginGraph = .ok
  countGraph : plan .countGraph = .ok
  creates : ∀ c ∈ createCalls graph, plan c = .ok

omit [DecidableEq U] in
/-- A graph that is there already is left alone. -/
theorem writeGraph_occupied (h : s.graph.nodes ≠ []) :
    (writeGraph ids target graph).Fails plan s s := by
  unfold writeGraph
  rcases Calls.ask_cases plan s .beginGraph Failure.call fun _ => () with ⟨-, hrun⟩ | ⟨-, hfails⟩
  · refine Calls.fails_of_returned hrun ?_
    rcases Calls.ask_cases plan s .countGraph Failure.call fun s => s.graph.nodes.length with
      ⟨-, hrun⟩ | ⟨-, hfails⟩
    · refine Calls.fails_of_returned hrun ?_
      rw [if_pos (by simpa using h)]
      exact Calls.fails_of_raised rfl
    · exact hfails.bind _
  · exact hfails.bind _

omit [DecidableEq U] in
/-- Where nothing is stored, the graph is written by the commit after its statements. -/
theorem writeGraph_stated (h : Stated graph plan) (hempty : s.graph = ⟨[], []⟩) :
    (writeGraph ids target graph).run plan s =
      match plan .commitGraph with
      | .ok => (.returned (), s.written ids target graph)
      | .raised effect => (.raised .call, if effect then s.written ids target graph else s)
      | .stopped => (.stopped, s) := by
  unfold writeGraph Stores.written
  rw [Calls.bind_returned (Calls.call_ok h.beginGraph _ _ _),
    Calls.bind_returned (Calls.call_ok h.countGraph _ _ _)]
  rw [if_neg (by simp [hempty]), Calls.bind_returned (Calls.tellAll_ok h.creates _ _)]
  cases hcommit : plan .commitGraph <;>
    simp only [Calls.call, hcommit, hempty, id, List.nil_append]

omit [DecidableEq U] in
theorem writeGraph_unstated (h : ¬Stated graph plan) :
    (writeGraph ids target graph).Fails plan s s := by
  unfold writeGraph
  rcases Calls.ask_cases plan s .beginGraph Failure.call fun _ => () with
    ⟨hbegin, hrun⟩ | ⟨-, hfails⟩
  · refine Calls.fails_of_returned hrun ?_
    rcases Calls.ask_cases plan s .countGraph Failure.call fun s => s.graph.nodes.length with
      ⟨hcount, hrun⟩ | ⟨-, hfails⟩
    · refine Calls.fails_of_returned hrun ?_
      by_cases hempty : s.graph.nodes.length ≠ 0
      · rw [if_pos hempty]
        exact Calls.fails_of_raised rfl
      · rw [if_neg hempty]
        exact (Calls.tellAll_fails (fun hall => h ⟨hbegin, hcount, hall⟩) _ _).bind _
    · exact hfails.bind _
  · exact hfails.bind _

/-- The attempt gets past its statements, if any graph is to be written with all of those. -/
structure Prepared (graph : Graph) (plan : Call → Fate) : Prop where
  flushes : ∀ c ∈ (List.range 6).map Call.flush, plan c = .ok
  stated : copyGraph graph = true → Stated graph plan

omit [DecidableEq U] in
theorem writeBefore_unprepared (h : ¬Prepared graph plan) :
    (writeBefore ids target graph).Fails plan s s := by
  refine Calls.Fails.onRaise ?_ fun error => handle_unwritten plan s error
  by_cases hflush : ∀ c ∈ (List.range 6).map Call.flush, plan c = .ok
  · refine Calls.fails_of_returned (Calls.tellAll_ok hflush _ _) ?_
    by_cases hcopy : copyGraph graph = true
    · rw [if_pos hcopy]
      exact writeGraph_unstated fun hstated => h ⟨hflush, fun _ => hstated⟩
    · exact absurd ⟨hflush, fun hc => absurd hc hcopy⟩ h
  · exact (Calls.tellAll_fails hflush _ _).bind _

omit [DecidableEq U] in
theorem writeBefore_occupied (hcopy : copyGraph graph = true) (h : s.graph.nodes ≠ []) :
    (writeBefore ids target graph).Fails plan s s := by
  refine Calls.Fails.onRaise ?_ fun error => handle_unwritten plan s error
  by_cases hflush : ∀ c ∈ (List.range 6).map Call.flush, plan c = .ok
  · refine Calls.fails_of_returned (Calls.tellAll_ok hflush _ _) ?_
    rw [if_pos hcopy]
    exact writeGraph_occupied h
  · exact (Calls.tellAll_fails hflush _ _).bind _

omit [DecidableEq U] in
/-- Without a graph to be written nothing is stored before the commit of the rows. -/
theorem writeBefore_rows (h : Prepared graph plan) (hcopy : ¬copyGraph graph = true) :
    (writeBefore ids target graph).run plan s = (.returned (), s) := by
  refine Calls.onRaise_returned ?_
  rw [Calls.bind_returned (Calls.tellAll_ok h.flushes _ _), if_neg hcopy]
  rfl

omit [DecidableEq U] in
/-- The graph is stored before the commit of the rows, whether or not its own commit returns. -/
theorem writeBefore_graph (ids : Ids U) (target : U) (h : Prepared graph plan) (hcopy : copyGraph graph = true)
    (hempty : s.graph = ⟨[], []⟩) :
    plan .commitGraph = .ok ∧ (writeBefore ids target graph).run plan s =
        (.returned (), s.written ids target graph) ∨
      plan .commitGraph = .raised true ∧
        (writeBefore ids target graph).Fails plan s (s.written ids target graph) ∨
      (plan .commitGraph).effective = false ∧ (writeBefore ids target graph).Fails plan s s := by
  have hrun : (do
      Calls.tellAll Failure.call ((List.range 6).map .flush)
      if copyGraph graph then writeGraph ids target graph : Step U Unit).run plan s =
      (writeGraph ids target graph).run plan s := by
    rw [Calls.bind_returned (Calls.tellAll_ok h.flushes _ _), if_pos hcopy]
  rw [writeGraph_stated (h.stated hcopy) hempty] at hrun
  cases hcommit : plan .commitGraph with
  | ok =>
    rw [hcommit] at hrun
    exact .inl ⟨rfl, Calls.onRaise_returned hrun⟩
  | raised effect =>
    rw [hcommit] at hrun
    have hfails := Calls.fails_of_raised hrun
    cases effect with
    | true =>
      refine .inr (.inl ⟨rfl, ?_⟩)
      exact hfails.onRaise fun error => handle_unwritten plan _ error
    | false =>
      refine .inr (.inr ⟨rfl, ?_⟩)
      exact hfails.onRaise fun error => handle_unwritten plan _ error
  | stopped =>
    rw [hcommit] at hrun
    exact .inr (.inr ⟨rfl, Calls.fails_of_stopped (Calls.onRaise_stopped hrun)⟩)

/-- What is stored once the rows are committed. -/
def Stores.committed (s : Stores U) (rows : Rows U) : Stores U := { s with rows := some rows }

omit [DecidableEq U] in
theorem commitRows_ok (h : plan .commit = .ok) (graphWritten : Bool) (rows : Rows U) :
    (commitRows graphWritten rows).run plan s = (.returned (), s.committed rows) :=
  Calls.onRaise_returned (Calls.call_ok h _ _ _)

omit [DecidableEq U] in
/-- Rows that are committed although the commit raises stay, with their graph. -/
theorem commitRows_effective (h : plan .commit = .raised true) (graphWritten : Bool)
    (rows : Rows U) : (commitRows graphWritten rows).Fails plan s (s.committed rows) := by
  refine Calls.onRaise_fails (Calls.call_raised h _ _ _) ?_
  cases graphWritten with
  | false => exact handle_unwritten plan _ .call
  | true => exact handle_committed rfl .call

omit [DecidableEq U] in
/-- Without a graph nothing stays of rows that are not committed. -/
theorem commitRows_rows (h : (plan .commit).effective = false) (rows : Rows U) :
    (commitRows false rows).Fails plan s s := by
  cases hcommit : plan .commit with
  | ok => simp [hcommit, Fate.effective] at h
  | raised effect =>
    obtain rfl : effect = false := by simpa [hcommit, Fate.effective] using h
    exact Calls.onRaise_fails (Calls.call_raised hcommit _ _ _) (handle_unwritten plan _ .call)
  | stopped =>
    exact Calls.fails_of_stopped (Calls.onRaise_stopped (Calls.call_stopped hcommit _ _ _))

omit [DecidableEq U] in
/-- With a graph nothing stays of rows that are not committed, if the graph is taken back. -/
theorem commitRows_graph (h : (plan .commit).effective = false) (hrows : s.rows = none)
    (rows : Rows U) : TakesBack plan ∧ (commitRows true rows).Fails plan s s.takenBack ∨
      ¬TakesBack plan ∧ (commitRows true rows).Fails plan s s := by
  cases hcommit : plan .commit with
  | ok => simp [hcommit, Fate.effective] at h
  | raised effect =>
    obtain rfl : effect = false := by simpa [hcommit, Fate.effective] using h
    have hfails : (commitRows true rows).Fails plan s (s.handled plan) :=
      Calls.onRaise_fails (Calls.call_raised hcommit _ _ _) (handle_absent plan hrows .call)
    unfold Stores.handled at hfails
    by_cases hback : plan .rollback = .ok ∧ plan .verify = .ok ∧
        (plan .deleteGraph).effective = true
    · rw [if_pos hback] at hfails
      exact .inl ⟨⟨hcommit, hback.1, hback.2.1, hback.2.2⟩, hfails⟩
    · rw [if_neg hback] at hfails
      exact .inr ⟨fun h => hback ⟨h.rollback, h.verify, h.deleted⟩, hfails⟩
  | stopped =>
    refine .inr ⟨fun hback => by simp [hback.commit] at hcommit, ?_⟩
    exact Calls.fails_of_stopped (Calls.onRaise_stopped (Calls.call_stopped hcommit _ _ _))

end Writing

/-! ## One attempt -/

section Attempt

variable {ids : Ids U} {demo : Published U} {connected : Bool} {ownerId : U} {s : Stores U}

theorem require_eq_ok {condition : Bool} {message : String} {u : Unit}
    (h : require condition message = .ok u) : condition = true := by
  unfold require at h
  by_cases hc : condition = true
  · exact hc
  · rw [if_neg hc] at h
    cases h

theorem sized_of_checked {graph : Graph} (h : checked ids demo graph = .ok ()) :
    demo.sized graph = true := by
  obtain ⟨u, hsized, -⟩ := bind_eq_ok.mp h
  exact require_eq_ok hsized

/-- A demo that passes the checks has a first meeting. -/
theorem exists_firstMeeting {graph : Graph} (h : checked ids demo graph = .ok ()) :
    ∃ first, demo.firstMeeting = some first := by
  have hsized := sized_of_checked h
  simp only [Published.sized, Bool.and_eq_true, List.any_eq_true, decide_eq_true_eq] at hsized
  obtain ⟨source, hsource, hmeeting⟩ := hsized.1.2
  refine Option.ne_none_iff_exists'.mp fun hnone => ?_
  have hempty := List.argmin_eq_none.mp hnone
  have hmem : source ∈ demo.sources.filter fun s => decide (s.kind = .meeting) :=
    List.mem_filter.mpr ⟨hsource, by simp [hmeeting]⟩
  rw [hempty] at hmem
  cases hmem

omit [DecidableEq U] in
/-- A graph that is copied has nodes. -/
theorem nodes_of_checked [DecidableEq U] {graph : Graph} (h : checked ids demo graph = .ok ())
    (hcopy : copyGraph graph = true) : graph.nodes ≠ [] := by
  have hsized := sized_of_checked h
  simp only [Published.sized, Bool.and_eq_true, Bool.or_eq_true, hcopy, Bool.not_true,
    Bool.false_eq_true, false_or, decide_eq_true_eq] at hsized
  have hlength := hsized.1.1.2.1
  intro hnil
  rw [hnil] at hlength
  cases hlength

/-- The graph that a clone has. -/
def cloneGraph (ids : Ids U) (demo : Published U) (connected : Bool) (ownerId : U) : Graph :=
  (readGraph demo connected).copy ids (targetId ids ownerId demo.workspace.id)

/-- Rows that a clone may have, made at some time. -/
def CloneRows (ids : Ids U) (demo : Published U) (ownerId : U) (rows : Rows U) : Prop :=
  ∃ now first, demo.firstMeeting = some first ∧ rows = demo.toRows.copy ids ownerId now first

/-- Nothing is stored, apart from the note of deletions. -/
structure Absent (s : Stores U) : Prop where
  rows : s.rows = none
  graph : s.graph = ⟨[], []⟩

/-- A whole clone is stored. -/
structure Complete (ids : Ids U) (demo : Published U) (connected : Bool) (ownerId : U)
    (s : Stores U) : Prop where
  rows : ∃ rows, s.rows = some rows ∧ CloneRows ids demo ownerId rows
  graph : s.graph = cloneGraph ids demo connected ownerId

/-- A graph is stored without rows. -/
structure Stranded (demo : Published U) (connected : Bool) (s : Stores U) : Prop where
  rows : s.rows = none
  nodes : s.graph.nodes ≠ []
  copied : copyGraph (readGraph demo connected) = true

/-- An attempt that finds no rows goes on to copy the demo, or fails. -/
theorem clone_opening (hrows : s.rows = none) (plan : Call → Fate) (now : Instant) :
    plan .lock = .ok ∧ plan .getTarget = .ok ∧
        (cloneDemo ids demo connected ownerId now).run plan s =
          (copyDemo ids demo connected ownerId now).run plan s ∨
      ¬(plan .lock = .ok ∧ plan .getTarget = .ok) ∧
        (cloneDemo ids demo connected ownerId now).Fails plan s s := by
  unfold cloneDemo
  rcases Calls.ask_cases plan s .lock Failure.call fun _ => () with ⟨hlock, hrun⟩ | ⟨hlock, hfails⟩
  · rcases Calls.ask_cases plan s .getTarget Failure.call Stores.rows with
      ⟨htarget, hfound⟩ | ⟨htarget, hfails⟩
    · refine .inl ⟨hlock, htarget, ?_⟩
      rw [Calls.bind_returned hrun, Calls.bind_returned hfound, hrows]
    · exact .inr ⟨fun h => htarget h.2, Calls.fails_of_returned hrun (hfails.bind _)⟩
  · exact .inr ⟨fun h => hlock h.1, hfails.bind _⟩

/-- The copy goes on to write, or fails without a change. -/
theorem copyDemo_opening (hchecked : checked ids demo (readGraph demo connected) = .ok ())
    {first : SourceRow U} (hfirst : demo.firstMeeting = some first) (plan : Call → Fate)
    (now : Instant) :
    (∀ c ∈ readCalls connected, plan c = .ok) ∧
        (copyDemo ids demo connected ownerId now).run plan s = (do
          writeBefore ids (targetId ids ownerId demo.workspace.id) (readGraph demo connected)
          commitRows (copyGraph (readGraph demo connected))
            (demo.toRows.copy ids ownerId now first)
          return ((demo.toRows.copy ids ownerId now first).workspace, demo.sources.length + 1) :
          Step U (WorkspaceRow U × Nat)).run plan s ∨
      (¬∀ c ∈ readCalls connected, plan c = .ok) ∧
        (copyDemo ids demo connected ownerId now).Fails plan s s := by
  unfold copyDemo
  by_cases hreads : ∀ c ∈ readCalls connected, plan c = .ok
  · refine .inl ⟨hreads, ?_⟩
    rw [Calls.bind_returned (Calls.onRaise_returned (Calls.tellAll_ok hreads _ _))]
    dsimp only
    rw [hchecked, Calls.bind_returned (show (Calls.of (.ok ()) : Step U Unit).run plan s = _ from rfl)]
    rw [hfirst]
    rfl
  · refine .inr ⟨hreads, ?_⟩
    exact ((Calls.tellAll_fails hreads _ _).onRaise fun _ => Calls.fails_of_raised rfl).bind _

/-- An attempt that finds a clone leaves it as it is. -/
theorem clone_complete (h : Complete ids demo connected ownerId s) (a : Attempt) :
    (s.clone ids demo connected ownerId a).2 = s := by
  obtain ⟨rows, hrows, now, first, -, rfl⟩ := h.rows
  unfold Stores.clone cloneDemo
  rcases Calls.ask_cases a.plan s .lock Failure.call fun _ => () with ⟨-, hrun⟩ | ⟨-, hfails⟩
  · rw [Calls.bind_returned hrun]
    rcases Calls.ask_cases a.plan s .getTarget Failure.call Stores.rows with
      ⟨-, hfound⟩ | ⟨-, hfails⟩
    · rw [Calls.bind_returned hfound, hrows]
      dsimp only
      rw [if_neg (by simp [Rows.copy])]
      rcases Calls.ask_cases a.plan s .listSources Failure.call fun _ => () with
        ⟨-, hlisted⟩ | ⟨-, hfails⟩
      · rw [Calls.bind_returned hlisted]
        rfl
      · exact (hfails.bind _).1
    · exact (hfails.bind _).1
  · exact (hfails.bind _).1

/-- An attempt that finds a graph without rows leaves it there, and does not return. -/
theorem clone_stranded (hchecked : checked ids demo (readGraph demo connected) = .ok ())
    (h : Stranded demo connected s) (a : Attempt) :
    (cloneDemo ids demo connected ownerId a.now).Fails a.plan s s := by
  obtain ⟨first, hfirst⟩ := exists_firstMeeting hchecked
  rcases clone_opening h.rows a.plan a.now with ⟨-, -, hrun⟩ | ⟨-, hfails⟩
  · unfold Calls.Fails
    rw [hrun]
    rcases copyDemo_opening hchecked hfirst a.plan a.now with ⟨-, hcopy⟩ | ⟨-, hfails⟩
    · rw [hcopy]
      exact (writeBefore_occupied h.copied h.nodes).bind _
    · exact hfails
  · exact hfails

omit [DecidableEq U] in
theorem ReachesGraph.prepared {plan : Call → Fate} (h : ReachesGraph demo connected plan) :
    Prepared (readGraph demo connected) plan :=
  ⟨h.flushes, fun _ => ⟨h.beginGraph, h.countGraph, h.creates⟩⟩

omit [DecidableEq U] in
/-- Without a graph to be copied the clone has none. -/
theorem cloneGraph_of_not_copyGraph (h : ¬copyGraph (readGraph demo connected) = true) :
    cloneGraph ids demo connected ownerId = ⟨[], []⟩ := by
  unfold copyGraph at h
  simp only [Bool.not_eq_true', Bool.and_eq_false_iff, not_or, Bool.not_eq_false,
    List.isEmpty_iff] at h
  simp [cloneGraph, Graph.copy, createdEdges, h.1, h.2]

/-- What is stored after an attempt that found nothing: nothing, a whole clone, or a graph
without rows if the plan strands it. Nothing committed is deleted. -/
structure Leaves (ids : Ids U) (demo : Published U) (connected : Bool) (ownerId : U)
    (plan : Call → Fate) (s s' : Stores U) : Prop where
  stranded : Strands demo connected plan → Stranded demo connected s'
  settled : ¬Strands demo connected plan → Absent s' ∨ Complete ids demo connected ownerId s'
  deletions : s'.deletions = s.deletions ∨ s'.deletions = s.deletions ++ [false]

omit [DecidableEq U] in
theorem Leaves.of_not [DecidableEq U] {plan : Call → Fate} {s' : Stores U}
    (hnot : ¬Strands demo connected plan)
    (h : Absent s' ∨ Complete ids demo connected ownerId s') (hdeletions : s'.deletions =
      s.deletions ∨ s'.deletions = s.deletions ++ [false]) :
    Leaves ids demo connected ownerId plan s s' :=
  ⟨fun hstrands => absurd hstrands hnot, fun _ => h, hdeletions⟩

/-- What is stored after the commit of the rows, where no graph is copied. -/
theorem leaves_rows {plan : Call → Fate} {first : SourceRow U} (now : Instant) (h : Absent s)
    (hcopy : ¬copyGraph (readGraph demo connected) = true)
    (hfirst : demo.firstMeeting = some first) : Leaves ids demo connected ownerId plan s
      ((commitRows false (demo.toRows.copy ids ownerId now first)).run plan s).2 := by
  have hnot : ¬Strands demo connected plan := fun hstrands => hcopy hstrands.1
  have hcomplete : Complete ids demo connected ownerId
      (s.committed (demo.toRows.copy ids ownerId now first)) :=
    ⟨⟨_, rfl, now, first, hfirst, rfl⟩, h.graph.trans (cloneGraph_of_not_copyGraph hcopy).symm⟩
  cases hcommit : plan .commit with
  | ok =>
    rw [commitRows_ok hcommit]
    exact .of_not hnot (.inr hcomplete) (.inl rfl)
  | raised effect =>
    cases effect with
    | true =>
      rw [(commitRows_effective hcommit _ _).1]
      exact .of_not hnot (.inr hcomplete) (.inl rfl)
    | false =>
      rw [(commitRows_rows (by rw [hcommit]; rfl) _).1]
      exact .of_not hnot (.inl h) (.inl rfl)
  | stopped =>
    rw [(commitRows_rows (by rw [hcommit]; rfl) _).1]
    exact .of_not hnot (.inl h) (.inl rfl)

/-- What is stored after the commit of the rows, once the graph is written. -/
theorem leaves_graph {plan : Call → Fate} {first : SourceRow U} (now : Instant) (h : Absent s)
    (hchecked : checked ids demo (readGraph demo connected) = .ok ())
    (hcopy : copyGraph (readGraph demo connected) = true)
    (hreaches : ReachesGraph demo connected plan) (hgraph : plan .commitGraph = .ok)
    (hfirst : demo.firstMeeting = some first) : Leaves ids demo connected ownerId plan s
      ((commitRows true (demo.toRows.copy ids ownerId now first)).run plan
        (s.written ids (targetId ids ownerId demo.workspace.id) (readGraph demo connected))).2 := by
  have hstrands : Strands demo connected plan ↔
      (plan .commit).effective = false ∧ ¬TakesBack plan := by
    simp [Strands, hcopy, hreaches, hgraph]
  have hcomplete : Complete ids demo connected ownerId
      ((s.written ids (targetId ids ownerId demo.workspace.id) (readGraph demo connected)).committed
        (demo.toRows.copy ids ownerId now first)) :=
    ⟨⟨_, rfl, now, first, hfirst, rfl⟩, rfl⟩
  by_cases heffective : (plan .commit).effective = true
  · have hnot : ¬Strands demo connected plan := by
      rw [hstrands, heffective]
      simp
    cases hcommit : plan .commit with
    | ok =>
      rw [commitRows_ok hcommit]
      exact .of_not hnot (.inr hcomplete) (.inl rfl)
    | raised effect =>
      obtain rfl : effect = true := by simpa [hcommit, Fate.effective] using heffective
      rw [(commitRows_effective hcommit _ _).1]
      exact .of_not hnot (.inr hcomplete) (.inl rfl)
    | stopped => simp [hcommit, Fate.effective] at heffective
  · have hlost : (plan .commit).effective = false := by simpa using heffective
    rcases commitRows_graph hlost (s := s.written ids _ _) h.rows _ with
      ⟨hback, hfails⟩ | ⟨hback, hfails⟩
    · rw [hfails.1]
      exact .of_not (fun hs => (hstrands.mp hs).2 hback) (.inl ⟨h.rows, rfl⟩) (.inr rfl)
    · rw [hfails.1]
      refine ⟨fun _ => ⟨h.rows, ?_, hcopy⟩, fun hnot => absurd (hstrands.mpr ⟨hlost, hback⟩) hnot,
        .inl rfl⟩
      simpa [Stores.written, Graph.copy] using nodes_of_checked hchecked hcopy

/-- What an attempt leaves that finds nothing. -/
theorem clone_absent (h : Absent s)
    (hchecked : checked ids demo (readGraph demo connected) = .ok ()) (a : Attempt) :
    Leaves ids demo connected ownerId a.plan s (s.clone ids demo connected ownerId a).2 := by
  obtain ⟨first, hfirst⟩ := exists_firstMeeting hchecked
  have hsame : ¬ReachesGraph demo connected a.plan →
      Leaves ids demo connected ownerId a.plan s s := fun hnot =>
    .of_not (fun hstrands => hnot hstrands.2.1) (.inl h) (.inl rfl)
  unfold Stores.clone
  rcases clone_opening h.rows a.plan a.now with ⟨hlock, htarget, hrun⟩ | ⟨hnot, hfails⟩
  · rw [hrun]
    rcases copyDemo_opening hchecked hfirst a.plan a.now with ⟨hreads, hcopied⟩ | ⟨hnot, hfails⟩
    · rw [hcopied]
      by_cases hprepared : Prepared (readGraph demo connected) a.plan
      · by_cases hcopy : copyGraph (readGraph demo connected) = true
        · have hreaches : ReachesGraph demo connected a.plan :=
            ⟨hlock, htarget, hreads, hprepared.flushes, (hprepared.stated hcopy).beginGraph,
              (hprepared.stated hcopy).countGraph, (hprepared.stated hcopy).creates⟩
          rcases writeBefore_graph ids _ hprepared hcopy h.graph with
            ⟨hgraph, hwritten⟩ | ⟨hgraph, hfails⟩ | ⟨hgraph, hfails⟩
          · rw [Calls.bind_returned hwritten, hcopy, Calls.run_bind_pure]
            exact leaves_graph a.now h hchecked hcopy hreaches hgraph hfirst
          · rw [(hfails.bind _).1]
            have hstrands : Strands demo connected a.plan := ⟨hcopy, hreaches, .inl hgraph⟩
            refine ⟨fun _ => ⟨h.rows, ?_, hcopy⟩, fun hnot => absurd hstrands hnot, .inl rfl⟩
            simpa [Stores.written, Graph.copy] using nodes_of_checked hchecked hcopy
          · rw [(hfails.bind _).1]
            refine .of_not (fun hstrands => ?_) (.inl h) (.inl rfl)
            rcases hstrands.2.2 with hraised | ⟨hok, -⟩
            · simp [hraised, Fate.effective] at hgraph
            · simp [hok, Fate.effective] at hgraph
        · rw [Calls.bind_returned (writeBefore_rows hprepared hcopy), Calls.run_bind_pure,
            Bool.eq_false_iff.mpr hcopy]
          exact leaves_rows a.now h hcopy hfirst
      · rw [((writeBefore_unprepared hprepared).bind _).1]
        exact hsame fun hreaches => hprepared hreaches.prepared
    · rw [hfails.1]
      exact hsame fun hreaches => hnot hreaches.reads
  · rw [hfails.1]
    exact hsame fun hreaches => hnot ⟨hreaches.lock, hreaches.getTarget⟩

omit [DecidableEq U] in
theorem prepared_undisturbed (graph : Graph) : Prepared graph fun _ => .ok :=
  ⟨fun _ _ => rfl, fun _ => ⟨rfl, rfl, fun _ _ => rfl⟩⟩

omit [DecidableEq U] in
/-- Undisturbed, the graph that the clone has is written before the rows. -/
theorem writeBefore_undisturbed (h : Absent s) :
    (writeBefore ids (targetId ids ownerId demo.workspace.id) (readGraph demo connected)).run
        (fun _ => .ok) s =
      (.returned (), { s with graph := cloneGraph ids demo connected ownerId }) := by
  by_cases hcopy : copyGraph (readGraph demo connected) = true
  · rcases writeBefore_graph ids _ (prepared_undisturbed _) hcopy h.graph with
      ⟨-, hrun⟩ | ⟨habsurd, -⟩ | ⟨habsurd, -⟩
    · exact hrun
    · cases habsurd
    · cases habsurd
  · rw [writeBefore_rows (prepared_undisturbed _) hcopy, cloneGraph_of_not_copyGraph hcopy,
      ← h.graph]

/-- An undisturbed attempt that finds nothing writes and returns a clone. -/
theorem clone_undisturbed_absent (h : Absent s)
    (hchecked : checked ids demo (readGraph demo connected) = .ok ()) (now : Instant) :
    ∃ rows s', s.clone ids demo connected ownerId (.undisturbed now) =
        (.returned (rows.workspace, rows.sources.length), s') ∧ s'.rows = some rows ∧
      Complete ids demo connected ownerId s' := by
  obtain ⟨first, hfirst⟩ := exists_firstMeeting hchecked
  refine ⟨demo.toRows.copy ids ownerId now first,
    Stores.committed { s with graph := cloneGraph ids demo connected ownerId } _, ?_, rfl,
    ⟨_, rfl, now, first, hfirst, rfl⟩, rfl⟩
  unfold Stores.clone
  rcases clone_opening h.rows (fun _ => .ok) now with ⟨-, -, hrun⟩ | ⟨hnot, -⟩
  · rcases copyDemo_opening hchecked hfirst (fun _ => .ok) now with ⟨-, hcopied⟩ | ⟨hnot, -⟩
    · refine hrun.trans (hcopied.trans ?_)
      rw [Calls.bind_returned (writeBefore_undisturbed h),
        Calls.bind_returned (commitRows_ok rfl _ _)]
      simp [Stores.committed, Rows.copy]
    · exact absurd (fun _ _ => rfl) hnot
  · exact absurd ⟨rfl, rfl⟩ hnot

omit [DecidableEq U] in
/-- An undisturbed attempt that finds a clone returns it. -/
theorem clone_undisturbed_complete [DecidableEq U] (h : Complete ids demo connected ownerId s)
    (now : Instant) :
    ∃ rows s', s.clone ids demo connected ownerId (.undisturbed now) =
        (.returned (rows.workspace, rows.sources.length), s') ∧ s'.rows = some rows ∧
      Complete ids demo connected ownerId s' := by
  obtain ⟨rows, hrows, moment, first, hfirst, rfl⟩ := h.rows
  refine ⟨_, s, ?_, hrows, h⟩
  have hplan : ∀ c, (Attempt.undisturbed now).plan c = .ok := fun _ => rfl
  unfold Stores.clone cloneDemo
  rw [Calls.bind_returned (Calls.call_ok (hplan .lock) _ _ _),
    Calls.bind_returned (Calls.call_ok (hplan .getTarget) _ _ _), id, hrows]
  dsimp only
  rw [if_neg (by simp [Rows.copy]), Calls.bind_returned (Calls.call_ok (hplan .listSources) _ _ _)]
  rfl

end Attempt

/-! ## Attempts one after another -/

section Retry

variable {ids : Ids U} {demo : Published U} {connected : Bool} {ownerId : U}

/-- No attempt made while there is no clone strands its graph. -/
def Unstranded (ids : Ids U) (demo : Published U) (connected : Bool) (ownerId : U)
    (attempts : List Attempt) : Prop :=
  ∀ before a later, attempts = before ++ a :: later →
    (afterAttempts ids demo connected ownerId before).rows = none →
      ¬Strands demo connected a.plan

theorem afterAttempts_concat (attempts : List Attempt) (a : Attempt) :
    afterAttempts ids demo connected ownerId (attempts ++ [a]) =
      ((afterAttempts ids demo connected ownerId attempts).clone ids demo connected ownerId a).2 := by
  simp [afterAttempts]

theorem unstranded_concat {attempts : List Attempt} {a : Attempt} :
    Unstranded ids demo connected ownerId (attempts ++ [a]) ↔
      Unstranded ids demo connected ownerId attempts ∧
        ((afterAttempts ids demo connected ownerId attempts).rows = none →
          ¬Strands demo connected a.plan) := by
  constructor
  · intro h
    refine ⟨fun before a' later heq => h before a' (later ++ [a]) ?_, h attempts a [] rfl⟩
    rw [heq, List.append_assoc, List.cons_append]
  · rintro ⟨hbefore, hlast⟩ before a' later heq hrows
    rcases List.eq_nil_or_concat later with rfl | ⟨init, last, rfl⟩
    · obtain ⟨rfl, heq⟩ := List.append_inj' heq rfl
      obtain rfl : a = a' := by simpa using heq
      exact hlast hrows
    · have hsplit : attempts ++ [a] = (before ++ a' :: init) ++ [last] := by
        simpa using heq
      obtain ⟨rfl, -⟩ := List.append_inj' hsplit rfl
      exact hbefore before a' init rfl hrows

/-- After any attempts a graph without rows is stored if one of them stranded it, and else
nothing or a whole clone. No deletion met committed rows. -/
theorem afterAttempts_phase (ownerId : U)
    (hchecked : checked ids demo (readGraph demo connected) = .ok ()) (attempts : List Attempt) :
    (Unstranded ids demo connected ownerId attempts ∧
        (Absent (afterAttempts ids demo connected ownerId attempts) ∨
          Complete ids demo connected ownerId
            (afterAttempts ids demo connected ownerId attempts)) ∨
      ¬Unstranded ids demo connected ownerId attempts ∧
        Stranded demo connected (afterAttempts ids demo connected ownerId attempts)) ∧
      ∀ committed ∈ (afterAttempts ids demo connected ownerId attempts).deletions,
        committed = false := by
  induction attempts using List.reverseRecOn with
  | nil =>
    refine ⟨.inl ⟨?_, .inl ⟨rfl, rfl⟩⟩, nofun⟩
    intro before a later heq
    simp at heq
  | append_singleton attempts a ih =>
    rw [afterAttempts_concat, unstranded_concat]
    obtain ⟨hphase, hdeletions⟩ := ih
    rcases hphase with ⟨hunstranded, habsent | hcomplete⟩ | ⟨hnot, hstranded⟩
    · have hleaves : Leaves ids demo connected ownerId a.plan _ _ :=
        clone_absent habsent hchecked a
      refine ⟨?_, ?_⟩
      · by_cases hstrands : Strands demo connected a.plan
        · exact .inr ⟨fun h => h.2 habsent.rows hstrands, hleaves.stranded hstrands⟩
        · exact .inl ⟨⟨hunstranded, fun _ => hstrands⟩, hleaves.settled hstrands⟩
      · rcases hleaves.deletions with heq | heq
        · rwa [heq]
        · rw [heq]
          simpa using hdeletions
    · rw [clone_complete hcomplete]
      obtain ⟨rows, hrows, -⟩ := hcomplete.rows
      refine ⟨.inl ⟨⟨hunstranded, fun hnone => ?_⟩, .inr hcomplete⟩, hdeletions⟩
      rw [hrows] at hnone
      cases hnone
    · rw [Stores.clone, (clone_stranded hchecked hstranded a).1]
      exact ⟨.inr ⟨fun h => hnot h.1, hstranded⟩, hdeletions⟩

/-- No attempt deletes the graph of a committed clone. After the attempts an undisturbed one
returns a whole clone exactly when none of those made while there was no clone stranded its
graph. -/
theorem clone_retried_iff (hchecked : checked ids demo (readGraph demo connected) = .ok ())
    (attempts : List Attempt) (now : Instant) :
    (∀ committed ∈ (afterAttempts ids demo connected ownerId attempts).deletions,
        committed = false) ∧
      ((∃ rows s', (afterAttempts ids demo connected ownerId attempts).clone ids demo connected
          ownerId (.undisturbed now) = (.returned (rows.workspace, rows.sources.length), s') ∧
          s'.rows = some rows ∧ Complete ids demo connected ownerId s') ↔
        Unstranded ids demo connected ownerId attempts) := by
  obtain ⟨hphase, hdeletions⟩ := afterAttempts_phase ownerId hchecked attempts
  refine ⟨hdeletions, ?_⟩
  rcases hphase with ⟨hunstranded, habsent | hcomplete⟩ | ⟨hnot, hstranded⟩
  · exact ⟨fun _ => hunstranded, fun _ => clone_undisturbed_absent habsent hchecked now⟩
  · exact ⟨fun _ => hunstranded, fun _ => clone_undisturbed_complete hcomplete now⟩
  · refine ⟨?_, fun h => absurd h hnot⟩
    rintro ⟨rows, s', hreturned, -⟩
    have hfails : (cloneDemo ids demo connected ownerId now).Fails _ _ _ :=
      clone_stranded hchecked hstranded (.undisturbed now)
    exact absurd (congrArg Prod.fst hreturned) (hfails.2 _)

/-! ## A published demo -/

/-- UUIDs as texts with a mark before them. -/
def plainIds : Ids Text where
  parse t :=
    match t with
    | 'u' :: rest => some rest
    | _ => none
  str u := 'u' :: u
  parse_str _ := rfl
  parse_nil := rfl
  uuid5 namespaceId name := namespaceId ++ '/' :: name

/-- The text of a number. -/
def plainNumber (n : Nat) : Text := List.replicate n 'i'

/-- A processed source of the demo. -/
def plainSource (kind : SourceKind) (n : Nat) : SourceRow Text where
  id := 's' :: plainNumber n
  workspaceId := ['w']
  ownerId := ['o']
  kind := kind
  title := ['t']
  contentType := "text/plain".toList
  objectPath := "public-demo-text/".toList
  contentText := some ['x']
  projectId := none
  rawUtterances := []
  reviewUtterances := []
  reviewState := none
  reviewRevision := 0
  confirmedAt := none
  confirmedSnapshot := none
  analysisCheckpoint := none
  status := .succeeded
  processingStage := .completed
  progress := 1
  createdAt := ⊥
  others := []

/-- A demo of the published size. -/
def plainDemo : Published Text where
  workspace := ⟨['w'], ['o'], ['D'], true⟩
  people := (List.range 2).map fun n => ⟨'p' :: plainNumber n, ['w'], ['o'], []⟩
  projects := [⟨['j'], ['w'], ['o'], none, []⟩]
  members := []
  sources := [plainSource .meeting 0, plainSource .document 1, plainSource .document 2]
  sourceProjects := []
  sourcePeople := []
  chunks := (List.range 7).map fun n => ⟨'c' :: plainNumber n, ['w'], ['o'], ['s'], []⟩
  contexts := (List.range 6).map fun n => ⟨'x' :: plainNumber n, ['w'], ['o'], ['s'], none, []⟩
  stores := [⟨['t'], ['w'], ['o'], ["us".toList], [], [], [], []⟩]
  graph :=
    { nodes := (List.range 7).map fun n =>
        ⟨'n' :: plainNumber n, "uw".toList, "us".toList, ["us".toList], none, none, [], []⟩
      edges := (List.range 8).map fun n =>
        ⟨'e' :: plainNumber n, "uw".toList, ['n'], ['n'], "WORKS_ON".toList, none, none, []⟩ }

/-- An attempt in which only the commit of the graph fails, after it took effect. -/
def ambiguousGraph : Attempt where
  plan c := if c = .commitGraph then .raised true else .ok
  now := ⊥

/-- An attempt in which only the commit of the rows fails, and takes no effect. -/
def failedRows : Attempt where
  plan c := if c = .commit then .raised false else .ok
  now := ⊥

theorem checked_plainDemo : checked plainIds plainDemo (readGraph plainDemo true) = .ok () := by
  decide +kernel

/-- After an attempt in which the commit of the graph raises although it takes effect, an
undisturbed attempt raises. -/
theorem clone_blocked : checked plainIds plainDemo (readGraph plainDemo true) = .ok () ∧
    ((afterAttempts plainIds plainDemo true ['a'] [ambiguousGraph]).clone plainIds plainDemo true
      ['a'] (.undisturbed ⊥)).1 = .raised (.cloneUnavailable "Target graph already exists") := by
  decide +kernel

/-- The plan takes the graph back after the failed commit of the rows. -/
theorem clone_retried_iff_failedRows :
    ∃ rows s', (afterAttempts plainIds plainDemo true ['a'] [failedRows]).clone plainIds plainDemo
        true ['a'] (.undisturbed ⊥) = (.returned (rows.workspace, rows.sources.length), s') ∧
      s'.rows = some rows ∧ Complete plainIds plainDemo true ['a'] s' := by
  refine (clone_retried_iff checked_plainDemo [failedRows] ⊥).2.mpr ?_
  intro before a later heq _
  obtain ⟨rfl, rfl, rfl⟩ : before = [] ∧ a = failedRows ∧ later = [] := by
    cases before with
    | nil => simpa [eq_comm] using heq
    | cons b before => simp at heq
  rintro ⟨-, -, hraised | ⟨-, -, hnot⟩⟩
  · simp [failedRows] at hraised
  · exact hnot ⟨rfl, rfl, rfl, rfl⟩

end Retry

end Maeglagi.Demo
