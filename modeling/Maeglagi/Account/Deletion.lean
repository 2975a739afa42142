import Maeglagi.Core.Calls
import Maeglagi.Core.Slices
import Maeglagi.Core.Text
import Maeglagi.Core.Transactions

/-!
# Deleting an account

`delete_account_data` empties the storage and the graph, writes to the database without
committing, has the auth server delete the user, which cascades, and commits. Any of its calls may
fail, before or after its effect, and an attempt that failed may be followed by others.
-/

namespace Maeglagi.Account

open Core

variable {U W K R : Type} [DecidableEq U] [DecidableEq W] [DecidableEq K]

/-! ## What is stored -/

/-- `ProviderCredential` -/
structure Credential (U W K : Type) where
  ownerId : U
  workspaceId : Option W
  vaultSecretId : Option K
  deriving DecidableEq

/-- `WorkspaceAuditEvent` -/
structure AuditEvent (U W : Type) where
  workspaceId : W
  actorId : U
  actorEmail : Option Text
  deriving DecidableEq

/-- The rows that the deletion of an account reads or writes. A row of another table is given
with its workspace and its owner, which it references. -/
structure Tables (U W K R : Type) where
  /-- `auth.users` -/
  users : List U
  workspaces : List (W × U)
  /-- `workspace_members`, with `user_id` -/
  members : List (W × Option U)
  auditEvents : List (AuditEvent U W)
  credentials : List (Credential U W K)
  others : List (Option W × U × R)
  /-- `vault.secrets` -/
  secrets : List K
  /-- `pgmq.q_source_events`, if it exists, with the owners of its messages -/
  queue : Option (List U)
  /-- `pgmq.a_source_events` -/
  archive : Option (List U)
  deriving DecidableEq

/-- The workspaces of an account. -/
def Tables.ownWorkspaces (t : Tables U W K R) (owner : U) : List W :=
  (t.workspaces.filter fun w => decide (w.2 = owner)).map Prod.fst

/-- The secrets of the credentials of an account. -/
def Tables.ownSecrets (t : Tables U W K R) (owner : U) : List K :=
  (t.credentials.filter fun c => decide (c.ownerId = owner)).filterMap (·.vaultSecretId)

/-- The deletion of a user. It cascades to the rows that reference the user, and from workspaces
to the rows that reference them. -/
def Tables.cascade (owner : U) (t : Tables U W K R) : Tables U W K R :=
  let gone := t.ownWorkspaces owner
  { t with
    users := t.users.filter fun u => decide (u ≠ owner)
    workspaces := t.workspaces.filter fun w => decide (w.2 ≠ owner)
    members := t.members.filter fun m => decide (m.1 ∉ gone)
    auditEvents := t.auditEvents.filter fun e => decide (e.workspaceId ∉ gone)
    credentials := t.credentials.filter fun c =>
      decide (c.ownerId ≠ owner) && c.workspaceId.all fun w => decide (w ∉ gone)
    others := t.others.filter fun r =>
      decide (r.2.1 ≠ owner) && r.1.all fun w => decide (w ∉ gone) }

/-- `credential_vault.delete` -/
def Tables.deleteSecret (secret : K) (t : Tables U W K R) : Tables U W K R :=
  { t with secrets := t.secrets.filter fun k => decide (k ≠ secret) }

/-- The memberships of an account. -/
def Tables.deleteMembers (owner : U) (t : Tables U W K R) : Tables U W K R :=
  { t with members := t.members.filter fun m => decide (m.2 ≠ some owner) }

/-- The events of an account, without its address. -/
def Tables.forgetEmails (owner : U) (t : Tables U W K R) : Tables U W K R :=
  { t with
    auditEvents := t.auditEvents.map fun e =>
      if e.actorId = owner then { e with actorEmail := none } else e }

/-- The messages of one of the two tables of the queue. -/
def Tables.messages (archived : Bool) (t : Tables U W K R) : Option (List U) :=
  if archived then t.archive else t.queue

def Tables.deleteMessages (archived : Bool) (owner : U) (t : Tables U W K R) : Tables U W K R :=
  let kept (table : Option (List U)) := table.map (·.filter fun u => decide (u ≠ owner))
  if archived then { t with archive := kept t.archive } else { t with queue := kept t.queue }

/-- The database, what a session wrote and has not committed, the names in `storage.objects` and
the workspaces of the entities in the graph. -/
structure State (U W K R : Type) where
  tables : Tables U W K R
  pending : Tables U W K R → Tables U W K R
  objects : List Text
  entities : List W

/-- Nothing is pending. -/
def State.closed (tables : Tables U W K R) (objects : List Text) (entities : List W) :
    State U W K R :=
  ⟨tables, id, objects, entities⟩

/-- What the session sees. -/
def State.seen (s : State U W K R) : Tables U W K R := s.pending s.tables

/-- The session writes. -/
def State.write (f : Tables U W K R → Tables U W K R) (s : State U W K R) : State U W K R :=
  { s with pending := fun t => f (s.pending t) }

def State.commit (s : State U W K R) : State U W K R :=
  { s with tables := s.pending s.tables, pending := id }

/-- What was not committed is lost. -/
def State.rollback (s : State U W K R) : State U W K R := { s with pending := id }

/-! ## The attempt -/

/-- What an attempt raises. -/
inductive Failure where
  | call
  | status
  | accountDeletion (message : String)
  deriving DecidableEq, Repr

/-- The calls of an attempt, each made at most once. -/
inductive Call where
  | listWorkspaces
  | listCredentials
  | listObjects
  | deleteObjects (batch : ℕ)
  | deleteEntities (number : ℕ)
  | deleteSecret (number : ℕ)
  | deleteMembers
  | forgetEmails
  | findMessages (archived : Bool)
  | deleteMessages (archived : Bool)
  | deleteUser
  | commit
  | rollback
  deriving DecidableEq, Repr

/-- A part of an attempt. -/
abbrev Step (U W K R α : Type) : Type := Calls Call (State U W K R) Failure α

/-- The name begins with the identifier of the account. -/
def isUnder (str : U → Text) (owner : U) (name : Text) : Bool :=
  (str owner ++ ['/']).isPrefixOf name

/-- The messages of one table, if it exists. -/
def dropMessages (owner : U) (archived : Bool) : Step U W K R Unit := do
  let found ← Calls.ask (.findMessages archived) .call fun s => (s.seen.messages archived).isSome
  if found then
    Calls.tell (.deleteMessages archived) .call (State.write (Tables.deleteMessages archived owner))

/-- `client.delete` of the user, with the check of its status. -/
def deleteUser (owner : U) : Step U W K R Unit := do
  let found ← Calls.call .deleteUser .call (fun s => decide (owner ∈ s.tables.users))
    fun s => if owner ∈ s.tables.users then { s with tables := s.tables.cascade owner } else s
  if !found then
    Calls.raise .status

/-- The entities of workspaces, if there is a graph. -/
def deleteEntities (graph : Bool) (workspaces : List W) : Step U W K R Unit :=
  if graph then
    Calls.each .deleteEntities .call
      (fun w s => { s with entities := s.entities.filter fun e => decide (e ≠ w) }) 0 workspaces
  else pure ()

/-- The body of the `try` in `delete_account_data`. -/
def erase (graph : Bool) (owner : U) (workspaces : List W) (credentials : List (Option K))
    (paths : List Text) : Step U W K R Unit := do
  Calls.each .deleteObjects .call
    (fun batch s => { s with objects := s.objects.filter fun name => decide (name ∉ batch) }) 0
    (slices 1000 paths)
  deleteEntities graph workspaces
  Calls.each .deleteSecret .call (fun secret => State.write (Tables.deleteSecret secret)) 0
    (credentials.filterMap id)
  Calls.tell .deleteMembers .call (State.write (Tables.deleteMembers owner))
  Calls.tell .forgetEmails .call (State.write (Tables.forgetEmails owner))
  dropMessages owner false
  dropMessages owner true
  deleteUser owner
  Calls.tell .commit .call State.commit

/-- `delete_account_data`, where the server and its key are configured, with or without a graph. -/
def deleteAccountData (str : U → Text) (graph : Bool) (owner : U) : Step U W K R Unit := do
  let workspaces ← Calls.ask .listWorkspaces .call fun s => s.seen.ownWorkspaces owner
  let credentials ← Calls.ask .listCredentials .call fun s =>
    (s.seen.credentials.filter fun c => decide (c.ownerId = owner)).map (·.vaultSecretId)
  let paths ← Calls.ask .listObjects .call fun s => s.objects.filter (isUnder str owner)
  (erase graph owner workspaces credentials paths).onRaise fun _ => do
    Calls.tell .rollback .call State.rollback
    Calls.raise (.accountDeletion "계정 삭제에 실패했습니다. 잠시 후 다시 시도해 주세요.")

/-- An attempt with a session of its own: how it ends, and what it leaves when the session is
closed. -/
def attempt (str : U → Text) (graph : Bool) (owner : U) (plan : Call → Fate)
    (s : State U W K R) : Ending Failure Unit × State U W K R :=
  let ended := (deleteAccountData str graph owner).run plan s
  (ended.1, ended.2.rollback)

/-- Attempts one after another, with how each of them ends. -/
def attempts (str : U → Text) (graph : Bool) (owner : U) (s : State U W K R) :
    List (Call → Fate) → List (Ending Failure Unit) × State U W K R
  | [] => ([], s)
  | plan :: plans =>
    let first := attempt str graph owner plan s
    let rest := attempts str graph owner first.2 plans
    (first.1 :: rest.1, rest.2)

/-! ## What an attempt leaves -/

/-- The tables without the account. Its memberships elsewhere, its addresses, its secrets and its
messages go with it; secrets that others stored in its workspaces do not. -/
def Tables.erased (owner : U) (t : Tables U W K R) : Tables U W K R :=
  { t.cascade owner with
    members := t.members.filter fun m =>
      decide (m.2 ≠ some owner) && decide (m.1 ∉ t.ownWorkspaces owner)
    auditEvents := (t.auditEvents.filter fun e =>
      decide (e.workspaceId ∉ t.ownWorkspaces owner)).map fun e =>
        if e.actorId = owner then { e with actorEmail := none } else e
    secrets := t.secrets.filter fun k => decide (k ∉ t.ownSecrets owner)
    queue := t.queue.map (·.filter fun u => decide (u ≠ owner))
    archive := t.archive.map (·.filter fun u => decide (u ≠ owner)) }

/-- What the session writes, once the secrets to delete are known. -/
def Tables.written (owner : U) (secrets : List K) (t : Tables U W K R) : Tables U W K R :=
  ((((secrets.foldl (fun t k => t.deleteSecret k) t).deleteMembers owner).forgetEmails
    owner).deleteMessages false owner).deleteMessages true owner

omit [DecidableEq U] [DecidableEq W] in
theorem foldl_deleteSecret (secrets : List K) (t : Tables U W K R) :
    secrets.foldl (fun t k => t.deleteSecret k) t =
      { t with secrets := t.secrets.filter fun k => decide (k ∉ secrets) } := by
  induction secrets generalizing t with
  | nil => simp
  | cons secret secrets ih =>
    rw [List.foldl_cons, ih]
    simp only [Tables.deleteSecret, List.filter_filter, List.mem_cons, not_or, Bool.decide_and]
    congr 2
    funext k
    rw [Bool.and_comm]

/-- The cascade and the writes of the session make up the erasure. -/
theorem written_cascade (owner : U) (t : Tables U W K R) :
    (t.cascade owner).written owner (t.ownSecrets owner) = t.erased owner := by
  rw [Tables.written, foldl_deleteSecret]
  simp only [Tables.deleteMembers, Tables.forgetEmails, Tables.deleteMessages, Tables.cascade,
    Tables.erased, List.filter_filter, Bool.false_eq_true, if_true, if_false]

variable {str : U → Text} {graph : Bool} {owner : U} {plan : Call → Fate}
  {s s' s₀ : State U W K R}

/-- Of the storage and the graph, only what belongs to the account is gone. -/
structure Spared (str : U → Text) (owner : U) (s s' : State U W K R) : Prop where
  objects : s'.objects.Sublist s.objects
  foreignObjects : (s'.objects.filter fun name => !isUnder str owner name) =
    s.objects.filter fun name => !isUnder str owner name
  entities : s'.entities.Sublist s.entities
  foreignEntities :
    (s'.entities.filter fun e => decide (e ∉ s.tables.ownWorkspaces owner)) =
      s.entities.filter fun e => decide (e ∉ s.tables.ownWorkspaces owner)

omit [DecidableEq K] in
theorem Spared.refl (s : State U W K R) : Spared str owner s s :=
  ⟨.refl _, rfl, .refl _, rfl⟩

omit [DecidableEq K] in
/-- Only the storage and the graph count. -/
theorem Spared.of_eq {s'' : State U W K R} (h : Spared str owner s s')
    (hobjects : s''.objects = s'.objects) (hentities : s''.entities = s'.entities) :
    Spared str owner s s'' :=
  ⟨hobjects ▸ h.objects, hobjects ▸ h.foreignObjects, hentities ▸ h.entities,
    hentities ▸ h.foreignEntities⟩

/-- Some call fails, or there is no user to delete. -/
def Hindered (plan : Call → Fate) (owner : U) (s : State U W K R) : Prop :=
  (∃ name, plan name ≠ .ok) ∨ owner ∉ s.tables.users

/-- What an attempt leaves where it does not return. -/
structure Unfinished (str : U → Text) (owner : U) (plan : Call → Fate) (s s' : State U W K R) :
    Prop where
  hindered : Hindered plan owner s
  spared : Spared str owner s s'
  tables : s'.tables = s.tables ∨
    owner ∈ s.tables.users ∧
      (s'.tables = s.tables.cascade owner ∨
        plan .deleteUser = .ok ∧ s'.tables = s.tables.erased owner)

/-- What an attempt leaves where it returns. -/
structure Finished (str : U → Text) (graph : Bool) (owner : U) (plan : Call → Fate)
    (s s' : State U W K R) : Prop where
  answered : plan .deleteUser = .ok
  user : owner ∈ s.tables.users
  tables : s'.tables = s.tables.erased owner
  objects : s'.objects = s.objects.filter fun name => !isUnder str owner name
  entities : s'.entities =
    if graph then s.entities.filter fun e => decide (e ∉ s.tables.ownWorkspaces owner)
    else s.entities

/-- Nothing has happened to the tables. -/
structure Working (str : U → Text) (owner : U) (s₀ s : State U W K R) : Prop where
  tables : s.tables = s₀.tables
  spared : Spared str owner s₀ s

theorem Working.unfinished (h : Working str owner s₀ s) {name : Call} (hname : plan name ≠ .ok) :
    Unfinished str owner plan s₀ s :=
  ⟨.inl ⟨name, hname⟩, h.spared, .inl h.tables⟩

theorem filter_filter_notMem {α : Type} [BEq α] [LawfulBEq α] {keep : α → Bool} {batch l : List α}
    (h : ∀ a ∈ batch, keep a = false) :
    (l.filter fun a => decide (a ∉ batch)).filter keep = l.filter keep := by
  rw [List.filter_filter]
  refine List.filter_congr fun a _ => ?_
  by_cases ha : a ∈ batch
  · simp [h a ha]
  · simp [ha]

theorem filter_notMem_filter {α : Type} [BEq α] [LawfulBEq α] (p : α → Bool) (l : List α) :
    (l.filter fun a => decide (a ∉ l.filter p)) = l.filter fun a => !p a := by
  refine List.filter_congr fun a ha => ?_
  cases hp : p a <;> simp [ha, hp]

omit [DecidableEq K] in
theorem Working.deleteObjects (h : Working str owner s₀ s) {batch : List Text}
    (hbatch : ∀ name ∈ batch, isUnder str owner name = true) :
    Working str owner s₀
      { s with objects := s.objects.filter fun name => decide (name ∉ batch) } where
  tables := h.tables
  spared :=
    { h.spared with
      objects := List.filter_sublist.trans h.spared.objects
      foreignObjects := by
        refine (filter_filter_notMem fun name hname => ?_).trans h.spared.foreignObjects
        simp [hbatch name hname] }

omit [DecidableEq K] in
theorem Working.deleteEntities (h : Working str owner s₀ s) {w : W}
    (hw : w ∈ s₀.tables.ownWorkspaces owner) :
    Working str owner s₀
      { s with entities := s.entities.filter fun e => decide (e ≠ w) } where
  tables := h.tables
  spared :=
    { h.spared with
      entities := List.filter_sublist.trans h.spared.entities
      foreignEntities := by
        refine Eq.trans ?_ h.spared.foreignEntities
        dsimp only
        rw [List.filter_filter]
        refine List.filter_congr fun e _ => ?_
        by_cases he : e = w
        · simp [he, hw]
        · simp [he] }

omit [DecidableEq K] in
/-- What the session writes is not seen by others. -/
theorem Working.write (h : Working str owner s₀ s) (f : Tables U W K R → Tables U W K R) :
    Working str owner s₀ (s.write f) :=
  ⟨h.tables, h.spared.of_eq rfl rfl⟩

omit [DecidableEq U] [DecidableEq W] [DecidableEq K] in
/-- The effects of calls one after another on objects. -/
theorem foldl_deleteObjects (batches : List (List Text)) (s : State U W K R) :
    (batches.foldl (fun s batch =>
        { s with objects := s.objects.filter fun name => decide (name ∉ batch) }) s) =
      { s with objects := s.objects.filter fun name => decide (name ∉ batches.flatten) } := by
  induction batches generalizing s with
  | nil => simp
  | cons batch batches ih =>
    rw [List.foldl_cons, ih]
    simp only [List.filter_filter, List.flatten_cons, List.mem_append, not_or, Bool.decide_and]
    congr 2
    funext name
    rw [Bool.and_comm]

omit [DecidableEq U] [DecidableEq K] in
theorem foldl_deleteEntities (workspaces : List W) (s : State U W K R) :
    (workspaces.foldl (fun s w =>
        { s with entities := s.entities.filter fun e => decide (e ≠ w) }) s) =
      { s with entities := s.entities.filter fun e => decide (e ∉ workspaces) } := by
  induction workspaces generalizing s with
  | nil => simp
  | cons w workspaces ih =>
    rw [List.foldl_cons, ih]
    simp only [List.filter_filter, List.mem_cons, not_or, Bool.decide_and]
    congr 2
    funext e
    rw [Bool.and_comm]

omit [DecidableEq U] [DecidableEq W] in
theorem foldl_write (secrets : List K) (s : State U W K R) :
    secrets.foldl (fun s secret => s.write (Tables.deleteSecret secret)) s =
      s.write fun t => secrets.foldl (fun t k => t.deleteSecret k) t := by
  induction secrets generalizing s with
  | nil => rfl
  | cons secret secrets ih =>
    rw [List.foldl_cons, ih]
    rfl

/-- The tables of the queue exist alike. -/
def Alike (t t' : Tables U W K R) : Prop :=
  ∀ archived, (t.messages archived).isSome = (t'.messages archived).isSome

omit [DecidableEq K] in
theorem alike_cascade (t : Tables U W K R) : Alike (t.cascade owner) t := fun _ => rfl

omit [DecidableEq W] [DecidableEq K] in
theorem alike_deleteMembers (t : Tables U W K R) : Alike (t.deleteMembers owner) t := fun _ => rfl

omit [DecidableEq W] [DecidableEq K] in
theorem alike_forgetEmails (t : Tables U W K R) : Alike (t.forgetEmails owner) t := fun _ => rfl

omit [DecidableEq W] [DecidableEq K] in
theorem alike_deleteMessages (archived : Bool) (t : Tables U W K R) :
    Alike (t.deleteMessages archived owner) t := by
  intro other
  cases archived <;> cases other <;> simp [Tables.messages, Tables.deleteMessages]

omit [DecidableEq U] [DecidableEq W] in
theorem alike_deleteSecrets (secrets : List K) (t : Tables U W K R) :
    Alike (secrets.foldl (fun t k => t.deleteSecret k) t) t := by
  induction secrets generalizing t with
  | nil => exact fun _ => rfl
  | cons secret secrets ih => exact ih (t.deleteSecret secret)

omit [DecidableEq W] [DecidableEq K] in
/-- From a table that does not exist, nothing is deleted. -/
theorem deleteMessages_of_none {archived : Bool} {t : Tables U W K R}
    (h : t.messages archived = none) : t.deleteMessages archived owner = t := by
  cases archived with
  | true =>
    have harchive : t.archive = none := h
    simp only [Tables.deleteMessages, if_true, harchive, Option.map_none]
    rw [← harchive]
  | false =>
    have hqueue : t.queue = none := h
    simp only [Tables.deleteMessages, Bool.false_eq_true, if_false, hqueue, Option.map_none]
    rw [← hqueue]

/-- The attempt has written to the database, and the storage and the graph are empty. -/
structure Written (str : U → Text) (graph : Bool) (owner : U) (s₀ : State U W K R)
    (f : Tables U W K R → Tables U W K R) (s : State U W K R) : Prop where
  working : Working str owner s₀ s
  pending : ∀ t, Alike t s₀.tables → s.pending t = f t
  objects : s.objects = s₀.objects.filter fun name => !isUnder str owner name
  entities : s.entities =
    if graph then s₀.entities.filter fun e => decide (e ∉ s₀.tables.ownWorkspaces owner)
    else s₀.entities

variable {f : Tables U W K R → Tables U W K R}

omit [DecidableEq K] in
theorem Written.write (h : Written str graph owner s₀ f s)
    (g : Tables U W K R → Tables U W K R) :
    Written str graph owner s₀ (fun t => g (f t)) (s.write g) :=
  ⟨h.working.write g, fun t ht => congrArg g (h.pending t ht), h.objects, h.entities⟩

theorem sat_write (h : Written str graph owner s₀ f s) (name : Call)
    (g : Tables U W K R → Tables U W K R) :
    (Calls.tell name .call (State.write g) : Step U W K R Unit).Sat plan s
      (fun _ s' => Written str graph owner s₀ (fun t => g (f t)) s')
      (Unfinished str owner plan s₀) :=
  Calls.sat_tell (h.write g) fun hname =>
    ⟨h.working.unfinished hname, (h.write g).working.unfinished hname⟩

theorem sat_dropMessages (h : Written str graph owner s₀ f s)
    (hf : ∀ t, Alike (f t) t) (archived : Bool) :
    (dropMessages owner archived : Step U W K R Unit).Sat plan s
      (fun _ s' => Written str graph owner s₀ (fun t => (f t).deleteMessages archived owner) s')
      (Unfinished str owner plan s₀) := by
  have hseen : s.seen = f s₀.tables := by
    rw [State.seen, h.working.tables]
    exact h.pending _ fun _ => rfl
  refine Calls.sat_ask_bind h.working.unfinished ?_
  rw [hseen, hf s₀.tables archived]
  cases hexists : (s₀.tables.messages archived).isSome with
  | true => exact sat_write h _ _
  | false =>
    -- No table is there to delete from, so that the writes are the same with the deletion.
    refine Calls.sat_pure ⟨h.working, fun t ht => ?_, h.objects, h.entities⟩
    rw [h.pending t ht]
    have hnone : (f t).messages archived = none := by
      have halike := (hf t archived).trans (ht archived)
      rwa [hexists, Option.isSome_eq_false_iff, Option.isNone_iff_eq_none] at halike
    exact (deleteMessages_of_none hnone).symm

theorem sat_deleteUser (h : Written str graph owner s₀ f s) :
    (deleteUser owner : Step U W K R Unit).Sat plan s
      (fun _ s' => plan .deleteUser = .ok ∧ owner ∈ s₀.tables.users ∧
        s' = { s with tables := s₀.tables.cascade owner })
      (Unfinished str owner plan s₀) := by
  have htables := h.working.tables
  refine Calls.Sat.bind (P := fun found s' => plan .deleteUser = .ok ∧
      found = decide (owner ∈ s₀.tables.users) ∧
        s' = if owner ∈ s₀.tables.users then { s with tables := s₀.tables.cascade owner } else s)
    (Calls.sat_call ?_ ?_ ?_) ?_
  · intro hfate
    rw [htables]
    exact ⟨hfate, rfl, rfl⟩
  · intro effective hfate
    have hfails : plan .deleteUser ≠ .ok := by
      rw [hfate]
      nofun
    cases effective with
    | false => exact h.working.unfinished hfails
    | true =>
      rw [if_pos rfl, htables]
      split_ifs with huser
      · exact ⟨.inl ⟨_, hfails⟩, h.working.spared.of_eq rfl rfl, .inr ⟨huser, .inl rfl⟩⟩
      · exact h.working.unfinished hfails
  · intro hfate
    have hfails : plan .deleteUser ≠ .ok := by
      rw [hfate]
      nofun
    exact h.working.unfinished hfails
  · rintro found s' ⟨hfate, rfl, rfl⟩
    by_cases huser : owner ∈ s₀.tables.users
    · rw [decide_eq_true huser, if_pos huser]
      exact Calls.sat_pure ⟨hfate, huser, rfl⟩
    · rw [decide_eq_false huser, if_neg huser]
      exact Calls.sat_raise ⟨.inr huser, h.working.spared, .inl htables⟩

/-- The body of the `try`, on what was read before it. -/
theorem sat_erase (s₀ : State U W K R) (hpending : s₀.pending = id) :
    (erase graph owner (s₀.tables.ownWorkspaces owner)
      ((s₀.tables.credentials.filter fun c => decide (c.ownerId = owner)).map (·.vaultSecretId))
      (s₀.objects.filter (isUnder str owner))).Sat plan s₀
        (fun _ s' => Finished str graph owner plan s₀ s') (Unfinished str owner plan s₀) := by
  have hsecrets : ((s₀.tables.credentials.filter fun c => decide (c.ownerId = owner)).map
      (·.vaultSecretId)).filterMap id = s₀.tables.ownSecrets owner := by
    rw [List.filterMap_map]
    rfl
  have hbatches : ∀ batch ∈ slices 1000 (s₀.objects.filter (isUnder str owner)),
      ∀ name ∈ batch, isUnder str owner name = true := by
    intro batch hbatch name hname
    have hmem := List.mem_flatten_of_mem hbatch hname
    rw [flatten_slices (by decide)] at hmem
    exact (List.mem_filter.mp hmem).2
  unfold erase
  refine Calls.Sat.bind (Calls.sat_each (J := Working str owner s₀)
    (fun batch hbatch s h => h.deleteObjects (hbatches batch hbatch))
    (fun n s' hname h => h.unfinished hname) 0 ⟨rfl, .refl s₀⟩) ?_
  rintro ⟨⟩ s₁ ⟨hworking, hs₁⟩
  rw [foldl_deleteObjects, flatten_slices (by decide), filter_notMem_filter] at hs₁
  -- The graph, if there is one.
  refine Calls.Sat.bind (P := fun _ s' => Working str owner s₀ s' ∧ s'.pending = id ∧
    (s'.objects = s₀.objects.filter fun name => !isUnder str owner name) ∧ s'.entities =
      if graph then s₀.entities.filter fun e => decide (e ∉ s₀.tables.ownWorkspaces owner)
      else s₀.entities) ?_ ?_
  · cases graph with
    | false =>
      rw [hs₁] at hworking ⊢
      exact Calls.sat_pure ⟨hworking, hpending, rfl, rfl⟩
    | true =>
      refine (Calls.sat_each (J := Working str owner s₀)
        (fun w hw s h => h.deleteEntities hw) (fun n s' hname h => h.unfinished hname) 0
        hworking).mono ?_ fun _ h => h
      rintro ⟨⟩ s₂ ⟨hworking₂, hs₂⟩
      rw [foldl_deleteEntities, hs₁] at hs₂
      rw [hs₂] at hworking₂ ⊢
      exact ⟨hworking₂, hpending, rfl, rfl⟩
  rintro ⟨⟩ s₂ ⟨hworking₂, hpending₂, hobjects, hentities⟩
  -- The writes of the session.
  rw [hsecrets]
  refine Calls.Sat.bind (P := fun _ s' => Written str graph owner s₀
    (fun t => (s₀.tables.ownSecrets owner).foldl (fun t k => t.deleteSecret k) t) s') ?_ ?_
  · refine (Calls.sat_each (J := Working str owner s₀) (fun secret _ s h => h.write _)
      (fun n s' hname h => h.unfinished hname) 0 hworking₂).mono ?_ fun _ h => h
    rintro ⟨⟩ s₃ ⟨hworking₃, hs₃⟩
    rw [foldl_write] at hs₃
    rw [hs₃] at hworking₃ ⊢
    refine ⟨hworking₃, fun t _ => ?_, hobjects, hentities⟩
    rw [State.write, hpending₂]
    rfl
  rintro ⟨⟩ s₃ h₃
  refine Calls.Sat.bind (sat_write h₃ _ _) fun _ s₄ h₄ => ?_
  refine Calls.Sat.bind (sat_write h₄ _ _) fun _ s₅ h₅ => ?_
  have halike₅ : ∀ t : Tables U W K R, Alike ((((s₀.tables.ownSecrets owner).foldl
      (fun t k => t.deleteSecret k) t).deleteMembers owner).forgetEmails owner) t :=
    fun t => alike_deleteSecrets _ t
  refine Calls.Sat.bind (sat_dropMessages h₅ halike₅ false) fun _ s₆ h₆ => ?_
  have halike₆ : ∀ t : Tables U W K R, Alike (((((s₀.tables.ownSecrets owner).foldl
      (fun t k => t.deleteSecret k) t).deleteMembers owner).forgetEmails owner).deleteMessages
        false owner) t :=
    fun t archived => (alike_deleteMessages false _ archived).trans (halike₅ t archived)
  refine Calls.Sat.bind (sat_dropMessages h₆ halike₆ true) fun _ s₇ h₇ => ?_
  refine Calls.Sat.bind (sat_deleteUser h₇) ?_
  rintro ⟨⟩ s₈ ⟨hfate, huser, rfl⟩
  have hcommitted : s₇.pending (s₀.tables.cascade owner) = s₀.tables.erased owner :=
    (h₇.pending _ (alike_cascade _)).trans (written_cascade owner s₀.tables)
  refine Calls.sat_tell ⟨hfate, huser, hcommitted, h₇.objects, h₇.entities⟩ fun hname => ⟨?_, ?_⟩
  · exact ⟨.inl ⟨_, hname⟩, h₇.working.spared.of_eq rfl rfl, .inr ⟨huser, .inl rfl⟩⟩
  · exact ⟨.inl ⟨_, hname⟩, h₇.working.spared.of_eq rfl rfl, .inr ⟨huser, .inr ⟨hfate, hcommitted⟩⟩⟩

/-- An attempt on a closed session leaves what an attempt that returns leaves, or is hindered. -/
theorem attempt_cases (str : U → Text) (graph : Bool) (owner : U) (plan : Call → Fate)
    {s : State U W K R} (hpending : s.pending = id) :
    (attempt str graph owner plan s).1 = .returned () ∧
        Finished str graph owner plan s (attempt str graph owner plan s).2 ∨
      (attempt str graph owner plan s).1 ≠ .returned () ∧
        Unfinished str owner plan s (attempt str graph owner plan s).2 := by
  have hsat : (deleteAccountData str graph owner).Sat plan s
      (fun _ s' => Finished str graph owner plan s s') (Unfinished str owner plan s) := by
    have hstart : Working str owner s s := ⟨rfl, .refl s⟩
    have hseen : s.seen = s.tables := by
      rw [State.seen, hpending]
      rfl
    unfold deleteAccountData
    refine Calls.sat_ask_bind hstart.unfinished ?_
    refine Calls.sat_ask_bind hstart.unfinished ?_
    refine Calls.sat_ask_bind hstart.unfinished ?_
    rw [hseen]
    refine (sat_erase s hpending).onRaise (fun error s' h => ?_) fun s' h => h
    refine Calls.Sat.bind (P := fun _ s' => Unfinished str owner plan s s')
      (Calls.sat_tell ?_ fun _ => ⟨h, ?_⟩) fun _ s' h => Calls.sat_raise h
    · exact ⟨h.hindered, h.spared.of_eq rfl rfl, h.tables⟩
    · exact ⟨h.hindered, h.spared.of_eq rfl rfl, h.tables⟩
  unfold Calls.Sat at hsat
  unfold attempt
  cases hrun : (deleteAccountData str graph owner).run plan s with
  | mk ending after =>
    rw [hrun] at hsat
    cases ending with
    | returned value =>
      exact .inl ⟨rfl, hsat.answered, hsat.user, hsat.tables, hsat.objects, hsat.entities⟩
    | raised error => exact .inr ⟨nofun, hsat.hindered, hsat.spared.of_eq rfl rfl, hsat.tables⟩
    | stopped => exact .inr ⟨nofun, hsat.hindered, hsat.spared.of_eq rfl rfl, hsat.tables⟩

/-! ## Attempts one after another -/

omit [DecidableEq K] in
theorem notMem_users_cascade (t : Tables U W K R) : owner ∉ (t.cascade owner).users := by
  simp [Tables.cascade]

theorem notMem_users_erased (t : Tables U W K R) : owner ∉ (t.erased owner).users := by
  simp [Tables.erased, Tables.cascade]

omit [DecidableEq K] in
theorem ownWorkspaces_cascade (t : Tables U W K R) :
    (t.cascade owner).ownWorkspaces owner = [] := by
  simp [Tables.cascade, Tables.ownWorkspaces]

theorem ownWorkspaces_erased (t : Tables U W K R) : (t.erased owner).ownWorkspaces owner = [] :=
  ownWorkspaces_cascade t

omit [DecidableEq K] in
theorem Spared.trans {s'' : State U W K R} (h : Spared str owner s s')
    (hown : s'.tables.ownWorkspaces owner ⊆ s.tables.ownWorkspaces owner)
    (h' : Spared str owner s' s'') : Spared str owner s s'' where
  objects := h'.objects.trans h.objects
  foreignObjects := h'.foreignObjects.trans h.foreignObjects
  entities := h'.entities.trans h.entities
  foreignEntities := by
    have hnarrow (l : List W) : (l.filter fun e => decide (e ∉ s.tables.ownWorkspaces owner)) =
        (l.filter fun e => decide (e ∉ s'.tables.ownWorkspaces owner)).filter
          fun e => decide (e ∉ s.tables.ownWorkspaces owner) := by
      rw [List.filter_filter]
      refine List.filter_congr fun e _ => ?_
      by_cases he : e ∈ s.tables.ownWorkspaces owner
      · simp [he]
      · have he' : e ∉ s'.tables.ownWorkspaces owner := fun h => he (hown h)
        simp [he, he']
    rw [hnarrow, h'.foreignEntities, ← hnarrow, h.foreignEntities]

/-- Only what belongs to the account is gone. -/
theorem Finished.spared (h : Finished str graph owner plan s s') :
    Spared str owner s s' where
  objects := h.objects ▸ List.filter_sublist
  foreignObjects := by
    rw [h.objects, List.filter_filter]
    simp
  entities := by
    rw [h.entities]
    split_ifs
    · exact List.filter_sublist
    · exact .refl _
  foreignEntities := by
    rw [h.entities]
    split_ifs
    · rw [List.filter_filter]
      simp
    · rfl

/-- Where attempts have led. -/
structure Progress (str : U → Text) (graph : Bool) (owner : U) (s : State U W K R)
    (endings : List (Ending Failure Unit)) (s' : State U W K R) : Prop where
  closed : s'.pending = id
  spared : Spared str owner s s'
  /-- Without a user, nothing happens to the database. -/
  absent : owner ∉ s.tables.users → s'.tables = s.tables
  /-- While there is a user, nothing of the database is lost. -/
  intact : owner ∈ s'.tables.users → s'.tables = s.tables
  /-- The user goes with everything, or with what references it only. -/
  gone : s'.tables = s.tables ∨ s'.tables = s.tables.erased owner ∨
    s'.tables = s.tables.cascade owner ∧ .returned () ∉ endings
  returned : .returned () ∈ endings → owner ∈ s.tables.users ∧
    s'.tables = s.tables.erased owner ∧ (∀ name ∈ s'.objects, isUnder str owner name = false) ∧
      (graph = true → ∀ e ∈ s'.entities, e ∉ s.tables.ownWorkspaces owner)
  once : endings.count (.returned ()) ≤ 1

/-- Attempts after the user is gone. -/
theorem Progress.cons_of_gone {endings : List (Ending Failure Unit)} {ending : Ending Failure Unit}
    (hspared : Spared str owner s s') (huser : owner ∈ s.tables.users)
    (hgone : owner ∉ s'.tables.users)
    (htables : s'.tables = s.tables.erased owner ∨
      s'.tables = s.tables.cascade owner ∧ ending ≠ .returned ())
    (hreturned : ending = .returned () → s'.tables = s.tables.erased owner ∧
      (∀ name ∈ s'.objects, isUnder str owner name = false) ∧
        (graph = true → ∀ e ∈ s'.entities, e ∉ s.tables.ownWorkspaces owner))
    {s'' : State U W K R} (h : Progress str graph owner s' endings s'') :
    Progress str graph owner s (ending :: endings) s'' := by
  have hsame := h.absent hgone
  have hnever : .returned () ∉ endings := fun hmem => hgone (h.returned hmem).1
  have hown : s'.tables.ownWorkspaces owner = [] := by
    rcases htables with htables | ⟨htables, -⟩
    · rw [htables, ownWorkspaces_erased]
    · rw [htables, ownWorkspaces_cascade]
  refine ⟨h.closed, hspared.trans (by simp [hown]) h.spared, fun habsent => absurd huser habsent,
    fun hstill => absurd (hsame ▸ hstill) hgone, ?_, fun hmem => ?_, ?_⟩
  · rw [hsame]
    rcases htables with htables | ⟨htables, hending⟩
    · exact .inr (.inl htables)
    · exact .inr (.inr ⟨htables, by simp [hnever, Ne.symm hending]⟩)
  · obtain ⟨herased, hobjects, hentities⟩ :=
      hreturned ((List.mem_cons.mp hmem).resolve_right hnever).symm
    exact ⟨huser, hsame.trans herased,
      fun name hname => hobjects name (h.spared.objects.subset hname), fun hgraph e he =>
        hentities hgraph e (h.spared.entities.subset he)⟩
  · rw [List.count_cons, List.count_eq_zero_of_not_mem hnever, Nat.zero_add]
    split_ifs
    · exact le_rfl
    · exact Nat.zero_le 1

/-- Attempts after one that left the database as it was. -/
theorem Progress.cons_of_same {endings : List (Ending Failure Unit)} {ending : Ending Failure Unit}
    (hspared : Spared str owner s s') (htables : s'.tables = s.tables)
    (hending : ending ≠ .returned ()) {s'' : State U W K R}
    (h : Progress str graph owner s' endings s'') :
    Progress str graph owner s (ending :: endings) s'' := by
  have hmem : .returned () ∈ ending :: endings ↔ .returned () ∈ endings := by
    simp [Ne.symm hending]
  refine ⟨h.closed, hspared.trans (htables ▸ List.Subset.refl _) h.spared, ?_, ?_, ?_, ?_, ?_⟩
  · rw [← htables]
    exact h.absent
  · rw [← htables]
    exact h.intact
  · rw [← htables, hmem]
    exact h.gone
  · rw [← htables, hmem]
    exact h.returned
  · rw [List.count_cons_of_ne hending]
    exact h.once

theorem progress_attempts (str : U → Text) (graph : Bool) (owner : U) {s : State U W K R}
    (hpending : s.pending = id) (plans : List (Call → Fate)) :
    Progress str graph owner s (attempts str graph owner s plans).1
      (attempts str graph owner s plans).2 := by
  induction plans generalizing s with
  | nil =>
    exact ⟨hpending, .refl s, fun _ => rfl, fun _ => rfl, .inl rfl, nofun, Nat.zero_le 1⟩
  | cons plan plans ih =>
    have hrest := ih (s := (attempt str graph owner plan s).2) rfl
    rw [attempts]
    rcases attempt_cases str graph owner plan hpending with ⟨hending, hfin⟩ | ⟨hending, hunf⟩
    · refine Progress.cons_of_gone hfin.spared hfin.user ?_ (.inl hfin.tables) (fun _ => ?_) hrest
      · rw [hfin.tables]
        exact notMem_users_erased _
      · refine ⟨hfin.tables, fun name hname => ?_, fun hgraph e he => ?_⟩
        · rw [hfin.objects] at hname
          simpa using (List.mem_filter.mp hname).2
        · rw [hfin.entities, if_pos hgraph] at he
          simpa using (List.mem_filter.mp he).2
    · rcases hunf.tables with htables | ⟨huser, htables | ⟨-, htables⟩⟩
      · exact Progress.cons_of_same hunf.spared htables hending hrest
      · refine Progress.cons_of_gone hunf.spared huser ?_ (.inr ⟨htables, hending⟩)
          (fun hreturned => absurd hreturned hending) hrest
        rw [htables]
        exact notMem_users_cascade _
      · refine Progress.cons_of_gone hunf.spared huser ?_ (.inl htables)
          (fun hreturned => absurd hreturned hending) hrest
        rw [htables]
        exact notMem_users_erased _

/-- With nothing in its way, an attempt returns. -/
theorem attempt_of_ok (str : U → Text) (graph : Bool) (hpending : s.pending = id)
    (huser : owner ∈ s.tables.users) (hplan : ∀ name, plan name = .ok) :
    (attempt str graph owner plan s).1 = .returned () ∧
      Finished str graph owner plan s (attempt str graph owner plan s).2 := by
  rcases attempt_cases str graph owner plan hpending with h | ⟨-, hunf⟩
  · exact h
  · rcases hunf.hindered with ⟨name, hname⟩ | habsent
    · exact absurd (hplan name) hname
    · exact absurd huser habsent

/-- However the attempts of an account fail, nothing of the database is lost while it exists, at
most one of them returns, and then everything of the account is gone; and as long as it exists,
an attempt that nothing fails in makes good for all before it. -/
theorem deletion_attempts (str : U → Text) (graph : Bool) (owner : U) (tables : Tables U W K R)
    (objects : List Text) (entities : List W) (plans : List (Call → Fate)) :
    let s := State.closed tables objects entities
    let led := attempts str graph owner s plans
    Progress str graph owner s led.1 led.2 ∧
      (owner ∈ led.2.tables.users → ∀ plan : Call → Fate, (∀ name, plan name = .ok) →
        (attempt str graph owner plan led.2).1 = .returned () ∧
        (attempt str graph owner plan led.2).2.tables = tables.erased owner ∧
        (attempt str graph owner plan led.2).2.objects =
          (objects.filter fun name => !isUnder str owner name) ∧
        (graph = true → (attempt str graph owner plan led.2).2.entities =
          entities.filter fun e => decide (e ∉ tables.ownWorkspaces owner))) := by
  intro s led
  have hled : Progress str graph owner s led.1 led.2 := progress_attempts str graph owner rfl plans
  refine ⟨hled, fun huser plan hplan => ?_⟩
  obtain ⟨hending, hfin⟩ := attempt_of_ok str graph hled.closed huser hplan
  have htables : led.2.tables = tables := hled.intact huser
  refine ⟨hending, ?_, ?_, fun hgraph => ?_⟩
  · rw [hfin.tables, htables]
  · rw [hfin.objects]
    exact hled.spared.foreignObjects
  · rw [hfin.entities, if_pos hgraph, htables]
    exact hled.spared.foreignEntities

/-! ## The rows that are locked -/

/-- A row of a table. -/
inductive Row (U W K R : Type) where
  | user (id : U)
  | workspace (row : W × U)
  | member (row : W × Option U)
  | auditEvent (row : AuditEvent U W)
  | credential (row : Credential U W K)
  | other (row : Option W × U × R)
  | secret (id : K)
  | message (archived : Bool) (owner : U)
  deriving DecidableEq

/-- The rows that the session changes before it has the user deleted. It holds them until it
commits or is rolled back. -/
def sessionRows (owner : U) (t : Tables U W K R) : List (Row U W K R) :=
  (t.ownSecrets owner).map .secret ++
    (t.members.filter fun m => decide (m.2 = some owner)).map .member ++
    (t.auditEvents.filter fun e => decide (e.actorId = owner)).map .auditEvent ++
    ((t.queue.getD []).filter fun u => decide (u = owner)).map (.message false) ++
    ((t.archive.getD []).filter fun u => decide (u = owner)).map (.message true)

/-- The rows that the deletion of the user cascades to. -/
def cascadeRows (owner : U) (t : Tables U W K R) : List (Row U W K R) :=
  let gone := t.ownWorkspaces owner
  .user owner :: (t.workspaces.filter fun w => decide (w.2 = owner)).map .workspace ++
    (t.members.filter fun m => decide (m.1 ∈ gone)).map .member ++
    (t.auditEvents.filter fun e => decide (e.workspaceId ∈ gone)).map .auditEvent ++
    (t.credentials.filter fun c =>
      decide (c.ownerId = owner) || c.workspaceId.any fun w => decide (w ∈ gone)).map .credential ++
    (t.others.filter fun r =>
      decide (r.2.1 = owner) || r.1.any fun w => decide (w ∈ gone)).map .other

/-- No row of the workspaces of the account is about the account itself. -/
def Apart (owner : U) (t : Tables U W K R) : Prop :=
  (∀ m ∈ t.members, m.2 = some owner → m.1 ∉ t.ownWorkspaces owner) ∧
    ∀ e ∈ t.auditEvents, e.actorId = owner → e.workspaceId ∉ t.ownWorkspaces owner

omit [DecidableEq K] in
theorem member_mem_cascadeRows {t : Tables U W K R} {m : W × Option U} :
    .member m ∈ cascadeRows owner t ↔ m ∈ t.members ∧ m.1 ∈ t.ownWorkspaces owner := by
  simp [cascadeRows]

omit [DecidableEq K] in
theorem auditEvent_mem_cascadeRows {t : Tables U W K R} {e : AuditEvent U W} :
    .auditEvent e ∈ cascadeRows owner t ↔
      e ∈ t.auditEvents ∧ e.workspaceId ∈ t.ownWorkspaces owner := by
  simp [cascadeRows]

omit [DecidableEq K] in
/-- The session and the cascade meet in the rows of the account in its own workspaces. -/
theorem apart_iff {t : Tables U W K R} :
    Apart owner t ↔ ∀ row ∈ sessionRows owner t, row ∉ cascadeRows owner t := by
  constructor
  · rintro ⟨hmembers, hevents⟩ row hsession
    simp only [sessionRows, List.mem_append, List.mem_map, List.mem_filter,
      decide_eq_true_eq] at hsession
    rcases hsession with (((⟨k, -, rfl⟩ | ⟨m, ⟨hm, howner⟩, rfl⟩) | ⟨e, ⟨he, hactor⟩, rfl⟩) |
      ⟨u, -, rfl⟩) | ⟨u, -, rfl⟩
    · simp [cascadeRows]
    · rw [member_mem_cascadeRows]
      exact fun h => hmembers m hm howner h.2
    · rw [auditEvent_mem_cascadeRows]
      exact fun h => hevents e he hactor h.2
    · simp [cascadeRows]
    · simp [cascadeRows]
  · intro h
    refine ⟨fun m hm howner hown => ?_, fun e he hactor hown => ?_⟩
    · refine h (.member m) ?_ (member_mem_cascadeRows.mpr ⟨hm, hown⟩)
      simp [sessionRows, hm, howner]
    · refine h (.auditEvent e) ?_ (auditEvent_mem_cascadeRows.mpr ⟨he, hown⟩)
      simp [sessionRows, he, hactor]

/-- The auth server answers that the user is deleted only in a run in which it gets the rows that
it deletes, while the session holds its own. -/
def Feasible [DecidableEq R] (owner : U) (t : Tables U W K R) (plan : Call → Fate) : Prop :=
  plan .deleteUser = .ok → Exchange.Answerable (sessionRows owner t) (cascadeRows owner t)

/-- Where the deletion of the user is never answered, no attempt gets to its commit. -/
theorem attempts_of_unanswered (str : U → Text) (graph : Bool) (hpending : s.pending = id)
    {plans : List (Call → Fate)} (hplans : ∀ plan ∈ plans, plan .deleteUser ≠ .ok) :
    .returned () ∉ (attempts str graph owner s plans).1 ∧
      ((attempts str graph owner s plans).2.tables = s.tables ∨
        (attempts str graph owner s plans).2.tables = s.tables.cascade owner) := by
  induction plans generalizing s with
  | nil => exact ⟨nofun, .inl rfl⟩
  | cons plan plans ih =>
    rw [List.forall_mem_cons] at hplans
    rw [attempts]
    rcases attempt_cases str graph owner plan hpending with ⟨-, hfin⟩ | ⟨hending, hunf⟩
    · exact absurd hfin.answered hplans.1
    · obtain ⟨hrest, htables⟩ := ih (s := (attempt str graph owner plan s).2) rfl hplans.2
      refine ⟨?_, ?_⟩
      · rw [List.mem_cons, not_or]
        exact ⟨Ne.symm hending, hrest⟩
      · rcases hunf.tables with hsame | ⟨-, hcascade | ⟨hfate, -⟩⟩
        · rwa [hsame] at htables
        · -- Without its user, the account is left as it is.
          have hled := progress_attempts str graph owner
            (s := (attempt str graph owner plan s).2) rfl plans
          refine .inr ((hled.absent ?_).trans hcascade)
          rw [hcascade]
          exact notMem_users_cascade _
        · exact absurd hfate hplans.1

/-- An account can be deleted just when it exists and no workspace of its own has it as a member
or as the actor of an audit event. Otherwise no attempt ever returns, and whatever the attempts
do, its secrets and its messages stay. -/
theorem deletable_iff [DecidableEq R] (str : U → Text) (graph : Bool) (owner : U)
    (tables : Tables U W K R) (objects : List Text) (entities : List W) :
    ((∃ plans : List (Call → Fate), (∀ plan ∈ plans, Feasible owner tables plan) ∧
        .returned () ∈ (attempts str graph owner (.closed tables objects entities) plans).1) ↔
      owner ∈ tables.users ∧ Apart owner tables) ∧
    (¬ Apart owner tables → ∀ plans : List (Call → Fate),
      (∀ plan ∈ plans, Feasible owner tables plan) →
        let led := (attempts str graph owner (.closed tables objects entities) plans).2.tables
        led.secrets = tables.secrets ∧ led.queue = tables.queue ∧
          led.archive = tables.archive) := by
  have hunanswered : ¬ Apart owner tables → ∀ plan : Call → Fate, Feasible owner tables plan →
      plan .deleteUser ≠ .ok := by
    intro hapart plan hfeasible hfate
    exact hapart (apart_iff.mpr (Exchange.answerable_iff.mp (hfeasible hfate)))
  refine ⟨⟨?_, ?_⟩, ?_⟩
  · rintro ⟨plans, hfeasible, hreturned⟩
    refine ⟨((progress_attempts str graph owner rfl plans).returned hreturned).1, ?_⟩
    by_contra hapart
    exact (attempts_of_unanswered str graph rfl fun plan hplan =>
      hunanswered hapart plan (hfeasible plan hplan)).1 hreturned
  · rintro ⟨huser, hapart⟩
    refine ⟨[fun _ => .ok], fun plan _ _ => ?_, ?_⟩
    · exact Exchange.answerable_iff.mpr (apart_iff.mp hapart)
    · rw [attempts, List.mem_cons]
      exact .inl (attempt_of_ok str graph (s := .closed tables objects entities) rfl huser
        fun _ => rfl).1.symm
  · intro hapart plans hfeasible led
    obtain ⟨-, htables⟩ := attempts_of_unanswered str graph
      (s := .closed tables objects entities) rfl fun plan hplan =>
        hunanswered hapart plan (hfeasible plan hplan)
    have hled : led = tables ∨ led = tables.cascade owner := htables
    rcases hled with hled | hled
    · rw [hled]
      exact ⟨rfl, rfl, rfl⟩
    · rw [hled]
      exact ⟨rfl, rfl, rfl⟩

end Maeglagi.Account
