import Maeglagi.Core.Fallible
import Maeglagi.Core.Machine
import Maeglagi.Core.Table
import Maeglagi.Core.Text

/-!
# The people of a workspace

`create_person` and `update_person` on the rows of one workspace. A request looks, decides and
writes; between two of its statements other requests may be served. What it writes are the columns
it changed of the row as it was when it looked.
-/

namespace Maeglagi.Workspaces

open Core

variable {Id : Type} [DecidableEq Id]

/-- `WorkspacePerson`, of the workspace that the requests are about. -/
structure PersonRow (Id : Type) where
  id : Id
  name : Text
  email : Option Text
  emailNormalized : Option Text
  role : Option Text
  aliases : List Text
  archivedAt : Option Nat
  deriving DecidableEq

/-- `_clean_aliases`, without a result where it raises. -/
def cleanAliases (values : List Text) : Option (List Text) :=
  let cleaned := values.map strip
  if cleaned.any fun item => decide (item = []) || decide (120 < item.length) then none
  else some cleaned.eraseDups

/-- A text that the database can store. -/
def storable (t : Text) : Bool := decide (Char.ofNat 0 ∉ t)

/-- A text fits in a column of that length. -/
def fitsIn (length : Nat) (t : Text) : Bool := storable t && decide (t.length ≤ length)

/-- `clean_role` -/
def cleanRole (value : Option Text) : Option Text :=
  value.bind fun role => if strip role = [] then none else some (strip role)

/-- The columns of a row that a statement writes. -/
structure RowChange where
  name : Option Text
  email : Option (Option Text)
  emailNormalized : Option (Option Text)
  role : Option (Option Text)
  aliases : Option (List Text)
  archivedAt : Option (Option Nat)

/-- The value, if it is another one. -/
def written {α : Type} [DecidableEq α] (old new : α) : Option α :=
  if new = old then none else some new

namespace RowChange

/-- What a session writes of an object that it loaded. -/
def between (old new : PersonRow Id) : RowChange where
  name := written old.name new.name
  email := written old.email new.email
  emailNormalized := written old.emailNormalized new.emailNormalized
  role := written old.role new.role
  aliases := written old.aliases new.aliases
  archivedAt := written old.archivedAt new.archivedAt

/-- The row after the statement. -/
def apply (change : RowChange) (row : PersonRow Id) : PersonRow Id where
  id := row.id
  name := change.name.getD row.name
  email := change.email.getD row.email
  emailNormalized := change.emailNormalized.getD row.emailNormalized
  role := change.role.getD row.role
  aliases := change.aliases.getD row.aliases
  archivedAt := change.archivedAt.getD row.archivedAt

/-- The values fit in their columns. -/
def fits (change : RowChange) : Bool :=
  change.name.all (fitsIn 120) && change.email.all (fun e => e.all (fitsIn 320)) &&
    change.emailNormalized.all (fun e => e.all (fitsIn 320)) &&
    change.role.all (fun r => r.all (fitsIn 120)) &&
    change.aliases.all (fun items => items.all storable)

end RowChange

/-- The values of a row fit in their columns. -/
def PersonRow.fits (row : PersonRow Id) : Bool :=
  fitsIn 120 row.name && row.email.all (fitsIn 320) && row.emailNormalized.all (fitsIn 320) &&
    row.role.all (fitsIn 120) && row.aliases.all storable

/-- How a statement fails. -/
inductive StatementError where
  | dataError | integrityError | staleData
  deriving DecidableEq

/-- `INSERT`, under the primary key and the unique index of the addresses. -/
def insertRow (rows : List (PersonRow Id)) (row : PersonRow Id) :
    Except StatementError (List (PersonRow Id)) :=
  if row.fits = false then .error .dataError
  else if rows.any (fun r => decide (r.id = row.id) ||
      (row.emailNormalized.isSome && decide (r.emailNormalized = row.emailNormalized))) then
    .error .integrityError
  else .ok (rows ++ [row])

/-- `UPDATE` of the row with an id, under the unique index. -/
def updateRow (rows : List (PersonRow Id)) (id : Id) (change : RowChange) :
    Except StatementError (List (PersonRow Id)) :=
  if change.fits = false then .error .dataError
  else if rows.all fun r => decide (r.id ≠ id) then .error .staleData
  else if rows.any fun r => decide (r.id ≠ id) &&
      change.emailNormalized.any fun e => e.isSome && decide (r.emailNormalized = e) then
    .error .integrityError
  else .ok (updateWhere (fun r => decide (r.id = id)) change.apply rows)

/-- `PersonInput` -/
structure PersonInput where
  name : Text
  email : Option Text
  role : Option Text
  aliases : List Text
  deriving DecidableEq

/-- `PersonPatch`; a field is absent if it is not in `model_fields_set`. -/
structure PersonPatch where
  name : Option (Option Text)
  email : Option (Option Text)
  role : Option (Option Text)
  aliases : Option (Option (List Text))
  archived : Option Bool

section
variable (nfkc casefold : Text → Text)

/-- `normalize_email`: the address and its normalized form, without a result where it raises. -/
def normalizedEmail (value : Option Text) : Option (Option Text × Option Text) :=
  match value with
  | none => some (none, none)
  | some value =>
    if strip value = [] then some (none, none)
    else
      let email := nfkc (strip value)
      if 320 < email.length ∨ email.count '@' ≠ 1 ∨ email.any isSpace = true then none
      else
        let localPart := email.takeWhile fun c => c != '@'
        let domain := email.drop (localPart.length + 1)
        if localPart = [] ∨ domain = [] ∨ '.' ∉ domain then none
        else some (some email, some (casefold email))

/-- The validators of `PersonInput`, without a result where one refuses. -/
def PersonInput.modelValidate (input : PersonInput) : Option PersonInput :=
  if input.name.length < 1 ∨ 120 < input.name.length ∨ strip input.name = [] ∨
      (input.email.any fun e => decide (320 < e.length)) = true ∨
      (input.role.any fun r => decide (120 < r.length)) = true then none
  else
    match cleanAliases input.aliases, normalizedEmail nfkc casefold input.email with
    | some aliases, some (email, _) =>
      some
        { name := strip input.name
          email := email
          role := cleanRole input.role
          aliases := aliases }
    | _, _ => none

/-- The validators of `PersonPatch`. -/
def PersonPatch.modelValidate (patch : PersonPatch) : Option PersonPatch :=
  if (patch.name.any fun n => n.any fun n =>
        decide (n.length < 1) || decide (120 < n.length) || decide (strip n = [])) = true ∨
      (patch.email.any fun e => e.any fun e => decide (320 < e.length)) = true ∨
      (patch.role.any fun r => r.any fun r => decide (120 < r.length)) = true then none
  else do
    let aliases ← patch.aliases.mapM fun items => items.mapM cleanAliases
    let email ← patch.email.mapM fun e => (normalizedEmail nfkc casefold e).map Prod.fst
    return { patch with
      name := patch.name.map fun n => n.map strip
      email := email
      role := patch.role.map cleanRole
      aliases := aliases }

end

/-- How far a call of `create_person` is. -/
inductive CreateStage (Id : Type) where
  /-- Before it looks for the address. -/
  | finding
  /-- It found the row, and the aliases it will have. -/
  | merging (loaded : PersonRow Id) (aliases : List Text)
  | inserting
  /-- It looks again, since the address was taken. -/
  | looking
  | succeeded (id : Id) (created : Bool)
  | failed (status : Nat)

/-- A call of `create_person`. -/
structure Creating (Id : Type) where
  input : PersonInput
  email : Option Text
  normalized : Option Text
  stage : CreateStage Id

/-- How far a call of `update_person` is. -/
inductive UpdateStage (Id : Type) where
  | reading
  | writing (loaded new : PersonRow Id)
  | succeeded
  | failed (status : Nat)

/-- A call of `update_person`. -/
structure Updating (Id : Type) where
  id : Id
  patch : PersonPatch
  stage : UpdateStage Id

/-- A request. -/
inductive Call (Id : Type) where
  | create (call : Creating Id)
  | update (call : Updating Id)

/-- What was committed: a `create_person` that succeeded with a row, and an `update_person` that
changed the aliases or the address of one. -/
inductive Commit (Id : Type) where
  | created (id : Id) (normalized : Option Text) (aliases : List Text)
  | changed (id : Id)
  deriving DecidableEq

/-- The rows, the requests and what was committed since the start. -/
structure Roster (Id : Type) where
  rows : List (PersonRow Id)
  calls : List (Call Id)
  log : List (Commit Id)

/-- Where a statement takes a call: its next stage, the rows and what is committed. -/
structure Served (Id σ : Type) where
  stage : σ
  rows : List (PersonRow Id)
  commits : List (Commit Id)

namespace Creating

variable (call : Creating Id) (rows : List (PersonRow Id))

/-- The address to look for: `if normalized`. -/
def key : Option Text := call.normalized.filter fun n => decide (n ≠ [])

/-- A statement that commits nothing. -/
def goes (stage : CreateStage Id) : Served Id (CreateStage Id) := ⟨stage, rows, []⟩

/-- The call succeeds with a row. -/
def succeeds (rows : List (PersonRow Id)) (id : Id) (created : Bool) :
    Served Id (CreateStage Id) :=
  ⟨.succeeded id created, rows, [.created id call.normalized call.input.aliases]⟩

/-- `select(WorkspacePerson)` by the address, without a result where the statement fails. -/
def select (key : Text) : Option (Option (PersonRow Id)) :=
  if storable key then some (rows.find? fun r => decide (r.emailNormalized = some key)) else none

/-- `_clean_aliases([*existing.aliases, *body.aliases])` -/
def merged (existing : PersonRow Id) : Option (List Text) :=
  cleanAliases (existing.aliases ++ call.input.aliases)

/-- The first look. -/
def find : Served Id (CreateStage Id) :=
  match call.key with
  | none => goes rows .inserting
  | some key =>
    match select rows key with
    | none => goes rows (.failed 500)
    | some none => goes rows .inserting
    | some (some existing) =>
      match call.merged existing with
      | none => goes rows (.failed 500)
      | some aliases =>
        if aliases ≠ existing.aliases ∨ existing.archivedAt ≠ none then
          goes rows (.merging existing aliases)
        else call.succeeds rows existing.id false

/-- The row that is inserted. -/
def row (id : Id) : PersonRow Id where
  id := id
  name := call.input.name
  email := call.email
  emailNormalized := call.normalized
  role := call.input.role
  aliases := call.input.aliases
  archivedAt := none

/-- The row is inserted. -/
def insert (id : Id) : Served Id (CreateStage Id) :=
  match insertRow rows (call.row id) with
  | .ok rows' => call.succeeds rows' id true
  | .error .integrityError =>
    match call.key with
    | some _ => goes rows .looking
    | none => goes rows (.failed 409)
  | .error _ => goes rows (.failed 500)

/-- The look after a conflict. -/
def look : Served Id (CreateStage Id) :=
  match call.key with
  | none => goes rows (.failed 409)
  | some key =>
    match select rows key with
    | none => goes rows (.failed 500)
    | some none => goes rows (.failed 409)
    | some (some existing) =>
      match call.merged existing with
      | none => goes rows (.failed 500)
      | some aliases => goes rows (.merging existing aliases)

/-- The aliases are written back, and the row is active. -/
def merge (loaded : PersonRow Id) (aliases : List Text) : Served Id (CreateStage Id) :=
  match updateRow rows loaded.id
      (.between loaded { loaded with aliases := aliases, archivedAt := none }) with
  | .ok rows' => call.succeeds rows' loaded.id false
  | .error _ => goes rows (.failed 500)

/-- The next statement of the call, if it is not over. -/
def proceed (id : Id) : Option (Served Id (CreateStage Id)) :=
  match call.stage with
  | .finding => some (call.find rows)
  | .inserting => some (call.insert rows id)
  | .looking => some (call.look rows)
  | .merging loaded aliases => some (call.merge rows loaded aliases)
  | .succeeded _ _ => none
  | .failed _ => none

end Creating

namespace Updating

variable (nfkc casefold : Text → Text) (call : Updating Id) (rows : List (PersonRow Id))

/-- The value of a field that cannot be null, or the status of the error. -/
def given {α : Type} (field : Option (Option α)) (old : α) : Except Nat α :=
  match field with
  | none => .ok old
  | some none => .error 422
  | some (some value) => .ok value

/-- The address and its normalized form after the patch. -/
def patchedEmail (person : PersonRow Id) : Except Nat (Option Text × Option Text) :=
  match call.patch.email with
  | none => .ok (person.email, person.emailNormalized)
  | some email =>
    match normalizedEmail nfkc casefold email with
    | none => .error 500
    | some both => .ok both

/-- The row with the values of the patch, or the status of the error. -/
def patched (now : Nat) (person : PersonRow Id) : Except Nat (PersonRow Id) := do
  let name ← given call.patch.name person.name
  let aliases ← given call.patch.aliases person.aliases
  let email ← call.patchedEmail nfkc casefold person
  return { person with
    name := name
    aliases := aliases
    role := call.patch.role.getD person.role
    email := email.1
    emailNormalized := email.2
    archivedAt :=
      match call.patch.archived with
      | none => person.archivedAt
      | some true => some now
      | some false => none }

/-- The row is read and changed in memory. -/
def read (now : Nat) : Served Id (UpdateStage Id) :=
  match rows.find? fun r => decide (r.id = call.id) with
  | none => ⟨.failed 404, rows, []⟩
  | some person =>
    match call.patched nfkc casefold now person with
    | .error status => ⟨.failed status, rows, []⟩
    | .ok new => ⟨.writing person new, rows, []⟩

/-- The statement changes the aliases or the address of the row. -/
def changes (rows : List (PersonRow Id)) (id : Id) (change : RowChange) : Bool :=
  rows.any fun r => decide (r.id = id) &&
    (decide ((change.apply r).aliases ≠ r.aliases) ||
      decide ((change.apply r).email ≠ r.email) ||
      decide ((change.apply r).emailNormalized ≠ r.emailNormalized))

/-- What was changed is written. -/
def write (loaded new : PersonRow Id) : Served Id (UpdateStage Id) :=
  let change := RowChange.between loaded new
  match updateRow rows loaded.id change with
  | .ok rows' => ⟨.succeeded, rows', if changes rows loaded.id change then [.changed loaded.id] else []⟩
  | .error .integrityError => ⟨.failed 409, rows, []⟩
  | .error _ => ⟨.failed 500, rows, []⟩

/-- The next statement of the call, if it is not over. -/
def proceed (now : Nat) : Option (Served Id (UpdateStage Id)) :=
  match call.stage with
  | .reading => some (call.read nfkc casefold rows now)
  | .writing loaded new => some (write rows loaded new)
  | .succeeded => none
  | .failed _ => none

end Updating

/-- What happens: a request arrives, or its next statement is executed. An id that `uuid4` draws
is new. -/
inductive RosterEvent (Id : Type) where
  | create (input : PersonInput)
  | update (id : Id) (patch : PersonPatch)
  | proceed (i : Nat) (id : Id) (now : Nat)

namespace Roster

variable (nfkc casefold : Text → Text)

/-- Rows, before any request. -/
def start (rows : List (PersonRow Id)) : Roster Id := ⟨rows, [], []⟩

/-- `create_person`, up to its first statement. -/
def call (input : PersonInput) : Call Id :=
  match normalizedEmail nfkc casefold input.email with
  | none => .create ⟨input, none, none, .failed 500⟩
  | some (email, normalized) => .create ⟨input, email, normalized, .finding⟩

/-- One thing that happens. -/
def step (s : Roster Id) : RosterEvent Id → Option (Roster Id)
  | .create input =>
    (input.modelValidate nfkc casefold).map fun input =>
      { s with calls := s.calls ++ [call nfkc casefold input] }
  | .update id patch =>
    (patch.modelValidate nfkc casefold).map fun patch =>
      { s with calls := s.calls ++ [.update ⟨id, patch, .reading⟩] }
  | .proceed i id now =>
    if s.rows.any fun r => decide (r.id = id) then none
    else
      match s.calls[i]? with
      | none => none
      | some (.create call) =>
        (call.proceed s.rows id).map fun served =>
          { rows := served.rows
            calls := s.calls.set i (.create { call with stage := served.stage })
            log := s.log ++ served.commits }
      | some (.update call) =>
        (call.proceed nfkc casefold s.rows now).map fun served =>
          { rows := served.rows
            calls := s.calls.set i (.update { call with stage := served.stage })
            log := s.log ++ served.commits }

end Roster

end Maeglagi.Workspaces
