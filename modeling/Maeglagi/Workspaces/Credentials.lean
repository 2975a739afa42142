import Mathlib.Data.List.Nodup
import Maeglagi.Core.Fallible
import Maeglagi.Core.Machine
import Maeglagi.Core.Table
import Maeglagi.Runtime

/-!
# Provider credentials

The table `provider_credentials` and the requests that write it. A scope is the account of an
owner or a workspace. The constraints of the table are part of the state: a transaction that
breaks one is refused. What services outside answer to a request is given with it.
-/

namespace Maeglagi.Workspaces

open Core

/-- Where a credential belongs. -/
inductive Scope (Id : Type) where
  | account (owner : Id)
  | workspace (id : Id)
  deriving DecidableEq

/-- `ProviderCredential` -/
structure ProviderCredential (Id : Type) where
  id : Id
  workspaceId : Option Id
  ownerId : Id
  provider : Text
  label : Text
  vaultSecretId : Option Id
  baseUrl : Option Text
  encryptedSecret : Option Text
  keyHint : Text
  status : Text
  isDefault : Bool
  deriving DecidableEq

/-- A selection of a model in `model_settings`. -/
structure Selection where
  provider : Option Text
  credentialId : Option Text

/-- The fields of a `Workspace` that the requests read. -/
structure OwnedWorkspace (Id : Type) where
  id : Id
  ownerId : Id
  modelSettings : List (Text × Selection)

/-- How a request fails. -/
inductive CredentialError where
  | http (status : Nat) (detail : Text)
  | unavailable (message : Text)
  | integrityError
  | vault
  deriving DecidableEq

variable {Id : Type} [DecidableEq Id]

/-- The scope that a request is about. -/
def scopeOf (workspaceId : Option Id) (user : Id) : Scope Id :=
  match workspaceId with
  | some workspace => .workspace workspace
  | none => .account user

namespace ProviderCredential

omit [DecidableEq Id] in
/-- The scope of a credential. -/
def scope (r : ProviderCredential Id) : Scope Id := scopeOf r.workspaceId r.ownerId

/-- Two rows can stand in the table together. -/
def Apart (r r' : ProviderCredential Id) : Prop :=
  r.id ≠ r'.id ∧ (r.scope = r'.scope → ¬(r.provider = r'.provider ∧ r.label = r'.label) ∧
    ¬(r.isDefault = true ∧ r'.isDefault = true))

instance : DecidableRel (Apart : ProviderCredential Id → ProviderCredential Id → Prop) :=
  fun _ _ => inferInstanceAs (Decidable (_ ∧ (_ → ¬(_ ∧ _) ∧ ¬(_ ∧ _))))

/-- `ck_provider_credentials_has_secret` -/
def HasSecret (r : ProviderCredential Id) : Prop :=
  r.provider = "ollama".toList ∨ r.vaultSecretId.isSome = true ∨ r.encryptedSecret.isSome = true

instance (r : ProviderCredential Id) : Decidable r.HasSecret :=
  inferInstanceAs (Decidable (_ ∨ _ ∨ _))

end ProviderCredential

/-- The constraints of the table. -/
structure CredentialsStored (workspaces : List (OwnedWorkspace Id))
    (rows : List (ProviderCredential Id)) : Prop where
  apart : rows.Pairwise ProviderCredential.Apart
  secrets : ∀ r ∈ rows, r.HasSecret
  workspaces : ∀ r ∈ rows, ∀ w ∈ r.workspaceId, w ∈ workspaces.map (·.id)

instance (workspaces : List (OwnedWorkspace Id)) (rows : List (ProviderCredential Id)) :
    Decidable (CredentialsStored workspaces rows) :=
  decidable_of_iff (rows.Pairwise ProviderCredential.Apart ∧ (∀ r ∈ rows, r.HasSecret) ∧
    ∀ r ∈ rows, ∀ w ∈ r.workspaceId, w ∈ workspaces.map (·.id))
    ⟨fun h => ⟨h.1, h.2.1, h.2.2⟩, fun h => ⟨h.apart, h.secrets, h.workspaces⟩⟩

/-- The workspaces and the credentials. -/
structure Credentials (Id : Type) [DecidableEq Id] where
  workspaces : List (OwnedWorkspace Id)
  rows : List (ProviderCredential Id)
  stored : CredentialsStored workspaces rows

/-- No workspace and no credential. -/
def Credentials.start : Credentials Id := ⟨[], [], ⟨.nil, nofun, nofun⟩⟩

/-- What is outside of the database answers to a request. -/
structure Services (Id : Type) where
  /-- `workspace_access(.., minimum_role="admin")` and the lock of the workspace -/
  access : Id → Except CredentialError Unit
  /-- `normalize_ollama_url`, without a result where it raises `ValueError` -/
  normalizeUrl : Text → Option Text
  /-- `validate_provider_credential` -/
  validate : Text → Text → Option Text → Bool × Text
  createSecret : Text → Except CredentialError Id
  updateSecret : Id → Text → Except CredentialError Unit
  deleteSecret : Id → Except CredentialError Unit
  reveal : Id → Except CredentialError Text
  decrypt : Text → Except CredentialError Text
  /-- `invalid_selections(models, options)` -/
  modelProblems : List Text
  /-- `with_recommended_defaults(models, options)` -/
  modelChoices : List (Text × Selection)
  str : Id → Text
  now : Instant
  newCredential : Id
  newWorkspace : Id

/-- The fields of an `AuthUser` that the requests read. -/
structure Requester (Id : Type) where
  id : Id
  lastSignInAt : Option DateTime

/-- `CredentialInput` -/
structure CredentialInput where
  provider : Text
  apiKey : Option Text
  baseUrl : Option Text
  label : Text

/-- `CredentialRotation`; the key may be left out or be null. -/
structure CredentialRotation where
  apiKey : Option (Option Text)
  baseUrl : Option Text

/-- `CreateWorkspaceRequest`, with the models as the services' answers about them. -/
structure CreateWorkspaceRequest (Id : Type) where
  llmProvider : Option Text
  credentialId : Option Id
  llmApiKey : Option Text
  llmBaseUrl : Option Text
  models : Bool

/-- A refusal with status 422. -/
def unprocessable {α : Type} (detail : String) : Except CredentialError α :=
  .error (.http 422 detail.toList)

/-- A check with the error that it fails with. -/
def ensure (condition : Bool) (error : CredentialError) : Except CredentialError Unit :=
  if condition then .ok () else .error error

/-- `_credential_key` -/
def credentialKey (provider : Text) (value : Option Text) : Except CredentialError Text :=
  if provider = "ollama".toList then .ok (value.getD [])
  else match value with
    | some (c :: key) => .ok (c :: key)
    | _ => unprocessable "API key is required"

/-- `_base_url` -/
def baseUrlOf (services : Services Id) (provider : Text) (value existing : Option Text) :
    Except CredentialError (Option Text) :=
  if provider ≠ "ollama".toList then
    match value with
    | some _ => unprocessable "baseUrl is only for Ollama"
    | none => .ok none
  else match value with
    | none => match existing with
      | none => unprocessable "Ollama baseUrl is required"
      | some url => .ok (some url)
    | some url => match services.normalizeUrl url with
      | some url => .ok (some url)
      | none => unprocessable "Invalid Ollama baseUrl"

/-- `_key_hint` -/
def keyHint (provider key : Text) : Text :=
  if provider = "ollama".toList then
    if key ≠ [] then "configured".toList else "none".toList
  else key.drop (key.length - 4)

/-- `RECENT_AUTH_WINDOW`, in microseconds -/
def recentAuthWindow : Int := 600000000

/-- `_require_recent_authentication` -/
def requireRecentAuthentication (services : Services Id) (user : Requester Id) :
    Except CredentialError Unit :=
  match user.lastSignInAt with
  | none => .error (.http 403 "Recent authentication required".toList)
  | some signedIn =>
    ensure (decide ((services.now.val : Int) - (signedIn.wall.val - signedIn.offset.getD 0) ≤
      recentAuthWindow)) (.http 403 "Recent authentication required".toList)

/-- `_ollama_endpoint_changed` -/
def endpointChanged (credential : ProviderCredential Id) (baseUrl : Option Text) : Bool :=
  decide (credential.provider = "ollama".toList) && decide (baseUrl ≠ credential.baseUrl)

/-- A changed endpoint needs a recent sign-in and a new key. -/
def requireNewKey (services : Services Id) (user : Requester Id)
    (credential : ProviderCredential Id) (baseUrl apiKey : Option Text) :
    Except CredentialError Unit :=
  if endpointChanged credential baseUrl then do
    requireRecentAuthentication services user
    ensure (decide (apiKey.getD [] ≠ []))
      (.http 422 "Changing an Ollama endpoint requires a new API key".toList)
  else .ok ()

/-- `resolve_credential_secret` -/
def resolveSecret (services : Services Id) (credential : ProviderCredential Id) :
    Except CredentialError Text :=
  match credential.vaultSecretId with
  | some secret => services.reveal secret
  | none =>
    if credential.provider = "ollama".toList then .ok []
    else match credential.encryptedSecret with
      | some (c :: secret) => services.decrypt (c :: secret)
      | _ => .error (.unavailable "Credential has no stored secret".toList)

/-- The secret of a credential in the vault after `_set_secret`. -/
def storedSecret (services : Services Id) (secretId : Option Id) (key : Text) :
    Except CredentialError (Option Id) :=
  match secretId, key with
  | none, [] => .ok none
  | some id, [] => do
    services.deleteSecret id
    return none
  | none, c :: key => do
    let id ← services.createSecret (c :: key)
    return some id
  | some id, c :: key => do
    services.updateSecret id (c :: key)
    return some id

/-- `_set_secret` -/
def setSecret (services : Services Id) (credential : ProviderCredential Id) (key : Text) :
    Except CredentialError (ProviderCredential Id) := do
  let secret ← storedSecret services credential.vaultSecretId key
  return { credential with
    vaultSecretId := secret, encryptedSecret := none, keyHint := keyHint credential.provider key }

/-- `_set_secret` where a condition holds. -/
def setSecretIf (services : Services Id) (condition : Bool) (credential : ProviderCredential Id)
    (key : Text) : Except CredentialError (ProviderCredential Id) :=
  if condition then setSecret services credential key else .ok credential

/-- The check of `_validate`. -/
def requireValid (services : Services Id) (provider key : Text) (baseUrl : Option Text) :
    Except CredentialError Unit :=
  let result := services.validate provider key
    (if provider = "ollama".toList then baseUrl else none)
  ensure result.1 (.http 422 result.2)

namespace Credentials

variable (s : Credentials Id) (services : Services Id) (user : Requester Id)

/-- A transaction with the new tables commits or is rolled back. -/
def commit (workspaces : List (OwnedWorkspace Id)) (rows : List (ProviderCredential Id)) :
    Except CredentialError (Credentials Id) :=
  if h : CredentialsStored workspaces rows then .ok ⟨workspaces, rows, h⟩
  else .error .integrityError

/-- `_workspace_credentials` -/
def inScope (scope : Scope Id) : List (ProviderCredential Id) :=
  s.rows.filter fun r => decide (r.scope = scope)

/-- The check of a request about the credentials of a workspace. -/
def accessTo (workspaceId : Option Id) : Except CredentialError Unit :=
  match workspaceId with
  | some workspace => services.access workspace
  | none => .ok ()

/-- `_owned_credential` -/
def ownedCredential (workspaceId : Option Id) (credentialId : Id) :
    Except CredentialError (ProviderCredential Id) :=
  match s.rows.find? fun r => decide (r.id = credentialId) with
  | none => .error (.http 404 "Credential not found".toList)
  | some credential => do
    ensure (decide (credential.workspaceId = workspaceId))
      (.http 404 "Credential not found".toList)
    ensure (decide (workspaceId = none → credential.ownerId = user.id))
      (.http 404 "Credential not found".toList)
    return credential

/-- `add_credential` -/
def addCredential (workspaceId : Option Id) (body : CredentialInput) :
    Except CredentialError (Credentials Id × ProviderCredential Id) := do
  accessTo services workspaceId
  let key ← credentialKey body.provider body.apiKey
  let baseUrl ← baseUrlOf services body.provider body.baseUrl none
  requireValid services body.provider key baseUrl
  let credentials := s.inScope (scopeOf workspaceId user.id)
  ensure (!credentials.any fun item =>
      decide (item.provider = body.provider) && decide (item.label = body.label))
    (.http 409 "Credential label already exists".toList)
  let credential ← setSecretIf services (decide (key ≠ [])) {
    id := services.newCredential, workspaceId, ownerId := user.id, provider := body.provider,
    label := body.label, vaultSecretId := none, baseUrl, encryptedSecret := none,
    keyHint := keyHint body.provider key, status := "active".toList,
    isDefault := !credentials.any (·.isDefault) } key
  let s' ← commit s.workspaces (s.rows ++ [credential])
  return (s', credential)

/-- The table with a row in place of the one with its id. -/
def replaced (credential : ProviderCredential Id) (rows : List (ProviderCredential Id)) :
    List (ProviderCredential Id) :=
  updateWhere (fun r => decide (r.id = credential.id)) (fun _ => credential) rows

/-- The address of a rotated credential. -/
def rotatedUrl (credential : ProviderCredential Id) (value : Option Text) :
    Except CredentialError (Option Text) :=
  match value with
  | some url => baseUrlOf services credential.provider (some url) credential.baseUrl
  | none => .ok credential.baseUrl

/-- The key of a rotated credential. -/
def rotatedKey (credential : ProviderCredential Id) (apiKey : Option (Option Text)) :
    Except CredentialError Text :=
  if credential.provider = "ollama".toList ∧ apiKey = none then resolveSecret services credential
  else credentialKey credential.provider apiKey.join

/-- `rotate_credential` -/
def rotateCredential (workspaceId : Option Id) (credentialId : Id) (body : CredentialRotation) :
    Except CredentialError (Credentials Id × ProviderCredential Id) := do
  accessTo services workspaceId
  let credential ← s.ownedCredential user workspaceId credentialId
  let baseUrl ← rotatedUrl services credential body.baseUrl
  requireNewKey services user credential baseUrl body.apiKey.join
  let key ← rotatedKey services credential body.apiKey
  requireValid services credential.provider key baseUrl
  let changed ← setSecretIf services
    (decide (credential.provider ≠ "ollama".toList) || body.apiKey.isSome) credential key
  let changed := { changed with baseUrl, status := "active".toList }
  let s' ← commit s.workspaces (replaced changed s.rows)
  return (s', changed)

/-- The rows of a scope are no defaults any more, except that with the id. -/
def cleared (scope : Scope Id) (keep : Option Id) (rows : List (ProviderCredential Id)) :
    List (ProviderCredential Id) :=
  updateWhere (fun r => decide (r.scope = scope) && decide (some r.id ≠ keep))
    (fun r => { r with isDefault := false }) rows

/-- `choose_default_credential` -/
def chooseDefaultCredential (workspaceId : Option Id) (credentialId : Id) :
    Except CredentialError (Credentials Id × ProviderCredential Id) := do
  accessTo services workspaceId
  let credential ← s.ownedCredential user workspaceId credentialId
  ensure (decide (credential.status = "active".toList))
    (.http 409 "Credential is not active".toList)
  let chosen := { credential with isDefault := true }
  let s' ← commit s.workspaces (replaced chosen
    (cleared (scopeOf workspaceId user.id) (some credential.id) s.rows))
  return (s', chosen)

/-- The selections of models that a removal must not break. -/
def selections (workspaceId : Option Id) : List Selection :=
  (s.workspaces.filter fun w => match workspaceId with
    | some workspace => decide (w.id = workspace)
    | none => decide (w.ownerId = user.id)).flatMap fun w => w.modelSettings.map Prod.snd

/-- The secret of a removed credential goes too. -/
def dropSecret (secret : Option Id) : Except CredentialError Unit :=
  match secret with
  | some secret => services.deleteSecret secret
  | none => .ok ()

/-- `remove_credential` -/
def removeCredential (workspaceId : Option Id) (credentialId : Id) :
    Except CredentialError (Credentials Id) := do
  accessTo services workspaceId
  let credential ← s.ownedCredential user workspaceId credentialId
  let credentials := s.inScope (scopeOf workspaceId user.id)
  ensure (!(credential.isDefault && decide (1 < credentials.length)))
    (.http 409 "Choose another default before deletion".toList)
  let selections := s.selections user workspaceId
  ensure (!selections.any fun x =>
      decide (x.credentialId = some (services.str credential.id)))
    (.http 409 "This credential is selected by a workspace model".toList)
  ensure (!((selections.any fun x => decide (x.provider = some credential.provider)) &&
      !credentials.any fun item => decide (item.id ≠ credential.id) &&
        decide (item.provider = credential.provider) && decide (item.status = "active".toList)))
    (.http 409 "This is the last active credential for a selected model provider".toList)
  dropSecret services credential.vaultSecretId
  commit s.workspaces (s.rows.filter fun r => decide (r.id ≠ credential.id))

/-- The address of the default credential of a workspace. -/
def upsertedUrl (credential : Option (ProviderCredential Id)) (body : CredentialInput) :
    Except CredentialError (Option Text) :=
  match body.baseUrl, credential with
  | none, some credential =>
    if body.provider = "ollama".toList then .ok credential.baseUrl
    else baseUrlOf services body.provider none credential.baseUrl
  | value, credential => baseUrlOf services body.provider value (credential.bind (·.baseUrl))

/-- The key of the default credential of a workspace. -/
def upsertedKey (credential : Option (ProviderCredential Id)) (body : CredentialInput) :
    Except CredentialError Text :=
  match credential with
  | some credential =>
    if body.provider = "ollama".toList ∧ body.apiKey = none then resolveSecret services credential
    else credentialKey body.provider body.apiKey
  | none => credentialKey body.provider body.apiKey

/-- The checks and the new row of `upsert_default_credential`. -/
def upserted (workspaceId : Id) (credential : Option (ProviderCredential Id))
    (body : CredentialInput) (baseUrl : Option Text) (key : Text) :
    Except CredentialError (ProviderCredential Id) :=
  match credential with
  | none => setSecretIf services (decide (key ≠ [])) {
      id := services.newCredential, workspaceId := some workspaceId, ownerId := user.id,
      provider := body.provider, label := body.label, vaultSecretId := none, baseUrl,
      encryptedSecret := none, keyHint := keyHint body.provider key,
      status := "active".toList, isDefault := true } key
  | some credential => do
    let changed ← setSecretIf services
      (decide (body.provider ≠ "ollama".toList) || body.apiKey.isSome) credential key
    return { changed with baseUrl, status := "active".toList, isDefault := true }

/-- The table with a new row, or with a changed one in its place. -/
def put (credential : Option (ProviderCredential Id)) (row : ProviderCredential Id)
    (rows : List (ProviderCredential Id)) : List (ProviderCredential Id) :=
  match credential with
  | none => rows ++ [row]
  | some _ => replaced row rows

/-- The check of a credential whose address an upsert changes. -/
def requireUpserted (credential : Option (ProviderCredential Id)) (body : CredentialInput)
    (baseUrl : Option Text) : Except CredentialError Unit :=
  match credential with
  | some credential => requireNewKey services user credential baseUrl body.apiKey
  | none => .ok ()

/-- `upsert_default_credential` -/
def upsertDefaultCredential (workspaceId : Id) (body : CredentialInput) :
    Except CredentialError (Credentials Id × ProviderCredential Id) := do
  services.access workspaceId
  let credential := (s.inScope (.workspace workspaceId)).find? fun item =>
    decide (item.provider = body.provider) && decide (item.label = body.label)
  let baseUrl ← upsertedUrl services credential body
  requireUpserted services user credential body baseUrl
  let key ← upsertedKey services credential body
  requireValid services body.provider key baseUrl
  let row ← upserted services user workspaceId credential body baseUrl key
  let s' ← commit s.workspaces (put credential row (cleared (.workspace workspaceId) none s.rows))
  return (s', row)

/-- `f"기본 {suffix}"` -/
def suffixed (suffix : Nat) : Text := "기본 ".toList ++ (toString suffix).toList

/-- The first label that is not taken; as many are tried as there are labels. -/
def freeLabel (taken : List Text) : Text :=
  if "기본".toList ∈ taken then
    (((List.range (taken.length + 1)).map fun i => suffixed (i + 2)).find?
      fun label => decide (label ∉ taken)).getD []
  else "기본".toList

/-- The connection that a new workspace is created with, and the saved credential it is from. -/
structure Chosen (Id : Type) where
  credential : Option (ProviderCredential Id)
  provider : Text
  key : Text
  baseUrl : Option Text

/-- The connection that a request for a workspace names. -/
def chosenCredential (body : CreateWorkspaceRequest Id) : Except CredentialError (Chosen Id) :=
  match body.credentialId with
  | some id =>
    match (s.inScope (.account user.id)).find? fun item =>
        decide (item.id = id) && decide (item.status = "active".toList) with
    | none => .error (.http 404 "Credential not found".toList)
    | some credential => do
      ensure (body.llmProvider.all fun provider => decide (provider = credential.provider))
        (.http 422 "Provider mismatch".toList)
      ensure (body.llmApiKey.isNone && body.llmBaseUrl.isNone)
        (.http 422 "Use the saved credential".toList)
      match resolveSecret services credential with
      | .ok key => return ⟨some credential, credential.provider, key, credential.baseUrl⟩
      | .error (.unavailable _) => unprocessable "Saved credential is unavailable"
      | .error e => .error e
  | none =>
    match body.llmProvider with
    | none => unprocessable "credentialId or llmProvider is required"
    | some provider => do
      let key ← credentialKey provider body.llmApiKey
      let baseUrl ← baseUrlOf services provider body.llmBaseUrl none
      return ⟨none, provider, key, baseUrl⟩

/-- The secret that a new workspace's credential is stored with. -/
def createdSecret (key : Text) : Except CredentialError (Option Id) :=
  match key with
  | [] => .ok none
  | c :: key => do
    let id ← services.createSecret (c :: key)
    return some id

/-- The credential of a new workspace: the named one, or a new one of the account. -/
def createdCredential (chosen : Chosen Id) :
    Except CredentialError (ProviderCredential Id × List (ProviderCredential Id)) :=
  match chosen.credential with
  | some credential => .ok (credential, s.rows)
  | none => do
    let credentials := s.inScope (.account user.id)
    let secret ← createdSecret services chosen.key
    let credential : ProviderCredential Id := {
      id := services.newCredential, workspaceId := none, ownerId := user.id,
      provider := chosen.provider, label := freeLabel ((credentials.filter fun item =>
        decide (item.provider = chosen.provider)).map (·.label)),
      vaultSecretId := secret, baseUrl := chosen.baseUrl, encryptedSecret := none,
      keyHint := keyHint chosen.provider chosen.key, status := "active".toList,
      isDefault := !credentials.any (·.isDefault) }
    return (credential, s.rows ++ [credential])

/-- `create_workspace` -/
def createWorkspace (body : CreateWorkspaceRequest Id) :
    Except CredentialError (Credentials Id) :=
  if body.credentialId = none ∧ body.llmProvider = none then do
    ensure (body.llmApiKey.isNone && body.llmBaseUrl.isNone && !body.models)
      (.http 422 "Choose a provider before configuring its credential or models".toList)
    commit (s.workspaces ++ [⟨services.newWorkspace, user.id, []⟩]) s.rows
  else do
    let chosen ← s.chosenCredential services user body
    requireValid services chosen.provider chosen.key chosen.baseUrl
    ensure services.modelProblems.isEmpty
      (.http 422 (List.intercalate " ".toList services.modelProblems))
    let created ← s.createdCredential services user chosen
    let settings := services.modelChoices.map fun choice =>
      (choice.1, { choice.2 with credentialId := some (services.str created.1.id) })
    commit (s.workspaces ++ [⟨services.newWorkspace, user.id, settings⟩]) created.2

end Credentials

/-- A request that writes credentials. -/
inductive CredentialOperation (Id : Type) where
  | add (workspaceId : Option Id) (body : CredentialInput)
  | rotate (workspaceId : Option Id) (credentialId : Id) (body : CredentialRotation)
  | choose (workspaceId : Option Id) (credentialId : Id)
  | remove (workspaceId : Option Id) (credentialId : Id)
  | upsert (workspaceId : Id) (body : CredentialInput)
  | createWorkspace (body : CreateWorkspaceRequest Id)

/-- A request of a user, with what is outside of the database. -/
structure CredentialRequest (Id : Type) where
  services : Services Id
  user : Requester Id
  operation : CredentialOperation Id

namespace Credentials

/-- The state that a request leaves when it succeeds. -/
def run (s : Credentials Id) (request : CredentialRequest Id) :
    Except CredentialError (Credentials Id) :=
  let ⟨services, user, operation⟩ := request
  match operation with
  | .add workspaceId body => do
    let result ← s.addCredential services user workspaceId body
    return result.1
  | .rotate workspaceId credentialId body => do
    let result ← s.rotateCredential services user workspaceId credentialId body
    return result.1
  | .choose workspaceId credentialId => do
    let result ← s.chooseDefaultCredential services user workspaceId credentialId
    return result.1
  | .remove workspaceId credentialId => s.removeCredential services user workspaceId credentialId
  | .upsert workspaceId body => do
    let result ← s.upsertDefaultCredential services user workspaceId body
    return result.1
  | .createWorkspace body => s.createWorkspace services user body

/-- The state after a request: a failed one leaves it as it was. -/
def after (s : Credentials Id) (request : CredentialRequest Id) : Credentials Id :=
  match s.run request with
  | .ok s' => s'
  | .error _ => s

end Credentials

end Maeglagi.Workspaces
