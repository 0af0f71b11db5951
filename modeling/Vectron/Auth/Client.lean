import Vectron.Auth.Store

/-! # The functions of the store

`CreateUser` to `DeleteUser` of `auth/service/internal/etcd/client.go`, as programs over the
store and the cache. What a call takes from its process besides (a uuid, a salt of bcrypt, a
reading of the wall clock) it has drawn when it begins.
-/

namespace Vectron.Auth

open Foundation

abbrev AuthProgram := Program Op Answer

/-- The text of a uuid, `uuid.New().String()`. -/
structure Uuid where
  text : Bytes
  length : text.length = 36
deriving DecidableEq

/-- What one call draws from its process. -/
structure Draw where
  uuid : Uuid
  salt : Bytes
  unixNow : Int64
deriving DecidableEq

/-- The package bcrypt: `GenerateFromPassword` with the salt it draws, which refuses long
passwords, and whether `CompareHashAndPassword` accepts. -/
structure Bcrypt where
  generate : Bytes → Bytes → Option Bytes
  compare : Bytes → Bytes → Bool
  accepts : ∀ {salt password hash}, generate salt password = some hash →
    compare hash password = true

/-- A hash accepts no other password than the one it was generated from. -/
def Bcrypt.Exact (bcrypt : Bcrypt) : Prop :=
  ∀ salt password hash other, bcrypt.generate salt password = some hash →
    bcrypt.compare hash other = true → other = password

/-! ## The calls of etcd and of the cache -/

namespace Etcd

abbrev getUser (email : Bytes) : AuthProgram (Except StoreError (Option UserData)) :=
  Program.perform (Op.getUser email)

abbrev getUserID (id : Bytes) : AuthProgram (Except StoreError (Option Bytes)) :=
  Program.perform (Op.getUserID id)

abbrev getAPIKey (keyPrefix : Bytes) : AuthProgram (Except StoreError (Option APIKeyData)) :=
  Program.perform (Op.getAPIKey keyPrefix)

abbrev getUsers : AuthProgram (Except StoreError (List UserData)) :=
  Program.perform Op.getUsers

abbrev getAPIKeys : AuthProgram (Except StoreError (List APIKeyData)) :=
  Program.perform Op.getAPIKeys

abbrev getIndex (front : Bytes) : AuthProgram (Except StoreError (List ApiKeyListEntry)) :=
  Program.perform (Op.getIndex front)

abbrev commit (writes : List Write) : AuthProgram (Except StoreError Unit) :=
  Program.perform (Op.commit writes)

end Etcd

namespace APIKeyCache

abbrev get (fullKey : Bytes) : AuthProgram (Option APIKeyData) :=
  Program.perform (Op.cacheGet fullKey)

abbrev set (fullKey : Bytes) (data : APIKeyData) : AuthProgram Unit :=
  Program.perform (Op.cacheSet fullKey data)

abbrev invalidate (fullKey : Bytes) : AuthProgram Unit :=
  Program.perform (Op.cacheInvalidate fullKey)

end APIKeyCache

/-! ## Users -/

/-- The id of the account that `CreateUser` makes. -/
def newUserID (uuid : Uuid) : Bytes := utf8 "user-" ++ uuid.text

def getUserByEmail (email : Bytes) : AuthProgram (Except StoreError UserData) := do
  match ← Etcd.getUser email with
  | .error err => return .error err
  | .ok none => return .error (.text "user not found")
  | .ok (some userData) => return .ok userData

/-- `CreateUser`. Any error of the lookup counts as the absence of the account. -/
def createUser (bcrypt : Bcrypt) (draw : Draw) (email password : Bytes) :
    AuthProgram (Except StoreError UserData) := do
  match ← getUserByEmail email with
  | .ok _ => return .error (.text "user with this email already exists")
  | .error _ =>
      match bcrypt.generate draw.salt password with
      | none => return .error .bcrypt
      | some hashedPassword =>
          let userData : UserData :=
            { id := newUserID draw.uuid
              email := email
              hashedPassword := hashedPassword
              createdAt := draw.unixNow
              plan := Plan.free
              subscriptionStatus := SubscriptionStatus.active }
          match ← Etcd.commit
              [.putUser userData.email userData, .putUserID userData.id userData.email] with
          | .error err => return .error err
          | .ok _ => return .ok userData

/-- The scan at the end of `GetUserByID`. -/
def scanForUser (userID : Bytes) : AuthProgram (Except StoreError UserData) := do
  match ← Etcd.getUsers with
  | .error err => return .error err
  | .ok users =>
      match users.find? fun userData => userData.id = userID with
      | none => return .error (.text "user not found")
      | some userData => return .ok userData

def getUserByID (userID : Bytes) : AuthProgram (Except StoreError UserData) := do
  match ← Etcd.getUserID userID with
  | .ok (some email) => if email ≠ [] then getUserByEmail email else scanForUser userID
  | _ => scanForUser userID

/-- The record that `UpdateUserPlan` writes. -/
def UserData.withPlan (userData : UserData) (plan : Plan) : UserData :=
  { userData with
    plan := plan
    subscriptionStatus :=
      if plan = Plan.paid then SubscriptionStatus.active else userData.subscriptionStatus }

def updateUserPlan (userID : Bytes) (plan : Plan) : AuthProgram (Except StoreError UserData) := do
  match ← getUserByID userID with
  | .error err => return .error err
  | .ok userData =>
      let userData := userData.withPlan plan
      match ← Etcd.commit [.putUser userData.email userData] with
      | .error err => return .error err
      | .ok _ => return .ok userData

/-! ## API keys -/

/-- The full key that `CreateAPIKey` generates. -/
def newFullKey (uuid : Uuid) : Bytes := utf8 "vkey-" ++ uuid.text

/-- `fullKey[:13]`. -/
def keyPrefixOf (fullKey : Bytes) : Bytes := fullKey.take 13

/-- The front of a user's keys in the index. -/
def indexFront (userID : Bytes) : Bytes := userID ++ utf8 "/"

def indexKey (userID keyPrefix : Bytes) : Bytes := indexFront userID ++ keyPrefix

def createAPIKey (bcrypt : Bcrypt) (draw : Draw) (userID name : Bytes) :
    AuthProgram (Except StoreError (Bytes × APIKeyData)) := do
  let fullKey := newFullKey draw.uuid
  match bcrypt.generate draw.salt fullKey with
  | none => return .error .bcrypt
  | some hashedKey =>
      match ← getUserByID userID with
      | .error err => return .error err
      | .ok userData =>
          let keyInfo : APIKeyData :=
            { hashedKey := hashedKey
              userID := userID
              name := name
              plan := userData.plan
              createdAt := draw.unixNow
              keyPrefix := keyPrefixOf fullKey }
          let indexEntry : ApiKeyListEntry :=
            { keyPrefix := keyInfo.keyPrefix
              userID := userID
              createdAt := keyInfo.createdAt
              name := keyInfo.name }
          match ← Etcd.commit
              [.putAPIKey keyInfo.keyPrefix keyInfo,
                .putIndex (indexKey userID keyInfo.keyPrefix) indexEntry] with
          | .error err => return .error err
          | .ok _ => return .ok (fullKey, keyInfo)

/-- `ValidateAPIKey`: the data of a valid key, or nothing. -/
def validateAPIKey (bcrypt : Bcrypt) (fullKey : Bytes) :
    AuthProgram (Except StoreError (Option APIKeyData)) := do
  if fullKey.length < 13 then return .error (.text "invalid key format")
  else
    match ← APIKeyCache.get fullKey with
    | some cached => return .ok (some cached)
    | none =>
        match ← Etcd.getAPIKey (keyPrefixOf fullKey) with
        | .error err => return .error err
        | .ok none => return .ok none
        | .ok (some keyData) =>
            if bcrypt.compare keyData.hashedKey fullKey then
              let _ ← APIKeyCache.set fullKey keyData
              return .ok (some keyData)
            else return .ok none

def APIKeyData.listed (keyData : APIKeyData) : ApiKeyListEntry :=
  { keyPrefix := keyData.keyPrefix
    userID := keyData.userID
    createdAt := keyData.createdAt
    name := keyData.name }

/-- The scan at the end of `ListAPIKeys`. -/
def scanForKeys (userID : Bytes) : AuthProgram (Except StoreError (List ApiKeyListEntry)) := do
  match ← Etcd.getAPIKeys with
  | .error err => return .error err
  | .ok keys =>
      return .ok ((keys.filter fun keyData => keyData.userID = userID).map APIKeyData.listed)

def listAPIKeys (userID : Bytes) : AuthProgram (Except StoreError (List ApiKeyListEntry)) := do
  match ← Etcd.getIndex (indexFront userID) with
  | .ok (entry :: entries) => return .ok (entry :: entries)
  | _ => scanForKeys userID

def deleteAPIKey (keyPrefixToDelete userID : Bytes) : AuthProgram (Except StoreError Bool) := do
  match ← Etcd.getAPIKey keyPrefixToDelete with
  | .error err => return .error err
  | .ok none => return .error (.text "key not found")
  | .ok (some keyData) =>
      if keyData.userID ≠ userID then
        return .error (.text "user does not have permission to delete this key")
      else
        -- the key under which the entry is to be dropped is made of the hash
        let _ ← APIKeyCache.invalidate
          (keyPrefixToDelete ++ keyData.hashedKey.take 10)
        match ← Etcd.commit
            [.deleteAPIKey keyPrefixToDelete, .deleteIndex (indexKey userID keyPrefixToDelete)] with
        | .error err => return .error err
        | .ok _ => return .ok true

def getAPIKeyDataByPrefix (keyPrefix : Bytes) :
    AuthProgram (Except StoreError (Option APIKeyData)) :=
  Etcd.getAPIKey keyPrefix

/-! ## Deletion of accounts -/

/-- The loop of `DeleteUser` over the listed keys, which goes on when a deletion fails. -/
def deleteKeys : List ApiKeyListEntry → AuthProgram Unit
  | [] => return ()
  | key :: keys => do
      let _ ← Etcd.commit [.deleteAPIKey key.keyPrefix]
      deleteKeys keys

def deleteUser (userID : Bytes) : AuthProgram (Except StoreError Unit) := do
  match ← getUserByID userID with
  | .error err => return .error err
  | .ok userData =>
      match ← Etcd.commit [.deleteUser userData.email] with
      | .error _ => return .error (.text "failed to delete user")
      | .ok _ =>
          let _ ← Etcd.commit [.deleteUserID userID]
          let _ ← Etcd.commit [.deleteIndexUnder (indexFront userID)]
          match ← listAPIKeys userID with
          | .error _ => return .error (.text "failed to list user API keys")
          | .ok keys =>
              deleteKeys keys
              return .ok ()

end Vectron.Auth
