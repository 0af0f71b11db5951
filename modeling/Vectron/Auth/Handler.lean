import Vectron.Auth.Client
import Vectron.Auth.Validation

/-! # The handlers and the service

The RPCs of `auth/service/internal/handler/auth.go` as programs over the store, and the
service as a whole: any number of calls under way at once, each performing its operations
one after the other while the others do the same. A user id comes from the token of the
request, and is empty without one.
-/

namespace Vectron.Auth

open Foundation

/-- The error of a request; `cause` is what `%v` prints at its end. -/
structure Status where
  code : Code
  message : String
  cause : Option StoreError := none
deriving DecidableEq, Repr

/-- `Claims` of a token. -/
structure Claims where
  userID : Bytes
  apiKey : Bytes
  plan : String
  expiresAt : Int64
  issuedAt : Int64
deriving DecidableEq

/-- The packages that the handlers use: bcrypt, the tables of unicode, and
`token.SignedString` with the secret of the service. -/
structure Packages where
  bcrypt : Bcrypt
  unicode : Unicode
  signedString : Claims → Except String Bytes

structure UserProfile where
  id : Bytes
  email : Bytes
  createdAt : Int64
  plan : Plan
  subscriptionStatus : SubscriptionStatus
deriving DecidableEq

def UserData.profile (userData : UserData) : UserProfile :=
  { id := userData.id
    email := userData.email
    createdAt := userData.createdAt
    plan := userData.plan
    subscriptionStatus := userData.subscriptionStatus }

structure LoginResponse where
  jwtToken : Bytes
  user : UserProfile
deriving DecidableEq

structure UpdateUserProfileResponse where
  user : UserProfile
  jwtToken : Bytes
deriving DecidableEq

structure CreateAPIKeyResponse where
  fullKey : Bytes
  keyInfo : ApiKeyListEntry
deriving DecidableEq

structure GetAuthDetailsForSDKResponse where
  success : Bool
  userId : Bytes := []
  plan : Plan := 0
deriving DecidableEq

structure ValidateAPIKeyResponse where
  valid : Bool
  userId : Bytes := []
  plan : String := ""
  apiKeyId : Bytes := []
deriving DecidableEq

/-- `Plan.String()`. -/
def planString (plan : Plan) : String :=
  if planName plan = "" then toString plan.toInt else planName plan

def missingUserID : Status := ⟨.unauthenticated, "missing user ID in context", none⟩

section Handlers

variable (packages : Packages)

/-! ## Accounts -/

def registerUser (draw : Draw) (email password : String) :
    AuthProgram (Except Status UserProfile) := do
  match validateEmail packages.unicode email with
  | some message => return .error ⟨.invalidArgument, message, none⟩
  | none =>
      match validatePasswordStrict packages.unicode password with
      | some message => return .error ⟨.invalidArgument, message, none⟩
      | none =>
          let email := normalizeEmail packages.unicode email
          match ← createUser packages.bcrypt draw (utf8 email) (utf8 password) with
          | .error err => return .error ⟨.alreadyExists, "failed to register user", some err⟩
          | .ok userData => return .ok userData.profile

/-- The claims of a login token, which expires after a day. -/
def loginClaims (userData : UserData) (unixNow : Int64) : Claims :=
  { userID := userData.id
    apiKey := []
    plan := planString userData.plan
    expiresAt := unixNow + 24 * 60 * 60
    issuedAt := unixNow }

def login (unixNow : Int64) (email password : String) :
    AuthProgram (Except Status LoginResponse) := do
  match ← getUserByEmail (utf8 email) with
  | .error _ => return .error ⟨.notFound, "user not found", none⟩
  | .ok userData =>
      if !packages.bcrypt.compare userData.hashedPassword (utf8 password) then
        return .error ⟨.unauthenticated, "invalid password", none⟩
      else
        match packages.signedString (loginClaims userData unixNow) with
        | .error _ => return .error ⟨.internal, "failed to generate token", none⟩
        | .ok tokenString => return .ok ⟨tokenString, userData.profile⟩

def getUserProfile (userID : Bytes) : AuthProgram (Except Status UserProfile) := do
  if userID = [] then return .error missingUserID
  else
    match ← getUserByID userID with
    | .error err => return .error ⟨.notFound, "user profile not found", some err⟩
    | .ok userData => return .ok userData.profile

def updateUserProfile (unixNow : Int64) (userID : Bytes) (plan : Plan) :
    AuthProgram (Except Status UpdateUserProfileResponse) := do
  if userID = [] then return .error missingUserID
  else
    match ← updateUserPlan userID plan with
    | .error err => return .error ⟨.internal, "failed to update user profile", some err⟩
    | .ok userData =>
        match packages.signedString (loginClaims userData unixNow) with
        | .error _ =>
            return .error ⟨.internal, "failed to generate token after plan update", none⟩
        | .ok tokenString => return .ok ⟨userData.profile, tokenString⟩

/-! ## Keys -/

def createAPIKeyRPC (draw : Draw) (userID : Bytes) (name : String) :
    AuthProgram (Except Status CreateAPIKeyResponse) := do
  if userID = [] then return .error missingUserID
  else
    match validateAPIKeyName name with
    | some message => return .error ⟨.invalidArgument, message, none⟩
    | none =>
        let name := sanitizeString packages.unicode name
        match ← createAPIKey packages.bcrypt draw userID (utf8 name) with
        | .error err => return .error ⟨.internal, "failed to create key", some err⟩
        | .ok (fullKey, keyData) => return .ok ⟨fullKey, keyData.listed⟩

def listAPIKeysRPC (userID : Bytes) : AuthProgram (Except Status (List ApiKeyListEntry)) := do
  if userID = [] then return .error missingUserID
  else
    match ← listAPIKeys userID with
    | .error err => return .error ⟨.internal, "failed to list keys", some err⟩
    | .ok keys => return .ok keys

def deleteAPIKeyRPC (userID keyPrefix : Bytes) : AuthProgram (Except Status Bool) := do
  if userID = [] then return .error missingUserID
  else if keyPrefix = [] then return .error ⟨.invalidArgument, "KeyPrefix is required", none⟩
  else
    match ← deleteAPIKey keyPrefix userID with
    | .error err => return .error ⟨.permissionDenied, "failed to delete key", some err⟩
    | .ok success => return .ok success

def createSDKJWT (unixNow : Int64) (userID apiKeyID : Bytes) :
    AuthProgram (Except Status Bytes) := do
  if userID = [] then return .error missingUserID
  else if apiKeyID = [] then
    return .error ⟨.invalidArgument, "API Key ID is required", none⟩
  else
    match ← getAPIKeyDataByPrefix apiKeyID with
    | .error err => return .error ⟨.internal, "failed to get API key data", some err⟩
    | .ok none =>
        return .error ⟨.permissionDenied, "invalid API key ID or not owned by user", none⟩
    | .ok (some keyData) =>
        if keyData.userID ≠ userID then
          return .error ⟨.permissionDenied, "invalid API key ID or not owned by user", none⟩
        else
          match ← getUserByID userID with
          | .error err => return .error ⟨.internal, "failed to get user data", some err⟩
          | .ok userData =>
              let claims : Claims :=
                { userID := userData.id
                  apiKey := apiKeyID
                  plan := ""
                  expiresAt := unixNow + 7 * 24 * 60 * 60
                  issuedAt := unixNow }
              match packages.signedString claims with
              | .error _ => return .error ⟨.internal, "failed to generate SDK JWT", none⟩
              | .ok tokenString => return .ok tokenString

def getAuthDetailsForSDK (apiKeyID : Bytes) :
    AuthProgram (Except Status GetAuthDetailsForSDKResponse) := do
  if apiKeyID = [] then return .error ⟨.invalidArgument, "API Key ID is required", none⟩
  else
    match ← getAPIKeyDataByPrefix apiKeyID with
    | .error err => return .error ⟨.internal, "failed to get API key data", some err⟩
    | .ok none => return .ok { success := false }
    | .ok (some keyData) =>
        match ← getUserByID keyData.userID with
        | .error err => return .error ⟨.notFound, "user not found for API key", some err⟩
        | .ok userData =>
            return .ok { success := true, userId := userData.id, plan := userData.plan }

def validateAPIKeyRPC (fullKey : Bytes) :
    AuthProgram (Except Status ValidateAPIKeyResponse) := do
  if fullKey = [] then return .error ⟨.invalidArgument, "FullKey is required", none⟩
  else
    match ← validateAPIKey packages.bcrypt fullKey with
    | .error err => return .error ⟨.internal, "failed to validate key", some err⟩
    | .ok none => return .ok { valid := false }
    | .ok (some keyData) =>
        return .ok
          { valid := true
            userId := keyData.userID
            plan := planName keyData.plan
            apiKeyId := keyData.keyPrefix }

/-! ## The service -/

/-- A call and what it draws. No RPC reaches `DeleteUser`; it is a call of its own. -/
inductive Request where
  | registerUser (draw : Draw) (email password : String)
  | login (unixNow : Int64) (email password : String)
  | getUserProfile (userID : Bytes)
  | updateUserProfile (unixNow : Int64) (userID : Bytes) (plan : Plan)
  | createAPIKey (draw : Draw) (userID : Bytes) (name : String)
  | listAPIKeys (userID : Bytes)
  | deleteAPIKey (userID keyPrefix : Bytes)
  | createSDKJWT (unixNow : Int64) (userID apiKeyID : Bytes)
  | getAuthDetailsForSDK (apiKeyID : Bytes)
  | validateAPIKey (fullKey : Bytes)
  | deleteUser (userID : Bytes)
deriving DecidableEq

inductive Reply where
  | registerUser (result : Except Status UserProfile)
  | login (result : Except Status LoginResponse)
  | getUserProfile (result : Except Status UserProfile)
  | updateUserProfile (result : Except Status UpdateUserProfileResponse)
  | createAPIKey (result : Except Status CreateAPIKeyResponse)
  | listAPIKeys (result : Except Status (List ApiKeyListEntry))
  | deleteAPIKey (result : Except Status Bool)
  | createSDKJWT (result : Except Status Bytes)
  | getAuthDetailsForSDK (result : Except Status GetAuthDetailsForSDKResponse)
  | validateAPIKey (result : Except Status ValidateAPIKeyResponse)
  | deleteUser (result : Except StoreError Unit)
deriving DecidableEq

def handle : Request → AuthProgram Reply
  | .registerUser draw email password => do
      return .registerUser (← registerUser packages draw email password)
  | .login unixNow email password => do
      return .login (← login packages unixNow email password)
  | .getUserProfile userID => do return .getUserProfile (← getUserProfile userID)
  | .updateUserProfile unixNow userID plan => do
      return .updateUserProfile (← updateUserProfile packages unixNow userID plan)
  | .createAPIKey draw userID name => do
      return .createAPIKey (← createAPIKeyRPC packages draw userID name)
  | .listAPIKeys userID => do return .listAPIKeys (← listAPIKeysRPC userID)
  | .deleteAPIKey userID keyPrefix => do
      return .deleteAPIKey (← deleteAPIKeyRPC userID keyPrefix)
  | .createSDKJWT unixNow userID apiKeyID => do
      return .createSDKJWT (← createSDKJWT packages unixNow userID apiKeyID)
  | .getAuthDetailsForSDK apiKeyID => do
      return .getAuthDetailsForSDK (← getAuthDetailsForSDK apiKeyID)
  | .validateAPIKey fullKey => do
      return .validateAPIKey (← validateAPIKeyRPC packages fullKey)
  | .deleteUser userID => do return .deleteUser (← deleteUser userID)

end Handlers

abbrev AuthPool := Pool World Request Op Answer Reply

abbrev AuthStep := PoolStep Request Outcome Event

/-- The auth service of one process, with its etcd. -/
def authService (packages : Packages) : Service World Request Op Answer Reply Outcome Event where
  program := handle packages
  perform := perform
  elapse := elapse

/-- Before the first call. -/
def idle : AuthPool := ⟨World.start, []⟩

/-- The service after a sequence of steps. -/
def serve (packages : Packages) (steps : List AuthStep) : AuthPool :=
  Run.run (Pool.step (authService packages)) idle steps

/-- The call that `request` makes, alone and with etcd in order. -/
def World.call (packages : Packages) (world : World) (request : Request) : Reply :=
  ((handle packages request).exec (perform .ok) world).1

end Vectron.Auth
