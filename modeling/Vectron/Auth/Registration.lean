import Vectron.Auth.Runs

/-! # Registration and login

Where every registration finds its address free when its transaction takes effect, accounts
are unique and their two records agree. `CreateUser` checks this in an operation of its own,
so two registrations of one address may both succeed. `Login` looks for the address as it is
typed, while `RegisterUser` stores the account under the normal form.
-/

namespace Vectron.Auth

open Foundation

/-! ## Unique accounts -/

section Accounts

variable (packages : Packages)

/-- All calls but the deletion of an account. -/
def Request.KeepsUsers : Request → Prop
  | .deleteUser _ => False
  | _ => True

instance : DecidablePred Request.KeepsUsers := fun request =>
  match request with
  | .deleteUser _ => isFalse id
  | .registerUser _ _ _ | .login _ _ _ | .getUserProfile _ | .updateUserProfile _ _ _
  | .createAPIKey _ _ _ | .listAPIKeys _ | .deleteAPIKey _ _ | .createSDKJWT _ _ _
  | .getAuthDetailsForSDK _ | .validateAPIKey _ => isTrue trivial

/-- A registration finds no record under its address when it takes effect. -/
def RegistersFree (pool : AuthPool) : Request → List Write → Prop
  | .registerUser _ email _, _ =>
      pool.world.store.users.get (utf8 (normalizeEmail packages.unicode email)) = none
  | _, _ => True

instance (pool : AuthPool) (request : Request) (writes : List Write) :
    Decidable (RegistersFree packages pool request writes) :=
  match request with
  | .registerUser _ _ _ => inferInstanceAs (Decidable (_ = none))
  | .deleteUser _ | .login _ _ _ | .getUserProfile _ | .updateUserProfile _ _ _
  | .createAPIKey _ _ _ | .listAPIKeys _ | .deleteAPIKey _ _ | .createSDKJWT _ _ _
  | .getAuthDetailsForSDK _ | .validateAPIKey _ => isTrue trivial

/-- Call `i` was a successful registration of the address. -/
def Registers (pool : AuthPool) (i : Nat) (address : String) : Prop :=
  ∃ draw email password profile, pool.Ended i (.registerUser draw email password)
      (.registerUser (.ok profile)) ∧
    normalizeEmail packages.unicode email = address

/-- Each id leads to the address of a record with that id, and each record's id to it. -/
def Store.OneToOne (store : Store) : Prop :=
  ∀ id address, store.userIDs.get id = some address ↔
    ∃ userData, store.users.get address = some userData ∧ userData.id = id

/-- No address is registered twice, and accounts and ids are in one-to-one
correspondence. -/
structure UniqueAccounts (pool : AuthPool) : Prop where
  once {i j address} : Registers packages pool i address → Registers packages pool j address →
    i = j
  oneToOne : pool.world.store.OneToOne

/-- Every account that was ever registered is in place. -/
def Store.InPlace (store : Store) : Prop :=
  ∀ id address, .putUserID id address ∈ store.revisions →
    store.userIDs.get id = some address ∧
      ∃ userData, store.users.get address = some userData ∧ userData.id = id

variable {packages} {steps : List AuthStep}

theorem Store.InPlace.commit {pool : AuthPool} {request : Request} {writes : List Write}
    (haccounts : Accounts packages pool.world.store) (hkeeps : request.KeepsUsers)
    (htransaction : Transaction packages pool.world.store request writes)
    (hfree : RegistersFree packages pool request writes)
    (hplace : pool.world.store.InPlace) : (pool.world.store.commit writes).InPlace := by
  cases htransaction with
  | @createUser _ _ _ account hcreated _ hfresh =>
      rw [RegistersFree, ← hcreated.email] at hfree
      intro id address hwrite
      simp only [Store.commit, List.foldl_cons, List.foldl_nil, Store.write,
        List.mem_append, List.mem_singleton, OrderedStore.get_set] at hwrite ⊢
      rcases hwrite with (hold | hput) | hnew
      · obtain ⟨hid, userData, hget, hsame⟩ := hplace id address hold
        -- the address of an older account is taken, and the new id is not an older one
        have haddress : address ≠ account.email := fun heq => by
          rw [heq, hfree] at hget
          cases hget
        have hid' : id ≠ account.id := fun heq => hfresh ⟨address, heq ▸ hold⟩
        rw [if_neg hid', if_neg haddress]
        exact ⟨hid, userData, hget, hsame⟩
      · cases hput
      · cases hnew
        simp
  | @updatePlan _ _ _ userData hread =>
      intro id address hwrite
      simp only [Store.commit, List.foldl_cons, List.foldl_nil, Store.write,
        List.mem_append, List.mem_singleton, OrderedStore.get_set, reduceCtorEq,
        or_false] at hwrite ⊢
      obtain ⟨hid, stored, hget, hsame⟩ := hplace id address hwrite
      refine ⟨hid, ?_⟩
      split
      next haddress =>
        -- the record that is replaced has the id of the one that was read
        obtain ⟨_, other, hother, hid'⟩ :=
          hplace _ _ (haccounts.registered hread).2
        have haddress : address = userData.email := haddress
        rw [← haddress, hget] at hother
        cases hother
        exact ⟨_, rfl, hid'.symm.trans hsame⟩
      next => exact ⟨stored, hget, hsame⟩
  | createKey _ _ _ | deleteKey _ =>
      intro id address hwrite
      exact hplace id address (by simpa [Store.commit, Store.write] using hwrite)
  | deleteUser _ | deleteUserID _ | deleteIndex _ | deleteListed => cases hkeeps

theorem serve_inPlace (hfresh : Meets packages Fresh steps)
    (hkeeps : Meets packages (Begins Request.KeepsUsers) steps)
    (hfree : Meets packages (Effects (RegistersFree packages)) steps) :
    (serve packages steps).world.store.InPlace := by
  apply store_rule _ _ _ hfresh hkeeps hfree
  · intro id address hwrite
    cases hwrite
  · intro pool request writes hserved hkeeps htransaction hfree hplace
    exact hplace.commit hserved.sound.accounts hkeeps htransaction hfree

/-- In every run without deletions in which registrations take effect on free addresses
only, accounts are unique. -/
theorem accounts_unique (hfresh : Meets packages Fresh steps)
    (hkeeps : Meets packages (Begins Request.KeepsUsers) steps)
    (hfree : Meets packages (Effects (RegistersFree packages)) steps) :
    UniqueAccounts packages (serve packages steps) := by
  have hserved := Served.serve hfresh
  have hplace := serve_inPlace hfresh hkeeps hfree
  constructor
  · rintro i j address ⟨draw, email, password, profile, hi, rfl⟩
      ⟨draw', email', password', profile', hj, haddress⟩
    obtain ⟨userData, hcreated, _, _, hput, _⟩ := hserved.answered hi
    obtain ⟨userData', hcreated', _, _, hput', _⟩ := hserved.answered hj
    obtain ⟨_, stored, hget, hid⟩ := hplace _ _ hput
    obtain ⟨_, stored', hget', hid'⟩ := hplace _ _ hput'
    have hsame : userData.email = userData'.email := by
      rw [hcreated.email, hcreated'.email, haddress]
    rw [hsame, hget'] at hget
    cases hget
    apply hserved.eq_of_issued (Pool.request_of_thread hi) (Pool.request_of_thread hj) rfl
    rw [Request.issued?, ← hcreated'.id, ← hid', hid, hcreated.id]
  · intro id address
    constructor
    · intro hget
      exact (hplace id address (hserved.sound.accounts.indexed hget)).2
    · rintro ⟨userData, hget, rfl⟩
      have hstored := hserved.sound.accounts.stored hget
      exact (hplace _ address (hserved.sound.accounts.registered hstored).2).1

/-- The example draws, which differ in the last digit of the uuid. -/
def Draw.sample (digit : UInt8) : Draw where
  uuid :=
    { text := utf8 "aaaaaaaa-0000-4000-8000-00000000000" ++ [48 + digit]
      length := rfl }
  salt := []
  unixNow := 0

def sampleRegistration (digit : UInt8) (password : String) : Request :=
  .registerUser (.sample digit) "a@b.co" password

/-- One registration after the other. -/
theorem accounts_unique_in_turn : UniqueAccounts .plain (serve .plain
    [.begin (sampleRegistration 1 "Passw0rd"), .advance 0 .ok, .advance 0 .ok,
      .begin (sampleRegistration 2 "Passw1rd"), .advance 1 .ok]) :=
  accounts_unique (by decide +kernel) (by decide +kernel) (by decide +kernel)

/-- Two registrations of one address, which both look for it before either has written. -/
def racingRegistrations : List AuthStep :=
  [.begin (sampleRegistration 1 "Passw0rd"), .begin (sampleRegistration 2 "Passw1rd"),
    .advance 0 .ok, .advance 1 .ok, .advance 0 .ok, .advance 1 .ok]

def sampleProfile (digit : UInt8) : UserProfile :=
  { id := newUserID (Draw.sample digit).uuid
    email := utf8 "a@b.co"
    createdAt := 0
    plan := Plan.free
    subscriptionStatus := SubscriptionStatus.active }

theorem racing_registrations_succeed : Meets .plain Fresh racingRegistrations ∧
    Meets .plain (Begins Request.KeepsUsers) racingRegistrations ∧
    ¬UniqueAccounts .plain (serve .plain racingRegistrations) := by
  refine ⟨by decide +kernel, by decide +kernel, fun hunique => ?_⟩
  have hfirst : Registers .plain (serve .plain racingRegistrations) 0 "a@b.co" :=
    ⟨.sample 1, "a@b.co", "Passw0rd", sampleProfile 1, by decide +kernel, by decide +kernel⟩
  have hsecond : Registers .plain (serve .plain racingRegistrations) 1 "a@b.co" :=
    ⟨.sample 2, "a@b.co", "Passw1rd", sampleProfile 2, by decide +kernel, by decide +kernel⟩
  cases hunique.once hfirst hsecond

end Accounts

/-! ## Login -/

section Login

/-- The write puts another account in the place of this one or deletes its record. -/
def Write.displaces (address id : Bytes) : Write → Bool
  | .putUser address' userData => decide (address' = address) && decide (userData.id ≠ id)
  | .deleteUser address' => decide (address' = address)
  | _ => false

/-- From the end of call `i` on nothing displaces the account. -/
def Undisturbed (i : Nat) (address id : Bytes) (pool : AuthPool) (_ : Request)
    (writes : List Write) : Prop :=
  (pool.ended? i).isSome = true → ∀ write ∈ writes, write.displaces address id = false

instance (i : Nat) (address id : Bytes) (pool : AuthPool) (request : Request)
    (writes : List Write) : Decidable (Undisturbed i address id pool request writes) :=
  inferInstanceAs (Decidable (_ → _))

/-- The account is stored under its address. -/
def Store.Holds (store : Store) (address id : Bytes) : Prop :=
  ∃ userData, store.users.get address = some userData ∧ userData.id = id

variable {packages : Packages} {draw : Draw} {email password : String} {world : World}
  {steps : List AuthStep}

theorem Store.Holds.commit {store : Store} {address id : Bytes} {writes : List Write}
    (hholds : store.Holds address id)
    (hkeeps : ∀ write ∈ writes, write.displaces address id = false) :
    (store.commit writes).Holds address id := by
  induction writes generalizing store with
  | nil => exact hholds
  | cons write writes ih =>
      refine ih ?_ fun other hother => hkeeps other (List.mem_cons_of_mem _ hother)
      have hwrite := hkeeps write List.mem_cons_self
      obtain ⟨userData, hget, hid⟩ := hholds
      cases write with
      | putUser address' other =>
          simp only [Holds, Store.write, OrderedStore.get_set]
          split
          next haddress =>
            simp only [Write.displaces, haddress] at hwrite
            exact ⟨other, rfl, by simpa using hwrite⟩
          next => exact ⟨userData, hget, hid⟩
      | deleteUser address' =>
          have haddress : address ≠ address' := fun heq => by
            simp [Write.displaces, heq] at hwrite
          simp only [Holds, Store.write, OrderedStore.get_delete, if_neg haddress]
          exact ⟨userData, hget, hid⟩
      | _ => exact ⟨userData, hget, hid⟩

/-- A registration that succeeds has put its account in place. -/
def Stands (packages : Packages) (draw : Draw) (email password : String) (request : Request)
    (reply : Reply) (world : World) : Prop :=
  request = .registerUser draw email password → ∀ profile, reply = .registerUser (.ok profile) →
    world.store.Holds (utf8 (normalizeEmail packages.unicode email)) (newUserID draw.uuid)

theorem registerUser_stands : Contract.free.Safe perform
    (fun result world => ∀ profile, result = .ok profile →
      world.store.Holds (utf8 (normalizeEmail packages.unicode email)) (newUserID draw.uuid))
    (registerUser packages draw email password) world := by
  unfold registerUser
  split
  next =>
    intro _ hresult
    cases hresult
  next =>
    split
    next =>
      intro _ hresult
      cases hresult
    next =>
      apply Contract.Safe.bind
      apply Contract.Safe.bind
      apply Contract.free_safe
      rintro (err | userData) _
      · dsimp only
        split
        next =>
          intro _ hresult
          cases hresult
        next hashedPassword hhashed =>
          apply Contract.Safe.perform_bind
          intro found _ choice _
          refine ⟨trivial, ?_⟩
          cases choice with
          | failed | lost =>
              intro _ hresult
              cases hresult
          | ok =>
              intro profile hprofile
              simp [Store.Holds, perform, Store.commit, Store.write, OrderedStore.get_set]
      · intro _ hresult
        cases hresult

theorem handle_stands (request : Request) :
    Contract.free.Safe perform (Stands packages draw email password request)
      (handle packages request) world := by
  by_cases hrequest : request = .registerUser draw email password
  · subst hrequest
    apply Contract.Safe.bind
    apply registerUser_stands.imp
    intro result world hholds _ profile hprofile
    cases hprofile
    exact hholds profile rfl
  · exact Contract.free_safe (fun _ _ heq => absurd heq hrequest) _ _

/-- Call `i`, if it registers the account, puts it in place. -/
def StandsAt (packages : Packages) (draw : Draw) (email password : String) (i : Nat)
    (pool : AuthPool) : Prop :=
  pool.SafeAt (authService packages) (fun _ => Contract.free)
    (Stands packages draw email password) i

theorem StandsAt.step {i : Nat} {pool : AuthPool} {step : AuthStep}
    (hkept : Effects (Undisturbed i (utf8 (normalizeEmail packages.unicode email))
      (newUserID draw.uuid)) pool step)
    (hstands : StandsAt packages draw email password i pool) :
    StandsAt packages draw email password i (pool.step (authService packages) step) := by
  apply Pool.SafeAt.step hstands
  cases step with
  | begin request => exact fun _ => handle_stands request
  | elapse event =>
      apply Pool.bearsAt_free
      intro request reply _ hstands hrequest profile hreply
      have hholds := hstands hrequest profile hreply
      rwa [← store_elapse event] at hholds
  | advance j outcome =>
      intro request op next hj
      split
      · trivial
      · apply Pool.bearsAt_free
        intro request' reply hended hstands hrequest profile hreply
        have hholds := hstands hrequest profile hreply
        rcases store_perform hj outcome with hsame | ⟨writes, rfl, heffect, hstore⟩
        · rwa [← hsame] at hholds
        · have hundisturbed := hkept _ heffect (by rw [Pool.ended_iff.mp hended]; rfl)
          exact hstore ▸ hholds.commit hundisturbed

/-- An account that a call has registered stays in place while nothing displaces it. -/
theorem serve_holds {i : Nat} {profile : UserProfile}
    (hkept : Meets packages (Effects (Undisturbed i
      (utf8 (normalizeEmail packages.unicode email)) (newUserID draw.uuid))) steps)
    (hended : (serve packages steps).Ended i (.registerUser draw email password)
      (.registerUser (.ok profile))) :
    (serve packages steps).world.store.Holds (utf8 (normalizeEmail packages.unicode email))
      (newUserID draw.uuid) := by
  have hstands : StandsAt packages draw email password i (serve packages steps) := by
    refine Run.run_invariant (fun _ _ hkept hstands => hstands.step hkept) hkept ?_
    intro thread hthread
    cases hthread
  exact hstands.result hended rfl profile rfl

/-- What a lookup finds when etcd is in order. -/
theorem exec_getUserByEmail (email : Bytes) (world : World) :
    (getUserByEmail email).exec (perform .ok) world =
      (match world.store.users.get email with
        | none => .error (.text "user not found")
        | some userData => .ok userData, world) := by
  cases hget : world.store.users.get email <;>
    simp [getUserByEmail, Program.exec, perform, Outcome.answer, hget]

theorem call_login_of_none {unixNow : Int64} (hget : world.store.users.get (utf8 email) = none) :
    world.call packages (.login unixNow email password) =
      .login (.error ⟨.notFound, "user not found", none⟩) := by
  simp [World.call, handle, login, Program.exec_bind, exec_getUserByEmail, hget, Program.exec]

theorem call_login_of_accepts {unixNow : Int64} {userData : UserData} {token : Bytes}
    (hget : world.store.users.get (utf8 email) = some userData)
    (haccepts : packages.bcrypt.compare userData.hashedPassword (utf8 password) = true)
    (hsigned : packages.signedString (loginClaims userData unixNow) = .ok token) :
    world.call packages (.login unixNow email password) =
      .login (.ok ⟨token, userData.profile⟩) := by
  simp [World.call, handle, login, Program.exec_bind, exec_getUserByEmail, hget, haccepts,
    hsigned, Program.exec]

/-- In every run in which nothing displaces a registered account, a login with the strings of
its registration succeeds just when the address is in its normal form. -/
theorem login_iff_normal {i : Nat} {profile : UserProfile} {unixNow : Int64}
    (hfresh : Meets packages Fresh steps)
    (hkept : Meets packages (Effects (Undisturbed i
      (utf8 (normalizeEmail packages.unicode email)) (newUserID draw.uuid))) steps)
    (hsigned : ∀ claims, ∃ token, packages.signedString claims = .ok token)
    (hended : (serve packages steps).Ended i (.registerUser draw email password)
      (.registerUser (.ok profile))) :
    (∃ response, (serve packages steps).world.call packages (.login unixNow email password) =
      .login (.ok response)) ↔ normalizeEmail packages.unicode email = email := by
  have hserved := Served.serve hfresh
  have haccounts := hserved.sound.accounts
  obtain ⟨userData, hcreated, hvalid, hput, _⟩ := hserved.answered hended
  obtain ⟨stored, hget, hid⟩ := serve_holds hkept hended
  constructor
  · rintro ⟨response, hlogin⟩
    cases hfound : (serve packages steps).world.store.users.get (utf8 email) with
    | none =>
        rw [call_login_of_none hfound] at hlogin
        cases hlogin
    | some found =>
        -- only normal forms are ever stored
        obtain ⟨_, hregistered⟩ := haccounts.registered (haccounts.stored hfound)
        obtain ⟨email', hvalid', hemail⟩ := haccounts.admitted hregistered
        rw [utf8_injective hemail, normalizeEmail_idem hvalid']
  · intro hnormal
    rw [hnormal] at hget
    obtain ⟨token, htoken⟩ := hsigned (loginClaims stored unixNow)
    have hhash : stored.hashedPassword = userData.hashedPassword :=
      haccounts.hash_unique (haccounts.stored hget) hput (by rw [hid, hcreated.id])
    have haccepts := packages.bcrypt.accepts hcreated.hashed
    rw [← hhash] at haccepts
    exact ⟨_, call_login_of_accepts hget haccepts htoken⟩

/-- The run of the example: a registration that answers. -/
def registered (email : String) : List AuthStep :=
  [.begin (.registerUser (.sample 1) email "Passw0rd"), .advance 0 .ok, .advance 0 .ok]

theorem login_iff_normal_sample :
    (∃ response, (serve .plain (registered "a@b.co")).world.call .plain
      (.login 0 "a@b.co" "Passw0rd") = .login (.ok response)) ↔
        normalizeEmail Unicode.ascii "a@b.co" = "a@b.co" :=
  login_iff_normal (by decide +kernel) (by decide +kernel) (fun claims => ⟨claims.userID, rfl⟩)
    (show (serve .plain (registered "a@b.co")).Ended 0
      (.registerUser (.sample 1) "a@b.co" "Passw0rd") (.registerUser (.ok (sampleProfile 1)))
      from by decide +kernel)

/-- An address with capital letters is admitted, but no login finds it. -/
theorem capital_login_fails :
    (serve .plain (registered "A@b.co")).Ended 0
        (.registerUser (.sample 1) "A@b.co" "Passw0rd") (.registerUser (.ok (sampleProfile 1))) ∧
      (serve .plain (registered "A@b.co")).world.call .plain (.login 0 "A@b.co" "Passw0rd") =
        .login (.error ⟨.notFound, "user not found", none⟩) := by
  decide +kernel

end Login

end Vectron.Auth
