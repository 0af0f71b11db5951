import Vectron.Auth.Cached

/-! # The plan of a key

`ValidateAPIKey` reports the plan that is written into the record of the key, from the store
or from the cache, and `GetAuthDetailsForSDK` the plan of the account. They agree where an
account changes its plan only while its keys carry the new one.
-/

namespace Vectron.Auth

open Foundation

section Plans

/-- A key is written with the plan of its account, and an account with the plan of its
keys. -/
def Write.KeepsPlans (store : Store) : Write → Prop
  | .putAPIKey _ keyData => ∀ entry ∈ store.users.entries, entry.2.id = keyData.userID →
      planName keyData.plan = planName entry.2.plan
  | .putUser _ userData => ∀ entry ∈ store.apiKeys.entries, entry.2.userID = userData.id →
      planName entry.2.plan = planName userData.plan
  | _ => True

instance (store : Store) : DecidablePred (Write.KeepsPlans store) := fun write =>
  match write with
  | .putAPIKey _ _ => inferInstanceAs (Decidable (∀ entry ∈ store.users.entries, _ → _))
  | .putUser _ _ => inferInstanceAs (Decidable (∀ entry ∈ store.apiKeys.entries, _ → _))
  | .putUserID _ _ | .putIndex _ _ | .deleteUser _ | .deleteUserID _ | .deleteAPIKey _
  | .deleteIndex _ | .deleteIndexUnder _ => isTrue trivial

/-- What takes effect leaves the plans of keys and accounts equal. -/
def KeepsPlans (pool : AuthPool) (_ : Request) (writes : List Write) : Prop :=
  ∀ write ∈ writes, write.KeepsPlans pool.world.store

instance (pool : AuthPool) (request : Request) (writes : List Write) :
    Decidable (KeepsPlans pool request writes) :=
  inferInstanceAs (Decidable (∀ write ∈ writes, _))

/-- Keys carry the plans of their accounts. -/
def Store.PlansAgree (store : Store) : Prop :=
  ∀ keyPrefix keyData address userData, store.apiKeys.get keyPrefix = some keyData →
    store.users.get address = some userData → userData.id = keyData.userID →
      planName keyData.plan = planName userData.plan

variable {packages : Packages} {pool : AuthPool} {world : World} {steps : List AuthStep}

theorem Store.PlansAgree.commit {request : Request} {writes : List Write}
    (htransaction : Transaction packages pool.world.store request writes)
    (hkeeps : KeepsPlans pool request writes) (hagree : pool.world.store.PlansAgree) :
    (pool.world.store.commit writes).PlansAgree := by
  intro keyPrefix keyData address userData hkey huser hid
  cases htransaction with
  | @createUser _ _ _ account _ _ _ | @updatePlan _ _ _ account _ =>
      have hplans := hkeeps _ List.mem_cons_self
      simp only [Store.commit, List.foldl_cons, List.foldl_nil, Store.write,
        OrderedStore.get_set] at hkey huser
      split at huser
      next =>
        obtain rfl := Option.some.inj huser
        exact hplans (keyPrefix, keyData) (OrderedStore.get_eq_some.mp hkey) hid.symm
      next => exact hagree _ _ _ _ hkey huser hid
  | @createKey _ _ _ created _ _ _ =>
      have hplans := hkeeps _ List.mem_cons_self
      simp only [Store.commit, List.foldl_cons, List.foldl_nil, Store.write,
        OrderedStore.get_set] at hkey huser
      split at hkey
      next =>
        obtain rfl := Option.some.inj hkey
        exact hplans (address, userData) (OrderedStore.get_eq_some.mp huser) hid
      next => exact hagree _ _ _ _ hkey huser hid
  | deleteKey _ | deleteUser _ | deleteUserID _ | deleteIndex _ | deleteListed =>
      simp only [Store.commit, List.foldl_cons, List.foldl_nil, Store.write,
        OrderedStore.get_delete] at hkey huser
      grind [Store.PlansAgree]

theorem serve_plansAgree (hfresh : Meets packages Fresh steps)
    (hplans : Meets packages (Effects KeepsPlans) steps) :
    (serve packages steps).world.store.PlansAgree := by
  have hall : Meets packages (Begins fun _ => True) steps :=
    Run.Meets.of_forall (fun _ step => by cases step <;> trivial) _ _
  apply store_rule _ _ _ hfresh hall hplans
  · intro keyPrefix keyData address userData hkey
    cases hkey
  · intro pool request writes _ _ htransaction hkeeps hagree
    exact hagree.commit htransaction hkeeps

/-! ## The two paths -/

theorem Packages.Admits.ne_nil {address : Bytes} (hadmits : packages.Admits address) :
    address ≠ [] := by
  obtain ⟨email, hvalid, rfl⟩ := hadmits
  intro hempty
  have hnormal : normalizeEmail packages.unicode email = "" := utf8_injective hempty
  have hmatches := emailRegex_of_valid hvalid
  rw [hnormal] at hmatches
  exact absurd hmatches (by decide)

/-- The lookup by id finds the account whose id leads to its address. -/
theorem exec_getUserByID {userID address : Bytes} {userData : UserData}
    (haddress : address ≠ []) (hid : world.store.userIDs.get userID = some address)
    (huser : world.store.users.get address = some userData) :
    (getUserByID userID).exec (perform .ok) world = (.ok userData, world) := by
  simp only [getUserByID, Program.perform_bind, Program.exec, perform, Outcome.answer, hid,
    if_pos haddress, exec_getUserByEmail, huser]

theorem call_getAuthDetailsForSDK {keyPrefix address : Bytes} {keyData : APIKeyData}
    {userData : UserData} (hfront : keyPrefix ≠ [])
    (hkey : world.store.apiKeys.get keyPrefix = some keyData) (haddress : address ≠ [])
    (hid : world.store.userIDs.get keyData.userID = some address)
    (huser : world.store.users.get address = some userData) :
    world.call packages (.getAuthDetailsForSDK keyPrefix) =
      .getAuthDetailsForSDK (.ok
        { success := true, userId := userData.id, plan := userData.plan }) := by
  simp only [World.call, handle, getAuthDetailsForSDK, if_neg hfront, getAPIKeyDataByPrefix,
    Program.exec_bind, Program.perform_bind, Program.exec, perform, Outcome.answer, hkey,
    exec_getUserByID haddress hid huser]
  rfl

theorem keyPrefixOf_ne_nil {fullKey : Bytes} (hlength : 13 ≤ fullKey.length) :
    keyPrefixOf fullKey ≠ [] := by
  intro hempty
  have htake := congrArg List.length hempty
  rw [keyPrefixOf, List.length_take, Nat.min_eq_left hlength] at htake
  cases htake

theorem call_validateAPIKey_short {fullKey : Bytes} (hlength : fullKey.length < 13) :
    ∃ status, world.call packages (.validateAPIKey fullKey) =
      .validateAPIKey (.error status) := by
  by_cases hempty : fullKey = []
  · exact ⟨⟨.invalidArgument, "FullKey is required", none⟩, by
      simp [World.call, handle, validateAPIKeyRPC, hempty, Program.exec]⟩
  · exact ⟨⟨.internal, "failed to validate key", some (.text "invalid key format")⟩, by
      simp [World.call, handle, validateAPIKeyRPC, validateAPIKey, hempty, hlength,
        Program.exec]⟩

/-- A key that validates is stored under its prefix, and its record is what is reported. -/
theorem of_call_validateAPIKey {fullKey : Bytes} {response : ValidateAPIKeyResponse}
    (hcurrent : world.Current)
    (hvalid : world.call packages (.validateAPIKey fullKey) = .validateAPIKey (.ok response))
    (hresponse : response.valid = true) :
    13 ≤ fullKey.length ∧ ∃ keyData,
      world.store.apiKeys.get (keyPrefixOf fullKey) = some keyData ∧
        response = keyData.validated := by
  have hlength : 13 ≤ fullKey.length := by
    by_contra hshort
    obtain ⟨status, herror⟩ : ∃ status, world.call packages (.validateAPIKey fullKey) =
        .validateAPIKey (.error status) := call_validateAPIKey_short (Nat.lt_of_not_le hshort)
    rw [herror] at hvalid
    cases hvalid
  refine ⟨hlength, ?_⟩
  rw [call_validateAPIKey hlength] at hvalid
  obtain rfl := Except.ok.inj (Reply.validateAPIKey.inj hvalid)
  cases hcached : world.cached fullKey with
  | some cached =>
      exact ⟨cached, hcurrent _ _ hcached, rfl⟩
  | none =>
      simp only [hcached] at hresponse ⊢
      cases hget : world.store.apiKeys.get (keyPrefixOf fullKey) with
      | none =>
          rw [hget] at hresponse
          cases hresponse
      | some keyData =>
          rw [hget] at hresponse
          by_cases hcompare : packages.bcrypt.compare keyData.hashedKey fullKey = true
          · exact ⟨keyData, rfl, if_pos hcompare⟩
          · simp [hcompare] at hresponse

/-- In every run in which registrations find their address free, keys change while the cache
is clear of them, and plans while they agree, both paths report the account of a valid key
and its plan. -/
theorem credential_paths_agree {fullKey : Bytes} {response : ValidateAPIKeyResponse}
    (hfresh : Meets packages Fresh steps)
    (hkeeps : Meets packages (Begins Request.KeepsUsers) steps)
    (hfree : Meets packages (Effects (RegistersFree packages)) steps)
    (hclear : Meets packages (Effects ChangesClear) steps)
    (hplans : Meets packages (Effects KeepsPlans) steps)
    (hvalid : (serve packages steps).world.call packages (.validateAPIKey fullKey) =
      .validateAPIKey (.ok response)) (hresponse : response.valid = true) :
    ∃ address userData, (serve packages steps).world.store.users.get address = some userData ∧
      response.userId = userData.id ∧ response.plan = planName userData.plan ∧
      (serve packages steps).world.call packages (.getAuthDetailsForSDK (keyPrefixOf fullKey)) =
        .getAuthDetailsForSDK (.ok
          { success := true, userId := userData.id, plan := userData.plan }) := by
  have hserved := Served.serve hfresh
  obtain ⟨hlength, keyData, hkey, rfl⟩ :=
    of_call_validateAPIKey (serve_caches hfresh hclear).current hvalid hresponse
  obtain ⟨_, ⟨address, hregistered⟩, _⟩ := hserved.sound.keys.created (hserved.sound.keys.stored hkey)
  obtain ⟨hid, userData, huser, howner⟩ := serve_inPlace hfresh hkeeps hfree _ _ hregistered
  refine ⟨address, userData, huser, howner.symm, ?_, ?_⟩
  · exact serve_plansAgree hfresh hplans _ _ _ _ hkey huser howner
  · exact call_getAuthDetailsForSDK (keyPrefixOf_ne_nil hlength) hkey
      (hserved.sound.accounts.admitted hregistered).ne_nil hid huser

theorem credential_paths_agree_sample :
    ∃ address userData, (serve .plain issuing).world.store.users.get address = some userData ∧
      (sampleKey 1).keyInfo.userID = userData.id ∧ "FREE" = planName userData.plan ∧
      (serve .plain issuing).world.call .plain
          (.getAuthDetailsForSDK (keyPrefixOf (sampleKey 1).fullKey)) =
        .getAuthDetailsForSDK (.ok
          { success := true, userId := userData.id, plan := userData.plan }) :=
  credential_paths_agree (by decide +kernel) (by decide +kernel) (by decide +kernel)
    (by decide +kernel) (by decide +kernel)
    (show (serve .plain issuing).world.call .plain (.validateAPIKey (sampleKey 1).fullKey) =
      .validateAPIKey (.ok ⟨true, sampleUser 1, "FREE", utf8 "vkey-aaaaaaaa"⟩)
      from by decide +kernel) rfl

/-- The user then changes to the paid plan. -/
def upgrading : List AuthStep :=
  issuing ++
    [.begin (.updateUserProfile 0 (sampleUser 1) Plan.paid), .advance 2 .ok, .advance 2 .ok,
      .advance 2 .ok]

/-- One path still reports the free plan. -/
theorem upgraded_paths_differ : Meets .plain Fresh upgrading ∧
    Meets .plain (Begins Request.KeepsUsers) upgrading ∧
    (serve .plain upgrading).world.call .plain (.validateAPIKey (sampleKey 1).fullKey) =
      .validateAPIKey (.ok ⟨true, sampleUser 1, "FREE", utf8 "vkey-aaaaaaaa"⟩) ∧
    (serve .plain upgrading).world.call .plain
        (.getAuthDetailsForSDK (keyPrefixOf (sampleKey 1).fullKey)) =
      .getAuthDetailsForSDK (.ok ⟨true, sampleUser 1, Plan.paid⟩) := by
  decide +kernel

end Plans

end Vectron.Auth
