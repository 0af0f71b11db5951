import Vectron.Auth.Registration

/-! # Issued keys

A key is stored under the first 13 characters of its text, by an unconditional put. Where no
key takes a prefix that is in use, and keys are deleted by their owners only, every issued
key validates and is listed until its owner has deleted it.
-/

namespace Vectron.Auth

open Foundation

section Issued

/-- The answer of this step arrives if the step has an effect. -/
def Heard : AuthStep → Prop
  | .advance _ .lost => False
  | _ => True

instance : DecidablePred Heard := fun step =>
  match step with
  | .advance _ .lost => isFalse id
  | .advance _ .ok | .advance _ .failed | .begin _ | .elapse _ => isTrue trivial

/-- A key is created under a prefix that is not in use; the deletion of a key finds no key of
another user, and its answer arrives. -/
def KeepsIssued (step : AuthStep) (store : Store) : Request → Prop
  | .createAPIKey draw _ _ => store.apiKeys.get (keyPrefixOf (newFullKey draw.uuid)) = none
  | .deleteAPIKey userID keyPrefix =>
      Heard step ∧ ∀ keyData ∈ store.apiKeys.get keyPrefix, keyData.userID = userID
  | _ => True

instance (step : AuthStep) (store : Store) : DecidablePred (KeepsIssued step store) :=
  fun request => match request with
  | .createAPIKey _ _ _ => inferInstanceAs (Decidable (_ = none))
  | .deleteAPIKey _ _ => inferInstanceAs (Decidable (_ ∧ _))
  | .deleteUser _ | .login _ _ _ | .getUserProfile _ | .updateUserProfile _ _ _
  | .registerUser _ _ _ | .listAPIKeys _ | .createSDKJWT _ _ _
  | .getAuthDetailsForSDK _ | .validateAPIKey _ => isTrue trivial

/-- The step meets the condition if it has an effect. -/
def IssuesApart (pool : AuthPool) (step : AuthStep) : Prop :=
  ∀ effect ∈ effect? pool step, KeepsIssued step pool.world.store effect.1

instance (pool : AuthPool) (step : AuthStep) : Decidable (IssuesApart pool step) :=
  inferInstanceAs (Decidable (∀ effect ∈ effect? pool step, _))

/-- Some call deleted the key for its owner. -/
def Deleted (pool : AuthPool) (userID keyPrefix : Bytes) : Prop :=
  ∃ i, pool.Ended i (.deleteAPIKey userID keyPrefix) (.deleteAPIKey (.ok true))

/-- Every key ever written is in place or was deleted for its owner. -/
def KeysInPlace (pool : AuthPool) : Prop :=
  ∀ keyPrefix keyData, .putAPIKey keyPrefix keyData ∈ pool.world.store.revisions →
    pool.world.store.apiKeys.get keyPrefix = some keyData ∨
      Deleted pool keyData.userID keyPrefix

variable {packages : Packages} {pool : AuthPool} {steps : List AuthStep}

/-- After its transaction a deletion has only to answer. -/
def AnswersCommit (request : Request) : (op : Op) → (Answer op → AuthProgram Reply) → Prop
  | .commit _, next => ∀ userID keyPrefix, request = .deleteAPIKey userID keyPrefix →
      next (.ok ()) = .done (.deleteAPIKey (.ok true))
  | _, _ => True

theorem handle_answersCommit (packages : Packages) (request : Request) :
    (handle packages request).Places (AnswersCommit request) := by
  by_cases hrequest : ∃ userID keyPrefix, request = .deleteAPIKey userID keyPrefix
  · obtain ⟨userID, keyPrefix, rfl⟩ := hrequest
    rw [handle, deleteAPIKeyRPC]
    split
    next => trivial
    next =>
      split
      next => trivial
      next =>
        simp only [deleteAPIKey, Program.perform_bind, Program.call_bind, Program.Places]
        refine ⟨trivial, ?_⟩
        rintro (err | (_ | keyData))
        · trivial
        · trivial
        · by_cases howner : keyData.userID = userID
          · simp only [howner, ne_eq, not_true_eq_false, if_false, Program.call_bind,
              Program.Places]
            refine ⟨trivial, fun _ => ⟨fun _ _ _ => rfl, ?_⟩⟩
            rintro (err | done) <;> trivial
          · simp [howner, Program.Places]
  · apply Program.Places.of_forall
    intro op next
    cases op <;> first | trivial | exact fun _ _ heq => absurd ⟨_, _, heq⟩ hrequest

theorem Deleted.step {userID keyPrefix : Bytes} (hdeleted : Deleted pool userID keyPrefix)
    (packages : Packages) (step : AuthStep) : Deleted (pool.step
      (authService packages) step) userID keyPrefix :=
  hdeleted.imp fun _ hended => hended.step step

/-- The transaction of a deletion that is heard of ends the call. -/
theorem Deleted.of_effect {userID keyPrefix : Bytes} {writes : List Write} {step : AuthStep}
    (hplaces : ∀ thread ∈ pool.threads, thread.program.Places (AnswersCommit thread.request))
    (heffect : effect? pool step = some (.deleteAPIKey userID keyPrefix, writes))
    (hheard : Heard step) :
    Deleted (pool.step (authService packages) step) userID keyPrefix := by
  obtain ⟨i, outcome, next, rfl, houtcome, hi⟩ := effect?_eq_some heffect
  obtain rfl : outcome = .ok := by
    cases outcome with
    | ok => rfl
    | failed => exact absurd rfl houtcome
    | lost => cases hheard
  have hnext := (hplaces _ (List.mem_of_getElem? hi)).1 _ _ rfl
  have hlt := (List.getElem?_eq_some_iff.mp hi).1
  refine ⟨i, ?_⟩
  simp only [Pool.Ended, Pool.step, Pool.advance, hi, List.getElem?_set_self hlt]
  exact congrArg (fun program => some (Thread.mk _ program)) hnext

theorem KeysInPlace.step {step : AuthStep} (hserved : Served packages pool)
    (hplaces : ∀ thread ∈ pool.threads, thread.program.Places (AnswersCommit thread.request))
    (hkeeps : ∀ request ∈ pool.requests, request.KeepsUsers) (happart : IssuesApart pool step)
    (hkeys : KeysInPlace pool) : KeysInPlace (pool.step (authService packages) step) := by
  have hold {keyPrefix : Bytes} {keyData : APIKeyData}
      (hwrite : .putAPIKey keyPrefix keyData ∈ pool.world.store.revisions) :=
    (hkeys keyPrefix keyData hwrite).imp_right fun hdeleted =>
      hdeleted.step packages step
  intro keyPrefix keyData hwrite
  rcases hserved.effect_cases step with hsame | ⟨request, writes, heffect, hrequest,
    htransaction, hstore⟩
  · rw [hsame] at hwrite ⊢
    exact hold hwrite
  · have happart := happart _ heffect
    rw [hstore] at hwrite ⊢
    cases htransaction with
    | @createKey _ _ _ created hcreated _ _ =>
        simp only [KeepsIssued, ← hcreated.keyPrefix] at happart
        simp only [Store.commit, List.foldl_cons, List.foldl_nil, Store.write,
          List.mem_append, List.mem_singleton, OrderedStore.get_set] at hwrite ⊢
        rcases hwrite with (hwrite | hnew) | hindex
        · refine (hold hwrite).imp_left fun hget => ?_
          -- the prefix of the new key is free, so it is not this one
          have hne : keyPrefix ≠ created.keyPrefix := fun heq => by
            rw [heq, happart] at hget
            cases hget
          rw [if_neg hne, hget]
        · cases hnew
          exact Or.inl (if_pos rfl)
        · cases hindex
    | @deleteKey userID deleted _ =>
        have hwrite : .putAPIKey keyPrefix keyData ∈ pool.world.store.revisions := by
          simpa [Store.commit, Store.write] using hwrite
        simp only [Store.commit, List.foldl_cons, List.foldl_nil, Store.write,
          OrderedStore.get_delete]
        rcases hold hwrite with hget | hdeleted
        · by_cases heq : keyPrefix = deleted
          · subst heq
            obtain rfl : keyData.userID = userID := happart.2 _ hget
            exact Or.inr (Deleted.of_effect hplaces heffect happart.1)
          · rw [if_neg heq]
            exact Or.inl hget
        · exact Or.inr hdeleted
    | createUser _ _ _ | updatePlan _ =>
        exact hold (by simpa [Store.commit, Store.write] using hwrite)
    | deleteUser _ | deleteUserID _ | deleteIndex _ | deleteListed =>
        exact absurd (hkeeps _ hrequest) id

section

variable (hfresh : Meets packages Fresh steps)
  (hkeeps : Meets packages (Begins Request.KeepsUsers) steps)

include hfresh hkeeps

theorem serve_keysInPlace (happart : Meets packages (fun pool step => IssuesApart pool step) steps) :
    KeysInPlace (serve packages steps) := by
  have hrun := run_rule (fun pool : AuthPool =>
    (∀ thread ∈ pool.threads, thread.program.Places (AnswersCommit thread.request)) ∧
      (∀ request ∈ pool.requests, request.KeepsUsers) ∧ KeysInPlace pool)
    ?_ ?_ hfresh (hkeeps.and happart)
  · exact hrun.2.2
  · refine ⟨by simp [idle], by simp [idle, Pool.requests], ?_⟩
    intro keyPrefix keyData hwrite
    cases hwrite
  · rintro pool step hserved _ ⟨hbegins, happart⟩ ⟨hplaces, hkeeps, hkeys⟩
    exact ⟨Pool.places_step (handle_answersCommit packages) hplaces step,
      requests_step hbegins hkeeps, hkeys.step hserved hplaces hkeeps happart⟩

/-- No user's part of the index is deleted in a run without deletions of accounts. -/
theorem serve_index_kept (front : Bytes) :
    .deleteIndexUnder front ∉ (serve packages steps).world.store.revisions := by
  have hall : Meets packages (Effects fun _ _ _ => True) steps :=
    Run.Meets.of_forall (fun _ _ _ _ => trivial) _ _
  apply store_rule (fun store => .deleteIndexUnder front ∉ store.revisions)
    (by simp [Store.empty]) _ hfresh hkeeps hall
  intro pool request writes _ hkeeps htransaction _ hnone
  cases htransaction with
  | createUser _ _ _ | updatePlan _ | createKey _ _ _ | deleteKey _ =>
      simpa [Store.commit, Store.write] using hnone
  | deleteUser _ | deleteUserID _ | deleteIndex _ | deleteListed => cases hkeeps

end

/-! ## What the calls report -/

variable {world : World} {fullKey : Bytes} {keyData : APIKeyData}

/-- What the validation of a key reports from its record. -/
def APIKeyData.validated (keyData : APIKeyData) : ValidateAPIKeyResponse :=
  { valid := true
    userId := keyData.userID
    plan := planName keyData.plan
    apiKeyId := keyData.keyPrefix }

theorem call_validateAPIKey (hlength : 13 ≤ fullKey.length) :
    world.call packages (.validateAPIKey fullKey) =
      .validateAPIKey (.ok
        (match world.cached fullKey with
          | some cached => cached.validated
          | none =>
              match world.store.apiKeys.get (keyPrefixOf fullKey) with
              | none => { valid := false }
              | some keyData =>
                  if packages.bcrypt.compare keyData.hashedKey fullKey then keyData.validated
                  else { valid := false })) := by
  have hnonempty : fullKey ≠ [] := by
    rintro rfl
    simp at hlength
  have hshort : ¬fullKey.length < 13 := by omega
  simp only [World.call, handle, validateAPIKeyRPC, if_neg hnonempty, validateAPIKey,
    if_neg hshort, Program.exec_bind, Program.perform_bind, Program.exec, perform]
  cases hcached : world.cached fullKey with
  | some cached => rfl
  | none =>
      cases hget : world.store.apiKeys.get (keyPrefixOf fullKey) with
      | none => simp [Program.exec, perform, Outcome.answer, hget]
      | some keyData =>
          by_cases hcompare : packages.bcrypt.compare keyData.hashedKey fullKey = true
          · simp only [Program.exec, perform, Outcome.answer, hget, if_pos hcompare]
            rfl
          · simp only [Program.exec, perform, Outcome.answer, hget, if_neg hcompare]
            rfl

/-- A user who is listed under the index has the entry in the list. -/
theorem call_listAPIKeys {userID keyPrefix : Bytes} {entry : ApiKeyListEntry}
    (huser : userID ≠ [])
    (hindex : world.store.index.get (indexKey userID keyPrefix) = some entry) :
    ∃ keys, world.call packages (.listAPIKeys userID) = .listAPIKeys (.ok keys) ∧
      entry ∈ keys := by
  have hunder : entry ∈ (world.store.index.under (indexFront userID).isPrefixOf).map Prod.snd := by
    refine List.mem_map.mpr ⟨(indexKey userID keyPrefix, entry), ?_, rfl⟩
    exact OrderedStore.mem_under.mpr ⟨hindex, (indexFront_isPrefixOf rfl).mpr rfl⟩
  refine ⟨_, ?_, hunder⟩
  simp only [World.call, handle, listAPIKeysRPC, if_neg huser, listAPIKeys, Program.exec_bind,
    Program.perform_bind, Program.exec, perform, Outcome.answer]
  generalize (world.store.index.under (indexFront userID).isPrefixOf).map Prod.snd = found at hunder
  cases found with
  | nil => cases hunder
  | cons first rest => rfl

/-- In every run in which keys are created under free prefixes and deleted for their owners,
an issued key that its owner has not deleted validates and is listed. -/
theorem issued_stays_valid {i : Nat} {draw : Draw} {userID : Bytes} {name : String}
    {response : CreateAPIKeyResponse} (hexact : packages.bcrypt.Exact)
    (hfresh : Meets packages Fresh steps)
    (hkeeps : Meets packages (Begins Request.KeepsUsers) steps)
    (happart : Meets packages IssuesApart steps)
    (hended : (serve packages steps).Ended i (.createAPIKey draw userID name)
      (.createAPIKey (.ok response)))
    (hkept : ¬Deleted (serve packages steps) userID response.keyInfo.keyPrefix) :
    (∃ validated : ValidateAPIKeyResponse,
      (serve packages steps).world.call packages (.validateAPIKey response.fullKey) =
          .validateAPIKey (.ok validated) ∧ validated.valid = true ∧ validated.userId = userID) ∧
      ∃ keys, (serve packages steps).world.call packages (.listAPIKeys userID) =
        .listAPIKeys (.ok keys) ∧ response.keyInfo ∈ keys := by
  have hserved := Served.serve hfresh
  have hkeys := hserved.sound.keys
  obtain ⟨keyData, hcreated, hput, rfl⟩ := hserved.answered hended
  obtain ⟨rfl, hfront, hhashed⟩ := id hcreated
  have hunlocks : packages.bcrypt.Unlocks keyData (newFullKey draw.uuid) :=
    packages.bcrypt.accepts hhashed
  have hget : (serve packages steps).world.store.apiKeys.get keyData.keyPrefix = some keyData :=
    (serve_keysInPlace hfresh hkeeps happart _ _ hput).resolve_right hkept
  constructor
  · refine ⟨keyData.validated, ?_, rfl, rfl⟩
    rw [call_validateAPIKey (by rw [newFullKey_length]; decide)]
    cases hcached : (serve packages steps).world.cached (newFullKey draw.uuid) with
    | none =>
        rw [hfront] at hget
        rw [Bcrypt.Unlocks] at hunlocks
        simp only [hget, hunlocks, if_true]
    | some cached =>
        -- the cached record accepts the key, so it is the one that was issued
        obtain ⟨hread, haccepts⟩ := hserved.sound.of_cached hcached
        rw [hkeys.unique hexact hread hput haccepts hunlocks]
  · obtain ⟨_, ⟨address, hregistered⟩, _⟩ := hkeys.created hput
    refine call_listAPIKeys ?_ (hkeys.listed hget ?_)
    · intro hempty
      have hlength := hserved.sound.accounts.id_length hregistered
      rw [hempty] at hlength
      cases hlength
    · exact serve_index_kept hfresh hkeeps _

/-! ## Examples -/

def sampleUser (digit : UInt8) : Bytes := newUserID (Draw.sample digit).uuid

def sampleCreation (digit : UInt8) : Request :=
  .createAPIKey (.sample digit) (sampleUser digit) "ci"

/-- The answer to the creation of a key, of which all examples have the same prefix. -/
def sampleKey (digit : UInt8) : CreateAPIKeyResponse :=
  { fullKey := newFullKey (Draw.sample digit).uuid
    keyInfo := ⟨utf8 "vkey-aaaaaaaa", sampleUser digit, 0, utf8 "ci"⟩ }

/-- A user registers and creates a key. -/
def issuing : List AuthStep :=
  registered "a@b.co" ++
    [.begin (sampleCreation 1), .advance 1 .ok, .advance 1 .ok, .advance 1 .ok]

theorem not_deleted_of_requests {userID keyPrefix : Bytes}
    (hrequests : .deleteAPIKey userID keyPrefix ∉ pool.requests) :
    ¬Deleted pool userID keyPrefix := by
  rintro ⟨i, hended⟩
  exact hrequests (List.mem_of_getElem? (Pool.request_of_thread hended))

theorem issued_stays_valid_sample :
    (∃ validated : ValidateAPIKeyResponse,
      (serve .plain issuing).world.call .plain (.validateAPIKey (sampleKey 1).fullKey) =
          .validateAPIKey (.ok validated) ∧
        validated.valid = true ∧ validated.userId = sampleUser 1) ∧
      ∃ keys, (serve .plain issuing).world.call .plain (.listAPIKeys (sampleUser 1)) =
        .listAPIKeys (.ok keys) ∧ (sampleKey 1).keyInfo ∈ keys :=
  issued_stays_valid Packages.plain_exact (by decide +kernel) (by decide +kernel)
    (by decide +kernel)
    (show (serve .plain issuing).Ended 1 (sampleCreation 1) (.createAPIKey (.ok (sampleKey 1)))
      from by decide +kernel)
    (not_deleted_of_requests (by decide +kernel))

/-- Another user then creates a key with the same prefix. -/
def issuingTwice : List AuthStep :=
  issuing ++
    [.begin (.registerUser (.sample 2) "c@b.co" "Passw0rd"), .advance 2 .ok, .advance 2 .ok,
      .begin (sampleCreation 2), .advance 3 .ok, .advance 3 .ok, .advance 3 .ok]

/-- The key of the first user is gone, though nobody has deleted it. -/
theorem colliding_key_lost : Meets .plain Fresh issuingTwice ∧
    Meets .plain (Begins Request.KeepsUsers) issuingTwice ∧
    (serve .plain issuingTwice).Ended 1 (sampleCreation 1) (.createAPIKey (.ok (sampleKey 1))) ∧
    ¬Deleted (serve .plain issuingTwice) (sampleUser 1) (sampleKey 1).keyInfo.keyPrefix ∧
    (serve .plain issuingTwice).world.call .plain (.validateAPIKey (sampleKey 1).fullKey) =
      .validateAPIKey (.ok { valid := false }) :=
  ⟨by decide +kernel, by decide +kernel, by decide +kernel,
    not_deleted_of_requests (by decide +kernel), by decide +kernel⟩

end Issued

end Vectron.Auth
