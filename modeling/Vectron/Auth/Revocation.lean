import Vectron.Auth.Cached
import Vectron.Auth.Removal

/-! # Revoked keys

`DeleteAPIKey` means to drop the cached validation of the key, but under a key of the cache
that is never used, and `DeleteUser` leaves the cache alone. A key is revoked for good where
its record is deleted while no live entry of the cache and no validation about to fill it has
its prefix.
-/

namespace Vectron.Auth

open Foundation

section Revocation

/-- No record under the prefix of the key accepts it. -/
def Store.Dead (packages : Packages) (fullKey : Bytes) (store : Store) : Prop :=
  ∀ keyData, store.apiKeys.get (keyPrefixOf fullKey) = some keyData →
    ¬packages.bcrypt.Unlocks keyData fullKey

/-- A record that accepts the key has been written. -/
def Store.Wrote (packages : Packages) (fullKey : Bytes) (store : Store) : Prop :=
  ∃ keyPrefix keyData, .putAPIKey keyPrefix keyData ∈ store.revisions ∧
    packages.bcrypt.Unlocks keyData fullKey

variable {packages : Packages} {fullKey : Bytes} {pool : AuthPool} {world : World}

theorem Store.Wrote.mono {store after : Store} (hwrote : store.Wrote packages fullKey)
    (hgrows : store.revisions ⊆ after.revisions) : after.Wrote packages fullKey := by
  obtain ⟨keyPrefix, keyData, hwrite, hunlocks⟩ := hwrote
  exact ⟨keyPrefix, keyData, hgrows hwrite, hunlocks⟩

/-- A key that was written once is never written again. -/
theorem Store.Dead.commit {store : Store} {request : Request} {writes : List Write}
    (hexact : packages.bcrypt.Exact) (hwrote : store.Wrote packages fullKey)
    (htransaction : Transaction packages store request writes)
    (hdead : store.Dead packages fullKey) : (store.commit writes).Dead packages fullKey := by
  intro keyData hget
  cases htransaction with
  | createKey hcreated _ hfresh =>
      simp only [Store.commit, List.foldl_cons, List.foldl_nil, Store.write,
        OrderedStore.get_set] at hget
      split at hget
      next =>
        obtain rfl := Option.some.inj hget
        intro hunlocks
        -- it accepts nothing but the new key, which no record has accepted
        obtain ⟨keyPrefix, other, hwrite, hother⟩ := hwrote
        rw [hexact _ _ _ _ hcreated.hashed hunlocks] at hother
        exact hfresh hexact keyPrefix other hwrite hother
      next => exact hdead keyData hget
  | deleteKey _ | deleteListed =>
      simp only [Store.commit, List.foldl_cons, List.foldl_nil, Store.write,
        OrderedStore.get_delete] at hget
      split at hget
      next => cases hget
      next => exact hdead keyData hget
  | createUser _ _ _ | updatePlan _ | deleteUser _ | deleteUserID _ | deleteIndex _ =>
      exact hdead keyData hget

theorem Store.Dead.perform {i : Nat} {request : Request} {op : Op} {outcome : Outcome}
    {next : Answer op → AuthProgram Reply} (hexact : packages.bcrypt.Exact)
    (hserved : Served packages pool) (hi : pool.threads[i]? = some ⟨request, .call op next⟩)
    (hwrote : pool.world.store.Wrote packages fullKey)
    (hdead : pool.world.store.Dead packages fullKey) :
    (perform outcome op pool.world).2.store.Dead packages fullKey := by
  rcases store_perform hi outcome with hsame | ⟨writes, rfl, _, hstore⟩
  · rwa [hsame]
  · rw [hstore]
    cases hserved.grounded hi with
    | reads hreads => cases hreads
    | commit htransaction => exact hdead.commit hexact hwrote htransaction

/-! ## Later validations -/

/-- The contract of a validation of a dead key. -/
def refusing (packages : Packages) (fullKey : Bytes) : Contract World Op Outcome where
  rely _ _ _ := True
  rely_refl _ _ := trivial
  rely_trans _ _ _ _ _ _ := trivial
  allowed _ _ world := world.Sound packages ∧ world.Current ∧
    world.store.Dead packages fullKey
  guarantee _ _ _ := True

/-- A validation of the key refuses it. -/
def Refuses (fullKey : Bytes) (request : Request) (reply : Reply) (_ : World) : Prop :=
  request = .validateAPIKey fullKey → ∀ validated, reply = .validateAPIKey (.ok validated) →
    validated.valid = false

theorem World.Current.not_cached (hsound : world.Sound packages) (hcurrent : world.Current)
    (hdead : world.store.Dead packages fullKey) : world.cached fullKey = none := by
  cases hcached : world.cached fullKey with
  | none => rfl
  | some keyData =>
      exact absurd (hsound.of_cached hcached).2 (hdead keyData (hcurrent _ _ hcached))

theorem validateAPIKeyRPC_refuses : (refusing packages fullKey).Safe perform
    (fun result _ => ∀ validated, result = .ok validated → validated.valid = false)
    (validateAPIKeyRPC packages fullKey) world := by
  unfold validateAPIKeyRPC
  split
  next =>
    intro _ hresult
    cases hresult
  next =>
    apply Contract.Safe.bind
    rw [validateAPIKey]
    split
    next =>
      intro _ hresult
      cases hresult
    next =>
      apply Contract.Safe.perform_bind
      rintro found _ choice ⟨hsound, hcurrent, hdead⟩
      refine ⟨trivial, ?_⟩
      simp only [perform, World.Current.not_cached hsound hcurrent hdead]
      apply Contract.Safe.perform_bind
      rintro found _ choice ⟨_, _, hdead⟩
      refine ⟨trivial, ?_⟩
      cases choice with
      | failed | lost =>
          intro _ hresult
          cases hresult
      | ok =>
          simp only [perform, Outcome.answer]
          cases hget : found.store.apiKeys.get (keyPrefixOf fullKey) with
          | none =>
              intro validated hvalidated
              cases hvalidated
              rfl
          | some keyData =>
              have hrefused : ¬packages.bcrypt.compare keyData.hashedKey fullKey = true :=
                hdead keyData hget
              simp only [if_neg hrefused]
              intro validated hvalidated
              cases hvalidated
              rfl

theorem handle_refuses (request : Request) :
    (refusing packages fullKey).Safe perform (Refuses fullKey request)
      (handle packages request) world := by
  by_cases hrequest : request = .validateAPIKey fullKey
  · subst hrequest
    apply Contract.Safe.bind
    apply validateAPIKeyRPC_refuses.imp
    intro result world hrefuses _ validated hvalidated
    cases hvalidated
    exact hrefuses validated rfl
  · exact Contract.Safe.of_forall (fun _ _ _ => trivial) (fun _ _ heq => absurd heq hrequest) _ _

/-! ## Revocations -/

/-- A deletion of the key's prefix that succeeds leaves the key dead. -/
def Revokes (packages : Packages) (fullKey caller : Bytes) (request : Request) (reply : Reply)
    (world : World) : Prop :=
  request = .deleteAPIKey caller (keyPrefixOf fullKey) → reply = .deleteAPIKey (.ok true) →
    world.store.Dead packages fullKey

theorem deleteAPIKeyRPC_revokes {caller : Bytes} : Contract.free.Safe perform
    (fun result world => result = .ok true → world.store.Dead packages fullKey)
    (deleteAPIKeyRPC caller (keyPrefixOf fullKey)) world := by
  unfold deleteAPIKeyRPC
  split
  next => nofun
  next =>
    split
    next => nofun
    next =>
      apply Contract.Safe.bind
      apply Contract.Safe.perform_bind
      refine fun found _ choice _ => ⟨trivial, ?_⟩
      split
      next => nofun
      next => nofun
      next keyData _ =>
        split
        next => nofun
        next =>
          apply Contract.Safe.perform_bind
          refine fun _ _ _ _ => ⟨trivial, ?_⟩
          apply Contract.Safe.perform_bind
          refine fun found _ choice _ => ⟨trivial, ?_⟩
          cases choice with
          | failed | lost => nofun
          | ok =>
              intro _ keyData hget
              simp [perform, Store.commit, Store.write, OrderedStore.get_delete] at hget

theorem handle_revokes {caller : Bytes} (request : Request) :
    Contract.free.Safe perform (Revokes packages fullKey caller request)
      (handle packages request) world := by
  by_cases hrequest : request = .deleteAPIKey caller (keyPrefixOf fullKey)
  · subst hrequest
    apply Contract.Safe.bind
    apply deleteAPIKeyRPC_revokes.imp
    intro result world hdead _ hresult
    cases hresult
    exact hdead rfl
  · exact Contract.free_safe (fun _ _ heq => absurd heq hrequest) _ _

/-- Call `j` has deleted the key's prefix. -/
abbrev DeletedBy (fullKey caller : Bytes) (j : Nat) (pool : AuthPool) : Prop :=
  pool.Ended j (.deleteAPIKey caller (keyPrefixOf fullKey)) (.deleteAPIKey (.ok true))

theorem revokes_step {caller : Bytes} {j : Nat} {step : AuthStep} (hexact : packages.bcrypt.Exact)
    (hserved : Served packages pool)
    (hwrote : ¬DeletedBy fullKey caller j pool ∨ pool.world.store.Wrote packages fullKey)
    (hsafe : pool.SafeAt (authService packages) (fun _ => Contract.free)
      (Revokes packages fullKey caller) j) :
    (pool.step (authService packages) step).SafeAt (authService packages)
      (fun _ => Contract.free) (Revokes packages fullKey caller) j := by
  apply hsafe.step
  cases step with
  | begin request => exact fun _ => handle_revokes request
  | elapse event =>
      apply Pool.bearsAt_free
      intro request reply _ hrevokes hrequest hreply
      have hdead := hrevokes hrequest hreply
      rwa [← store_elapse event] at hdead
  | advance i outcome =>
      intro request op next hi
      split
      · trivial
      · apply Pool.bearsAt_free
        rintro request' reply hended hrevokes rfl rfl
        exact (hrevokes rfl rfl).perform hexact hserved hi (hwrote.resolve_left (not_not.mpr hended))

variable {before during after : List AuthStep}

theorem serve_append (first second : List AuthStep) :
    serve packages (first ++ second) =
      Run.run (Pool.step (authService packages)) (serve packages first) second :=
  Run.run_append _ _ _

theorem revisions_step (step : AuthStep) :
    pool.world.store.revisions ⊆
      (pool.step (authService packages) step).world.store.revisions := by
  cases step with
  | begin request => exact List.Subset.refl _
  | elapse event =>
      have hstore := store_elapse event pool.world
      exact fun _ hwrite => hstore ▸ hwrite
  | advance i outcome =>
      rw [Pool.step]
      rcases Pool.advance_cases (authService packages) pool i outcome with hsame |
        ⟨request, op, next, hi, hnext⟩
      · rw [hsame]
        exact List.Subset.refl _
      · rw [hnext]
        exact perform_revisions _ _ _

/-- From when it is written the key stays written. -/
theorem meets_wrote (hwrote : pool.world.store.Wrote packages fullKey) (steps : List AuthStep) :
    Run.Meets (Pool.step (authService packages))
      (fun pool _ => pool.world.store.Wrote packages fullKey) pool steps :=
  Run.Meets.of_invariant (fun _ step _ hwrote => hwrote.mono (revisions_step step))
    (fun _ _ _ hwrote => hwrote) (Run.Meets.of_forall (fun _ _ => trivial) _ _) hwrote

/-- A deletion of the prefix that ends after the key was written leaves the key dead. -/
theorem dead_of_deleteAPIKey {caller : Bytes} {j : Nat} (hexact : packages.bcrypt.Exact)
    (hfresh : Meets packages Fresh (before ++ during))
    (hwrote : (serve packages before).world.store.Wrote packages fullKey)
    (hpending : ¬DeletedBy fullKey caller j (serve packages before))
    (hended : DeletedBy fullKey caller j (serve packages (before ++ during))) :
    (serve packages (before ++ during)).world.store.Dead packages fullKey := by
  have hcondition : Meets packages (fun pool _ => ¬DeletedBy fullKey caller j pool ∨
      pool.world.store.Wrote packages fullKey) (before ++ during) := by
    refine Run.meets_append.mpr ⟨?_, ?_⟩
    · exact (Run.Meets.of_not_run (fun _ step hended => hended.step step) hpending).imp
        fun _ _ => Or.inl
    · exact (meets_wrote hwrote during).imp fun _ _ => Or.inr
  have hsafe := run_rule (fun pool : AuthPool => pool.SafeAt (authService packages)
    (fun _ => Contract.free) (Revokes packages fullKey caller) j)
    (by intro thread hthread; cases hthread)
    (fun pool step hserved _ hcondition hsafe => revokes_step hexact hserved hcondition hsafe)
    hfresh hcondition
  exact hsafe.result hended rfl rfl

/-- A key whose owner has no keys is dead. -/
theorem dead_of_noKeys {userID keyPrefix : Bytes} {keyData : APIKeyData}
    (hexact : packages.bcrypt.Exact) (hsound : world.Sound packages)
    (hwrite : .putAPIKey keyPrefix keyData ∈ world.store.revisions)
    (howner : keyData.userID = userID) (hunlocks : packages.bcrypt.Unlocks keyData fullKey)
    (hnone : world.store.NoKeys userID) : world.store.Dead packages fullKey := by
  intro stored hget hstored
  have hsame := hsound.keys.unique hexact (hsound.keys.stored hget) hwrite hstored hunlocks
  exact hnone _ _ hget (by rw [hsame, howner])

/-- From when the key is dead on, call `v` refuses it. -/
structure Refusing (packages : Packages) (fullKey : Bytes) (v : Nat) (pool : AuthPool) : Prop where
  served : Served packages pool
  caches : Caches packages pool
  wrote : pool.world.store.Wrote packages fullKey
  dead : pool.world.store.Dead packages fullKey
  safe : pool.SafeAt (authService packages) (fun _ => refusing packages fullKey)
    (Refuses fullKey) v

theorem Refusing.step {v : Nat} {step : AuthStep} (hexact : packages.bcrypt.Exact)
    (hfresh : Fresh pool step) (hclear : Effects ChangesClear pool step)
    (hrefusing : Refusing packages fullKey v pool) :
    Refusing packages fullKey v (pool.step (authService packages) step) := by
  obtain ⟨hserved, hcaches, hwrote, hdead, hsafe⟩ := hrefusing
  refine ⟨hserved.step hfresh, hcaches.step hserved hclear, hwrote.mono (revisions_step step),
    ?_, hsafe.step ?_⟩
  · rcases hserved.effect_cases step with hsame | ⟨request, writes, _, _, htransaction, hstore⟩
    · rwa [hsame]
    · rw [hstore]
      exact hdead.commit hexact hwrote htransaction
  · have hbears {after : World} : pool.BearsAt (fun _ => refusing packages fullKey)
        (Refuses fullKey) v after := by
      rintro ⟨request, program⟩ _
      cases program with
      | done reply => exact fun hrefuses => hrefuses
      | call op next => trivial
    cases step with
    | begin request => exact fun _ => handle_refuses request
    | elapse event => exact hbears
    | advance i outcome =>
        intro request op next _
        split
        · exact ⟨hserved.sound, hcaches.current, hdead⟩
        · exact hbears

theorem serve_keysRemoved {steps : List AuthStep} (hfresh : Meets packages Fresh steps)
    (hcreates : Meets packages (Effects CreatesBefore) steps)
    (hlists : Meets packages ListsAll steps)
    (hcarried : Meets packages (CarriedOut Op.deletesKey) steps) (j : Nat) :
    (serve packages steps).SafeAt (authService packages) (keysOf packages) KeysRemoved j :=
  run_rule (fun pool : AuthPool =>
      pool.SafeAt (authService packages) (keysOf packages) KeysRemoved j)
    (by intro thread hthread; cases hthread)
    (fun _ _ hserved _ ⟨hcreates, hlists, hcarried⟩ hsafe =>
      keysRemoved_step hserved hcreates hlists hcarried hsafe)
    hfresh (hcreates.and (hlists.and hcarried))

/-- A key was revoked by call `j`: a deletion of its prefix that ended after the key was
issued, or a deletion of its owner's account. -/
def RevokedBy (packages : Packages) (before during : List AuthStep) (fullKey userID : Bytes)
    (j : Nat) : Prop :=
  (∃ caller, ¬DeletedBy fullKey caller j (serve packages before) ∧
      DeletedBy fullKey caller j (serve packages (before ++ during))) ∨
    (serve packages (before ++ during)).Ended j (.deleteUser userID) (.deleteUser (.ok ()))

/-- In every run in which records of keys change while the cache is clear of them, deletions
of accounts list and delete all keys, and no key is created once they list, a validation that
begins after a revocation has succeeded refuses the key. -/
theorem revocation_final {userID : Bytes} {draw : Draw} {name : String}
    {response : CreateAPIKeyResponse} {validated : ValidateAPIKeyResponse} {k j v : Nat}
    (hexact : packages.bcrypt.Exact)
    (hfresh : Meets packages Fresh (before ++ during ++ after))
    (hclear : Meets packages (Effects ChangesClear) (before ++ during ++ after))
    (hcreates : Meets packages (Effects CreatesBefore) (before ++ during ++ after))
    (hlists : Meets packages ListsAll (before ++ during ++ after))
    (hcarried : Meets packages (CarriedOut Op.deletesKey) (before ++ during ++ after))
    (hissued : (serve packages before).Ended k (.createAPIKey draw userID name)
      (.createAPIKey (.ok response)))
    (hrevoked : RevokedBy packages before during response.fullKey userID j)
    (hlater : (serve packages (before ++ during)).threads.length ≤ v)
    (hvalidated : (serve packages (before ++ during ++ after)).Ended v
      (.validateAPIKey response.fullKey) (.validateAPIKey (.ok validated))) :
    validated.valid = false := by
  obtain ⟨hfresh', hfresh''⟩ := Run.meets_append.mp hfresh
  obtain ⟨hclear', hclear''⟩ := Run.meets_append.mp hclear
  obtain ⟨keyData, hcreated, hput, rfl⟩ :=
    (Served.serve (Run.meets_append.mp hfresh').1).answered hissued
  have hunlocks : packages.bcrypt.Unlocks keyData (newFullKey draw.uuid) :=
    packages.bcrypt.accepts hcreated.hashed
  have hserved := Served.serve hfresh'
  have hgrows : (serve packages before).world.store.revisions ⊆
      (serve packages (before ++ during)).world.store.revisions := by
    rw [serve_append]
    exact Run.run_preserves
      (fun pool : AuthPool => (serve packages before).world.store.revisions ⊆
        pool.world.store.revisions)
      (fun _ step hgrows => List.Subset.trans hgrows (revisions_step step)) during
      (List.Subset.refl _)
  have hwrote : (serve packages before).world.store.Wrote packages (newFullKey draw.uuid) :=
    ⟨_, _, hput, hunlocks⟩
  have hdead : (serve packages (before ++ during)).world.store.Dead packages
      (newFullKey draw.uuid) := by
    rcases hrevoked with ⟨caller, hpending, hended⟩ | hended
    · exact dead_of_deleteAPIKey hexact hfresh' hwrote hpending hended
    · have hkeys := serve_keysRemoved hfresh' (Run.meets_append.mp hcreates).1
        (Run.meets_append.mp hlists).1 (Run.meets_append.mp hcarried).1 j
      exact dead_of_noKeys hexact hserved.sound (hgrows hput) hcreated.userID hunlocks
        (hkeys.result hended)
  have hrefusing : Refusing packages (newFullKey draw.uuid) v
      (serve packages (before ++ during ++ after)) := by
    rw [serve_append]
    refine Run.run_invariant (fun _ _ hcondition hrefusing =>
      hrefusing.step hexact hcondition.1 hcondition.2) (hfresh''.and hclear'') ?_
    refine ⟨hserved, serve_caches hfresh' hclear', hwrote.mono hgrows, hdead, ?_⟩
    intro thread hthread
    have hlt := (List.getElem?_eq_some_iff.mp hthread).1
    exact absurd hlater (Nat.not_le_of_lt hlt)
  exact hrefusing.safe.result hvalidated rfl validated rfl

/-! ## Examples -/

def samplePrefix : Bytes := utf8 "vkey-aaaaaaaa"

/-- The user validates the key. -/
def validating : List AuthStep :=
  issuing ++ .begin (.validateAPIKey (sampleKey 1).fullKey) :: advances 2 3

/-- The user deletes the key. -/
def revoking (i : Nat) : List AuthStep :=
  .begin (.deleteAPIKey (sampleUser 1) samplePrefix) :: advances i 3

/-- A key is validated, and revoked once its entry in the cache has expired. -/
theorem revocation_final_expired :
    let before := validating ++ [.elapse (.tick (apiKeyCacheTTL + 1))]
    (serve .plain before).Ended 2 (.validateAPIKey (sampleKey 1).fullKey)
      (.validateAPIKey (.ok ⟨true, sampleUser 1, "FREE", samplePrefix⟩)) ∧
      ({ valid := false } : ValidateAPIKeyResponse).valid = false := by
  intro before
  have hended : (serve .plain (before ++ revoking 3)).Ended 3
      (.deleteAPIKey (sampleUser 1) samplePrefix) (.deleteAPIKey (.ok true)) := by
    decide +kernel
  have hpending : ¬(serve .plain before).Ended 3
      (.deleteAPIKey (sampleUser 1) samplePrefix) (.deleteAPIKey (.ok true)) := by
    decide +kernel
  have hvalidated : (serve .plain (before ++ revoking 3 ++
      .begin (.validateAPIKey (sampleKey 1).fullKey) :: advances 4 2)).Ended 4
      (.validateAPIKey (sampleKey 1).fullKey) (.validateAPIKey (.ok { valid := false })) := by
    decide +kernel
  have hissued : (serve .plain before).Ended 1 (sampleCreation 1)
      (.createAPIKey (.ok (sampleKey 1))) := by
    decide +kernel
  refine ⟨by decide +kernel, ?_⟩
  exact revocation_final Packages.plain_exact (by decide +kernel) (by decide +kernel)
    (by decide +kernel) (by decide +kernel) (by decide +kernel) hissued
    (Or.inl ⟨sampleUser 1, hpending, hended⟩) (by decide +kernel) hvalidated

/-- A key that was validated is still valid after its deletion. -/
theorem revoked_key_validates : Meets .plain Fresh (validating ++ revoking 3) ∧
    (serve .plain validating).Ended 1 (sampleCreation 1) (.createAPIKey (.ok (sampleKey 1))) ∧
    (serve .plain (validating ++ revoking 3)).Ended 3
      (.deleteAPIKey (sampleUser 1) samplePrefix) (.deleteAPIKey (.ok true)) ∧
    (serve .plain (validating ++ revoking 3)).world.call .plain
        (.validateAPIKey (sampleKey 1).fullKey) =
      .validateAPIKey (.ok ⟨true, sampleUser 1, "FREE", samplePrefix⟩) := by
  decide +kernel

end Revocation

end Vectron.Auth
