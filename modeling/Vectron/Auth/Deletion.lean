import Vectron.Auth.Registration

/-! # The deletion of an account

`DeleteUser` deletes the record of the account, the id, the index and the listed keys in
operations of their own, and goes on when one of the later ones fails. It leaves nothing of
the account where these take effect, no record of the account is written once the call has
deleted it, and no key is created once it lists the keys.
-/

namespace Vectron.Auth

open Foundation

/-! ## Conditions -/

section Conditions

/-- The operations of a deletion that list keys or delete listed ones. -/
def Op.listing : Op → Bool
  | .getIndex _ | .getAPIKeys | .commit [.deleteAPIKey _] => true
  | _ => false

/-- The operations of a deletion that has deleted the record of the account. -/
def Op.afterRemoval : Op → Bool
  | .commit [.deleteUserID _] | .commit [.deleteIndexUnder _] => true
  | op => op.listing

/-- The thread is a deletion of the account that has come to such an operation or has
succeeded. -/
def Deleting (stage : Op → Bool) (userID : Bytes) : Thread Request Op Answer Reply → Bool
  | ⟨.deleteUser id, .call op _⟩ => decide (id = userID) && stage op
  | ⟨.deleteUser id, .done (.deleteUser (.ok _))⟩ => decide (id = userID)
  | _ => false

def Write.key? : Write → Option APIKeyData
  | .putAPIKey _ keyData => some keyData
  | _ => none

def Write.user? : Write → Option UserData
  | .putUser _ userData => some userData
  | _ => none

/-- No key of an account is created once a deletion lists its keys. -/
def CreatesBefore (pool : AuthPool) (_ : Request) (writes : List Write) : Prop :=
  ∀ write ∈ writes, ∀ keyData ∈ write.key?, ∀ thread ∈ pool.threads,
    Deleting Op.listing keyData.userID thread = false

instance (pool : AuthPool) (request : Request) (writes : List Write) :
    Decidable (CreatesBefore pool request writes) :=
  inferInstanceAs (Decidable (∀ write ∈ writes, ∀ keyData ∈ write.key?, _))

/-- No record of an account is written once a deletion has deleted it. -/
def UpdatesBefore (pool : AuthPool) (_ : Request) (writes : List Write) : Prop :=
  ∀ write ∈ writes, ∀ userData ∈ write.user?, ∀ thread ∈ pool.threads,
    Deleting Op.afterRemoval userData.id thread = false

instance (pool : AuthPool) (request : Request) (writes : List Write) :
    Decidable (UpdatesBefore pool request writes) :=
  inferInstanceAs (Decidable (∀ write ∈ writes, ∀ userData ∈ write.user?, _))

/-- The deletion of a listed key. -/
def Op.deletesKey : Op → Bool
  | .commit [.deleteAPIKey _] => true
  | _ => false

/-- The deletions that `DeleteUser` goes on without when they fail. -/
def Op.ignored : Op → Bool
  | .commit [.deleteUserID _] | .commit [.deleteIndexUnder _] => true
  | op => op.deletesKey

/-- The account that call `i` deletes and the operation it performs next. -/
def deletes? (pool : AuthPool) (i : Nat) : Option (Bytes × Op) :=
  match pool.threads[i]? with
  | some ⟨.deleteUser userID, .call op _⟩ => some (userID, op)
  | _ => none

theorem deletes?_eq_some {pool : AuthPool} {i : Nat} {userID : Bytes} {op : Op}
    (hdeletes : deletes? pool i = some (userID, op)) :
    ∃ next, pool.threads[i]? = some ⟨.deleteUser userID, .call op next⟩ := by
  rw [deletes?] at hdeletes
  split at hdeletes
  next hthread =>
    cases hdeletes
    exact ⟨_, hthread⟩
  next => cases hdeletes

/-- Such an operation of a deletion does not fail. -/
def CarriedOut (matters : Op → Bool) (pool : AuthPool) : AuthStep → Prop
  | .advance i .failed => ∀ next ∈ deletes? pool i, matters next.2 = false
  | _ => True

instance CarriedOut.decidable (matters : Op → Bool) (pool : AuthPool) :
    ∀ step, Decidable (CarriedOut matters pool step)
  | .advance i .failed =>
      inferInstanceAs (Decidable (∀ next ∈ deletes? pool i, matters next.2 = false))
  | .advance _ .ok | .advance _ .lost | .begin _ | .elapse _ => isTrue trivial

/-- The index of the user is empty or has all keys of the user. -/
def Store.Listable (store : Store) (userID : Bytes) : Prop :=
  store.index.under (indexFront userID).isPrefixOf = [] ∨
    ∀ entry ∈ store.apiKeys.entries, entry.2.userID = userID →
      ∃ listed ∈ store.index.under (indexFront userID).isPrefixOf,
        listed.2.keyPrefix = entry.1

instance (store : Store) (userID : Bytes) : Decidable (store.Listable userID) :=
  inferInstanceAs (Decidable (_ ∨ _))

def Op.readsIndex : Op → Bool
  | .getIndex _ => true
  | _ => false

/-- A deletion that reads the index finds it so. -/
def ListsAll (pool : AuthPool) : AuthStep → Prop
  | .advance i _ => ∀ next ∈ deletes? pool i, next.2.readsIndex = true →
      pool.world.store.Listable next.1
  | _ => True

instance ListsAll.decidable (pool : AuthPool) : ∀ step, Decidable (ListsAll pool step)
  | .advance i _ => inferInstanceAs (Decidable (∀ next ∈ deletes? pool i, _ → _))
  | .begin _ | .elapse _ => isTrue trivial

end Conditions

/-! ## The keys of the account -/

section KeysOf

/-- No record of a key is the user's. -/
def Store.NoKeys (store : Store) (userID : Bytes) : Prop :=
  ∀ keyPrefix keyData, store.apiKeys.get keyPrefix = some keyData → keyData.userID ≠ userID

/-- All keys of the user are in the list. -/
def Store.Covered (store : Store) (userID : Bytes) (keys : List ApiKeyListEntry) : Prop :=
  ∀ keyPrefix keyData, store.apiKeys.get keyPrefix = some keyData → keyData.userID = userID →
    ∃ key ∈ keys, key.keyPrefix = keyPrefix

/-- The user has no key that was not there before. -/
def NoNewKeys (userID : Bytes) (world after : World) : Prop :=
  ∀ keyPrefix keyData, after.store.apiKeys.get keyPrefix = some keyData →
    keyData.userID = userID → world.store.apiKeys.get keyPrefix = some keyData

/-- The contract of a deletion as far as the keys go: while it lists and deletes them, no
others are created. -/
def removingKeys (packages : Packages) (userID : Bytes) : Contract World Op Outcome where
  rely op world after := op.listing = true → NoNewKeys userID world after
  rely_refl _ _ _ _ _ hget _ := hget
  rely_trans _ _ _ _ hfirst hsecond hlisting _ _ hget howner :=
    hfirst hlisting _ _ (hsecond hlisting _ _ hget howner) howner
  allowed choice op world := world.Sound packages ∧
    (op.readsIndex = true → world.store.Listable userID) ∧
    (op.deletesKey = true → choice ≠ .failed)
  guarantee _ _ _ := True

variable {packages : Packages} {userID : Bytes} {world : World}

theorem deleteKeys_removes (keys : List ApiKeyListEntry)
    (hcovered : world.store.Covered userID keys) :
    (removingKeys packages userID).Safe perform (fun _ world => world.store.NoKeys userID)
      (deleteKeys keys) world := by
  induction keys generalizing world with
  | nil =>
      intro keyPrefix keyData hget howner
      obtain ⟨key, hkey, _⟩ := hcovered keyPrefix keyData hget howner
      cases hkey
  | cons key keys ih =>
      apply Contract.Safe.perform_bind
      intro found hfound choice hallowed
      refine ⟨trivial, ih ?_⟩
      have hchoice : choice ≠ .failed := hallowed.2.2 rfl
      have hstore : (perform choice (.commit [.deleteAPIKey key.keyPrefix]) found).2.store =
          found.store.commit [.deleteAPIKey key.keyPrefix] := by
        simp [perform, hchoice]
      rw [hstore]
      intro keyPrefix keyData hget howner
      simp only [Store.commit, List.foldl_cons, List.foldl_nil, Store.write,
        OrderedStore.get_delete] at hget
      split at hget
      next => cases hget
      next hne =>
        obtain ⟨listed, hlisted, hfront⟩ :=
          hcovered keyPrefix keyData (hfound rfl keyPrefix keyData hget howner) howner
        rcases List.mem_cons.mp hlisted with rfl | hlisted
        · exact absurd hfront.symm hne
        · exact ⟨listed, hlisted, hfront⟩

section

variable {post : Except StoreError (List ApiKeyListEntry) → World → Prop}
  (herror : ∀ err after, post (.error err) after)
  (hok : ∀ keys after, after.store.Covered userID keys → post (.ok keys) after)

include herror hok

theorem scanForKeys_covers :
    (removingKeys packages userID).Safe perform post (scanForKeys userID) world := by
  apply Contract.Safe.perform_bind
  intro found _ choice hallowed
  refine ⟨trivial, ?_⟩
  cases choice with
  | failed | lost => exact herror _ _
  | ok =>
      apply hok
      intro keyPrefix keyData hget howner
      have hentry := OrderedStore.get_eq_some.mp hget
      refine ⟨keyData.listed, ?_, ?_⟩
      · refine List.mem_map.mpr ⟨keyData, List.mem_filter.mpr ⟨?_, by simpa using howner⟩, rfl⟩
        exact List.mem_map.mpr ⟨_, hentry, rfl⟩
      · exact (hallowed.1.keys.created (hallowed.1.keys.stored hget)).1

/-- The list of keys has all keys of the user. -/
theorem listAPIKeys_covers :
    (removingKeys packages userID).Safe perform post (listAPIKeys userID) world := by
  apply Contract.Safe.perform_bind
  intro found _ choice hallowed
  refine ⟨trivial, ?_⟩
  cases choice with
  | failed | lost => exact scanForKeys_covers herror hok
  | ok =>
      simp only [perform, Outcome.answer]
      have hlistable : found.store.Listable userID := hallowed.2.1 rfl
      cases hunder : found.store.index.under (indexFront userID).isPrefixOf with
      | nil => exact scanForKeys_covers herror hok
      | cons first rest =>
          apply hok
          intro keyPrefix keyData hget howner
          rcases hlistable with hempty | hall
          · rw [hunder] at hempty
            cases hempty
          · obtain ⟨listed, hlisted, hfront⟩ :=
              hall (keyPrefix, keyData) (OrderedStore.get_eq_some.mp hget) howner
            rw [hunder] at hlisted
            exact ⟨listed.2, List.mem_map_of_mem hlisted, hfront⟩

end

/-- A deletion that succeeds leaves no key of the user. -/
theorem deleteUser_removesKeys :
    (removingKeys packages userID).Safe perform
      (fun result world => result = .ok () → world.store.NoKeys userID) (deleteUser userID)
      world := by
  unfold deleteUser
  apply Contract.Safe.bind
  apply Contract.Safe.of_forall (fun _ _ _ => trivial)
  rintro (err | userData) _
  · nofun
  · apply Contract.Safe.perform_bind
    intro found _ choice _
    refine ⟨trivial, ?_⟩
    cases choice with
    | failed | lost => nofun
    | ok =>
        apply Contract.Safe.perform_bind
        refine fun _ _ _ _ => ⟨trivial, ?_⟩
        apply Contract.Safe.perform_bind
        refine fun _ _ _ _ => ⟨trivial, ?_⟩
        apply Contract.Safe.bind
        apply listAPIKeys_covers
        · nofun
        · intro keys after hcovered
          apply Contract.Safe.bind
          exact (deleteKeys_removes keys hcovered).imp fun _ _ hnone _ => hnone

/-- The contracts of all calls, as far as the keys of deleted accounts go. -/
def keysOf (packages : Packages) : Request → Contract World Op Outcome
  | .deleteUser userID => removingKeys packages userID
  | _ => Contract.free

def KeysRemoved : Request → Reply → World → Prop
  | .deleteUser userID, .deleteUser (.ok ()), world => world.store.NoKeys userID
  | _, _, _ => True

variable {pool : AuthPool} {steps : List AuthStep}

theorem handle_removesKeys (request : Request) :
    (keysOf packages request).Safe perform (KeysRemoved request) (handle packages request)
      world := by
  cases request with
  | deleteUser userID =>
      apply Contract.Safe.bind
      apply deleteUser_removesKeys.imp
      rintro (err | done) after hnone
      · trivial
      · exact hnone rfl
  | _ => exact Contract.free_safe (fun _ _ => trivial) _ _

/-- A record of a key after a transaction was there before or is written by it. -/
theorem apiKeys_commit_cases {store : Store} {writes : List Write} {keyPrefix : Bytes}
    {keyData : APIKeyData} (hget : (store.commit writes).apiKeys.get keyPrefix = some keyData) :
    store.apiKeys.get keyPrefix = some keyData ∨ ∃ write ∈ writes, write.key? = some keyData := by
  induction writes generalizing store with
  | nil => exact Or.inl hget
  | cons write writes ih =>
      rcases ih hget with hbefore | ⟨later, hlater, hkey⟩
      · cases write with
        | putAPIKey written created =>
            simp only [Store.write, OrderedStore.get_set] at hbefore
            split at hbefore
            next => exact Or.inr ⟨_, List.mem_cons_self, hbefore⟩
            next => exact Or.inl hbefore
        | deleteAPIKey deleted =>
            simp only [Store.write, OrderedStore.get_delete] at hbefore
            split at hbefore
            next => cases hbefore
            next => exact Or.inl hbefore
        | _ => exact Or.inl hbefore
      · exact Or.inr ⟨later, List.mem_cons_of_mem _ hlater, hkey⟩

/-- While a deletion is listing, its user gets no new keys. -/
theorem noNewKeys_perform {i : Nat} {request : Request} {op : Op} {outcome : Outcome}
    {next : Answer op → AuthProgram Reply} {thread : Thread Request Op Answer Reply}
    (hi : pool.threads[i]? = some ⟨request, .call op next⟩)
    (hcreates : Effects CreatesBefore pool (.advance i outcome)) (hthread : thread ∈ pool.threads)
    (hdeleting : Deleting Op.listing userID thread = true) :
    NoNewKeys userID pool.world (perform outcome op pool.world).2 := by
  intro keyPrefix keyData hget howner
  rcases store_perform hi outcome with hsame | ⟨writes, rfl, heffect, hstore⟩
  · rwa [← hsame]
  · rw [hstore] at hget
    rcases apiKeys_commit_cases hget with hbefore | ⟨write, hwrite, hkey⟩
    · exact hbefore
    · have hnot := hcreates _ heffect write hwrite keyData hkey thread hthread
      rw [howner, hdeleting] at hnot
      cases hnot

theorem keysRemoved_bears {i : Nat} {after : World}
    (hnone : ∀ userID thread, pool.threads[i]? = some thread →
      Deleting Op.listing userID thread = true → NoNewKeys userID pool.world after) :
    pool.BearsAt (keysOf packages) KeysRemoved i after := by
  rintro ⟨request, program⟩ hthread
  cases request <;> cases program <;> try trivial
  case deleteUser.done userID reply =>
    intro hremoved
    cases reply with
    | deleteUser result =>
        cases result with
        | error err => trivial
        | ok done =>
            intro keyPrefix keyData hget howner
            have hold := hnone userID _ hthread (by simp [Deleting]) keyPrefix keyData hget howner
            exact hremoved keyPrefix keyData hold howner
    | _ => trivial
  case deleteUser.call userID op next =>
    intro hlisting
    exact hnone userID _ hthread (by simp [Deleting, hlisting])
  all_goals exact fun _ => trivial

theorem keysRemoved_step {step : AuthStep} (hserved : Served packages pool)
    (hcreates : Effects CreatesBefore pool step) (hlists : ListsAll pool step)
    (hcarried : CarriedOut Op.deletesKey pool step) {i : Nat}
    (hsafe : pool.SafeAt (authService packages) (keysOf packages) KeysRemoved i) :
    (pool.step (authService packages) step).SafeAt (authService packages) (keysOf packages)
      KeysRemoved i := by
  apply hsafe.step
  cases step with
  | begin request => exact fun _ => handle_removesKeys request
  | elapse event =>
      apply keysRemoved_bears
      intro userID thread _ _ keyPrefix keyData hget _
      have hstore : (elapse event pool.world).store.apiKeys.get keyPrefix = some keyData := hget
      rwa [store_elapse] at hstore
  | advance j outcome =>
      intro request op next hj
      split
      next =>
        cases request <;> try trivial
        case deleteUser userID =>
          have hdeletes : deletes? pool j = some (userID, op) := by simp [deletes?, hj]
          refine ⟨hserved.sound, hlists _ hdeletes, ?_⟩
          rintro hmatters rfl
          have hnot := hcarried _ hdeletes
          simp [hmatters] at hnot
      next =>
        apply keysRemoved_bears
        intro userID thread hthread hdeleting
        exact noNewKeys_perform hj hcreates (List.mem_of_getElem? hthread) hdeleting

end KeysOf

end Vectron.Auth
