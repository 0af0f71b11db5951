import Vectron.Auth.Deletion
import Vectron.Auth.Issued

/-! # What a deletion leaves

A deletion has removed the record, the id and the index of the account before it lists the
keys. With what it does to the keys, nothing is left of the account once it succeeds.
-/

namespace Vectron.Auth

open Foundation

section Account

/-- No record carries the id. -/
def Store.Gone (store : Store) (userID : Bytes) : Prop :=
  ∀ address userData, store.users.get address = some userData → userData.id ≠ userID

/-- No key of the index belongs to the user. -/
def Store.Unlisted (store : Store) (userID : Bytes) : Prop :=
  ∀ key, (indexFront userID).isPrefixOf key = true → store.index.get key = none

/-- What others leave of a deletion that has come to this operation. -/
structure Spares (userID : Bytes) (op : Op) (store after : Store) : Prop where
  gone : op.afterRemoval = true → store.Gone userID → after.Gone userID
  id : store.userIDs.get userID = none → after.userIDs.get userID = none
  unlisted : op.listing = true → store.Unlisted userID → after.Unlisted userID

/-- The contract of a deletion as far as the account and its index go: what it has deleted
stays so. -/
def removingAccount (packages : Packages) (userID : Bytes) : Contract World Op Outcome where
  rely op world after := world.store.revisions ⊆ after.store.revisions ∧
    (world.store.Registered userID → Spares userID op world.store after.store)
  rely_refl _ _ := ⟨List.Subset.refl _, fun _ => ⟨fun _ h => h, fun h => h, fun _ h => h⟩⟩
  rely_trans op first second third hfirst hsecond := by
    refine ⟨List.Subset.trans hfirst.1 hsecond.1, fun hregistered => ?_⟩
    have hbefore := hfirst.2 hregistered
    have hafter := hsecond.2 (hregistered.mono hfirst.1)
    exact ⟨fun hop hgone => hafter.gone hop (hbefore.gone hop hgone),
      fun hnone => hafter.id (hbefore.id hnone),
      fun hop hunlisted => hafter.unlisted hop (hbefore.unlisted hop hunlisted)⟩
  allowed choice op world := world.Sound packages ∧ (op.ignored = true → choice ≠ .failed)
  guarantee op world _ := op.readsIndex = true → world.store.Unlisted userID

/-- Nothing is left of the account but its keys. -/
structure Store.Removed (store : Store) (userID : Bytes) : Prop where
  registered : store.Registered userID
  gone : store.Gone userID
  id : store.userIDs.get userID = none
  unlisted : store.Unlisted userID

variable {packages : Packages} {userID : Bytes} {world : World}

theorem reading_removingAccount (packages : Packages) (userID : Bytes) :
    Reading packages (removingAccount packages userID)
      (fun world after => world.store.revisions ⊆ after.store.revisions) where
  rely _ _ _ _ hrely := hrely.1
  trans := List.Subset.trans
  grows hgrows := hgrows
  sound hallowed := hallowed.1
  guarantee {op _} hlooks hreads := by
    cases op <;> contradiction

/-- What is removed stays removed while the deletion lists keys. -/
theorem Store.Removed.spared {op : Op} {store after : Store} (hlisting : op.listing = true)
    (hremoved : store.Removed userID) (hgrows : store.revisions ⊆ after.revisions)
    (hspares : store.Registered userID → Spares userID op store after) :
    after.Removed userID := by
  have hspares := hspares hremoved.registered
  have hafter : op.afterRemoval = true := by
    unfold Op.afterRemoval
    split <;> first | rfl | exact hlisting
  exact ⟨hremoved.registered.mono hgrows, hspares.gone hafter hremoved.gone,
    hspares.id hremoved.id, hspares.unlisted hlisting hremoved.unlisted⟩

/-- The reads and deletions of keys leave it removed. -/
theorem Store.Removed.perform {op : Op} {choice : Outcome} (hlisting : op.listing = true)
    (hremoved : world.store.Removed userID) :
    (perform choice op world).2.store.Removed userID := by
  unfold Op.listing at hlisting
  split at hlisting
  · exact hremoved
  · exact hremoved
  · obtain ⟨hregistered, hgone, hid, hunlisted⟩ := hremoved
    rw [Auth.perform]
    split
    · exact ⟨hregistered, hgone, hid, hunlisted⟩
    · refine ⟨hregistered.mono (by simp [revisions_commit]), hgone, hid, hunlisted⟩
  · cases hlisting

theorem deleteKeys_keeps (keys : List ApiKeyListEntry) (hremoved : world.store.Removed userID) :
    (removingAccount packages userID).Safe perform (fun _ world => world.store.Removed userID)
      (deleteKeys keys) world := by
  induction keys generalizing world with
  | nil => exact hremoved
  | cons key keys ih =>
      apply Contract.Safe.perform_bind
      intro found hfound choice _
      exact ⟨(by intro hreads; cases hreads), ih ((hremoved.spared rfl hfound.1 hfound.2).perform rfl)⟩

theorem listAPIKeys_keeps (hremoved : world.store.Removed userID) :
    (removingAccount packages userID).Safe perform (fun _ world => world.store.Removed userID)
      (listAPIKeys userID) world := by
  have hscan {world : World} (hremoved : world.store.Removed userID) :
      (removingAccount packages userID).Safe perform (fun _ world => world.store.Removed userID)
        (scanForKeys userID) world := by
    apply Contract.Safe.perform_bind
    intro found hfound choice _
    refine ⟨(by intro hreads; cases hreads), ?_⟩
    split <;> exact hremoved.spared rfl hfound.1 hfound.2
  apply Contract.Safe.perform_bind
  intro found hfound choice _
  have hremoved := hremoved.spared rfl hfound.1 hfound.2
  refine ⟨fun _ => hremoved.unlisted, ?_⟩
  split
  · exact hremoved
  · exact hscan hremoved

/-- A deletion whose error the call ignores takes effect. -/
theorem removing_ignored {α : Type} {post : α → World → Prop} {writes : List Write}
    {rest : AuthProgram α} (hignored : (Op.commit writes).ignored = true)
    (hrest : ∀ found, (removingAccount packages userID).rely (.commit writes) world found →
      ∀ after : World, after.store = found.store.commit writes →
        (removingAccount packages userID).Safe perform post rest after) :
    (removingAccount packages userID).Safe perform post (Etcd.commit writes >>= fun _ => rest)
      world := by
  apply Contract.Safe.perform_bind
  intro found hfound choice hallowed
  refine ⟨(by intro hreads; cases hreads), hrest found hfound _ ?_⟩
  rw [perform, if_neg (hallowed.2 hignored)]

/-- A deletion that succeeds leaves nothing of the account. -/
theorem deleteUser_removesAccount :
    (removingAccount packages userID).Safe perform
      (fun result world => result = .ok () → world.store.Removed userID) (deleteUser userID)
      world := by
  unfold deleteUser
  apply Contract.Safe.bind
  apply safe_getUserByID (reading_removingAccount packages userID)
  · intro err world _ hresult
    cases hresult
  · intro userData world _ _ _ hid
    -- the record goes, which is the only one that may carry the id
    apply Contract.Safe.perform_bind
    intro found hfound choice hallowed
    refine ⟨(by intro hreads; cases hreads), ?_⟩
    have haccounts := hallowed.1.accounts
    have hid := hfound.1 hid
    cases choice with
    | failed | lost =>
        intro hresult
        cases hresult
    | ok =>
        have hregistered : (found.store.commit [.deleteUser userData.email]).Registered userID :=
          Store.Registered.mono ⟨_, hid⟩ (by simp [revisions_commit])
        have hgone : (found.store.commit [.deleteUser userData.email]).Gone userID := by
          intro address other hget hother
          simp only [Store.commit, List.foldl_cons, List.foldl_nil, Store.write,
            OrderedStore.get_delete] at hget
          split at hget
          next => cases hget
          next hne =>
            have hother' := (haccounts.registered (haccounts.stored hget)).2
            rw [hother] at hother'
            exact hne (haccounts.email_unique hother' hid)
        -- then the id
        apply removing_ignored rfl
        intro world' hworld' after hafter
        have hregistered : after.store.Registered userID :=
          hregistered.mono (List.Subset.trans hworld'.1 (by simp [hafter, revisions_commit]))
        have hgone : after.store.Gone userID := by
          rw [hafter]
          exact (hworld'.2 ‹_›).gone rfl hgone
        have hnone : after.store.userIDs.get userID = none := by
          rw [hafter]
          simp [Store.commit, Store.write, OrderedStore.get_delete]
        -- then the index
        apply removing_ignored rfl
        intro world'' hworld'' after' hafter'
        have hremoved : after'.store.Removed userID := by
          have hspares := hworld''.2 hregistered
          rw [hafter']
          refine ⟨hregistered.mono (List.Subset.trans hworld''.1 (by simp [revisions_commit])),
            hspares.gone rfl hgone, hspares.id hnone, ?_⟩
          intro key hfront
          simp [Store.commit, Store.write, OrderedStore.get_deleteUnder, hfront]
        apply Contract.Safe.bind
        apply (listAPIKeys_keeps hremoved).imp
        rintro (err | keys) _ hremoved
        · intro hresult
          cases hresult
        · apply Contract.Safe.bind
          exact (deleteKeys_keeps keys hremoved).imp fun _ _ hremoved _ => hremoved

variable {pool : AuthPool} {steps : List AuthStep}

/-- What other calls do spares a deletion at its operation. -/
theorem spares_perform (hserved : Served packages pool) {i : Nat} {request : Request} {op : Op}
    {outcome : Outcome} {next : Answer op → AuthProgram Reply}
    (hi : pool.threads[i]? = some ⟨request, .call op next⟩)
    (hcreates : Effects CreatesBefore pool (.advance i outcome))
    (hupdates : Effects UpdatesBefore pool (.advance i outcome))
    {thread : Thread Request Op Answer Reply} (hthread : thread ∈ pool.threads) {reached : Op}
    (hafter : reached.afterRemoval = true → Deleting Op.afterRemoval userID thread = true)
    (hlisting : reached.listing = true → Deleting Op.listing userID thread = true)
    (hregistered : pool.world.store.Registered userID) :
    Spares userID reached pool.world.store (perform outcome op pool.world).2.store := by
  rcases store_perform hi outcome with hsame | ⟨writes, rfl, heffect, hstore⟩
  · rw [hsame]
    exact ⟨fun _ hgone => hgone, fun hnone => hnone, fun _ hunlisted => hunlisted⟩
  rw [hstore]
  cases hserved.grounded hi with
  | reads hreads => cases hreads
  | commit htransaction =>
      cases htransaction with
      | @createUser _ _ _ account _ _ hfresh =>
          have hne : userID ≠ account.id := fun heq => hfresh (heq ▸ hregistered)
          refine ⟨fun _ hgone => ?_, fun hnone => ?_, fun _ hunlisted => hunlisted⟩
          · intro address userData hget
            simp only [Store.commit, List.foldl_cons, List.foldl_nil, Store.write,
              OrderedStore.get_set] at hget
            split at hget
            next => exact Option.some.inj hget ▸ hne.symm
            next => exact hgone address userData hget
          · simpa [Store.commit, Store.write, OrderedStore.get_set, hne] using hnone
      | @updatePlan _ _ plan account _ =>
          refine ⟨fun hreached hgone => ?_, fun hnone => hnone, fun _ hunlisted => hunlisted⟩
          intro address userData hget
          simp only [Store.commit, List.foldl_cons, List.foldl_nil, Store.write,
            OrderedStore.get_set] at hget
          split at hget
          next =>
            rintro rfl
            obtain rfl := Option.some.inj hget
            have hnot := hupdates _ heffect _ List.mem_cons_self _ rfl thread hthread
            rw [hafter hreached] at hnot
            cases hnot
          next => exact hgone address userData hget
      | @createKey _ owner _ created hcreated howner _ =>
          refine ⟨fun _ hgone => hgone, fun hnone => hnone, fun hreached hunlisted => ?_⟩
          intro key hfront
          simp only [Store.commit, List.foldl_cons, List.foldl_nil, Store.write,
            OrderedStore.get_set]
          split
          next hkey =>
            have hlength := hserved.sound.accounts.length_eq hregistered howner
            rw [hkey] at hfront
            obtain rfl := (indexFront_isPrefixOf hlength).mp hfront
            have hnot := hcreates _ heffect _ List.mem_cons_self _ rfl thread hthread
            rw [hcreated.userID, hlisting hreached] at hnot
            cases hnot
          next => exact hunlisted key hfront
      | deleteKey _ | deleteUser _ | deleteUserID _ | deleteIndex _ | deleteListed =>
          constructor <;>
            simp [Store.commit, Store.write, Store.Gone, Store.Unlisted, OrderedStore.get_delete,
              OrderedStore.get_deleteUnder] <;> grind

def accountOf (packages : Packages) : Request → Contract World Op Outcome
  | .deleteUser userID => removingAccount packages userID
  | _ => Contract.free

def AccountRemoved : Request → Reply → World → Prop
  | .deleteUser userID, .deleteUser (.ok ()), world => world.store.Removed userID
  | _, _, _ => True

theorem handle_removesAccount (request : Request) :
    (accountOf packages request).Safe perform (AccountRemoved request) (handle packages request)
      world := by
  cases request with
  | deleteUser userID =>
      apply Contract.Safe.bind
      apply deleteUser_removesAccount.imp
      rintro (err | done) after hremoved
      · trivial
      · exact hremoved rfl
  | _ => exact Contract.free_safe (fun _ _ => trivial) _ _

theorem accountRemoved_bears {i : Nat} {after : World}
    (hgrows : pool.world.store.revisions ⊆ after.store.revisions)
    (hspares : ∀ userID thread reached, pool.threads[i]? = some thread →
      (reached.afterRemoval = true → Deleting Op.afterRemoval userID thread = true) →
      (reached.listing = true → Deleting Op.listing userID thread = true) →
      pool.world.store.Registered userID → Spares userID reached pool.world.store after.store) :
    pool.BearsAt (accountOf packages) AccountRemoved i after := by
  rintro ⟨request, program⟩ hthread
  cases request <;> cases program <;> try trivial
  case deleteUser.done userID reply =>
    intro hremoved
    cases reply with
    | deleteUser result =>
        cases result with
        | error err => trivial
        | ok done =>
            have hremoved : pool.world.store.Removed userID := hremoved
            exact hremoved.spared (show Op.getAPIKeys.listing = true from rfl) hgrows
              (hspares userID _ _ hthread (by simp [Deleting]) (by simp [Deleting]))
    | _ => trivial
  case deleteUser.call userID op next =>
    refine ⟨hgrows, fun hregistered => ?_⟩
    exact hspares userID _ op hthread (by simp [Deleting]) (by simp [Deleting]) hregistered
  all_goals exact fun _ => trivial

theorem accountRemoved_step {step : AuthStep} (hserved : Served packages pool)
    (hcreates : Effects CreatesBefore pool step) (hupdates : Effects UpdatesBefore pool step)
    (hcarried : CarriedOut Op.ignored pool step) {i : Nat}
    (hsafe : pool.SafeAt (authService packages) (accountOf packages) AccountRemoved i) :
    (pool.step (authService packages) step).SafeAt (authService packages) (accountOf packages)
      AccountRemoved i := by
  apply hsafe.step
  cases step with
  | begin request => exact fun _ => handle_removesAccount request
  | elapse event =>
      have hstore := store_elapse event pool.world
      apply accountRemoved_bears
      · exact fun _ hwrite => hstore ▸ hwrite
      · intro userID thread reached _ _ _ _
        change Spares userID reached pool.world.store (elapse event pool.world).store
        rw [hstore]
        exact ⟨fun _ hgone => hgone, fun hnone => hnone, fun _ hunlisted => hunlisted⟩
  | advance j outcome =>
      intro request op next hj
      split
      next =>
        cases request <;> try trivial
        case deleteUser userID =>
          have hdeletes : deletes? pool j = some (userID, op) := by simp [deletes?, hj]
          refine ⟨hserved.sound, ?_⟩
          rintro hmatters rfl
          have hnot := hcarried _ hdeletes
          simp [hmatters] at hnot
      next =>
        apply accountRemoved_bears (perform_revisions _ _ _)
        intro userID thread reached hthread hafter hlisting hregistered
        exact spares_perform hserved hj hcreates hupdates (List.mem_of_getElem? hthread) hafter
          hlisting hregistered

theorem CarriedOut.imp {matters weaker : Op → Bool} {step : AuthStep}
    (himp : ∀ op, weaker op = true → matters op = true) (hcarried : CarriedOut matters pool step) :
    CarriedOut weaker pool step := by
  cases step with
  | advance i outcome =>
      cases outcome with
      | failed =>
          intro next hnext
          have hnot := hcarried next hnext
          rw [← Bool.not_eq_true] at hnot ⊢
          exact fun hweaker => hnot (himp _ hweaker)
      | _ => trivial
  | _ => trivial

/-- A deletion that has deleted the index reads an empty one. -/
theorem listsAll_of_account {step : AuthStep} (hserved : Served packages pool)
    (hsafe : ∀ i, pool.SafeAt (authService packages) (accountOf packages) AccountRemoved i) :
    ListsAll pool step := by
  cases step with
  | advance i outcome =>
      rintro ⟨userID, op⟩ hdeletes hreads
      obtain ⟨next, hi⟩ := deletes?_eq_some hdeletes
      have hunlisted := (hsafe i).guarantee hi .ok ⟨hserved.sound, fun _ hignored =>
        by cases hignored⟩ hreads
      left
      apply List.filter_eq_nil_iff.mpr
      rintro ⟨key, entry⟩ hentry hfront
      rw [← OrderedStore.get_eq_some, hunlisted key hfront] at hentry
      cases hentry
  | _ => trivial

theorem serve_removed (hfresh : Meets packages Fresh steps)
    (hcreates : Meets packages (Effects CreatesBefore) steps)
    (hupdates : Meets packages (Effects UpdatesBefore) steps)
    (hcarried : Meets packages (CarriedOut Op.ignored) steps) (i : Nat) :
    (serve packages steps).SafeAt (authService packages) (accountOf packages) AccountRemoved i ∧
      (serve packages steps).SafeAt (authService packages) (keysOf packages) KeysRemoved i := by
  have hrun := run_rule (fun pool : AuthPool =>
    (∀ i, pool.SafeAt (authService packages) (accountOf packages) AccountRemoved i) ∧
      ∀ i, pool.SafeAt (authService packages) (keysOf packages) KeysRemoved i)
    ?_ ?_ hfresh (hcreates.and (hupdates.and hcarried))
  · exact ⟨hrun.1 i, hrun.2 i⟩
  · constructor <;>
      · intro i thread hthread
        cases hthread
  · rintro pool step hserved _ ⟨hcreates, hupdates, hcarried⟩ ⟨haccount, hkeys⟩
    refine ⟨fun i => accountRemoved_step hserved hcreates hupdates hcarried (haccount i),
      fun i => keysRemoved_step hserved hcreates (listsAll_of_account hserved haccount)
        (hcarried.imp ?_) (hkeys i)⟩
    intro op hdeletes
    unfold Op.ignored
    split <;> first | rfl | exact hdeletes

/-! ## What is left of the account -/

/-- The store has no record, id, key or index entry of the user. -/
structure Store.Without (store : Store) (userID : Bytes) : Prop where
  user {address userData} : store.users.get address = some userData → userData.id ≠ userID
  id : store.userIDs.get userID = none
  apiKey {keyPrefix keyData} : store.apiKeys.get keyPrefix = some keyData →
    keyData.userID ≠ userID
  index {key entry} : store.index.get key = some entry →
    (indexFront userID).isPrefixOf key = false ∧ entry.userID ≠ userID

/-- In every run in which the deletions of `DeleteUser` take effect, no record of an account
is written once a deletion has deleted it, and no key is created once it lists the keys, a
deletion that has succeeded leaves nothing of the account. -/
theorem deletion_final {i : Nat} (hfresh : Meets packages Fresh steps)
    (hcreates : Meets packages (Effects CreatesBefore) steps)
    (hupdates : Meets packages (Effects UpdatesBefore) steps)
    (hcarried : Meets packages (CarriedOut Op.ignored) steps)
    (hended : (serve packages steps).Ended i (.deleteUser userID) (.deleteUser (.ok ()))) :
    (serve packages steps).world.store.Without userID := by
  have hserved := Served.serve hfresh
  obtain ⟨haccount, hkeys⟩ := serve_removed hfresh hcreates hupdates hcarried i
  have hremoved : (serve packages steps).world.store.Removed userID := haccount.result hended
  have hnone : (serve packages steps).world.store.NoKeys userID := hkeys.result hended
  refine ⟨hremoved.gone _ _, hremoved.id, hnone _ _, ?_⟩
  intro key entry hget
  have hfront : (indexFront userID).isPrefixOf key = false := by
    by_contra hfront
    rw [hremoved.unlisted key (by simpa using hfront)] at hget
    cases hget
  refine ⟨hfront, ?_⟩
  rintro rfl
  rw [hserved.sound.keys.entries hget, (indexFront_isPrefixOf rfl).mpr rfl] at hfront
  cases hfront

/-! ## Examples -/

/-- The steps by which call `i` is served, alone and with etcd in order. -/
def advances (i count : Nat) : List AuthStep :=
  List.replicate count (.advance i .ok)

/-- A user with a key is deleted. -/
def removing : List AuthStep :=
  issuing ++ .begin (.deleteUser (sampleUser 1)) :: advances 2 8

theorem deletion_final_sample : (serve .plain removing).world.store.Without (sampleUser 1) :=
  deletion_final (by decide +kernel) (by decide +kernel) (by decide +kernel)
    (by decide +kernel)
    (show (serve .plain removing).Ended 2 (.deleteUser (sampleUser 1)) (.deleteUser (.ok ()))
      from by decide +kernel)

/-- The creation of a key that has read the account before its deletion and writes after. -/
def creatingLate : List AuthStep :=
  registered "a@b.co" ++ .begin (sampleCreation 1) :: advances 1 2 ++
    .begin (.deleteUser (sampleUser 1)) :: advances 2 7 ++ advances 1 1

theorem late_key_survives : Meets .plain Fresh creatingLate ∧
    (serve .plain creatingLate).Ended 2 (.deleteUser (sampleUser 1)) (.deleteUser (.ok ())) ∧
    (serve .plain creatingLate).Ended 1 (sampleCreation 1) (.createAPIKey (.ok (sampleKey 1))) ∧
    ¬(serve .plain creatingLate).world.store.Without (sampleUser 1) := by
  refine ⟨by decide +kernel, by decide +kernel, by decide +kernel, fun hwithout => ?_⟩
  have hkey : ((serve .plain creatingLate).world.store.apiKeys.get (utf8 "vkey-aaaaaaaa")).map
      APIKeyData.userID = some (sampleUser 1) := by decide +kernel
  obtain ⟨keyData, hget, howner⟩ := Option.map_eq_some_iff.mp hkey
  exact hwithout.apiKey hget howner

end Account

end Vectron.Auth
