import Vectron.Auth.Sound

/-! # What the calls know

Every call commits only transactions that the store bears out, however the other calls
interleave. The lookups of accounts, which most calls begin with, get their rules under an
arbitrary contract; the other calls follow under the contract of all runs.
-/

namespace Vectron.Auth

open Foundation

section Lookups

theorem getUserByEmail_reads (email : Bytes) : (getUserByEmail email).Performs Op.Reads := by
  refine ⟨trivial, ?_⟩
  rintro (err | (_ | userData)) <;> trivial

theorem scanForUser_reads (userID : Bytes) : (scanForUser userID).Performs Op.Reads := by
  refine ⟨trivial, ?_⟩
  rintro (err | users)
  · trivial
  · cases hfind : users.find? fun userData => userData.id = userID <;>
      simp [Program.bind, hfind, Program.Places]

theorem getUserByID_reads (userID : Bytes) : (getUserByID userID).Performs Op.Reads := by
  refine ⟨trivial, ?_⟩
  rintro (err | (_ | email))
  · exact scanForUser_reads userID
  · exact scanForUser_reads userID
  · change Program.Performs Op.Reads (if email ≠ [] then _ else _)
    split
    · exact getUserByEmail_reads email
    · exact scanForUser_reads userID

theorem listAPIKeys_reads (userID : Bytes) : (listAPIKeys userID).Performs Op.Reads := by
  have hscan : (scanForKeys userID).Performs Op.Reads := by
    refine ⟨trivial, ?_⟩
    rintro (err | keys) <;> trivial
  refine ⟨trivial, ?_⟩
  rintro (err | (_ | ⟨entry, entries⟩))
  · exact hscan
  · exact hscan
  · trivial

/-! ## Calls that only read -/

section Readers

variable {packages : Packages}

theorem login_reads (unixNow : Int64) (email password : String) :
    (login packages unixNow email password).Performs Op.Reads := by
  apply Program.Performs.bind (getUserByEmail_reads _)
  rintro (err | userData)
  · trivial
  · change Program.Performs _ (if (!packages.bcrypt.compare userData.hashedPassword
      (utf8 password)) = true then _ else _)
    split
    · trivial
    · split <;> trivial

theorem getUserProfile_reads (userID : Bytes) : (getUserProfile userID).Performs Op.Reads := by
  unfold getUserProfile
  split
  · trivial
  · apply Program.Performs.bind (getUserByID_reads _)
    rintro (err | userData) <;> trivial

theorem listAPIKeysRPC_reads (userID : Bytes) : (listAPIKeysRPC userID).Performs Op.Reads := by
  unfold listAPIKeysRPC
  split
  · trivial
  · apply Program.Performs.bind (listAPIKeys_reads _)
    rintro (err | keys) <;> trivial

theorem createSDKJWT_reads (unixNow : Int64) (userID apiKeyID : Bytes) :
    (createSDKJWT packages unixNow userID apiKeyID).Performs Op.Reads := by
  unfold createSDKJWT
  split
  · trivial
  · split
    · trivial
    · refine ⟨trivial, ?_⟩
      rintro (err | (_ | keyData))
      · trivial
      · trivial
      · change Program.Performs _ (if keyData.userID ≠ userID then _ else _)
        split
        · trivial
        · apply Program.Performs.bind (getUserByID_reads _)
          rintro (err | userData)
          · trivial
          · dsimp only
            split <;> trivial

theorem getAuthDetailsForSDK_reads (apiKeyID : Bytes) :
    (getAuthDetailsForSDK apiKeyID).Performs Op.Reads := by
  unfold getAuthDetailsForSDK
  split
  · trivial
  · refine ⟨trivial, ?_⟩
    rintro (err | (_ | keyData))
    · trivial
    · trivial
    · apply Program.Performs.bind (getUserByID_reads _)
      rintro (err | userData) <;> trivial

end Readers

/-! ## Lookups of accounts -/

/-- The operations by which accounts are looked up. -/
def Op.LooksUp : Op → Prop
  | .getUser _ | .getUserID _ | .getUsers => True
  | _ => False

/-- The contract bears lookups: while one is due the world only changes along `change`, the
world is sound when it comes, and looking up is in the guarantee. -/
structure Reading (packages : Packages) (contract : Contract World Op Outcome)
    (change : World → World → Prop) : Prop where
  rely op {world after} : op.LooksUp → contract.rely op world after → change world after
  trans {first second third} : change first second → change second third → change first third
  grows {world after} : change world after → world.store.revisions ⊆ after.store.revisions
  sound {choice op world} : contract.allowed choice op world → world.Sound packages
  guarantee {op world} : op.LooksUp → contract.guarantee op world world

variable {packages : Packages} {contract : Contract World Op Outcome}
  {change : World → World → Prop}
  {post : Except StoreError UserData → World → Prop} {world : World}

/-- A validation reads, and puts into the cache what it has found under the prefix of the key. -/
theorem safe_validateAPIKeyRPC {fullKey : Bytes}
    (hreads : ∀ {op found after}, op.Reads → contract.guarantee op found after)
    (hsets : ∀ {choice found keyData after},
      contract.allowed choice (.getAPIKey (keyPrefixOf fullKey)) found →
      found.store.apiKeys.get (keyPrefixOf fullKey) = some keyData →
      packages.bcrypt.compare keyData.hashedKey fullKey = true →
      ∀ found', contract.rely (.cacheSet fullKey keyData) found found' →
        contract.guarantee (.cacheSet fullKey keyData) found' after) :
    contract.Safe perform (fun _ _ => True) (validateAPIKeyRPC packages fullKey) world := by
  unfold validateAPIKeyRPC
  split
  next => trivial
  next =>
    apply Contract.Safe.bind
    rw [validateAPIKey]
    split
    next => trivial
    next =>
      apply Contract.Safe.perform_bind
      intro found _ choice _
      refine ⟨hreads trivial, ?_⟩
      split
      next => trivial
      next =>
        apply Contract.Safe.perform_bind
        intro found _ choice hallowed
        refine ⟨hreads trivial, ?_⟩
        cases choice with
        | failed | lost => trivial
        | ok =>
            cases hget : found.store.apiKeys.get (keyPrefixOf fullKey) with
            | none =>
                simp only [perform, Outcome.answer, hget]
                trivial
            | some keyData =>
                simp only [perform, Outcome.answer, hget]
                split
                next hunlocks =>
                  apply Contract.Safe.perform_bind
                  intro found' hfound' choice _
                  exact ⟨hsets hallowed hget hunlocks found' hfound', trivial⟩
                next => trivial

theorem safe_getUserByEmail (hreading : Reading packages contract change) {email : Bytes}
    (herror : ∀ err after, change world after → post (.error err) after)
    (hok : ∀ userData after, change world after → after.Sound packages →
      after.store.users.get email = some userData → post (.ok userData) after) :
    contract.Safe perform post (getUserByEmail email) world := by
  apply Contract.Safe.perform_bind
  intro found hfound choice hallowed
  have hchange := hreading.rely (.getUser email) trivial hfound
  refine ⟨hreading.guarantee trivial, ?_⟩
  cases choice with
  | failed | lost => exact herror _ _ hchange
  | ok =>
      cases hget : found.store.users.get email with
      | none =>
          simp only [perform, Outcome.answer, hget]
          exact herror _ _ hchange
      | some userData =>
          simp only [perform, Outcome.answer, hget]
          exact hok _ _ hchange (hreading.sound hallowed) hget

section

variable (hreading : Reading packages contract change) {userID : Bytes}
  (herror : ∀ err after, change world after → post (.error err) after)

include hreading herror

theorem safe_scanForUser
    (hok : ∀ userData after, change world after → after.Sound packages →
      after.store.users.get userData.email = some userData → userData.id = userID →
      post (.ok userData) after) :
    contract.Safe perform post (scanForUser userID) world := by
  apply Contract.Safe.perform_bind
  intro found hfound choice hallowed
  have hchange := hreading.rely .getUsers trivial hfound
  have hsound := hreading.sound hallowed
  refine ⟨hreading.guarantee trivial, ?_⟩
  cases choice with
  | failed | lost => exact herror _ _ hchange
  | ok =>
      simp only [perform, Outcome.answer]
      split
      next => exact herror _ _ hchange
      next userData hfind =>
        obtain ⟨⟨email, _⟩, hentry, rfl⟩ := List.mem_map.mp (List.mem_of_find?_eq_some hfind)
        have hget := OrderedStore.get_eq_some.mpr hentry
        have hemail := (hsound.accounts.registered (hsound.accounts.stored hget)).1
        refine hok _ _ hchange hsound ?_ (by simpa using List.find?_some hfind)
        rwa [hemail]

/-- The account that a lookup by id finds is stored, and the id was registered with its
address. -/
theorem safe_getUserByID
    (hok : ∀ userData after, change world after → after.Sound packages →
      after.store.users.get userData.email = some userData →
      .putUserID userID userData.email ∈ after.store.revisions → post (.ok userData) after) :
    contract.Safe perform post (getUserByID userID) world := by
  apply Contract.Safe.perform_bind
  intro found hfound choice hallowed
  have hchange := hreading.rely (.getUserID userID) trivial hfound
  have hsound := hreading.sound hallowed
  have hscan : contract.Safe perform post (scanForUser userID) found := by
    apply safe_scanForUser hreading
    · exact fun err after hafter => herror err after (hreading.trans hchange hafter)
    · intro userData after hafter hsound hget hid
      refine hok userData after (hreading.trans hchange hafter) hsound hget ?_
      rw [← hid]
      exact (hsound.accounts.registered (hsound.accounts.stored hget)).2
  refine ⟨hreading.guarantee trivial, ?_⟩
  cases choice with
  | failed | lost => exact hscan
  | ok =>
      cases hget : found.store.userIDs.get userID with
      | none =>
          simp only [perform, Outcome.answer, hget]
          exact hscan
      | some email =>
          simp only [perform, Outcome.answer, hget]
          split
          · apply safe_getUserByEmail hreading
            · exact fun err after hafter => herror err after (hreading.trans hchange hafter)
            · intro userData after hafter hsound' hget'
              have hemail := (hsound'.accounts.registered (hsound'.accounts.stored hget')).1
              subst hemail
              exact hok userData after (hreading.trans hchange hafter) hsound' hget'
                (hreading.grows hafter (hsound.accounts.indexed hget))
          · exact hscan

end

end Lookups

/-! ## The contract of all runs -/

section Calls

variable (packages : Packages)

/-- The writes that only this call may perform. -/
def Owns : Request → Write → Prop
  | .registerUser draw _ _, .putUserID id _ => id = newUserID draw.uuid
  | .createAPIKey draw _ _, .putAPIKey _ keyData =>
      packages.bcrypt.Exact ∧ packages.bcrypt.Unlocks keyData (newFullKey draw.uuid)
  | _, _ => False

/-- Writes are never undone, and those of a call come from itself. -/
structure Follows (request : Request) (world after : World) : Prop where
  grows : world.store.revisions ⊆ after.store.revisions
  own : ∀ write ∈ after.store.revisions, Owns packages request write →
    write ∈ world.store.revisions

/-- The call has performed no write of its own yet. -/
def Unwritten (request : Request) (world : World) : Prop :=
  ∀ write ∈ world.store.revisions, ¬Owns packages request write

def grounding (request : Request) : Contract World Op Outcome where
  rely _ := Follows packages request
  rely_refl _ _ := ⟨List.Subset.refl _, fun _ hwrite _ => hwrite⟩
  rely_trans _ _ _ _ hfirst hsecond :=
    ⟨List.Subset.trans hfirst.grows hsecond.grows, fun write hwrite howns =>
      hfirst.own write (hsecond.own write hwrite howns) howns⟩
  allowed _ _ world := world.Sound packages
  guarantee op world _ := Grounded packages world request op

/-- What a successful answer tells of the writes. -/
def Answered : Request → Reply → World → Prop
  | .registerUser draw email password, .registerUser (.ok profile), world =>
      ∃ userData : UserData, userData.Created packages.bcrypt draw
          (utf8 (normalizeEmail packages.unicode email)) (utf8 password) ∧
        validateEmail packages.unicode email = none ∧
        .putUser userData.email userData ∈ world.store.revisions ∧
        .putUserID userData.id userData.email ∈ world.store.revisions ∧
        profile = userData.profile
  | .createAPIKey draw userID _, .createAPIKey (.ok response), world =>
      ∃ keyData : APIKeyData, keyData.Created packages.bcrypt draw userID ∧
        .putAPIKey keyData.keyPrefix keyData ∈ world.store.revisions ∧
        response = ⟨newFullKey draw.uuid, keyData.listed⟩
  | _, _, _ => True

variable {packages} {request : Request} {world : World}

theorem Unwritten.follows {after : World} (hunwritten : Unwritten packages request world)
    (hfollows : Follows packages request world after) : Unwritten packages request after :=
  fun write hwrite howns => hunwritten write (hfollows.own write hwrite howns) howns

theorem reading_grounding (packages : Packages) (request : Request) :
    Reading packages (grounding packages request) (Follows packages request) where
  rely _ _ _ _ hfollows := hfollows
  trans := (grounding packages request).rely_trans (.getUsers)
  grows hfollows := hfollows.grows
  sound hsound := hsound
  guarantee {op _} _ := .reads (by cases op <;> trivial)

section

variable {α : Type} {post : α → World → Prop}

/-- Calls that only read are safe. -/
theorem safe_of_reads (hpost : ∀ result world, post result world) {program : AuthProgram α}
    (hreads : program.Performs Op.Reads) :
    (grounding packages request).Safe perform post program world :=
  Contract.Safe.of_performs (fun _ hop _ _ _ => Grounded.reads hop) hpost hreads world

/-- A transaction that every world to come bears out. -/
theorem safe_commit {writes : List Write} {next : Except StoreError Unit → AuthProgram α}
    (htransaction : ∀ found, Follows packages request world found → found.Sound packages →
      Transaction packages found.store request writes)
    (herror : ∀ err after, world.store.revisions ⊆ after.store.revisions →
      (grounding packages request).Safe perform post (next (.error err)) after)
    (hok : ∀ after, world.store.revisions ⊆ after.store.revisions → writes ⊆ after.store.revisions →
      (grounding packages request).Safe perform post (next (.ok ())) after) :
    (grounding packages request).Safe perform post (Etcd.commit writes >>= next) world := by
  apply Contract.Safe.perform_bind
  intro found hfound choice hsound
  have hgrows := List.Subset.trans hfound.grows
    (perform_revisions choice (.commit writes) found)
  refine ⟨.commit (htransaction found hfound hsound), ?_⟩
  cases choice with
  | failed | lost => exact herror _ _ hgrows
  | ok =>
      refine hok _ hgrows ?_
      simp [perform, revisions_commit]

/-- A transaction whose error is ignored. -/
theorem safe_commit_ignored {writes : List Write} {rest : AuthProgram α}
    (htransaction : ∀ found, Follows packages request world found → found.Sound packages →
      Transaction packages found.store request writes)
    (hrest : ∀ after, world.store.revisions ⊆ after.store.revisions →
      (grounding packages request).Safe perform post rest after) :
    (grounding packages request).Safe perform post (Etcd.commit writes >>= fun _ => rest)
      world :=
  safe_commit htransaction (fun _ => hrest) fun after hgrows _ => hrest after hgrows

end

theorem registerUser_safe {draw : Draw} {email password : String}
    (hunwritten : Unwritten packages (.registerUser draw email password) world) :
    (grounding packages (.registerUser draw email password)).Safe perform
      (fun result => Answered packages (.registerUser draw email password)
        (.registerUser result))
      (registerUser packages draw email password) world := by
  unfold registerUser
  split
  next => trivial
  next hvalid =>
    split
    next => trivial
    next =>
      apply Contract.Safe.bind
      apply Contract.Safe.bind
      apply safe_getUserByEmail (reading_grounding packages _)
      · intro err after hafter
        dsimp only
        split
        next => trivial
        next hashedPassword hhashed =>
          have hcreated : UserData.Created packages.bcrypt draw
              (utf8 (normalizeEmail packages.unicode email)) (utf8 password)
              ⟨newUserID draw.uuid, utf8 (normalizeEmail packages.unicode email),
                hashedPassword, draw.unixNow, Plan.free, SubscriptionStatus.active⟩ :=
            ⟨rfl, rfl, hhashed⟩
          apply safe_commit
          · intro found hfound hsound
            refine .createUser hcreated hvalid ?_
            rintro ⟨address, hwrite⟩
            exact (hunwritten.follows hafter).follows hfound _ hwrite rfl
          · exact fun _ _ _ => trivial
          · intro found _ hwrites
            obtain ⟨hput, hputID⟩ := List.cons_subset.mp hwrites
            exact ⟨_, hcreated, hvalid, hput, hputID List.mem_cons_self, rfl⟩
      · intro userData after _ _ _
        trivial

theorem updateUserProfile_safe {unixNow : Int64} {userID : Bytes} {plan : Plan} :
    (grounding packages (.updateUserProfile unixNow userID plan)).Safe perform
      (fun _ _ => True) (updateUserProfile packages unixNow userID plan) world := by
  unfold updateUserProfile
  split
  next => trivial
  next =>
    apply Contract.Safe.bind
    apply Contract.Safe.bind
    apply safe_getUserByID (reading_grounding packages _)
    · exact fun _ _ _ => trivial
    · intro userData after _ hsound hget _
      apply safe_commit
      · intro found hfound _
        exact .updatePlan (hfound.grows (hsound.accounts.stored hget))
      · exact fun _ _ _ => trivial
      · intro found _ _
        cases hsigned : packages.signedString (loginClaims (userData.withPlan plan) unixNow) <;>
          simp [Contract.Safe, hsigned]

theorem createAPIKeyRPC_safe {draw : Draw} {userID : Bytes} {name : String}
    (hunwritten : Unwritten packages (.createAPIKey draw userID name) world) :
    (grounding packages (.createAPIKey draw userID name)).Safe perform
      (fun result => Answered packages (.createAPIKey draw userID name) (.createAPIKey result))
      (createAPIKeyRPC packages draw userID name) world := by
  unfold createAPIKeyRPC
  split
  next => trivial
  next =>
    split
    next => trivial
    next =>
      apply Contract.Safe.bind
      rw [createAPIKey]
      split
      next => trivial
      next hashedKey hhashed =>
        apply Contract.Safe.bind
        apply safe_getUserByID (reading_grounding packages _)
        · exact fun _ _ _ => trivial
        · intro userData after hafter _ _ hid
          apply safe_commit
          · intro found hfound _
            refine .createKey ⟨rfl, rfl, hhashed⟩ ⟨_, hfound.grows hid⟩ ?_
            intro hexact keyPrefix other hwrite hunlocks
            exact (hunwritten.follows hafter).follows hfound _ hwrite ⟨hexact, hunlocks⟩
          · exact fun _ _ _ => trivial
          · intro found _ hwrites
            exact ⟨_, ⟨rfl, rfl, hhashed⟩, hwrites (by simp), rfl⟩

theorem deleteAPIKeyRPC_safe {userID keyPrefix : Bytes} :
    (grounding packages (.deleteAPIKey userID keyPrefix)).Safe perform (fun _ _ => True)
      (deleteAPIKeyRPC userID keyPrefix) world := by
  unfold deleteAPIKeyRPC
  split
  next => trivial
  next =>
    split
    next => trivial
    next =>
      apply Contract.Safe.bind
      apply Contract.Safe.perform_bind
      intro found _ choice hsound
      refine ⟨.reads trivial, ?_⟩
      cases choice with
      | failed | lost => trivial
      | ok =>
          cases hget : found.store.apiKeys.get keyPrefix with
          | none =>
              simp only [perform, Outcome.answer, hget]
              trivial
          | some keyData =>
              simp only [perform, Outcome.answer, hget]
              split
              next => trivial
              next howner =>
                obtain ⟨_, hregistered, _⟩ := hsound.keys.created (hsound.keys.stored hget)
                rw [not_not.mp howner] at hregistered
                apply Contract.Safe.perform_bind
                intro found' hfound' choice _
                refine ⟨.invalidate, ?_⟩
                apply safe_commit
                · intro found'' hfound'' _
                  exact .deleteKey (hregistered.mono (List.Subset.trans hfound'.grows hfound''.grows))
                · exact fun _ _ _ => trivial
                · exact fun _ _ _ => trivial

theorem validateAPIKeyRPC_safe {fullKey : Bytes} :
    (grounding packages (.validateAPIKey fullKey)).Safe perform (fun _ _ => True)
      (validateAPIKeyRPC packages fullKey) world :=
  safe_validateAPIKeyRPC (fun hop => .reads hop) fun hsound hget hunlocks _ hfound' =>
    .cacheSet (hfound'.grows (hsound.keys.stored hget)) hunlocks

theorem deleteKeys_safe {userID : Bytes} (keys : List ApiKeyListEntry) :
    (grounding packages (.deleteUser userID)).Safe perform (fun _ _ => True)
      (deleteKeys keys) world := by
  induction keys generalizing world with
  | nil => trivial
  | cons key keys ih =>
      apply safe_commit_ignored
      · exact fun _ _ _ => .deleteListed
      · exact fun _ _ => ih

theorem deleteUser_safe {userID : Bytes} :
    (grounding packages (.deleteUser userID)).Safe perform (fun _ _ => True)
      (deleteUser userID) world := by
  unfold deleteUser
  apply Contract.Safe.bind
  apply safe_getUserByID (reading_grounding packages _)
  · exact fun _ _ _ => trivial
  · intro userData world _ _ _ hid
    have howner : world.store.Registered userID := ⟨_, hid⟩
    apply safe_commit
    · exact fun found hfound _ => .deleteUser (hfound.grows hid)
    · exact fun _ _ _ => trivial
    · intro world' hworld' _
      apply safe_commit_ignored
      · exact fun found hfound _ =>
          .deleteUserID (howner.mono (List.Subset.trans hworld' hfound.grows))
      · intro world'' hworld''
        apply safe_commit_ignored
        · exact fun found hfound _ => .deleteIndex (howner.mono
            (List.Subset.trans hworld' (List.Subset.trans hworld'' hfound.grows)))
        · intro _ _
          apply Contract.Safe.bind
          apply safe_of_reads _ (listAPIKeys_reads userID)
          rintro (err | keys) _
          · trivial
          · apply Contract.Safe.bind
            exact (deleteKeys_safe keys).imp fun _ _ _ => trivial

theorem handle_safe (hunwritten : Unwritten packages request world) :
    (grounding packages request).Safe perform (Answered packages request)
      (handle packages request) world := by
  cases request <;> apply Contract.Safe.bind
  case registerUser draw email password => exact registerUser_safe hunwritten
  case updateUserProfile unixNow userID plan =>
    exact updateUserProfile_safe.imp fun _ _ _ => trivial
  case createAPIKey draw userID name => exact createAPIKeyRPC_safe hunwritten
  case deleteAPIKey userID keyPrefix => exact deleteAPIKeyRPC_safe.imp fun _ _ _ => trivial
  case validateAPIKey fullKey => exact validateAPIKeyRPC_safe.imp fun _ _ _ => trivial
  case deleteUser userID => exact deleteUser_safe.imp fun _ _ _ => trivial
  case login unixNow email password =>
    exact safe_of_reads (fun _ _ => trivial) (login_reads _ _ _)
  case getUserProfile userID =>
    exact safe_of_reads (fun _ _ => trivial) (getUserProfile_reads _)
  case listAPIKeys userID =>
    exact safe_of_reads (fun _ _ => trivial) (listAPIKeysRPC_reads _)
  case createSDKJWT unixNow userID apiKeyID =>
    exact safe_of_reads (fun _ _ => trivial) (createSDKJWT_reads _ _ _)
  case getAuthDetailsForSDK apiKeyID =>
    exact safe_of_reads (fun _ _ => trivial) (getAuthDetailsForSDK_reads _)

end Calls

end Vectron.Auth
