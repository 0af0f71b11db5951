import Vectron.Auth.Handler

/-! # What holds of the store in every run

The writes that ever took effect say where every record comes from. A call commits only the
transactions listed here; each of them keeps the accounts and the keys in order.
-/

namespace Vectron.Auth

open Foundation

/-- The record of a new account. -/
structure UserData.Created (bcrypt : Bcrypt) (draw : Draw) (email password : Bytes)
    (userData : UserData) : Prop where
  id : userData.id = newUserID draw.uuid
  email : userData.email = email
  hashed : bcrypt.generate draw.salt password = some userData.hashedPassword

/-- The record of a new key. -/
structure APIKeyData.Created (bcrypt : Bcrypt) (draw : Draw) (userID : Bytes)
    (keyData : APIKeyData) : Prop where
  userID : keyData.userID = userID
  keyPrefix : keyData.keyPrefix = keyPrefixOf (newFullKey draw.uuid)
  hashed : bcrypt.generate draw.salt (newFullKey draw.uuid) = some keyData.hashedKey

/-- The full key of which a record keeps the hash. -/
def Bcrypt.Unlocks (bcrypt : Bcrypt) (keyData : APIKeyData) (fullKey : Bytes) : Prop :=
  bcrypt.compare keyData.hashedKey fullKey = true

/-- The address of an account is the normal form of an admitted one. -/
def Packages.Admits (packages : Packages) (address : Bytes) : Prop :=
  ∃ email, validateEmail packages.unicode email = none ∧
    address = utf8 (normalizeEmail packages.unicode email)

/-- An account with this id was once registered. -/
def Store.Registered (store : Store) (id : Bytes) : Prop :=
  ∃ email, .putUserID id email ∈ store.revisions

theorem newUserID_length (uuid : Uuid) : (newUserID uuid).length = 41 := by
  rw [newUserID, List.length_append, uuid.length]
  rfl

theorem newFullKey_length (uuid : Uuid) : (newFullKey uuid).length = 41 := by
  rw [newFullKey, List.length_append, uuid.length]
  rfl

/-- The index keys of different users of one length are apart. -/
theorem indexFront_isPrefixOf {first second keyPrefix : Bytes}
    (hlength : first.length = second.length) :
    (indexFront first).isPrefixOf (indexKey second keyPrefix) = true ↔ first = second := by
  rw [List.isPrefixOf_iff_prefix, indexKey]
  constructor
  · intro hfront
    have hsame : indexFront first = indexFront second := by
      refine (List.prefix_of_prefix_length_le hfront (List.prefix_append _ _) ?_).eq_of_length ?_
      · simp [indexFront, hlength]
      · simp [indexFront, hlength]
    exact (List.append_inj hsame hlength).1
  · rintro rfl
    exact List.prefix_append _ _

theorem indexKey_inj {first second keyPrefix keyPrefix' : Bytes}
    (hlength : first.length = second.length) :
    indexKey first keyPrefix = indexKey second keyPrefix' ↔
      first = second ∧ keyPrefix = keyPrefix' := by
  constructor
  · intro hkey
    have hfront : first = second := by
      apply (indexFront_isPrefixOf hlength).mp
      · rw [← hkey, indexFront_isPrefixOf rfl]
    subst hfront
    exact ⟨rfl, List.append_cancel_left hkey⟩
  · rintro ⟨rfl, rfl⟩
    rfl

/-! ## Transactions -/

section Transactions

variable (packages : Packages)

/-- The transactions a call may commit, and what it knows of the store when it does. -/
inductive Transaction (store : Store) : Request → List Write → Prop where
  | createUser {draw : Draw} {email password : String} {userData : UserData}
      (hcreated : userData.Created packages.bcrypt draw
        (utf8 (normalizeEmail packages.unicode email)) (utf8 password))
      (hvalid : validateEmail packages.unicode email = none)
      (hfresh : ¬store.Registered userData.id) :
      Transaction store (.registerUser draw email password)
        [.putUser userData.email userData, .putUserID userData.id userData.email]
  | updatePlan {unixNow : Int64} {userID : Bytes} {plan : Plan} {userData : UserData}
      (hread : .putUser userData.email userData ∈ store.revisions) :
      Transaction store (.updateUserProfile unixNow userID plan)
        [.putUser (userData.withPlan plan).email (userData.withPlan plan)]
  | createKey {draw : Draw} {userID : Bytes} {name : String} {keyData : APIKeyData}
      (hcreated : keyData.Created packages.bcrypt draw userID)
      (howner : store.Registered userID)
      (hfresh : packages.bcrypt.Exact → ∀ keyPrefix other,
        .putAPIKey keyPrefix other ∈ store.revisions →
          ¬packages.bcrypt.Unlocks other (newFullKey draw.uuid)) :
      Transaction store (.createAPIKey draw userID name)
        [.putAPIKey keyData.keyPrefix keyData,
          .putIndex (indexKey userID keyData.keyPrefix) keyData.listed]
  | deleteKey {userID keyPrefix : Bytes} (howner : store.Registered userID) :
      Transaction store (.deleteAPIKey userID keyPrefix)
        [.deleteAPIKey keyPrefix, .deleteIndex (indexKey userID keyPrefix)]
  | deleteUser {userID email : Bytes} (hread : .putUserID userID email ∈ store.revisions) :
      Transaction store (.deleteUser userID) [.deleteUser email]
  | deleteUserID {userID : Bytes} (howner : store.Registered userID) :
      Transaction store (.deleteUser userID) [.deleteUserID userID]
  | deleteIndex {userID : Bytes} (howner : store.Registered userID) :
      Transaction store (.deleteUser userID) [.deleteIndexUnder (indexFront userID)]
  | deleteListed {userID keyPrefix : Bytes} :
      Transaction store (.deleteUser userID) [.deleteAPIKey keyPrefix]

/-- What every store tells of the accounts. -/
structure Accounts (store : Store) : Prop where
  stored {email userData} : store.users.get email = some userData →
    .putUser email userData ∈ store.revisions
  indexed {id email} : store.userIDs.get id = some email →
    .putUserID id email ∈ store.revisions
  registered {email userData} : .putUser email userData ∈ store.revisions →
    userData.email = email ∧ .putUserID userData.id email ∈ store.revisions
  email_unique {id email email'} : .putUserID id email ∈ store.revisions →
    .putUserID id email' ∈ store.revisions → email = email'
  hash_unique {email email' userData userData'} : .putUser email userData ∈ store.revisions →
    .putUser email' userData' ∈ store.revisions → userData.id = userData'.id →
      userData.hashedPassword = userData'.hashedPassword
  id_length {id email} : .putUserID id email ∈ store.revisions → id.length = 41
  admitted {id email} : .putUserID id email ∈ store.revisions → packages.Admits email

/-- What every store tells of the keys. -/
structure Keys (store : Store) : Prop where
  stored {keyPrefix keyData} : store.apiKeys.get keyPrefix = some keyData →
    .putAPIKey keyPrefix keyData ∈ store.revisions
  created {keyPrefix keyData} : .putAPIKey keyPrefix keyData ∈ store.revisions →
    keyData.keyPrefix = keyPrefix ∧ store.Registered keyData.userID ∧
      ∃ draw, keyData.Created packages.bcrypt draw keyData.userID
  unique {keyPrefix keyPrefix' keyData keyData' fullKey} : packages.bcrypt.Exact →
    .putAPIKey keyPrefix keyData ∈ store.revisions →
      .putAPIKey keyPrefix' keyData' ∈ store.revisions →
        packages.bcrypt.Unlocks keyData fullKey → packages.bcrypt.Unlocks keyData' fullKey →
          keyData = keyData'
  entries {key entry} : store.index.get key = some entry →
    key = indexKey entry.userID entry.keyPrefix
  listed {keyPrefix keyData} : store.apiKeys.get keyPrefix = some keyData →
    .deleteIndexUnder (indexFront keyData.userID) ∉ store.revisions →
      store.index.get (indexKey keyData.userID keyPrefix) = some keyData.listed

variable {packages} {store : Store} {request : Request} {writes : List Write}

theorem revisions_commit (store : Store) (writes : List Write) :
    (store.commit writes).revisions = store.revisions ++ writes := by
  induction writes generalizing store with
  | nil => simp [Store.commit]
  | cons write writes ih =>
      have hwrite : (store.write write).revisions = store.revisions ++ [write] := by
        cases write <;> rfl
      have hrest := ih (store.write write)
      rw [hwrite, List.append_assoc] at hrest
      exact hrest

theorem Store.Registered.mono {store after : Store} {id : Bytes} (hid : store.Registered id)
    (hgrows : store.revisions ⊆ after.revisions) : after.Registered id :=
  hid.imp fun _ hemail => hgrows hemail

theorem Accounts.length_eq (haccounts : Accounts packages store) {first second : Bytes}
    (hfirst : store.Registered first) (hsecond : store.Registered second) :
    first.length = second.length := by
  obtain ⟨email, hemail⟩ := hfirst
  obtain ⟨email', hemail'⟩ := hsecond
  rw [haccounts.id_length hemail, haccounts.id_length hemail']

theorem Accounts.commit (haccounts : Accounts packages store)
    (htransaction : Transaction packages store request writes) :
    Accounts packages (store.commit writes) := by
  obtain ⟨hstored, hindexed, hregistered, hemail, hhash, hlength, hadmitted⟩ := haccounts
  cases htransaction with
  | createUser hcreated hvalid hfresh =>
      obtain ⟨hid, haddress, hhashed⟩ := hcreated
      have hlength' := newUserID_length
      constructor <;>
        simp only [Store.commit, List.foldl_cons, List.foldl_nil, Store.write,
          OrderedStore.get_set, List.mem_append, List.mem_singleton]
      case stored | indexed | registered | id_length => grind
      -- the id of the new account occurs in no earlier write
      case email_unique | hash_unique => grind [Store.Registered]
      case admitted => grind [Packages.Admits]
  | updatePlan hread =>
      constructor <;>
        simp only [Store.commit, List.foldl_cons, List.foldl_nil, Store.write,
          OrderedStore.get_set, List.mem_append, List.mem_singleton]
      -- the new record has the id, the address and the hash of the one that was read
      case registered | hash_unique => grind [UserData.withPlan]
      all_goals grind
  | deleteUser _ | deleteUserID _ =>
      constructor <;> simp [Store.commit, Store.write] <;> grind [OrderedStore.get_delete]
  | createKey _ _ _ | deleteKey _ | deleteIndex _ | deleteListed =>
      constructor <;> simp [Store.commit, Store.write] <;> assumption

theorem Keys.commit (hkeys : Keys packages store) (haccounts : Accounts packages store)
    (htransaction : Transaction packages store request writes) :
    Keys packages (store.commit writes) := by
  have hkey {id id' keyPrefix keyPrefix' : Bytes} (hid : store.Registered id)
      (hid' : store.Registered id') : indexKey id keyPrefix = indexKey id' keyPrefix' ↔
        id = id' ∧ keyPrefix = keyPrefix' := indexKey_inj (haccounts.length_eq hid hid')
  have hfront {id id' keyPrefix : Bytes} (hid : store.Registered id)
      (hid' : store.Registered id') :
      (indexFront id).isPrefixOf (indexKey id' keyPrefix) = true ↔ id = id' :=
    indexFront_isPrefixOf (haccounts.length_eq hid hid')
  obtain ⟨hstored, hcreated, hunique, hentries, hlisted⟩ := hkeys
  cases htransaction with
  | createUser _ _ _ | updatePlan _ | deleteUser _ | deleteUserID _ =>
      constructor <;> simp [Store.commit, Store.write, Store.Registered] <;>
        grind [Store.Registered]
  | createKey hnew howner hfresh =>
      obtain ⟨rfl, _, hhashed⟩ := id hnew
      have hexactly (hexact : packages.bcrypt.Exact) {fullKey : Bytes} :=
        hexact _ _ _ fullKey hhashed
      constructor <;>
        simp only [Store.commit, List.foldl_cons, List.foldl_nil, Store.write,
          OrderedStore.get_set, List.mem_append, List.mem_singleton, Store.Registered]
      case stored => grind
      case created => grind [Store.Registered]
      -- what the new record accepts is the new key, which no other record does
      case unique => grind [Bcrypt.Unlocks]
      case entries => grind [APIKeyData.listed]
      case listed => grind [APIKeyData.listed]
  | deleteKey howner | deleteIndex howner | deleteListed =>
      constructor <;>
        simp [Store.commit, Store.write, Store.Registered, OrderedStore.get_delete,
          OrderedStore.get_deleteUnder]
      case created => grind [Store.Registered]
      all_goals grind

end Transactions

/-! ## Operations -/

/-- Operations that leave everything as it is. -/
def Op.Reads : Op → Prop
  | .commit _ => False
  | .cacheSet _ _ => False
  | .cacheInvalidate _ => False
  | _ => True

theorem perform_of_reads {op : Op} (hreads : op.Reads) (outcome : Outcome) (world : World) :
    (perform outcome op world).2 = world := by
  cases op <;> first | rfl | cases hreads

section Worlds

variable (packages : Packages)

/-- The operations a call may perform in a world. -/
inductive Grounded (world : World) : Request → Op → Prop where
  | reads {request : Request} {op : Op} (hreads : op.Reads) : Grounded world request op
  | commit {request : Request} {writes : List Write}
      (htransaction : Transaction packages world.store request writes) :
      Grounded world request (.commit writes)
  | invalidate {userID keyPrefix fullKey : Bytes} :
      Grounded world (.deleteAPIKey userID keyPrefix) (.cacheInvalidate fullKey)
  | cacheSet {fullKey : Bytes} {keyData : APIKeyData}
      (hread : .putAPIKey (keyPrefixOf fullKey) keyData ∈ world.store.revisions)
      (hunlocks : packages.bcrypt.Unlocks keyData fullKey) :
      Grounded world (.validateAPIKey fullKey) (.cacheSet fullKey keyData)

/-- What holds of every world: the store is in order, and a cached record was once stored
under the prefix of its key and accepts it. -/
structure World.Sound (world : World) : Prop where
  accounts : Accounts packages world.store
  keys : Keys packages world.store
  cached {fullKey entry} : world.cache.lookup fullKey = some entry →
    .putAPIKey (keyPrefixOf fullKey) entry.data ∈ world.store.revisions ∧
      packages.bcrypt.Unlocks entry.data fullKey

variable {packages} {world : World}

theorem World.Sound.of_cached {fullKey : Bytes} {keyData : APIKeyData}
    (hsound : world.Sound packages) (hcached : world.cached fullKey = some keyData) :
    .putAPIKey (keyPrefixOf fullKey) keyData ∈ world.store.revisions ∧
      packages.bcrypt.Unlocks keyData fullKey := by
  rw [World.cached] at hcached
  split at hcached
  · cases hcached
  next hentry =>
    split at hcached
    · cases hcached
    · rw [← Option.some.inj hcached]
      exact hsound.cached hentry

theorem World.Sound.start : World.start.Sound packages := by
  constructor
  case accounts => constructor <;> simp [World.start, Store.empty]
  case keys => constructor <;> simp [World.start, Store.empty]
  case cached => simp [World.start]

theorem perform_revisions (outcome : Outcome) (op : Op) (world : World) :
    world.store.revisions ⊆ (perform outcome op world).2.store.revisions := by
  cases op with
  | commit writes =>
      rw [perform]
      split
      · exact List.Subset.refl _
      · rw [revisions_commit]
        exact List.subset_append_left _ _
  | _ => exact List.Subset.refl _

/-- A pass of the cleanup leaves no entry that was not there. -/
theorem lookup_cleanup {fullKey : Bytes} {entry : CachedAPIKeyEntry}
    (hentry : (cleanup world).lookup fullKey = some entry) :
    world.cache.lookup fullKey = some entry := by
  have herase (expired : List (Σ _ : Bytes, CachedAPIKeyEntry))
      (cache : GoMap Bytes CachedAPIKeyEntry)
      (hleft : (expired.foldl (fun cache entry => cache.erase entry.1) cache).lookup fullKey =
        some entry) : cache.lookup fullKey = some entry := by
    induction expired generalizing cache with
    | nil => exact hleft
    | cons first rest ih =>
        have hfirst := ih _ hleft
        rw [GoMap.lookup_erase_if] at hfirst
        split at hfirst
        · cases hfirst
        · exact hfirst
  exact herase _ _ hentry

theorem World.Sound.elapse (hsound : world.Sound packages) (event : Event) :
    (elapse event world).Sound packages := by
  obtain ⟨haccounts, hkeys, hcached⟩ := hsound
  cases event with
  | tick duration => exact ⟨haccounts, hkeys, hcached⟩
  | cleanup => exact ⟨haccounts, hkeys, fun hentry => hcached (lookup_cleanup hentry)⟩

theorem World.Sound.perform {request : Request} {op : Op} (hsound : world.Sound packages)
    (hgrounded : Grounded packages world request op) (outcome : Outcome) :
    (perform outcome op world).2.Sound packages := by
  have hgrows := perform_revisions outcome op world
  cases hgrounded with
  | reads hreads => rwa [perform_of_reads hreads]
  | commit htransaction =>
      rw [Auth.perform] at hgrows ⊢
      split
      · exact hsound
      next heffect =>
        rw [if_neg heffect] at hgrows
        exact ⟨hsound.accounts.commit htransaction,
          hsound.keys.commit hsound.accounts htransaction,
          fun hentry => (hsound.cached hentry).imp_left fun hread => hgrows hread⟩
  | invalidate =>
      refine ⟨hsound.accounts, hsound.keys, fun hentry => hsound.cached ?_⟩
      rw [Auth.perform, GoMap.lookup_erase_if] at hentry
      split at hentry
      · cases hentry
      · exact hentry
  | cacheSet hread hunlocks =>
      refine ⟨hsound.accounts, hsound.keys, fun hentry => ?_⟩
      rw [Auth.perform, GoMap.lookup_insert_if] at hentry
      split at hentry
      next hkey =>
        obtain rfl := Option.some.inj hentry
        rw [hkey]
        exact ⟨hread, hunlocks⟩
      next => exact hsound.cached hentry

end Worlds

end Vectron.Auth
