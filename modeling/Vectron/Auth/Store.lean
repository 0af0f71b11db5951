import Vectron.Foundation.GoMap
import Vectron.Foundation.OrderedStore
import Vectron.Foundation.ByteOrder
import Vectron.Foundation.Program

/-! # What the auth service keeps

The records of `auth/service/internal/etcd/client.go`, the four key spaces they lie in, and
the cache of validated API keys in the memory of the process. Reads and transactions of
etcd are single operations; a call may fail before it takes effect, and its answer may get
lost after it has. A record is stored as its JSON text, which reads back as the record.
-/

namespace Vectron.Auth

open Foundation

/-- The bytes of a string. -/
def utf8 (s : String) : Bytes := s.toUTF8.data.toList

theorem utf8_injective {first second : String} (heq : utf8 first = utf8 second) :
    first = second := by
  rw [← String.toByteArray_inj]
  exact ByteArray.ext (Array.toList_inj.mp heq)

/-- `authpb.Plan`, an open enumeration. -/
abbrev Plan := Int32

def Plan.free : Plan := 1
def Plan.paid : Plan := 2

/-- `authpb.Plan_name`, empty for other numbers. -/
def planName (plan : Plan) : String :=
  if plan = 0 then "PLAN_UNSPECIFIED"
  else if plan = Plan.free then "FREE"
  else if plan = Plan.paid then "PAID"
  else ""

/-- `authpb.SubscriptionStatus`. -/
abbrev SubscriptionStatus := Int32

def SubscriptionStatus.active : SubscriptionStatus := 1

structure UserData where
  id : Bytes
  email : Bytes
  hashedPassword : Bytes
  createdAt : Int64
  plan : Plan
  subscriptionStatus : SubscriptionStatus
deriving DecidableEq

structure APIKeyData where
  hashedKey : Bytes
  userID : Bytes
  name : Bytes
  plan : Plan
  createdAt : Int64
  keyPrefix : Bytes
deriving DecidableEq

structure ApiKeyListEntry where
  keyPrefix : Bytes
  userID : Bytes
  createdAt : Int64
  name : Bytes
deriving DecidableEq

/-! ## The store -/

/-- One operation of a transaction. -/
inductive Write where
  | putUser (email : Bytes) (data : UserData)
  | putUserID (id email : Bytes)
  | putAPIKey (keyPrefix : Bytes) (data : APIKeyData)
  | putIndex (key : Bytes) (entry : ApiKeyListEntry)
  | deleteUser (email : Bytes)
  | deleteUserID (id : Bytes)
  | deleteAPIKey (keyPrefix : Bytes)
  | deleteIndex (key : Bytes)
  | deleteIndexUnder (front : Bytes)
deriving DecidableEq

/-- The four key spaces. `revisions` are all writes that ever took effect. -/
structure Store where
  users : OrderedStore Bytes UserData
  userIDs : OrderedStore Bytes Bytes
  apiKeys : OrderedStore Bytes APIKeyData
  index : OrderedStore Bytes ApiKeyListEntry
  revisions : List Write

namespace Store

def empty : Store := ⟨.empty, .empty, .empty, .empty, []⟩

def write (store : Store) (write : Write) : Store :=
  let store := { store with revisions := store.revisions ++ [write] }
  match write with
  | .putUser email data => { store with users := store.users.set email data }
  | .putUserID id email => { store with userIDs := store.userIDs.set id email }
  | .putAPIKey keyPrefix data => { store with apiKeys := store.apiKeys.set keyPrefix data }
  | .putIndex key entry => { store with index := store.index.set key entry }
  | .deleteUser email => { store with users := store.users.delete email }
  | .deleteUserID id => { store with userIDs := store.userIDs.delete id }
  | .deleteAPIKey keyPrefix => { store with apiKeys := store.apiKeys.delete keyPrefix }
  | .deleteIndex key => { store with index := store.index.delete key }
  | .deleteIndexUnder front => { store with index := store.index.deleteUnder front.isPrefixOf }

/-- The operations of a transaction, all at once. -/
def commit (store : Store) (writes : List Write) : Store :=
  writes.foldl write store

end Store

/-- `CachedAPIKeyEntry`. -/
structure CachedAPIKeyEntry where
  data : APIKeyData
  timestamp : Nat
deriving DecidableEq

/-- The store, the cache of the process and its clock, in nanoseconds. -/
structure World where
  store : Store
  cache : GoMap Bytes CachedAPIKeyEntry
  clock : Nat

def World.start : World := ⟨.empty, ∅, 0⟩

/-! ## Operations -/

/-- What goes wrong in the store's functions. -/
inductive StoreError where
  | etcd
  | bcrypt
  | text (message : String)
deriving DecidableEq, Repr

/-- What a function of the store may do at one instant: a read or a transaction of etcd,
or an access to the cache. -/
inductive Op where
  | getUser (email : Bytes)
  | getUserID (id : Bytes)
  | getAPIKey (keyPrefix : Bytes)
  | getUsers
  | getAPIKeys
  | getIndex (front : Bytes)
  | commit (writes : List Write)
  | cacheGet (fullKey : Bytes)
  | cacheSet (fullKey : Bytes) (data : APIKeyData)
  | cacheInvalidate (fullKey : Bytes)
deriving DecidableEq

abbrev Answer : Op → Type
  | .getUser _ => Except StoreError (Option UserData)
  | .getUserID _ => Except StoreError (Option Bytes)
  | .getAPIKey _ => Except StoreError (Option APIKeyData)
  | .getUsers => Except StoreError (List UserData)
  | .getAPIKeys => Except StoreError (List APIKeyData)
  | .getIndex _ => Except StoreError (List ApiKeyListEntry)
  | .commit _ => Except StoreError Unit
  | .cacheGet _ => Option APIKeyData
  | .cacheSet _ _ => Unit
  | .cacheInvalidate _ => Unit

/-- How a call to etcd goes: it succeeds, it fails without effect, or its answer is lost. -/
inductive Outcome where
  | ok
  | failed
  | lost
deriving DecidableEq, Repr

def Outcome.answer {α : Type} (outcome : Outcome) (value : α) : Except StoreError α :=
  match outcome with
  | .ok => .ok value
  | _ => .error .etcd

/-- `NewAPIKeyCache(5 * time.Minute)`. -/
def apiKeyCacheTTL : Nat := 5 * 60 * 1000000000

def CachedAPIKeyEntry.expired (entry : CachedAPIKeyEntry) (now : Nat) : Bool :=
  decide (now - entry.timestamp > apiKeyCacheTTL)

/-- `APIKeyCache.Get`. -/
def World.cached (world : World) (fullKey : Bytes) : Option APIKeyData :=
  match world.cache.lookup fullKey with
  | none => none
  | some entry => if entry.expired world.clock then none else some entry.data

def perform (outcome : Outcome) : (op : Op) → World → Answer op × World
  | .getUser email, world => (outcome.answer (world.store.users.get email), world)
  | .getUserID id, world => (outcome.answer (world.store.userIDs.get id), world)
  | .getAPIKey keyPrefix, world => (outcome.answer (world.store.apiKeys.get keyPrefix), world)
  | .getUsers, world => (outcome.answer (world.store.users.entries.map Prod.snd), world)
  | .getAPIKeys, world => (outcome.answer (world.store.apiKeys.entries.map Prod.snd), world)
  | .getIndex front, world =>
      (outcome.answer ((world.store.index.under front.isPrefixOf).map Prod.snd), world)
  | .commit writes, world =>
      (outcome.answer (),
        if outcome = .failed then world
        else { world with store := world.store.commit writes })
  | .cacheGet fullKey, world => (world.cached fullKey, world)
  | .cacheSet fullKey data, world =>
      ((), { world with cache := world.cache.insert fullKey ⟨data, world.clock⟩ })
  | .cacheInvalidate fullKey, world => ((), { world with cache := world.cache.erase fullKey })

/-- What happens in the process between the calls. -/
inductive Event where
  | tick (duration : Nat)
  | cleanup
deriving DecidableEq

/-- The entries that a pass of `cleanupLoop` leaves in the cache. -/
def cleanup (world : World) : GoMap Bytes CachedAPIKeyEntry :=
  (world.cache.entries.filter fun entry => entry.2.expired world.clock).foldl
    (fun cache entry => cache.erase entry.1) world.cache

def elapse : Event → World → World
  | .tick duration, world => { world with clock := world.clock + duration }
  | .cleanup, world => { world with cache := cleanup world }

end Vectron.Auth
