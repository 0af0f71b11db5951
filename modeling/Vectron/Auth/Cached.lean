import Vectron.Auth.Issued

/-! # The cache of validated keys

An entry of the cache says what was stored under the prefix of its key when a validation read
it. It keeps saying the truth where records change only while no live entry and no validation
about to fill the cache has their prefix.
-/

namespace Vectron.Auth

open Foundation

section Cache

/-- The key prefix under which a write changes the record. -/
def Write.changes? : Write → Option Bytes
  | .putAPIKey keyPrefix _ => some keyPrefix
  | .deleteAPIKey keyPrefix => some keyPrefix
  | _ => none

/-- The key that a call is about to put into the cache. -/
def fills? (thread : Thread Request Op Answer Reply) : Option Bytes :=
  match thread.pending? with
  | some (.cacheSet fullKey _) => some fullKey
  | _ => none

/-- No live entry of the cache has the prefix, and no call is about to make one. -/
def Clear (pool : AuthPool) (keyPrefix : Bytes) : Prop :=
  (∀ entry ∈ pool.world.cache.entries, keyPrefixOf entry.1 = keyPrefix →
      entry.2.expired pool.world.clock = true) ∧
    ∀ thread ∈ pool.threads, ∀ fullKey ∈ fills? thread, keyPrefixOf fullKey ≠ keyPrefix

instance (pool : AuthPool) (keyPrefix : Bytes) : Decidable (Clear pool keyPrefix) :=
  inferInstanceAs (Decidable (_ ∧ _))

/-- Records under key prefixes change while the cache is clear of the prefix. -/
def ChangesClear (pool : AuthPool) (_ : Request) (writes : List Write) : Prop :=
  ∀ write ∈ writes, ∀ keyPrefix ∈ write.changes?, Clear pool keyPrefix

instance (pool : AuthPool) (request : Request) (writes : List Write) :
    Decidable (ChangesClear pool request writes) :=
  inferInstanceAs (Decidable (∀ write ∈ writes, ∀ keyPrefix ∈ write.changes?, _))

/-- What the cache answers is what the store holds. -/
def World.Current (world : World) : Prop :=
  ∀ fullKey keyData, world.cached fullKey = some keyData →
    world.store.apiKeys.get (keyPrefixOf fullKey) = some keyData

/-- The contract of a validation: the record that it is about to cache stays in the store
meanwhile. -/
def filling : Contract World Op Outcome where
  rely op world after :=
    match op with
    | .cacheSet fullKey _ => after.store.apiKeys.get (keyPrefixOf fullKey) =
        world.store.apiKeys.get (keyPrefixOf fullKey)
    | _ => True
  rely_refl op _ := by cases op <;> trivial
  rely_trans op _ _ _ hfirst hsecond := by
    cases op <;> first | trivial | exact hsecond.trans hfirst
  allowed _ _ _ := True
  guarantee op world _ :=
    match op with
    | .cacheSet fullKey keyData => world.store.apiKeys.get (keyPrefixOf fullKey) = some keyData
    | _ => True

def caching : Request → Contract World Op Outcome
  | .validateAPIKey _ => filling
  | _ => Contract.free

variable {packages : Packages} {pool : AuthPool} {world : World} {steps : List AuthStep}

theorem validateAPIKeyRPC_fills {fullKey : Bytes} :
    filling.Safe perform (fun _ _ => True) (validateAPIKeyRPC packages fullKey) world :=
  safe_validateAPIKeyRPC (fun {op} _ _ hop => by cases op <;> trivial)
    fun _ hget _ _ hfound' => hfound'.trans hget

theorem handle_caching (request : Request) :
    (caching request).Safe perform (fun _ _ => True) (handle packages request) world := by
  cases request with
  | validateAPIKey fullKey =>
      apply Contract.Safe.bind
      exact validateAPIKeyRPC_fills.imp fun _ _ _ => trivial
  | _ => exact Contract.free_safe (fun _ _ => trivial) _ _

/-- A transaction leaves the prefixes alone that none of its writes changes. -/
theorem apiKeys_commit {store : Store} {keyPrefix : Bytes} {writes : List Write}
    (hother : ∀ write ∈ writes, write.changes? ≠ some keyPrefix) :
    (store.commit writes).apiKeys.get keyPrefix = store.apiKeys.get keyPrefix := by
  induction writes generalizing store with
  | nil => rfl
  | cons write writes ih =>
      have hrest : ((store.write write).commit writes).apiKeys.get keyPrefix =
          (store.write write).apiKeys.get keyPrefix :=
        ih fun other hmem => hother other (List.mem_cons_of_mem _ hmem)
      refine hrest.trans ?_
      have hwrite := hother write List.mem_cons_self
      cases write with
      | putAPIKey written keyData =>
          have hne : keyPrefix ≠ written := fun heq => hwrite (heq ▸ rfl)
          simp [Store.write, OrderedStore.get_set, hne]
      | deleteAPIKey written =>
          have hne : keyPrefix ≠ written := fun heq => hwrite (heq ▸ rfl)
          simp [Store.write, OrderedStore.get_delete, hne]
      | _ => rfl

theorem World.cached_eq_some {fullKey : Bytes} {keyData : APIKeyData} :
    world.cached fullKey = some keyData ↔ ∃ entry, world.cache.lookup fullKey = some entry ∧
      entry.expired world.clock = false ∧ entry.data = keyData := by
  rw [World.cached]
  cases world.cache.lookup fullKey with
  | none => simp
  | some entry => simp

/-- A live entry stands in the way of a change under its prefix. -/
theorem Clear.ne {keyPrefix fullKey : Bytes} {keyData : APIKeyData} (hclear : Clear pool keyPrefix)
    (hcached : pool.world.cached fullKey = some keyData) : keyPrefixOf fullKey ≠ keyPrefix := by
  obtain ⟨entry, hlookup, hlive, _⟩ := World.cached_eq_some.mp hcached
  intro heq
  have hexpired := hclear.1 ⟨fullKey, entry⟩ (List.of_mem_dlookup hlookup) heq
  exact absurd (hlive.symm.trans hexpired) (by decide)

theorem World.Current.elapse (hcurrent : world.Current) (event : Event) :
    (elapse event world).Current := by
  intro fullKey keyData hcached
  obtain ⟨entry, hlookup, hlive, hdata⟩ := World.cached_eq_some.mp hcached
  rw [store_elapse]
  apply hcurrent
  cases event with
  | tick duration =>
      refine World.cached_eq_some.mpr ⟨entry, hlookup, ?_, hdata⟩
      rw [CachedAPIKeyEntry.expired, decide_eq_false_iff_not] at hlive ⊢
      simp only [Auth.elapse] at hlive
      omega
  | cleanup => exact World.cached_eq_some.mpr ⟨entry, lookup_cleanup hlookup, hlive, hdata⟩

/-- A change of the store that a live entry or a call about to fill the cache would notice
does not take effect. -/
theorem apiKeys_perform {i : Nat} {request : Request} {op : Op} {outcome : Outcome}
    {next : Answer op → AuthProgram Reply} {keyPrefix : Bytes}
    (hi : pool.threads[i]? = some ⟨request, .call op next⟩)
    (hclear : Effects ChangesClear pool (.advance i outcome))
    (hnot : ¬Clear pool keyPrefix) :
    (perform outcome op pool.world).2.store.apiKeys.get keyPrefix =
      pool.world.store.apiKeys.get keyPrefix := by
  rcases store_perform hi outcome with hsame | ⟨writes, rfl, heffect, hstore⟩
  · rw [hsame]
  · rw [hstore]
    apply apiKeys_commit
    intro write hwrite hchanges
    exact hnot (hclear _ heffect write hwrite keyPrefix hchanges)

/-- The cache is true, and every validation is within its contract. -/
structure Caches (packages : Packages) (pool : AuthPool) : Prop where
  current : pool.world.Current
  safe i : pool.SafeAt (authService packages) caching (fun _ _ _ => True) i

/-- A call that is about to fill the cache does so with the record in the store. -/
theorem Caches.fills (hcaches : Caches packages pool) (hserved : Served packages pool) {i : Nat}
    {request : Request} {fullKey : Bytes} {keyData : APIKeyData}
    {next : Unit → AuthProgram Reply}
    (hi : pool.threads[i]? = some ⟨request, .call (.cacheSet fullKey keyData) next⟩) :
    pool.world.store.apiKeys.get (keyPrefixOf fullKey) = some keyData := by
  cases hserved.grounded hi with
  | reads hreads => cases hreads
  | cacheSet _ _ => exact (hcaches.safe i).guarantee hi .ok trivial

theorem World.Current.perform {i : Nat} {request : Request} {op : Op} {outcome : Outcome}
    {next : Answer op → AuthProgram Reply} (hcaches : Caches packages pool)
    (hserved : Served packages pool) (hi : pool.threads[i]? = some ⟨request, .call op next⟩)
    (hclear : Effects ChangesClear pool (.advance i outcome)) :
    (Auth.perform outcome op pool.world).2.Current := by
  -- a live entry keeps its record where it is
  have hstays {fullKey : Bytes} {keyData : APIKeyData}
      (hcached : pool.world.cached fullKey = some keyData) :
      (Auth.perform outcome op pool.world).2.store.apiKeys.get (keyPrefixOf fullKey) =
        some keyData := by
    rw [apiKeys_perform hi hclear fun hclear => hclear.ne hcached rfl]
    exact hcaches.current fullKey keyData hcached
  intro fullKey keyData hcached
  cases op with
  | cacheSet filled stored =>
      have hstored := hcaches.fills hserved hi
      obtain ⟨entry, hlookup, hlive, hdata⟩ := World.cached_eq_some.mp hcached
      simp only [Auth.perform, GoMap.lookup_insert_if] at hlookup hlive
      split at hlookup
      next hkey =>
        obtain rfl := Option.some.inj hlookup
        rw [hkey, ← hdata]
        exact hstored
      next => exact hstays (World.cached_eq_some.mpr ⟨entry, hlookup, hlive, hdata⟩)
  | cacheInvalidate dropped =>
      obtain ⟨entry, hlookup, hlive, hdata⟩ := World.cached_eq_some.mp hcached
      simp only [Auth.perform, GoMap.lookup_erase_if] at hlookup hlive
      split at hlookup
      next => cases hlookup
      next => exact hstays (World.cached_eq_some.mpr ⟨entry, hlookup, hlive, hdata⟩)
  | commit writes =>
      apply hstays
      rw [← hcached, Auth.perform]
      split <;> rfl
  | _ => exact hstays hcached

theorem Caches.step {step : AuthStep} (hcaches : Caches packages pool)
    (hserved : Served packages pool) (hclear : Effects ChangesClear pool step) :
    Caches packages (pool.step (authService packages) step) := by
  have hbears {i : Nat} {after : World} (hafter : ∀ thread, pool.threads[i]? = some thread →
      ∀ fullKey ∈ fills? thread, after.store.apiKeys.get (keyPrefixOf fullKey) =
        pool.world.store.apiKeys.get (keyPrefixOf fullKey)) :
      pool.BearsAt caching (fun _ _ _ => True) i after := by
    rintro ⟨request, program⟩ hthread
    cases program with
    | done reply => exact fun _ => trivial
    | call op next =>
        cases request <;> try trivial
        case validateAPIKey fullKey =>
          cases op <;> try trivial
          case cacheSet filled keyData => exact hafter _ hthread filled rfl
  cases step with
  | begin request =>
      refine ⟨hcaches.current, fun i => (hcaches.safe i).step fun _ => handle_caching request⟩
  | elapse event =>
      refine ⟨hcaches.current.elapse event, fun i => (hcaches.safe i).step (hbears ?_)⟩
      intro thread _ fullKey _
      exact congrArg (fun store : Store => store.apiKeys.get _) (store_elapse event pool.world)
  | advance i outcome =>
      refine ⟨?_, fun j => (hcaches.safe j).step ?_⟩
      · rcases Pool.advance_cases (authService packages) pool i outcome with hsame |
          ⟨request, op, next, hi, hnext⟩
        · rw [Pool.step, hsame]
          exact hcaches.current
        · rw [Pool.step, hnext]
          exact World.Current.perform hcaches hserved hi hclear
      · intro request op next hi
        split
        · cases request <;> trivial
        · apply hbears
          intro thread hthread fullKey hfills
          apply apiKeys_perform hi hclear
          intro hclear
          exact hclear.2 thread (List.mem_of_getElem? hthread) fullKey hfills rfl

theorem serve_caches (hfresh : Meets packages Fresh steps)
    (hclear : Meets packages (Effects ChangesClear) steps) :
    Caches packages (serve packages steps) := by
  apply run_rule _ _ _ hfresh hclear
  · refine ⟨?_, ?_⟩
    · intro fullKey keyData hcached
      cases hcached
    · intro i thread hthread
      cases hthread
  · intro pool step hserved _ hclear hcaches
    exact hcaches.step hserved hclear

end Cache

end Vectron.Auth
