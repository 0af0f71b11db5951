import Vectron.Auth.Grounding

/-! # Runs of the service

What holds in every pool that a run reaches, and the rules by which the results about runs
are proved. All runs begin with an empty store; the uuids that calls draw are new.
-/

namespace Vectron.Auth

open Foundation

/-- What a call makes of the uuid it draws. -/
def Request.issued? : Request → Option Bytes
  | .registerUser draw _ _ => some (newUserID draw.uuid)
  | .createAPIKey draw _ _ => some (newFullKey draw.uuid)
  | _ => none

/-- What all calls made of their uuids. -/
def issued (pool : AuthPool) : List Bytes :=
  pool.requests.filterMap Request.issued?

/-- A registration draws a uuid that no earlier registration has drawn, and the creation of
a key one that no earlier creation has. -/
def Fresh (pool : AuthPool) : AuthStep → Prop
  | .begin request => ∀ id ∈ request.issued?, id ∉ issued pool
  | _ => True

instance Fresh.decidable (pool : AuthPool) : ∀ step, Decidable (Fresh pool step)
  | .begin request => inferInstanceAs (Decidable (∀ id ∈ request.issued?, id ∉ issued pool))
  | .advance _ _ => isTrue trivial
  | .elapse _ => isTrue trivial

section Runs

variable (packages : Packages)

/-- Every step of the run from the beginning meets the condition. -/
abbrev Meets (condition : AuthPool → AuthStep → Prop) (steps : List AuthStep) : Prop :=
  Run.Meets (Pool.step (authService packages)) condition idle steps

/-- What holds throughout a run. -/
structure Served (pool : AuthPool) : Prop where
  sound : pool.world.Sound packages
  distinct : (issued pool).Nodup
  owned {write request} : write ∈ pool.world.store.revisions → Owns packages request write →
    ∃ id ∈ request.issued?, id ∈ issued pool
  safe i : pool.SafeAt (authService packages) (grounding packages) (Answered packages) i

variable {packages} {pool : AuthPool} {request other : Request}

theorem Owns.cases {write : Write} (howns : Owns packages request write) :
    (∃ draw email password address, request = .registerUser draw email password ∧
      write = .putUserID (newUserID draw.uuid) address) ∨
    ∃ draw userID name keyPrefix keyData, request = .createAPIKey draw userID name ∧
      write = .putAPIKey keyPrefix keyData ∧ packages.bcrypt.Exact ∧
      packages.bcrypt.Unlocks keyData (newFullKey draw.uuid) := by
  cases request <;> cases write <;> first
    | exact Or.inl ⟨_, _, _, _, rfl, congrArg (Write.putUserID · _) howns⟩
    | exact Or.inr ⟨_, _, _, _, _, rfl, rfl, howns⟩
    | cases howns

/-- Calls that own a write of one transaction have drawn what the committing call has. -/
theorem Transaction.issued {store : Store} {writes : List Write} {write : Write}
    (htransaction : Transaction packages store request writes) (hwrite : write ∈ writes)
    (howns : Owns packages other write) : other.issued? = request.issued? := by
  rcases howns.cases with ⟨draw, email, password, address, rfl, rfl⟩ |
    ⟨draw, userID, name, keyPrefix, keyData, rfl, rfl, hexact, hunlocks⟩
  · cases htransaction <;> simp at hwrite
    case createUser hcreated _ _ =>
      rw [Request.issued?, Request.issued?, hwrite.1, hcreated.id]
  · cases htransaction <;> simp at hwrite
    case createKey hcreated _ _ =>
      obtain ⟨rfl, rfl⟩ := hwrite
      rw [Request.issued?, Request.issued?, hexact _ _ _ _ hcreated.hashed hunlocks]

theorem Grounded.issued {world : World} {op : Op} {outcome : Outcome} {write : Write}
    (hgrounded : Grounded packages world request op)
    (hwrite : write ∈ (perform outcome op world).2.store.revisions)
    (hnew : write ∉ world.store.revisions) (howns : Owns packages other write) :
    other.issued? = request.issued? := by
  cases hgrounded with
  | reads hreads =>
      rw [perform_of_reads hreads] at hwrite
      exact absurd hwrite hnew
  | commit htransaction =>
      rw [perform] at hwrite
      split at hwrite
      · exact absurd hwrite hnew
      · rw [revisions_commit] at hwrite
        rcases List.mem_append.mp hwrite with hold | hwrite
        · exact absurd hold hnew
        · exact htransaction.issued hwrite howns
  | invalidate | cacheSet _ _ => exact absurd hwrite hnew

theorem Served.grounded (hserved : Served packages pool) {i : Nat} {op : Op}
    {next : Answer op → AuthProgram Reply}
    (hthread : pool.threads[i]? = some ⟨request, .call op next⟩) :
    Grounded packages pool.world request op :=
  (hserved.safe i).guarantee hthread .ok hserved.sound

theorem Owns.issued {write : Write} (howns : Owns packages request write) :
    ∃ id, request.issued? = some id := by
  rcases howns.cases with ⟨_, _, _, _, rfl, _⟩ | ⟨_, _, _, _, _, rfl, _⟩ <;> exact ⟨_, rfl⟩

/-- Two calls that drew the same are the same. -/
theorem Served.eq_of_issued (hserved : Served packages pool) {i j : Nat}
    (hi : pool.requests[i]? = some request) (hj : pool.requests[j]? = some other) {id : Bytes}
    (hrequest : request.issued? = some id) (hother : other.issued? = some id) : i = j := by
  have hpairwise := List.pairwise_filterMap.mp hserved.distinct
  have happart {i j : Nat} {request other : Request} (hi : pool.requests[i]? = some request)
      (hj : pool.requests[j]? = some other) (hrequest : request.issued? = some id)
      (hother : other.issued? = some id) : ¬i < j := by
    intro hlt
    obtain ⟨hi', rfl⟩ := List.getElem?_eq_some_iff.mp hi
    obtain ⟨hj', rfl⟩ := List.getElem?_eq_some_iff.mp hj
    exact List.pairwise_iff_getElem.mp hpairwise i j hi' hj' hlt id hrequest id hother rfl
  have hle := happart hi hj hrequest hother
  have hge := happart hj hi hother hrequest
  omega

theorem Served.idle : Served packages idle where
  sound := .start
  distinct := List.nodup_nil
  owned hwrite := by cases hwrite
  safe i := by
    intro thread hthread
    cases hthread

/-- A call that begins has written nothing. -/
theorem Served.unwritten (hserved : Served packages pool) (hfresh : Fresh pool (.begin request)) :
    Unwritten packages request pool.world := by
  intro write hwrite howns
  obtain ⟨id, hid, hissued⟩ := hserved.owned hwrite howns
  exact hfresh id hid hissued

/-- What one call writes, the others bear. -/
theorem Served.follows (hserved : Served packages pool) {i j : Nat} {op : Op}
    {next : Answer op → AuthProgram Reply}
    (hi : pool.threads[i]? = some ⟨request, .call op next⟩) (hne : i ≠ j)
    (hj : pool.requests[j]? = some other) (outcome : Outcome) :
    Follows packages other pool.world (perform outcome op pool.world).2 := by
  refine ⟨perform_revisions _ _ _, ?_⟩
  intro write hwrite howns
  by_contra hnew
  have hissued := (hserved.grounded hi).issued hwrite hnew howns
  obtain ⟨id, hid⟩ := howns.issued
  exact hne (hserved.eq_of_issued (Pool.request_of_thread hi) hj (hissued.symm.trans hid) hid)

theorem Answered.mono {world after : World} (hgrows : world.store.revisions ⊆ after.store.revisions)
    {reply : Reply} (hanswered : Answered packages request reply world) :
    Answered packages request reply after := by
  unfold Answered at hanswered ⊢
  split at hanswered
  · obtain ⟨userData, hcreated, hvalid, hput, hputID, hprofile⟩ := hanswered
    exact ⟨userData, hcreated, hvalid, hgrows hput, hgrows hputID, hprofile⟩
  · obtain ⟨keyData, hcreated, hput, hresponse⟩ := hanswered
    exact ⟨keyData, hcreated, hgrows hput, hresponse⟩
  · trivial

theorem Follows.bears {world after : World} {program : AuthProgram Reply}
    (hfollows : Follows packages request world after) :
    (grounding packages request).Bears (Answered packages request) program world after := by
  cases program with
  | done reply => exact Answered.mono hfollows.grows
  | call op next => exact hfollows

theorem store_elapse (event : Event) (world : World) :
    (elapse event world).store = world.store := by
  cases event <;> rfl

theorem Served.step (hserved : Served packages pool) {step : AuthStep}
    (hfresh : Fresh pool step) : Served packages (pool.step (authService packages) step) := by
  cases step with
  | begin request =>
      have hissued : issued (pool.step (authService packages) (.begin request)) =
          issued pool ++ request.issued?.toList := by
        rw [issued, Pool.requests_begin, List.filterMap_append, issued]
        cases hrequest : request.issued? <;> simp [hrequest]
      refine ⟨hserved.sound, ?_, ?_, ?_⟩
      · rw [hissued]
        refine List.nodup_append'.mpr ⟨hserved.distinct, ?_, ?_⟩
        · cases request.issued? <;> simp
        · intro id hold hnew
          exact hfresh id (by simpa using hnew) hold
      · intro write request' hwrite howns
        obtain ⟨id, hid, hold⟩ := hserved.owned hwrite howns
        rw [hissued]
        exact ⟨id, hid, List.mem_append_left _ hold⟩
      · intro i
        apply (hserved.safe i).step
        intro _
        exact handle_safe (hserved.unwritten hfresh)
  | elapse event =>
      have hstore := store_elapse event pool.world
      refine ⟨hserved.sound.elapse event, hserved.distinct, ?_, ?_⟩
      · intro write request hwrite howns
        exact hserved.owned (hstore ▸ hwrite) howns
      · intro i
        apply (hserved.safe i).step
        intro thread hthread
        apply Follows.bears
        change Follows packages thread.request pool.world (elapse event pool.world)
        refine ⟨?_, ?_⟩
        · rw [hstore]
          exact List.Subset.refl _
        · rw [hstore]
          exact fun _ hwrite _ => hwrite
  | advance i choice =>
      have hissued : issued (pool.step (authService packages) (.advance i choice)) =
          issued pool := by
        rw [issued, Pool.requests_advance, issued]
      refine ⟨?_, hissued ▸ hserved.distinct, ?_, ?_⟩
      · rcases Pool.advance_cases (authService packages) pool i choice with hsame |
          ⟨request, op, next, hi, hnext⟩
        · rw [Pool.step, hsame]
          exact hserved.sound
        · rw [Pool.step, hnext]
          exact hserved.sound.perform (hserved.grounded hi) choice
      · intro write request hwrite howns
        rw [hissued]
        rcases Pool.advance_cases (authService packages) pool i choice with hsame |
          ⟨request', op, next, hi, hnext⟩
        · rw [Pool.step, hsame] at hwrite
          exact hserved.owned hwrite howns
        · rw [Pool.step, hnext] at hwrite
          by_cases hold : write ∈ pool.world.store.revisions
          · exact hserved.owned hold howns
          · obtain ⟨id, hid⟩ := howns.issued
            have hsame := (hserved.grounded hi).issued hwrite hold howns
            refine ⟨id, hid, List.mem_filterMap.mpr ⟨request', ?_, hsame ▸ hid⟩⟩
            exact List.mem_of_getElem? (Pool.request_of_thread hi)
      · intro j
        apply (hserved.safe j).step
        intro request op next hi
        split
        · exact hserved.sound
        next hne =>
          intro thread hthread
          exact (hserved.follows hi hne (Pool.request_of_thread hthread) choice).bears

/-- What holds throughout every run in which uuids are drawn once. -/
theorem Served.serve {steps : List AuthStep} (hfresh : Meets packages Fresh steps) :
    Served packages (serve packages steps) :=
  Run.run_invariant (fun _ _ hfresh hserved => hserved.step hfresh) hfresh .idle

/-- A call that has ended has answered as its contract says. -/
theorem Served.answered (hserved : Served packages pool) {i : Nat} {reply : Reply}
    (hended : pool.Ended i request reply) : Answered packages request reply pool.world :=
  (hserved.safe i).result hended

end Runs

/-! ## Conditions on runs -/

section Conditions

/-- Only calls of this kind begin. -/
def Begins (allowed : Request → Prop) : AuthPool → AuthStep → Prop
  | _, .begin request => allowed request
  | _, _ => True

instance Begins.decidable (allowed : Request → Prop) [DecidablePred allowed] (pool : AuthPool) :
    ∀ step, Decidable (Begins allowed pool step)
  | .begin request => inferInstanceAs (Decidable (allowed request))
  | .advance _ _ => isTrue trivial
  | .elapse _ => isTrue trivial

/-- The transaction that takes effect in a step, and the call that commits it. -/
def effect? (pool : AuthPool) : AuthStep → Option (Request × List Write)
  | .advance i outcome =>
      match pool.threads[i]? with
      | some ⟨request, .call (.commit writes) _⟩ =>
          if outcome = .failed then none else some (request, writes)
      | _ => none
  | _ => none

/-- What takes effect meets the condition when it does. -/
def Effects (condition : AuthPool → Request → List Write → Prop) (pool : AuthPool)
    (step : AuthStep) : Prop :=
  ∀ effect ∈ effect? pool step, condition pool effect.1 effect.2

instance Effects.decidable (condition : AuthPool → Request → List Write → Prop)
    [∀ pool request writes, Decidable (condition pool request writes)] (pool : AuthPool)
    (step : AuthStep) : Decidable (Effects condition pool step) :=
  inferInstanceAs (Decidable (∀ effect ∈ effect? pool step, _))

variable {packages : Packages} {pool : AuthPool}

theorem effect?_eq_some {step : AuthStep} {request : Request} {writes : List Write}
    (heffect : effect? pool step = some (request, writes)) :
    ∃ i outcome next, step = .advance i outcome ∧ outcome ≠ .failed ∧
      pool.threads[i]? = some ⟨request, .call (.commit writes) next⟩ := by
  cases step with
  | begin request => cases heffect
  | elapse event => cases heffect
  | advance i outcome =>
      rw [effect?] at heffect
      split at heffect
      next hthread =>
        split at heffect
        next => cases heffect
        next houtcome =>
          cases heffect
          exact ⟨i, outcome, _, rfl, houtcome, hthread⟩
      next => cases heffect

/-- What an operation does to the store: nothing, or the transaction that takes effect. -/
theorem store_perform {i : Nat} {request : Request} {op : Op} {next : Answer op → AuthProgram Reply}
    (hi : pool.threads[i]? = some ⟨request, .call op next⟩) (outcome : Outcome) :
    (perform outcome op pool.world).2.store = pool.world.store ∨
      ∃ writes, op = .commit writes ∧ effect? pool (.advance i outcome) = some (request, writes) ∧
        (perform outcome op pool.world).2.store = pool.world.store.commit writes := by
  cases op with
  | commit writes =>
      by_cases hfailed : outcome = .failed
      · left
        simp [perform, hfailed]
      · right
        exact ⟨writes, rfl, by simp [effect?, hi, hfailed], by simp [perform, hfailed]⟩
  | _ => exact Or.inl rfl

/-- What a step does to the store: nothing, or the transaction of a call. -/
theorem Served.effect_cases (hserved : Served packages pool) (step : AuthStep) :
    (pool.step (authService packages) step).world.store = pool.world.store ∨
      ∃ request writes, effect? pool step = some (request, writes) ∧
        request ∈ pool.requests ∧ Transaction packages pool.world.store request writes ∧
        (pool.step (authService packages) step).world.store = pool.world.store.commit writes := by
  cases step with
  | begin request => exact Or.inl rfl
  | elapse event => exact Or.inl (store_elapse event pool.world)
  | advance i outcome =>
      rw [Pool.step]
      rcases Pool.advance_cases (authService packages) pool i outcome with hsame |
        ⟨request, op, next, hi, hnext⟩
      · rw [hsame]
        exact Or.inl rfl
      · rw [hnext]
        rcases store_perform hi outcome with hsame | ⟨writes, rfl, heffect, hstore⟩
        · exact Or.inl hsame
        · cases hserved.grounded hi with
          | reads hreads => cases hreads
          | commit htransaction =>
              exact Or.inr ⟨request, writes, heffect,
                List.mem_of_getElem? (Pool.request_of_thread hi), htransaction, hstore⟩

variable {allowed : Request → Prop} {condition : AuthPool → Request → List Write → Prop}
  {steps : List AuthStep}

/-- An invariant of pools. -/
theorem run_rule {condition : AuthPool → AuthStep → Prop} (invariant : AuthPool → Prop)
    (hidle : invariant idle)
    (hstep : ∀ pool step, Served packages pool → Fresh pool step → condition pool step →
      invariant pool → invariant (pool.step (authService packages) step))
    (hfresh : Meets packages Fresh steps) (hcondition : Meets packages condition steps) :
    invariant (serve packages steps) := by
  let both : AuthPool → Prop := fun pool => Served packages pool ∧ invariant pool
  have hboth : both (serve packages steps) := Run.run_invariant
    (fun pool step hcondition hinvariant => ⟨hinvariant.1.step hcondition.1,
      hstep pool step hinvariant.1 hcondition.1 hcondition.2 hinvariant.2⟩)
    (hfresh.and hcondition) ⟨.idle, hidle⟩
  exact hboth.2

theorem requests_step {step : AuthStep} (hbegins : Begins allowed pool step)
    (hallowed : ∀ request ∈ pool.requests, allowed request) :
    ∀ request ∈ (pool.step (authService packages) step).requests, allowed request := by
  cases step with
  | begin request =>
      rw [Pool.requests_begin]
      intro other hother
      rcases List.mem_append.mp hother with hold | hnew
      · exact hallowed other hold
      · rw [List.mem_singleton.mp hnew]
        exact hbegins
  | elapse event => exact hallowed
  | advance i outcome =>
      rw [Pool.requests_advance]
      exact hallowed

/-- An invariant of stores, which only transactions change. -/
theorem store_rule (invariant : Store → Prop) (hempty : invariant Store.empty)
    (hcommit : ∀ pool request writes, Served packages pool → allowed request →
      Transaction packages pool.world.store request writes → condition pool request writes →
        invariant pool.world.store → invariant (pool.world.store.commit writes))
    (hfresh : Meets packages Fresh steps) (hbegins : Meets packages (Begins allowed) steps)
    (heffects : Meets packages (Effects condition) steps) :
    invariant (serve packages steps).world.store := by
  have hboth := run_rule
    (fun pool => (∀ request ∈ pool.requests, allowed request) ∧ invariant pool.world.store)
    (by simp [idle, Pool.requests, World.start, hempty]) ?_ hfresh (hbegins.and heffects)
  · exact hboth.2
  · rintro pool step hserved _ ⟨hbegin, heffect⟩ ⟨hallowed, hinvariant⟩
    refine ⟨requests_step hbegin hallowed, ?_⟩
    rcases hserved.effect_cases step with hsame | ⟨request, writes, heff, hrequest, htransaction, hstore⟩
    · rwa [hsame]
    · rw [hstore]
      exact hcommit pool request writes hserved (hallowed request hrequest) htransaction
        (heffect _ heff) hinvariant

/-- Packages to run the service with: the tables of ASCII, hashes that show the password,
and tokens that show the user. -/
def Packages.plain : Packages where
  bcrypt :=
    { generate := fun _ password =>
        if password.length ≤ 72 then some (utf8 "$2a$10$" ++ password) else none
      compare := fun hash password => decide (hash = utf8 "$2a$10$" ++ password)
      accepts := by
        intro salt password hash hgenerate
        split at hgenerate
        · rw [← Option.some.inj hgenerate]
          exact decide_eq_true rfl
        · cases hgenerate }
  unicode := Unicode.ascii
  signedString claims := .ok claims.userID

theorem Packages.plain_exact : Packages.plain.bcrypt.Exact := by
  intro salt password hash other hgenerate hcompare
  simp only [plain] at hgenerate hcompare
  split at hgenerate
  · rw [← Option.some.inj hgenerate, decide_eq_true_eq] at hcompare
    exact (List.append_cancel_left hcompare).symm
  · cases hgenerate

end Conditions

end Vectron.Auth
