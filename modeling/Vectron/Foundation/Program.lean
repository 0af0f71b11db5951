import Vectron.Foundation.Run

/-! # Programs that share a world

A program performs operations on a world that it shares with other programs, and the
answers decide how it goes on. In a pool of programs every step lets one of them perform
its next operation: the operations are atomic, and those of different programs interleave
in any order. A contract says what a program bears from the others while it waits and what
it guarantees to them, so that one symbolic execution of each program covers all
interleavings.
-/

namespace Foundation

/-- A program that ends with a result or performs an operation and goes on with its
answer. -/
inductive Program (Op : Type) (Answer : Op → Type) (α : Type) : Type where
  | done (result : α)
  | call (op : Op) (next : Answer op → Program Op Answer α)

namespace Program

variable {Op : Type} {Answer : Op → Type} {World α β : Type}

def bind (first : Program Op Answer α) (next : α → Program Op Answer β) :
    Program Op Answer β :=
  match first with
  | .done result => next result
  | .call op rest => .call op fun answer => (rest answer).bind next

instance : Monad (Program Op Answer) where
  pure := .done
  bind := bind

/-- The program that performs one operation. -/
def perform (op : Op) : Program Op Answer (Answer op) :=
  .call op .done

@[simp] theorem pure_eq (result : α) : (pure result : Program Op Answer α) = .done result := rfl

@[simp] theorem done_bind (result : α) (next : α → Program Op Answer β) :
    (Program.done result : Program Op Answer α) >>= next = next result := rfl

@[simp] theorem call_bind (op : Op) (rest : Answer op → Program Op Answer α)
    (next : α → Program Op Answer β) :
    Program.call op rest >>= next = .call op fun answer => rest answer >>= next := rfl

@[simp] theorem perform_bind (op : Op) (next : Answer op → Program Op Answer β) :
    (perform op : Program Op Answer (Answer op)) >>= next = .call op next := rfl

/-- The program alone, from its first operation to its result. -/
def exec (answers : (op : Op) → World → Answer op × World) :
    Program Op Answer α → World → α × World
  | .done result, world => (result, world)
  | .call op next, world => exec answers (next (answers op world).1) (answers op world).2

theorem exec_bind (answers : (op : Op) → World → Answer op × World)
    (first : Program Op Answer α) (next : α → Program Op Answer β) (world : World) :
    exec answers (first >>= next) world =
      exec answers (next (exec answers first world).1) (exec answers first world).2 := by
  induction first generalizing world with
  | done result => rfl
  | call op rest ih => exact ih _ _

/-- Every place the program may come to, an operation and how it goes on with the answer,
has the property. -/
def Places (property : (op : Op) → (Answer op → Program Op Answer α) → Prop) :
    Program Op Answer α → Prop
  | .done _ => True
  | .call op next => property op next ∧ ∀ answer, Places property (next answer)

theorem Places.of_forall {property : (op : Op) → (Answer op → Program Op Answer α) → Prop}
    (hproperty : ∀ op next, property op next) (program : Program Op Answer α) :
    program.Places property := by
  induction program with
  | done result => trivial
  | call op next ih => exact ⟨hproperty op next, ih⟩

/-- Every operation that the program may come to has the property. -/
def Performs (property : Op → Prop) (program : Program Op Answer α) : Prop :=
  program.Places fun op _ => property op

theorem Performs.bind {property : Op → Prop} {first : Program Op Answer α}
    {next : α → Program Op Answer β} (hfirst : first.Performs property)
    (hnext : ∀ result, (next result).Performs property) :
    (first >>= next).Performs property := by
  induction first with
  | done result => exact hnext result
  | call op rest ih => exact ⟨hfirst.1, fun answer => ih answer (hfirst.2 answer)⟩

end Program

/-! ## Pools of programs -/

/-- A program under way and the request it serves. -/
structure Thread (Request Op : Type) (Answer : Op → Type) (Result : Type) where
  request : Request
  program : Program Op Answer Result

/-- The shared world and all programs ever started, in the order of their start. -/
structure Pool (World Request Op : Type) (Answer : Op → Type) (Result : Type) where
  world : World
  threads : List (Thread Request Op Answer Result)

/-- How requests are served. An operation takes effect on the world and has an answer,
both up to a choice of the environment. -/
structure Service (World Request Op : Type) (Answer : Op → Type)
    (Result Choice Event : Type) where
  program : Request → Program Op Answer Result
  perform : Choice → (op : Op) → World → Answer op × World
  elapse : Event → World → World

/-- One step of a pool. -/
inductive PoolStep (Request Choice Event : Type) where
  | begin (request : Request)
  | advance (i : Nat) (choice : Choice)
  | elapse (event : Event)

section Pools

variable {World Request Op : Type} {Answer : Op → Type} {Result Choice Event : Type}

/-- The operation a program is about to perform. -/
def Thread.pending? (thread : Thread Request Op Answer Result) : Option Op :=
  match thread.program with
  | .done _ => none
  | .call op _ => some op

namespace Pool

variable (service : Service World Request Op Answer Result Choice Event)

/-- Thread `i` performs its next operation, if it has one. -/
def advance (pool : Pool World Request Op Answer Result) (i : Nat) (choice : Choice) :
    Pool World Request Op Answer Result :=
  match pool.threads[i]? with
  | some ⟨request, .call op next⟩ =>
      { world := (service.perform choice op pool.world).2
        threads := pool.threads.set i
          ⟨request, next (service.perform choice op pool.world).1⟩ }
  | _ => pool

def step (pool : Pool World Request Op Answer Result) :
    PoolStep Request Choice Event → Pool World Request Op Answer Result
  | .begin request =>
      { pool with threads := pool.threads ++ [⟨request, service.program request⟩] }
  | .advance i choice => pool.advance service i choice
  | .elapse event => { pool with world := service.elapse event pool.world }

variable {service} {pool : Pool World Request Op Answer Result}

/-- What an advance did: nothing, or the next operation of a thread. -/
theorem advance_cases (service : Service World Request Op Answer Result Choice Event)
    (pool : Pool World Request Op Answer Result) (i : Nat) (choice : Choice) :
    pool.advance service i choice = pool ∨
      ∃ request op next, pool.threads[i]? = some ⟨request, .call op next⟩ ∧
        pool.advance service i choice =
          { world := (service.perform choice op pool.world).2
            threads := pool.threads.set i
              ⟨request, next (service.perform choice op pool.world).1⟩ } := by
  rw [advance]
  split
  next request op next hthread => exact Or.inr ⟨request, op, next, hthread, rfl⟩
  next => exact Or.inl rfl

/-- The requests of all programs, in the order of their start. -/
def requests (pool : Pool World Request Op Answer Result) : List Request :=
  pool.threads.map Thread.request

theorem requests_begin (request : Request) :
    (pool.step service (.begin request)).requests = pool.requests ++ [request] := by
  simp [Pool.step, requests]

theorem requests_advance (i : Nat) (choice : Choice) :
    (pool.step service (.advance i choice)).requests = pool.requests := by
  rw [Pool.step]
  rcases advance_cases service pool i choice with hsame | ⟨request, op, next, hi, hnext⟩
  · rw [hsame]
  · have hmap : (pool.threads.map Thread.request)[i]? = some request := by
      rw [List.getElem?_map, hi]
      rfl
    obtain ⟨hlt, heq⟩ := List.getElem?_eq_some_iff.mp hmap
    rw [hnext, requests, requests, List.map_set, ← heq]
    exact List.set_getElem_self hlt

/-- Wherever the programs of all requests only come to places with a property, a step keeps
the threads at such places. -/
theorem places_step {property : Request → (op : Op) →
    (Answer op → Program Op Answer Result) → Prop}
    (hproperty : ∀ request, (service.program request).Places (property request))
    (hpool : ∀ thread ∈ pool.threads, thread.program.Places (property thread.request))
    (step : PoolStep Request Choice Event) :
    ∀ thread ∈ (pool.step service step).threads,
      thread.program.Places (property thread.request) := by
  cases step with
  | begin request =>
      intro thread hthread
      rcases List.mem_append.mp hthread with hold | hnew
      · exact hpool thread hold
      · rw [List.mem_singleton.mp hnew]
        exact hproperty request
  | elapse event => exact hpool
  | advance i choice =>
      rw [Pool.step]
      rcases advance_cases service pool i choice with hsame | ⟨request, op, next, hi, hnext⟩
      · rwa [hsame]
      · rw [hnext]
        intro thread hthread
        rcases List.mem_or_eq_of_mem_set hthread with hold | rfl
        · exact hpool thread hold
        · exact (hpool _ (List.mem_of_getElem? hi)).2 _

/-- Program `i` served the request and ended with the result. -/
def Ended (pool : Pool World Request Op Answer Result) (i : Nat) (request : Request)
    (result : Result) : Prop :=
  pool.threads[i]? = some ⟨request, .done result⟩

/-- The request and the result of program `i`, once it has ended. -/
def ended? (pool : Pool World Request Op Answer Result) (i : Nat) : Option (Request × Result) :=
  match pool.threads[i]? with
  | some ⟨request, .done result⟩ => some (request, result)
  | _ => none

theorem ended_iff {i : Nat} {request : Request} {result : Result} :
    pool.Ended i request result ↔ pool.ended? i = some (request, result) := by
  rw [Ended, ended?]
  constructor
  · intro hended
    rw [hended]
  · intro hended
    split at hended
    next hthread =>
      cases hended
      exact hthread
    next => cases hended

instance [DecidableEq Request] [DecidableEq Result] (i : Nat) (request : Request)
    (result : Result) : Decidable (pool.Ended i request result) :=
  decidable_of_iff _ ended_iff.symm

theorem request_of_thread {i : Nat} {thread : Thread Request Op Answer Result}
    (hthread : pool.threads[i]? = some thread) : pool.requests[i]? = some thread.request := by
  rw [requests, List.getElem?_map, hthread]
  rfl

theorem Ended.step {i : Nat} {request : Request} {result : Result}
    (hended : pool.Ended i request result) (step : PoolStep Request Choice Event) :
    (pool.step service step).Ended i request result := by
  cases step with
  | begin other =>
      rw [Ended, Pool.step, List.getElem?_append_left (List.getElem?_eq_some_iff.mp hended).1]
      exact hended
  | elapse event => exact hended
  | advance j choice =>
      rw [Pool.step]
      rcases advance_cases service pool j choice with hsame | ⟨other, op, next, hj, hnext⟩
      · rwa [hsame]
      · rw [hnext, Ended, List.getElem?_set_ne]
        · exact hended
        · rintro rfl
          rw [Ended, hj] at hended
          cases hended

end Pool

end Pools

/-! ## Contracts -/

/-- What a program bears while it waits to perform an operation, what it guarantees of
its own operations, and which choices of the environment it is to cope with. -/
structure Contract (World Op Choice : Type) where
  rely : Op → World → World → Prop
  rely_refl : ∀ op world, rely op world world
  rely_trans : ∀ op {first second third}, rely op first second → rely op second third →
    rely op first third
  allowed : Choice → Op → World → Prop
  guarantee : Op → World → World → Prop

namespace Contract

variable {World Op : Type} {Answer : Op → Type} {Choice α β : Type}
  (contract : Contract World Op Choice)
  (perform : Choice → (op : Op) → World → Answer op × World)

/-- However the others interfere within the contract, every operation of the program
gives the guarantee, and the result meets the postcondition where the program ends. -/
def Safe (post : α → World → Prop) : Program Op Answer α → World → Prop
  | .done result, world => post result world
  | .call op next, world => ∀ found, contract.rely op world found →
      ∀ choice, contract.allowed choice op found →
        contract.guarantee op found (perform choice op found).2 ∧
          Safe post (next (perform choice op found).1) (perform choice op found).2

variable {contract perform} {post : α → World → Prop}

theorem Safe.bind {first : Program Op Answer α} {next : α → Program Op Answer β}
    {post : β → World → Prop} {world : World}
    (hfirst : contract.Safe perform (fun result world =>
      contract.Safe perform post (next result) world) first world) :
    contract.Safe perform post (first >>= next) world := by
  induction first generalizing world with
  | done result => exact hfirst
  | call op rest ih =>
      intro found hfound choice hchoice
      obtain ⟨hguarantee, hrest⟩ := hfirst found hfound choice hchoice
      exact ⟨hguarantee, ih _ hrest⟩

/-- A program that begins with an operation. -/
theorem Safe.perform_bind {op : Op} {next : Answer op → Program Op Answer α} {world : World}
    (hnext : ∀ found, contract.rely op world found → ∀ choice, contract.allowed choice op found →
      contract.guarantee op found (perform choice op found).2 ∧
        contract.Safe perform post (next (perform choice op found).1)
          (perform choice op found).2) :
    contract.Safe perform post (Program.perform op >>= next) world :=
  hnext

theorem Safe.imp {weaker : α → World → Prop} (himp : ∀ result world, post result world →
    weaker result world) {program : Program Op Answer α} {world : World}
    (hsafe : contract.Safe perform post program world) :
    contract.Safe perform weaker program world := by
  induction program generalizing world with
  | done result => exact himp result world hsafe
  | call op next ih =>
      intro found hfound choice hchoice
      obtain ⟨hguarantee, hnext⟩ := hsafe found hfound choice hchoice
      exact ⟨hguarantee, ih _ hnext⟩

/-- A program whose operations give the guarantee in every world is safe. -/
theorem Safe.of_performs {property : Op → Prop} (hproperty : ∀ op, property op →
    ∀ choice found, contract.allowed choice op found →
      contract.guarantee op found (perform choice op found).2)
    (hpost : ∀ result world, post result world)
    {program : Program Op Answer α} (hprogram : program.Performs property) (world : World) :
    contract.Safe perform post program world := by
  induction program generalizing world with
  | done result => exact hpost result world
  | call op next ih =>
      intro found _ choice hchoice
      exact ⟨hproperty op hprogram.1 choice found hchoice, ih _ (hprogram.2 _) _⟩

/-- The contract that bears everything and promises nothing. -/
def free : Contract World Op Choice where
  rely _ _ _ := True
  rely_refl _ _ := trivial
  rely_trans _ _ _ _ _ _ := trivial
  allowed _ _ _ := True
  guarantee _ _ _ := True

/-- A contract that guarantees nothing holds of every program. -/
theorem Safe.of_forall (hguarantee : ∀ op world after, contract.guarantee op world after)
    (hpost : ∀ result world, post result world) (program : Program Op Answer α)
    (world : World) : contract.Safe perform post program world := by
  induction program generalizing world with
  | done result => exact hpost result world
  | call op next ih => exact fun _ _ _ _ => ⟨hguarantee op _ _, ih _ _⟩

theorem free_safe (hpost : ∀ result world, post result world) (program : Program Op Answer α)
    (world : World) : free.Safe perform post program world :=
  Safe.of_forall (fun _ _ _ => trivial) hpost program world

/-- The program bears a change of the world by others. -/
def Bears (contract : Contract World Op Choice) (post : α → World → Prop)
    (program : Program Op Answer α) (world after : World) : Prop :=
  match program with
  | .done result => post result world → post result after
  | .call op _ => contract.rely op world after

theorem Safe.stable {program : Program Op Answer α} {world after : World}
    (hsafe : contract.Safe perform post program world)
    (hbears : contract.Bears post program world after) :
    contract.Safe perform post program after := by
  cases program with
  | done result => exact hbears hsafe
  | call op next =>
      intro found hfound
      exact hsafe found (contract.rely_trans op hbears hfound)

end Contract

/-! ## The rule for pools -/

section Rule

variable {World Request Op : Type} {Answer : Op → Type} {Result Choice Event : Type}
  (service : Service World Request Op Answer Result Choice Event)
  (contract : Request → Contract World Op Choice)
  (post : Request → Result → World → Prop)

namespace Pool

/-- Thread `i`, once begun, is safe under the contract of its request. -/
def SafeAt (pool : Pool World Request Op Answer Result) (i : Nat) : Prop :=
  ∀ thread, pool.threads[i]? = some thread →
    (contract thread.request).Safe service.perform (post thread.request) thread.program
      pool.world

/-- Thread `i` bears that the world changes. -/
def BearsAt (pool : Pool World Request Op Answer Result) (i : Nat) (after : World) : Prop :=
  ∀ thread, pool.threads[i]? = some thread →
    (contract thread.request).Bears (post thread.request) thread.program pool.world after

/-- The step is within the contract of thread `i`: it begins safely, its own operations
meet with allowed choices, and it bears what others do. -/
def AdmitsAt (pool : Pool World Request Op Answer Result) (i : Nat) :
    PoolStep Request Choice Event → Prop
  | .begin request => i = pool.threads.length →
      (contract request).Safe service.perform (post request) (service.program request) pool.world
  | .advance j choice => ∀ request op next,
      pool.threads[j]? = some ⟨request, .call op next⟩ →
        if j = i then (contract request).allowed choice op pool.world
        else pool.BearsAt contract post i (service.perform choice op pool.world).2
  | .elapse event => pool.BearsAt contract post i (service.elapse event pool.world)

variable {service contract post} {pool : Pool World Request Op Answer Result} {i : Nat}

/-- What a safe thread guarantees of the operation it performs. -/
theorem SafeAt.guarantee (hsafe : pool.SafeAt service contract post i)
    {request : Request} {op : Op} {next : Answer op → Program Op Answer Result}
    (hthread : pool.threads[i]? = some ⟨request, .call op next⟩) (choice : Choice)
    (hallowed : (contract request).allowed choice op pool.world) :
    (contract request).guarantee op pool.world (service.perform choice op pool.world).2 :=
  (hsafe _ hthread pool.world ((contract request).rely_refl op _) choice hallowed).1

theorem SafeAt.step (hsafe : pool.SafeAt service contract post i)
    {step : PoolStep Request Choice Event}
    (hadmits : pool.AdmitsAt service contract post i step) :
    (pool.step service step).SafeAt service contract post i := by
  cases step with
  | begin request =>
      intro thread hthread
      rw [Pool.step, List.getElem?_append] at hthread
      split at hthread
      next => exact hsafe thread hthread
      next hi =>
        rw [List.getElem?_singleton] at hthread
        split at hthread
        next hzero =>
          obtain rfl := Option.some.inj hthread
          exact hadmits (by omega)
        next => cases hthread
  | elapse event =>
      intro thread hthread
      exact (hsafe thread hthread).stable (hadmits thread hthread)
  | advance j choice =>
      rw [Pool.step]
      rcases advance_cases service pool j choice with hsame | ⟨request, op, next, hj, hnext⟩
      · rwa [hsame]
      · have hadmits := hadmits request op next hj
        rw [hnext]
        intro thread hthread
        by_cases heq : j = i
        · subst heq
          rw [if_pos rfl] at hadmits
          rw [List.getElem?_set_self (List.getElem?_eq_some_iff.mp hj).1] at hthread
          obtain rfl := Option.some.inj hthread
          exact (hsafe _ hj pool.world ((contract request).rely_refl op _) choice hadmits).2
        · rw [if_neg heq] at hadmits
          rw [List.getElem?_set_ne heq] at hthread
          exact (hsafe thread hthread).stable (hadmits thread hthread)

/-- What the contract that bears everything asks of the others: to keep the postcondition of
a result. -/
theorem bearsAt_free {post : Request → Result → World → Prop} {after : World}
    (hafter : ∀ request result, pool.Ended i request result → post request result pool.world →
      post request result after) :
    pool.BearsAt (fun _ => (Contract.free : Contract World Op Choice)) post i after := by
  rintro ⟨request, program⟩ hthread
  cases program with
  | done result => exact hafter request result hthread
  | call op next => trivial

/-- The result of a thread that has ended meets the postcondition. -/
theorem SafeAt.result (hsafe : pool.SafeAt service contract post i) {request : Request}
    {result : Result} (hended : pool.Ended i request result) : post request result pool.world :=
  hsafe _ hended

end Pool

end Rule

end Foundation
