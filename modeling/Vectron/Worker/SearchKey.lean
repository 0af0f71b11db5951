import Vectron.Foundation.Text
import Vectron.Worker.SearchFlight

/-! # The key of a search in a worker

`computeSearchKeyWithShard` in `worker/internal/grpc.go` hashes the name of the collection and
the components of the vector one after the other, without the length of the name. Where the
keys are quantized, the low bits of the components are left out.
-/

namespace Vectron.Worker.SearchRequest

open Foundation

variable (s : SearchSettings)

/-- The bytes that `computeSearchKeyWithShard` hashes. -/
def keyBytes (request : SearchRequest) (shardID : UInt64) : Bytes :=
  putUint64 shardID ++ (putUint32 request.k ++ (request.flags ::
    (request.collection ++ (request.vector.map (keyBits s)).flatMap putUint32)))

/-- The second collection goes on with the bytes of the first components. -/
def MovesOn (a b : SearchRequest) : Prop :=
  ∃ head ≠ [], a.vector.map (keyBits s) = head ++ b.vector.map (keyBits s) ∧
    b.collection = a.collection ++ head.flatMap putUint32

/-- The vectors differ in bits that do not enter the key. -/
def Blurred (a b : SearchRequest) : Prop :=
  a.collection = b.collection ∧ a.vector ≠ b.vector ∧
    a.vector.map (keyBits s) = b.vector.map (keyBits s)

/-- Two searches of one kind have the same bytes. -/
def Confused (a b : SearchRequest) : Prop :=
  a.shardID = b.shardID ∧ a.k = b.k ∧ a.linearizable = b.linearizable ∧
    a.bruteForce = b.bruteForce ∧ (a.Blurred s b ∨ a.MovesOn s b ∨ b.MovesOn s a)

theorem putUint64_injective {first second : UInt64} (h : putUint64 first = putUint64 second) :
    first = second := by
  obtain ⟨hlow, hhigh⟩ := List.append_inj h rfl
  have hlow := congrArg UInt32.toNat (Coded.putUint32.injective hlow)
  have hhigh := congrArg UInt32.toNat (Coded.putUint32.injective hhigh)
  have hfirst := first.toNat_lt
  have hsecond := second.toNat_lt
  have hshift : (32 : UInt64).toNat % 64 = 32 := rfl
  simp only [UInt64.toNat_toUInt32, UInt64.toNat_shiftRight, Nat.shiftRight_eq_div_pow, hshift]
    at hlow hhigh
  apply UInt64.toNat_inj.mp
  omega

variable {s} {a b : SearchRequest}

theorem flags_eq_iff : a.flags = b.flags ↔
    a.linearizable = b.linearizable ∧ a.bruteForce = b.bruteForce := by
  unfold flags
  cases a.linearizable <;> cases a.bruteForce <;> cases b.linearizable <;> cases b.bruteForce <;>
    decide

theorem keyBytes_eq_iff : a.keyBytes s a.shardID = b.keyBytes s b.shardID ↔
    a.shardID = b.shardID ∧ a.k = b.k ∧ a.linearizable = b.linearizable ∧
      a.bruteForce = b.bruteForce ∧
      a.collection ++ (a.vector.map (keyBits s)).flatMap putUint32 =
        b.collection ++ (b.vector.map (keyBits s)).flatMap putUint32 := by
  constructor
  · intro h
    obtain ⟨hshard, h⟩ := List.append_inj h rfl
    obtain ⟨hk, h⟩ := List.append_inj h rfl
    obtain ⟨hflags, h⟩ := List.cons.inj h
    obtain ⟨hlinearizable, hbrute⟩ := flags_eq_iff.mp hflags
    exact ⟨putUint64_injective hshard, Coded.putUint32.injective hk, hlinearizable, hbrute, h⟩
  · rintro ⟨hshard, hk, hlinearizable, hbrute, hbody⟩
    rw [keyBytes, keyBytes, hshard, hk, flags_eq_iff.mpr ⟨hlinearizable, hbrute⟩, hbody]

theorem MovesOn.body_eq (hmoves : a.MovesOn s b) :
    a.collection ++ (a.vector.map (keyBits s)).flatMap putUint32 =
      b.collection ++ (b.vector.map (keyBits s)).flatMap putUint32 := by
  obtain ⟨head, -, hvector, hcollection⟩ := hmoves
  simp [hvector, hcollection]

theorem MovesOn.ne (hmoves : a.MovesOn s b) : a ≠ b := by
  rintro rfl
  obtain ⟨head, hhead, hvector, -⟩ := hmoves
  have hlength := congrArg List.length hvector
  rw [List.length_append, List.length_map] at hlength
  exact hhead (List.eq_nil_of_length_eq_zero (by omega))

theorem Confused.keyBytes_eq (hconfused : a.Confused s b) :
    a.keyBytes s a.shardID = b.keyBytes s b.shardID := by
  obtain ⟨hshard, hk, hlinearizable, hbrute, hbody⟩ := hconfused
  refine keyBytes_eq_iff.mpr ⟨hshard, hk, hlinearizable, hbrute, ?_⟩
  rcases hbody with ⟨hcollection, -, hvector⟩ | hmoves | hmoves
  · rw [hcollection, hvector]
  · exact hmoves.body_eq
  · exact hmoves.body_eq.symm

theorem Confused.ne (hconfused : a.Confused s b) : a ≠ b := by
  obtain ⟨-, -, -, -, ⟨-, hvector, -⟩ | hmoves | hmoves⟩ := hconfused
  · rintro rfl
    exact hvector rfl
  · exact hmoves.ne
  · exact hmoves.ne.symm

/-- Of two collections one starts the other, and what it lacks encodes components. -/
theorem collection_eq_or_movesOn
    (hbody : a.collection ++ (a.vector.map (keyBits s)).flatMap putUint32 =
      b.collection ++ (b.vector.map (keyBits s)).flatMap putUint32) :
    a.collection = b.collection ∨ a.MovesOn s b ∨ b.MovesOn s a := by
  rcases List.append_eq_append_iff.mp hbody with
    ⟨more, hcollection, hwords⟩ | ⟨more, hcollection, hwords⟩
  all_goals
    obtain ⟨head, hvector, rfl⟩ := Coded.putUint32.flatMap_eq_append hwords
    by_cases hhead : head = []
    · left
      simp [hcollection, hhead]
  · exact Or.inr (Or.inl ⟨head, hhead, hvector, hcollection⟩)
  · exact Or.inr (Or.inr ⟨head, hhead, hvector, hcollection⟩)

theorem eq_or_confused (h : a.keyBytes s a.shardID = b.keyBytes s b.shardID) :
    a = b ∨ a.Confused s b := by
  obtain ⟨hshard, hk, hlinearizable, hbrute, hbody⟩ := keyBytes_eq_iff.mp h
  rcases collection_eq_or_movesOn hbody with hcollection | hmoves
  · rw [hcollection] at hbody
    have hvector := Coded.putUint32.flatMap_injective (List.append_cancel_left hbody)
    by_cases hsame : a.vector = b.vector
    · left
      obtain ⟨_, _, _, _, _, _⟩ := a
      cases b
      simp_all
    · exact Or.inr ⟨hshard, hk, hlinearizable, hbrute, Or.inl ⟨hcollection, hsame, hvector⟩⟩
  · exact Or.inr ⟨hshard, hk, hlinearizable, hbrute, Or.inr hmoves⟩

/-- The bytes determine two searches exactly if these are not confused. -/
theorem searchKey_determines_iff (s : SearchSettings) (a b : SearchRequest) :
    (a.keyBytes s a.shardID = b.keyBytes s b.shardID → a = b) ↔ ¬a.Confused s b := by
  constructor
  · intro hdetermine hconfused
    exact hconfused.ne (hdetermine hconfused.keyBytes_eq)
  · intro hclear h
    exact (eq_or_confused h).resolve_right hclear

/-- A worker that does not quantize. -/
def unquantized : SearchSettings := ⟨fun _ => 0, 0, true, 0, fun _ _ => []⟩

/-- The collection "caaaa", and the collection "c" with one component more. -/
theorem collection_runs_into_vector :
    keyBytes unquantized ⟨0, 10, false, false, [99, 97, 97, 97, 97], [1065353216]⟩ 0 =
        keyBytes unquantized ⟨0, 10, false, false, [99], [1633771873, 1065353216]⟩ 0 ∧
      (⟨0, 10, false, false, [99, 97, 97, 97, 97], [1065353216]⟩ : SearchRequest) ≠
        ⟨0, 10, false, false, [99], [1633771873, 1065353216]⟩ := by
  decide

end Vectron.Worker.SearchRequest
