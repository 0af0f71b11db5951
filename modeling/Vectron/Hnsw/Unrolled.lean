import Vectron.Hnsw.Node

/-! # The int8 dot product, loop by loop

`dotProductInt8` takes eight products a round into accumulators of their own and the rest one by
one. Every product and sum is one of 32 bits. Here an operation that would wrap around has no
result, and neither has a read behind the end of a slice.
-/

namespace Vectron.Hnsw.Unrolled

open Foundation

/-- A number as an `int32`, if it is one. -/
def int32 (n : Int) : Option Int := if -2 ^ 31 ≤ n ∧ n < 2 ^ 31 then some n else none

/-- The eight accumulators. -/
structure Lanes where
  sum0 : Int
  sum1 : Int
  sum2 : Int
  sum3 : Int
  sum4 : Int
  sum5 : Int
  sum6 : Int
  sum7 : Int

section Code

variable (a b : Bytes)

/-- `sum += int32(a[i]) * int32(b[i])`. -/
def mulAdd (sum : Int) (i : Nat) : Option Int := do
  let x ← a[i]?
  let y ← b[i]?
  let product ← int32 (x.toInt8.toInt * y.toInt8.toInt)
  int32 (sum + product)

/-- One round of the unrolled loop. -/
def mulAddLanes (lanes : Lanes) (i : Nat) : Option Lanes := do
  let sum0 ← mulAdd a b lanes.sum0 i
  let sum1 ← mulAdd a b lanes.sum1 (i + 1)
  let sum2 ← mulAdd a b lanes.sum2 (i + 2)
  let sum3 ← mulAdd a b lanes.sum3 (i + 3)
  let sum4 ← mulAdd a b lanes.sum4 (i + 4)
  let sum5 ← mulAdd a b lanes.sum5 (i + 5)
  let sum6 ← mulAdd a b lanes.sum6 (i + 6)
  let sum7 ← mulAdd a b lanes.sum7 (i + 7)
  pure ⟨sum0, sum1, sum2, sum3, sum4, sum5, sum6, sum7⟩

/-- The unrolled loop, and where it ends. -/
def unrolledLoop (lanes : Lanes) (i : Nat) : Option (Lanes × Nat) :=
  if i + 7 < a.length then do
    let lanes ← mulAddLanes a b lanes i
    unrolledLoop lanes (i + 8)
  else some (lanes, i)
termination_by a.length - i

/-- The sum of the accumulators, in the order of the source. -/
def Lanes.sum (lanes : Lanes) : Option Int := do
  let sum01 ← int32 (lanes.sum0 + lanes.sum1)
  let sum23 ← int32 (lanes.sum2 + lanes.sum3)
  let sum03 ← int32 (sum01 + sum23)
  let sum45 ← int32 (lanes.sum4 + lanes.sum5)
  let sum05 ← int32 (sum03 + sum45)
  let sum67 ← int32 (lanes.sum6 + lanes.sum7)
  int32 (sum05 + sum67)

/-- The loop over the rest. -/
def tailLoop (sum : Int) (i : Nat) : Option Int :=
  if i < a.length then do
    let sum ← mulAdd a b sum i
    tailLoop sum (i + 1)
  else some sum
termination_by a.length - i

/-- `dotProductInt8`. -/
def dotProductInt8 : Option Int := do
  let (lanes, i) ← unrolledLoop a b ⟨0, 0, 0, 0, 0, 0, 0, 0⟩ 0
  let sum ← lanes.sum
  tailLoop a b sum i

end Code

variable {a b : Bytes} {lanes : Lanes} {i : Nat}

/-! ## No step wraps around -/

theorem int32_eq_some {n : Int} (hlow : -2 ^ 31 ≤ n) (hhigh : n < 2 ^ 31) : int32 n = some n :=
  if_pos ⟨hlow, hhigh⟩

/-- The product of two components. -/
def product (a b : Bytes) (i : Nat) : Int :=
  (a.getD i 0).toInt8.toInt * (b.getD i 0).toInt8.toInt

theorem product_le (a b : Bytes) (i : Nat) : product a b i ≤ 16384 ∧ -16384 ≤ product a b i := by
  unfold product
  have hlow := Int8.le_toInt (a.getD i 0).toInt8
  have hhigh := Int8.toInt_lt (a.getD i 0).toInt8
  have hlow' := Int8.le_toInt (b.getD i 0).toInt8
  have hhigh' := Int8.toInt_lt (b.getD i 0).toInt8
  constructor
  · nlinarith
  · nlinarith

/-- One product and one sum, where both fit. -/
theorem mulAdd_eq {sum : Int} {n : Nat} (ha : i < a.length) (hb : a.length ≤ b.length)
    (hn : n ≤ 131070) (hlow : -(16384 * n : Int) ≤ sum) (hhigh : sum ≤ 16384 * n) :
    mulAdd a b sum i = some (sum + product a b i) ∧
      -(16384 * (n + 1 : Nat) : Int) ≤ sum + product a b i ∧
      sum + product a b i ≤ 16384 * (n + 1 : Nat) := by
  have hbound := product_le a b i
  have hx : a[i]? = some (a.getD i 0) := by
    rw [List.getElem?_eq_getElem ha, List.getD_eq_getElem _ _ ha]
  have hy : b[i]? = some (b.getD i 0) := by
    rw [List.getElem?_eq_getElem (by omega), List.getD_eq_getElem _ _ (by omega)]
  refine ⟨?_, by push_cast; omega, by push_cast; omega⟩
  rw [mulAdd, hx, hy]
  change (int32 (product a b i)).bind (fun product => int32 (sum + product)) = _
  rw [int32_eq_some (by omega) (by omega), Option.bind_some]
  exact int32_eq_some (by omega) (by omega)

/-- The sum of the first products. -/
def dot (a b : Bytes) (n : Nat) : Int := ((List.range n).map (product a b)).sum

theorem dot_succ (a b : Bytes) (n : Nat) : dot a b (n + 1) = dot a b n + product a b n := by
  simp [dot, List.range_succ]

/-- The accumulators hold the first products, and each of them at most `rounds`. -/
structure Filled (a b : Bytes) (lanes : Lanes) (rounds : Nat) : Prop where
  sum : lanes.sum0 + lanes.sum1 + lanes.sum2 + lanes.sum3 + lanes.sum4 + lanes.sum5 + lanes.sum6 +
    lanes.sum7 = dot a b (8 * rounds)
  bound0 : -(16384 * rounds : Int) ≤ lanes.sum0 ∧ lanes.sum0 ≤ 16384 * rounds
  bound1 : -(16384 * rounds : Int) ≤ lanes.sum1 ∧ lanes.sum1 ≤ 16384 * rounds
  bound2 : -(16384 * rounds : Int) ≤ lanes.sum2 ∧ lanes.sum2 ≤ 16384 * rounds
  bound3 : -(16384 * rounds : Int) ≤ lanes.sum3 ∧ lanes.sum3 ≤ 16384 * rounds
  bound4 : -(16384 * rounds : Int) ≤ lanes.sum4 ∧ lanes.sum4 ≤ 16384 * rounds
  bound5 : -(16384 * rounds : Int) ≤ lanes.sum5 ∧ lanes.sum5 ≤ 16384 * rounds
  bound6 : -(16384 * rounds : Int) ≤ lanes.sum6 ∧ lanes.sum6 ≤ 16384 * rounds
  bound7 : -(16384 * rounds : Int) ≤ lanes.sum7 ∧ lanes.sum7 ≤ 16384 * rounds

section

variable {rounds : Nat} (hfilled : Filled a b lanes rounds)

include hfilled

theorem mulAddLanes_fills (hb : a.length ≤ b.length) (hmore : 8 * rounds + 7 < a.length)
    (ha : a.length ≤ 131071) :
    ∃ next, mulAddLanes a b lanes (8 * rounds) = some next ∧ Filled a b next (rounds + 1) := by
  obtain ⟨hsum, h0, h1, h2, h3, h4, h5, h6, h7⟩ := hfilled
  have hstep : ∀ k < 8, ∀ sum : Int, -(16384 * rounds : Int) ≤ sum ∧ sum ≤ 16384 * rounds →
      mulAdd a b sum (8 * rounds + k) = some (sum + product a b (8 * rounds + k)) ∧
        -(16384 * (rounds + 1 : Nat) : Int) ≤ sum + product a b (8 * rounds + k) ∧
        sum + product a b (8 * rounds + k) ≤ 16384 * (rounds + 1 : Nat) :=
    fun k hk sum hbound => mulAdd_eq (by omega) hb (by omega) hbound.1 hbound.2
  obtain ⟨hlane0, hnext0⟩ := hstep 0 (by omega) _ h0
  obtain ⟨hlane1, hnext1⟩ := hstep 1 (by omega) _ h1
  obtain ⟨hlane2, hnext2⟩ := hstep 2 (by omega) _ h2
  obtain ⟨hlane3, hnext3⟩ := hstep 3 (by omega) _ h3
  obtain ⟨hlane4, hnext4⟩ := hstep 4 (by omega) _ h4
  obtain ⟨hlane5, hnext5⟩ := hstep 5 (by omega) _ h5
  obtain ⟨hlane6, hnext6⟩ := hstep 6 (by omega) _ h6
  obtain ⟨hlane7, hnext7⟩ := hstep 7 (by omega) _ h7
  refine ⟨⟨_, _, _, _, _, _, _, _⟩, ?_,
    ⟨?_, hnext0, hnext1, hnext2, hnext3, hnext4, hnext5, hnext6, hnext7⟩⟩
  · rw [Nat.add_zero] at hlane0
    rw [mulAddLanes, hlane0, hlane1, hlane2, hlane3, hlane4, hlane5, hlane6, hlane7]
    rfl
  · have hdot : dot a b (8 * (rounds + 1)) = dot a b (8 * rounds) + product a b (8 * rounds + 0) +
        product a b (8 * rounds + 1) + product a b (8 * rounds + 2) + product a b (8 * rounds + 3) +
        product a b (8 * rounds + 4) + product a b (8 * rounds + 5) +
        product a b (8 * rounds + 6) + product a b (8 * rounds + 7) := by
      rw [Nat.mul_succ, dot_succ, dot_succ, dot_succ, dot_succ, dot_succ, dot_succ, dot_succ, dot_succ]
      rfl
    rw [hdot, ← hsum]
    ring

/-- The unrolled loop covers all whole rounds. -/
theorem unrolledLoop_fills (hb : a.length ≤ b.length) (ha : a.length ≤ 131071)
    (hrounds : 8 * rounds ≤ a.length) :
    ∃ next total, unrolledLoop a b lanes (8 * rounds) = some (next, 8 * total) ∧
      Filled a b next total ∧ 8 * total ≤ a.length := by
  induction hrest : a.length - 8 * rounds using Nat.strong_induction_on generalizing lanes rounds with
  | _ rest ih =>
      rw [unrolledLoop]
      split
      next hmore =>
        obtain ⟨next, hnext, hfilled'⟩ := mulAddLanes_fills hfilled hb hmore ha
        rw [hnext]
        exact ih _ (by omega) hfilled' (by omega) rfl
      next => exact ⟨lanes, rounds, rfl, hfilled, hrounds⟩

theorem Filled.sum_eq (hrounds : 8 * rounds ≤ 131071) :
    lanes.sum = some (dot a b (8 * rounds)) := by
  obtain ⟨hsum, h0, h1, h2, h3, h4, h5, h6, h7⟩ := hfilled
  unfold Lanes.sum
  simp only [Option.bind_eq_bind]
  rw [int32_eq_some (by omega) (by omega), Option.bind_some,
    int32_eq_some (by omega) (by omega), Option.bind_some,
    int32_eq_some (by omega) (by omega), Option.bind_some,
    int32_eq_some (by omega) (by omega), Option.bind_some,
    int32_eq_some (by omega) (by omega), Option.bind_some,
    int32_eq_some (by omega) (by omega), Option.bind_some,
    int32_eq_some (by omega) (by omega), ← hsum]
  congr 1
  ring

end

/-- The rest is added one by one. -/
theorem tailLoop_eq {sum : Int} (hb : a.length ≤ b.length) (ha : a.length ≤ 131071)
    (hi : i ≤ a.length) (hlow : -(16384 * i : Int) ≤ sum) (hhigh : sum ≤ 16384 * i)
    (hsum : sum = dot a b i) : tailLoop a b sum i = some (dot a b a.length) := by
  induction hrest : a.length - i using Nat.strong_induction_on generalizing sum i with
  | _ rest ih =>
      rw [tailLoop]
      split
      next hmore =>
        obtain ⟨hadd, hlow', hhigh'⟩ := mulAdd_eq hmore hb (by omega) hlow hhigh
        rw [hadd]
        exact ih _ (by omega) (by omega) hlow' hhigh' (by rw [hsum, dot_succ]) rfl
      next hend =>
        have hlength : i = a.length := by omega
        rw [hsum, hlength]

theorem dot_eq_zipWith (hb : a.length ≤ b.length) :
    dot a b a.length =
      (List.zipWith (fun x y => x.toInt8.toInt * y.toInt8.toInt) a b).sum := by
  unfold dot
  congr 1
  apply List.ext_getElem
  · simp [hb]
  · intro k hk hk'
    simp only [List.length_map, List.length_range] at hk
    have hkb : k < b.length := by omega
    simp [product, hk, hkb]

theorem dot_le (a b : Bytes) (n : Nat) : dot a b n ≤ 16384 * n ∧ -(16384 * n : Int) ≤ dot a b n := by
  induction n with
  | zero => simp [dot]
  | succ n ih =>
      have hbound := product_le a b n
      rw [dot_succ]
      push_cast
      omega

/-- Up to 131071 components the loop returns the sum of all products: every component is read
within its slice and taken once, and no step wraps around. This is what searches are given. -/
theorem dotProductInt8_eq (a b : Bytes) (hb : a.length ≤ b.length) (ha : a.length ≤ 131071) :
    dotProductInt8 a b = some (dot a b a.length) ∧
      Hnsw.dotProductInt8 a b = dot a b a.length := by
  constructor
  · have hstart : Filled a b ⟨0, 0, 0, 0, 0, 0, 0, 0⟩ 0 := by
      constructor <;> simp [dot]
    obtain ⟨lanes, rounds, hloop, hfilled, hrounds⟩ := unrolledLoop_fills hstart hb ha (by omega)
    have hsum := hfilled.sum_eq (by omega)
    obtain ⟨hdot, h0, h1, h2, h3, h4, h5, h6, h7⟩ := hfilled
    rw [Nat.mul_zero] at hloop
    rw [dotProductInt8, hloop]
    simp only [Option.bind_eq_bind, Option.bind_some, hsum]
    exact tailLoop_eq hb ha hrounds (by push_cast; omega) (by push_cast; omega) rfl
  · have hbound := dot_le a b a.length
    rw [Hnsw.dotProductInt8, ← dot_eq_zipWith hb]
    exact Int.bmod_eq_of_le (by omega) (by omega)

theorem dotProductInt8_eq_nine :
    dotProductInt8 (List.replicate 9 0x80) (List.replicate 10 0x80) = some (9 * 16384) := by
  have heq := (dotProductInt8_eq (List.replicate 9 0x80) (List.replicate 10 0x80) (by decide)
    (by decide)).1
  rw [heq]
  decide

end Vectron.Hnsw.Unrolled
