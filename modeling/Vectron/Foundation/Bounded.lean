import Vectron.Foundation.Reader

/-! # Reads within bounds

A slice expression and an index expression fail when they leave their operand. A loop that
moves an offset over a buffer behind its own length checks never does, and reads what a
reader of the rest of the buffer reads.
-/

namespace Foundation.Bounded

universe u

/-- An access that leaves its operand. -/
inductive OutOfRange where
  | slice
  | index
deriving DecidableEq, Repr

variable {α : Type u} {list : List α} {i j : Nat}

/-- `list[i:j]`. -/
def slice (list : List α) (i j : Nat) : Except OutOfRange (List α) :=
  if i ≤ j ∧ j ≤ list.length then .ok ((list.drop i).take (j - i)) else .error .slice

/-- `list[i]`. -/
def at? (list : List α) (i : Nat) : Except OutOfRange α :=
  match list[i]? with
  | some a => .ok a
  | none => .error .index

/-- `list[i] = a`. -/
def put (list : List α) (i : Nat) (a : α) : Except OutOfRange (List α) :=
  if i < list.length then .ok (list.set i a) else .error .index

theorem ok_bind {β : Type u} (a : α) (next : α → Except OutOfRange β) :
    (Except.ok a >>= next) = next a := rfl

theorem slice_add {count : Nat} (hle : i + count ≤ list.length) :
    slice list i (i + count) = .ok ((list.drop i).take count) := by
  rw [slice, if_pos ⟨Nat.le_add_right i count, hle⟩, Nat.add_sub_cancel_left]

theorem at?_of_lt (hlt : i < list.length) : at? list i = .ok list[i] := by
  rw [at?, List.getElem?_eq_getElem hlt]

theorem put_of_lt (hlt : i < list.length) (a : α) : put list i a = .ok (list.set i a) :=
  if_pos hlt

/-- Overwrite `count` elements from an index on, in order. -/
def fill (read : Nat → Except OutOfRange α) : Nat → Nat → List α → Except OutOfRange (List α)
  | 0, _, list => .ok list
  | count + 1, i, list => do
      let a ← read i
      let list ← put list i a
      fill read count (i + 1) list

section

variable {read : Nat → Except OutOfRange α} {value : Nat → α} {count : Nat}

/-- What was in the overwritten places does not matter. -/
theorem fill_eq (hread : ∀ k, i ≤ k → k < i + count → read k = .ok (value k))
    (hlength : list.length = i + count) :
    fill read count i list = .ok (list.take i ++ (List.range' i count).map value) := by
  induction count generalizing i list with
  | zero => simpa [fill] using Nat.le_of_eq hlength
  | succ count ih =>
      have hlt : i < list.length := by omega
      have hrest := @ih (list.set i (value i)) (i + 1) (fun k hle hlt => hread k (by omega) (by omega))
        (by rw [List.length_set]; omega)
      rw [fill, hread i (Nat.le_refl i) (by omega)]
      simp only [ok_bind, put_of_lt hlt, hrest, List.range'_succ, List.map_cons]
      rw [List.take_add_one, List.take_set_of_le (Nat.le_refl i), List.getElem?_set_self hlt]
      simp

theorem fill_zero (hread : ∀ k < count, read k = .ok (value k)) (hlength : list.length = count) :
    fill read count 0 list = .ok ((List.range count).map value) := by
  rw [fill_eq (fun k _ hlt => hread k (by omega)) (by omega), List.take_zero, List.nil_append,
    List.range_eq_range']

end

/-- Four bytes are enough to read a word. -/
theorem uint32_take (bytes : Bytes) : uint32 (bytes.take 4) = uint32 bytes := by
  rcases bytes with _ | ⟨_, _ | ⟨_, _ | ⟨_, _ | ⟨_, _⟩⟩⟩⟩ <;> rfl

/-- The word at an offset. -/
def wordAt (bytes : Bytes) (offset : Nat) : Except OutOfRange UInt32 := do
  let word ← slice bytes offset (offset + 4)
  pure (uint32 word)

theorem wordAt_of_le {bytes : Bytes} {offset : Nat} (hle : offset + 4 ≤ bytes.length) :
    wordAt bytes offset = .ok (uint32 (bytes.drop offset)) := by
  have hword : wordAt bytes offset = .ok (uint32 ((bytes.drop offset).take 4)) := by
    rw [wordAt, slice_add hle]
    rfl
  rw [hword, uint32_take]

/-! ## Readers that fail -/

section Readers

variable {ε β γ : Type} {bytes : Bytes} {count : Nat}

theorem run_bind_error {first : Reader ε β} {next : β → Reader ε γ} {err : ε}
    (hfirst : first.run bytes = .error err) : (first >>= next).run bytes = .error err := by
  rw [StateT.run_bind, hfirst]
  rfl

theorem readFull_run_of_lt (hlt : bytes.length < count) :
    ∃ err, (Reader.readFull count).run bytes = .error err := by
  have hrun : (Reader.readFull count).run bytes =
      if bytes = [] then .error .eof else .error .unexpectedEof := if_neg (by omega)
  rw [hrun]
  split
  · exact ⟨_, rfl⟩
  · exact ⟨_, rfl⟩

theorem word_run_of_lt (hlt : bytes.length < 4) : ∃ err, Reader.word.run bytes = .error err := by
  obtain ⟨err, hrun⟩ := readFull_run_of_lt hlt
  exact ⟨err, run_bind_error hrun⟩

theorem word_run_of_le (hle : 4 ≤ bytes.length) :
    Reader.word.run bytes = .ok (uint32 bytes, bytes.drop 4) := by
  rw [Reader.word, Reader.run_bind_ok (Reader.readFull_run_of_le hle), uint32_take]
  rfl

end Readers

end Foundation.Bounded
