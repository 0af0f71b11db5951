import Mathlib

/-! # Readers of byte streams

A reader takes what it needs from the front of its input and leaves the rest. A
reader is local when a success never depends on the bytes it left: the input may
then be continued at will. A local reader that reads back what was written refuses
every proper initial part of it.
-/

namespace Foundation

abbrev Bytes := List UInt8

instance lawfulBEqBytes : LawfulBEq Bytes := inferInstanceAs (LawfulBEq (List UInt8))

/-- What a read of a fixed length can report, as `io.ReadFull` does. -/
inductive ReadError where
  | eof
  | unexpectedEof
  deriving Repr, DecidableEq

/-- A reader of a value from the front of a byte string. -/
abbrev Reader (ε α : Type) := StateT Bytes (Except ε) α

namespace Reader

variable {ε α β : Type}

/-- The rule that peels off a first read that succeeds. -/
theorem run_bind_ok {first : Reader ε α} {next : α → Reader ε β} {input rest : Bytes}
    {value : α} (hfirst : first.run input = .ok (value, rest)) :
    (first >>= next).run input = (next value).run rest := by
  rw [StateT.run_bind, hfirst]
  rfl

/-- A sequence succeeds only if its first part does. -/
theorem run_bind_eq_ok {first : Reader ε α} {next : α → Reader ε β} {input : Bytes}
    {result : β × Bytes} (h : (first >>= next).run input = .ok result) :
    ∃ value rest, first.run input = .ok (value, rest) ∧
      (next value).run rest = .ok result := by
  rw [StateT.run_bind] at h
  cases hfirst : first.run input with
  | error err =>
      rw [hfirst] at h
      cases h
  | ok read =>
      rw [hfirst] at h
      exact ⟨read.1, read.2, rfl, h⟩

/-! ## Locality -/

/-- A success stays a success, with the same value, on every longer input. -/
def Local (reader : Reader ε α) : Prop :=
  ∀ input value rest, reader.run input = .ok (value, rest) →
    ∀ more, reader.run (input ++ more) = .ok (value, rest ++ more)

theorem Local.pure (value : α) : Local (pure value : Reader ε α) := by
  intro input value' rest hread more
  cases hread
  rfl

theorem Local.bind {first : Reader ε α} {next : α → Reader ε β} (hfirst : Local first)
    (hnext : ∀ value, Local (next value)) : Local (first >>= next) := by
  intro input value rest hread more
  obtain ⟨middle, left, hleft, hright⟩ := run_bind_eq_ok hread
  rw [run_bind_ok (hfirst input middle left hleft more)]
  exact hnext middle left value rest hright more

theorem Local.ite {condition : Prop} [Decidable condition] {first second : Reader ε α}
    (hfirst : Local first) (hsecond : Local second) :
    Local (if condition then first else second) := by
  split
  · exact hfirst
  · exact hsecond

/-! ## Reading back what was written -/

/-- The reader takes exactly these bytes, whatever follows them. -/
def Reads (reader : Reader ε α) (bytes : Bytes) (value : α) : Prop :=
  ∀ rest, reader.run (bytes ++ rest) = .ok (value, rest)

theorem Reads.pure (value : α) : Reads (pure value : Reader ε α) [] value := fun _ => rfl

theorem Reads.bind {first : Reader ε α} {next : α → Reader ε β} {front back : Bytes}
    {middle : α} {value : β} (hfirst : Reads first front middle)
    (hnext : Reads (next middle) back value) :
    Reads (first >>= next) (front ++ back) value := by
  intro rest
  rw [List.append_assoc, run_bind_ok (hfirst (back ++ rest))]
  exact hnext rest

/-- The value that was read may be changed without reading on. -/
theorem Reads.map {first : Reader ε α} {bytes : Bytes} {value : α} (hfirst : Reads first bytes value)
    (f : α → β) : Reads (first >>= fun a => Pure.pure (f a)) bytes (f value) := by
  intro rest
  rw [run_bind_ok (hfirst rest)]
  rfl

/-- A local reader refuses every proper initial part of what it reads back. -/
theorem Reads.refuses {reader : Reader ε α} {bytes front : Bytes} {value : α}
    (hreads : Reads reader bytes value) (hlocal : Local reader) (hfront : front <+: bytes)
    (hproper : front ≠ bytes) : ∃ err, reader.run front = .error err := by
  obtain ⟨missing, rfl⟩ := hfront
  cases hread : reader.run front with
  | error err => exact ⟨err, rfl⟩
  | ok read =>
      have hlonger := hlocal front read.1 read.2 hread missing
      have hwhole := hreads []
      rw [List.append_nil, hlonger] at hwhole
      have hrest : read.2 ++ missing = [] := congrArg Prod.snd (Except.ok.inj hwhole)
      rw [(List.append_eq_nil_iff.mp hrest).2, List.append_nil] at hproper
      exact absurd rfl hproper

/-! ## Fixed lengths and counted repetition -/

/-- Take exactly `count` bytes. -/
def readFull (count : Nat) : Reader ReadError Bytes := fun input =>
  if count ≤ input.length then .ok (input.take count, input.drop count)
  else if input = [] then .error .eof
  else .error .unexpectedEof

theorem readFull_run_of_le {count : Nat} {input : Bytes} (hle : count ≤ input.length) :
    (readFull count).run input = .ok (input.take count, input.drop count) :=
  if_pos hle

theorem Local.readFull (count : Nat) : Local (readFull count) := by
  intro input value rest hread more
  by_cases hle : count ≤ input.length
  · rw [readFull_run_of_le hle] at hread
    obtain ⟨rfl, rfl⟩ := Prod.mk.inj (Except.ok.inj hread)
    have hle' : count ≤ (input ++ more).length := by
      rw [List.length_append]
      exact Nat.le_add_right_of_le hle
    rw [readFull_run_of_le hle', List.take_append_of_le_length hle,
      List.drop_append_of_le_length hle]
  · have hfail : (Reader.readFull count).run input =
        if input = [] then .error .eof else .error .unexpectedEof := if_neg hle
    rw [hfail] at hread
    split at hread <;> cases hread

theorem Reads.readFull (bytes : Bytes) : Reads (readFull bytes.length) bytes bytes := by
  intro rest
  rw [readFull_run_of_le (by simp)]
  simp

/-- Read one value after another, as a counted loop does. -/
def times (reader : Reader ε α) : Nat → Reader ε (List α)
  | 0 => pure []
  | count + 1 => do
      let value ← reader
      let values ← times reader count
      pure (value :: values)

theorem Local.times {reader : Reader ε α} (hlocal : Local reader) (count : Nat) :
    Local (times reader count) := by
  induction count with
  | zero => exact Local.pure []
  | succ count ih => exact hlocal.bind fun _ => ih.bind fun _ => Local.pure _

/-- A counted loop over a reader that reads every written value back as its image. -/
theorem Reads.times_map {γ : Type} {reader : Reader ε α} {write : γ → Bytes} {image : γ → α}
    {values : List γ} (hreads : ∀ value ∈ values, Reads reader (write value) (image value)) :
    Reads (times reader values.length) (values.flatMap write) (values.map image) := by
  induction values with
  | nil => exact Reads.pure []
  | cons value values ih =>
      have htail := ih fun value hmem => hreads value (List.mem_cons_of_mem _ hmem)
      intro rest
      rw [List.flatMap_cons, List.length_cons, List.append_assoc, Reader.times,
        run_bind_ok (hreads value List.mem_cons_self (values.flatMap write ++ rest)),
        run_bind_ok (htail rest)]
      rfl

theorem Reads.times {reader : Reader ε α} {write : α → Bytes} {values : List α}
    (hreads : ∀ value ∈ values, Reads reader (write value) value) :
    Reads (times reader values.length) (values.flatMap write) values := by
  have hmap := Reads.times_map hreads
  rw [List.map_id'] at hmap
  exact hmap

end Reader

/-! ## Little-endian words -/

/-- `binary.LittleEndian.PutUint32`. -/
def putUint32 (word : UInt32) : Bytes :=
  [UInt8.ofNat word.toNat, UInt8.ofNat (word.toNat / 2 ^ 8),
    UInt8.ofNat (word.toNat / 2 ^ 16), UInt8.ofNat (word.toNat / 2 ^ 24)]

/-- `binary.LittleEndian.Uint32`, which reads the first four bytes. -/
def uint32 : Bytes → UInt32
  | b0 :: b1 :: b2 :: b3 :: _ =>
      UInt32.ofNat (b0.toNat + 2 ^ 8 * b1.toNat + 2 ^ 16 * b2.toNat + 2 ^ 24 * b3.toNat)
  | _ => 0

@[simp] theorem putUint32_length (word : UInt32) : (putUint32 word).length = 4 := rfl

@[simp] theorem uint32_putUint32_append (word : UInt32) (rest : Bytes) :
    uint32 (putUint32 word ++ rest) = word := by
  have hlt := word.toNat_lt
  apply UInt32.toNat_inj.mp
  simp only [putUint32, uint32, List.cons_append, List.nil_append, UInt8.toNat_ofNat',
    UInt32.toNat_ofNat']
  omega

@[simp] theorem uint32_putUint32 (word : UInt32) : uint32 (putUint32 word) = word := by
  have happend := uint32_putUint32_append word []
  rw [List.append_nil] at happend
  exact happend

theorem toNat_ofNat_length {α : Type} {values : List α} (hlt : values.length < 2 ^ 32) :
    (UInt32.ofNat values.length).toNat = values.length := by
  rw [UInt32.toNat_ofNat']
  exact Nat.mod_eq_of_lt hlt

namespace Reader

/-- Read one word. -/
def word : Reader ReadError UInt32 := do
  let buf ← readFull 4
  pure (uint32 buf)

theorem Reads.word (value : UInt32) : Reads word (putUint32 value) value := by
  intro rest
  have hbuf : (Reader.readFull 4).run (putUint32 value ++ rest) = .ok (putUint32 value, rest) :=
    Reads.readFull (putUint32 value) rest
  rw [Reader.word, run_bind_ok hbuf, uint32_putUint32]
  rfl

theorem Local.word : Local word :=
  (Local.readFull 4).bind fun _ => Local.pure _

end Reader

end Foundation
