import Vectron.Foundation.Reader

/-! # Texts and their encodings

Two sequences of codes of one width that start equal byte strings are cut at the same places
as far as both go, so one sequence is the start of the other. Two strings that start equal
strings are in that relation anyway.

The classes and the case mapping of characters come from tables that follow the version of
Unicode. What is the same in all of them is how the mapping to lower case treats the ASCII
letters.
-/

namespace Foundation

section Joined

variable {α β : Type}

/-- What stands before a separator that it does not contain can be read back. -/
theorem append_separator_inj {separator : α} {front front' rest rest' : List α}
    (hfront : separator ∉ front) (hfront' : separator ∉ front')
    (h : front ++ separator :: rest = front' ++ separator :: rest') :
    front = front' ∧ rest = rest' := by
  induction front generalizing front' with
  | nil =>
      cases front' with
      | nil => exact ⟨rfl, (List.cons.inj h).2⟩
      | cons a front' =>
          obtain ⟨rfl, -⟩ := List.cons.inj h
          exact absurd List.mem_cons_self hfront'
  | cons a front ih =>
      cases front' with
      | nil =>
          obtain ⟨rfl, -⟩ := List.cons.inj h
          exact absurd List.mem_cons_self hfront
      | cons a' front' =>
          obtain ⟨rfl, htail⟩ := List.cons.inj h
          obtain ⟨rfl, hrest⟩ := ih (List.not_mem_of_not_mem_cons hfront)
            (List.not_mem_of_not_mem_cons hfront') htail
          exact ⟨rfl, hrest⟩

/-- All codes have one width, and no two elements have the same code. -/
structure Coded (encode : α → List β) (width : Nat) : Prop where
  length : ∀ a, (encode a).length = width
  injective : Function.Injective encode
  positive : 0 < width

namespace Coded

variable {encode : α → List β} {width : Nat}

section

variable (hcoded : Coded encode width)

include hcoded

theorem length_flatMap (values : List α) :
    (values.flatMap encode).length = values.length * width := by
  induction values with
  | nil => simp
  | cons value values ih =>
      simp only [List.flatMap_cons, List.length_append, ih, hcoded.length, List.length_cons]
      rw [Nat.succ_mul, Nat.add_comm]

theorem flatMap_append_inj {first second : List α} {left right : List β}
    (hlength : first.length = second.length)
    (h : first.flatMap encode ++ left = second.flatMap encode ++ right) :
    first = second ∧ left = right := by
  induction first generalizing second with
  | nil =>
      rw [List.eq_nil_of_length_eq_zero hlength.symm] at h ⊢
      exact ⟨rfl, h⟩
  | cons value first ih =>
      cases second with
      | nil => cases hlength
      | cons value' second =>
          rw [List.flatMap_cons, List.flatMap_cons, List.append_assoc, List.append_assoc] at h
          obtain ⟨hhead, htail⟩ :=
            List.append_inj h ((hcoded.length value).trans (hcoded.length value').symm)
          obtain ⟨rfl, hrest⟩ := ih (Nat.succ.inj hlength) htail
          exact ⟨by rw [hcoded.injective hhead], hrest⟩

theorem flatMap_injective {first second : List α} (h : first.flatMap encode = second.flatMap encode) :
    first = second := by
  have hlength := congrArg List.length h
  rw [hcoded.length_flatMap, hcoded.length_flatMap] at hlength
  have h' : first.flatMap encode ++ [] = second.flatMap encode ++ [] := by rw [h]
  exact (hcoded.flatMap_append_inj (Nat.eq_of_mul_eq_mul_right hcoded.positive hlength) h').1

/-- Where a sequence ends first, the other goes on with what follows it. -/
theorem flatMap_append_of_le {first second : List α} {left right : List β}
    (hle : first.length ≤ second.length)
    (h : first.flatMap encode ++ left = second.flatMap encode ++ right) :
    ∃ more, second = first ++ more ∧ left = more.flatMap encode ++ right := by
  have hcut : (second.take first.length).flatMap encode ++
      ((second.drop first.length).flatMap encode ++ right) = second.flatMap encode ++ right := by
    rw [← List.append_assoc, ← List.flatMap_append, List.take_append_drop]
  obtain ⟨hfirst, hleft⟩ :=
    hcoded.flatMap_append_inj (by rw [List.length_take]; omega) (h.trans hcut.symm)
  refine ⟨second.drop first.length, ?_, hleft⟩
  nth_rewrite 1 [hfirst]
  rw [List.take_append_drop]

/-- What stands before a sequence that ends another one encodes the rest of it. -/
theorem flatMap_eq_append {values rest : List α} {front : List β}
    (h : values.flatMap encode = front ++ rest.flatMap encode) :
    ∃ head, values = head ++ rest ∧ front = head.flatMap encode := by
  have hlength := congrArg List.length h
  rw [List.length_append, hcoded.length_flatMap, hcoded.length_flatMap] at hlength
  have hle : rest.length ≤ values.length := by
    by_contra hlt
    have := Nat.mul_lt_mul_of_pos_right (Nat.lt_of_not_le hlt) hcoded.positive
    omega
  set head := values.take (values.length - rest.length)
  set tail := values.drop (values.length - rest.length)
  have hvalues : values = head ++ tail := (List.take_append_drop _ _).symm
  have htail : tail.length = rest.length := by
    rw [List.length_drop]
    omega
  rw [hvalues, List.flatMap_append] at h
  have hsame : (tail.flatMap encode).length = (rest.flatMap encode).length := by
    rw [hcoded.length_flatMap, hcoded.length_flatMap, htail]
  obtain ⟨hfront, hback⟩ := List.append_inj' h hsame
  refine ⟨head, ?_, hfront.symm⟩
  rw [hvalues, hcoded.flatMap_injective hback]

end

theorem putUint32 : Coded putUint32 4 where
  length _ := rfl
  injective first second h := by
    have hword := congrArg uint32 h
    rwa [uint32_putUint32, uint32_putUint32] at hword
  positive := by decide

end Coded

end Joined

/-! ## Character tables -/

/-- The tables of one version of Unicode. -/
structure Unicode where
  isUpper : Char → Bool
  isLower : Char → Bool
  isDigit : Char → Bool
  isPunct : Char → Bool
  isSymbol : Char → Bool
  isControl : Char → Bool
  toLower : Char → Char
  toLower_ascii : ∀ c, c.val < 128 → toLower c = c.toLower
  toLower_not_upper : ∀ c, (toLower c).isUpper = false

namespace Unicode

variable (unicode : Unicode)

theorem toLower_of_not_upper {c : Char} (hascii : c.val < 128) (hupper : c.isUpper = false) :
    unicode.toLower c = c := by
  rw [unicode.toLower_ascii c hascii, Char.toLower, dif_neg]
  simpa [Char.isUpper] using hupper

/-- The mapping leaves a lower-case text of ASCII characters alone. -/
theorem map_toLower_of_ascii {text : List Char}
    (htext : ∀ c ∈ text.map unicode.toLower, c.val < 128) :
    (text.map unicode.toLower).map unicode.toLower = text.map unicode.toLower := by
  rw [List.map_congr_left (g := id), List.map_id]
  intro c hc
  obtain ⟨c', hc', rfl⟩ := List.mem_map.mp hc
  exact unicode.toLower_of_not_upper (htext _ hc) (unicode.toLower_not_upper c')

theorem toLower_isUpper (c : Char) : c.toLower.isUpper = false := by
  unfold Char.toLower
  split
  next hupper =>
    obtain ⟨hlow, hhigh⟩ := hupper
    simp only [Char.isUpper, ge_iff_le, UInt32.le_iff_toNat_le, UInt32.toNat_add] at hlow hhigh ⊢
    simp at hlow hhigh ⊢
    omega
  next hupper => simpa [Char.isUpper] using hupper

/-- The tables as far as ASCII goes. -/
def ascii : Unicode where
  isUpper := Char.isUpper
  isLower := Char.isLower
  isDigit := Char.isDigit
  isPunct c := "!\"#%&'()*,-./:;?@[\\]_{}".toList.contains c
  isSymbol c := "$+<=>^`|~".toList.contains c
  isControl c := c.val < 32 || c.val = 127
  toLower := Char.toLower
  toLower_ascii _ _ := rfl
  toLower_not_upper := toLower_isUpper

end Unicode

end Foundation
