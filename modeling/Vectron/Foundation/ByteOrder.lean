import Vectron.Foundation.Reader

/-! # The order of byte strings, and decimal numbers in it

Byte strings are compared byte by byte, a string before its extensions. Decimal
numbers compare as numbers when they have the same number of digits, and only then. What
is written without leading zeros is read back, and has digits only.
-/

namespace Foundation

instance byteLinearOrder : LinearOrder UInt8 where
  le_refl _ := UInt8.le_refl _
  le_trans _ _ _ := UInt8.le_trans
  lt_iff_le_not_ge first second := by
    rw [UInt8.not_le]
    exact ⟨fun hlt => ⟨UInt8.le_of_lt hlt, hlt⟩, fun h => h.2⟩
  le_antisymm _ _ := UInt8.le_antisymm
  le_total := UInt8.le_total
  toDecidableLE := inferInstance

section Lexicographic

variable {α : Type} [LinearOrder α]

/-- Strings that start with parts of one length compare by these parts first. -/
theorem append_lt_append_iff {first second : List α} (hlength : first.length = second.length)
    (left right : List α) :
    first ++ left < second ++ right ↔ first < second ∨ first = second ∧ left < right := by
  induction first generalizing second with
  | nil =>
      rw [List.eq_nil_of_length_eq_zero hlength.symm]
      simp
  | cons head first ih =>
      cases second with
      | nil => cases hlength
      | cons head' second =>
          have htail := ih (Nat.succ.inj hlength)
          simp only [List.cons_append, List.cons_lt_cons_iff, htail, List.cons.injEq]
          tauto

theorem append_left_lt_iff (front left right : List α) :
    front ++ left < front ++ right ↔ left < right := by
  rw [append_lt_append_iff rfl]
  simp

theorem append_left_le_iff (front left right : List α) :
    front ++ left ≤ front ++ right ↔ left ≤ right := by
  rw [← not_lt, ← not_lt, append_left_lt_iff]

theorem le_append_right (front rest : List α) : front ≤ front ++ rest := by
  have hle : front ++ [] ≤ front ++ rest :=
    (append_left_le_iff front [] rest).mpr (not_lt.mp (List.not_lt_nil rest))
  rwa [List.append_nil] at hle

end Lexicographic

/-! ## Decimal numbers -/

/-- The character of a decimal digit. -/
def digitChar (digit : Nat) : UInt8 := UInt8.ofNat (48 + digit)

/-- A number in exactly `width` digits, with leading zeros. -/
def paddedDecimal : Nat → Nat → Bytes
  | 0, _ => []
  | width + 1, n => paddedDecimal width (n / 10) ++ [digitChar (n % 10)]

/-- A number in as many digits as it needs. -/
def decimal (n : Nat) : Bytes :=
  if n = 0 then [digitChar 0] else ((Nat.digits 10 n).map digitChar).reverse

@[simp] theorem paddedDecimal_length (width n : Nat) : (paddedDecimal width n).length = width := by
  induction width generalizing n with
  | zero => rfl
  | succ width ih => simp [paddedDecimal, ih]

theorem digitChar_lt_iff {first second : Nat} (hfirst : first < 10) (hsecond : second < 10) :
    digitChar first < digitChar second ↔ first < second := by
  rw [UInt8.lt_iff_toNat_lt, digitChar, digitChar, UInt8.toNat_ofNat', UInt8.toNat_ofNat']
  omega

theorem digitChar_toNat {digit : Nat} (hlt : digit < 10) :
    (digitChar digit).toNat = 48 + digit := by
  rw [digitChar, UInt8.toNat_ofNat']
  omega

section

variable {width first second : Nat} (hfirst : first < 10 ^ width) (hsecond : second < 10 ^ width)

include hfirst hsecond

theorem paddedDecimal_injective (heq : paddedDecimal width first = paddedDecimal width second) :
    first = second := by
  induction width generalizing first second with
  | zero =>
      rw [pow_zero] at hfirst hsecond
      omega
  | succ width ih =>
      rw [pow_succ] at hfirst hsecond
      obtain ⟨hinit, hlast⟩ := List.append_inj heq (by simp)
      have hquotient := ih (by omega) (by omega) hinit
      have hdigit := congrArg UInt8.toNat (List.cons.inj hlast).1
      rw [digitChar_toNat (Nat.mod_lt _ (by decide)),
        digitChar_toNat (Nat.mod_lt _ (by decide))] at hdigit
      omega

/-- Numbers of one width are ordered as their digits are. -/
theorem paddedDecimal_lt_iff :
    paddedDecimal width first < paddedDecimal width second ↔ first < second := by
  induction width generalizing first second with
  | zero =>
      rw [pow_zero] at hfirst hsecond
      simp [paddedDecimal]
      omega
  | succ width ih =>
      rw [pow_succ] at hfirst hsecond
      have hfirst' : first / 10 < 10 ^ width := by omega
      have hsecond' : second / 10 < 10 ^ width := by omega
      have hinit : paddedDecimal width (first / 10) = paddedDecimal width (second / 10) ↔
          first / 10 = second / 10 :=
        ⟨paddedDecimal_injective hfirst' hsecond', fun heq => by rw [heq]⟩
      rw [paddedDecimal, paddedDecimal, append_lt_append_iff (by simp), ih hfirst' hsecond',
        hinit, List.cons_lt_cons_iff,
        digitChar_lt_iff (Nat.mod_lt _ (by decide)) (Nat.mod_lt _ (by decide))]
      simp only [lt_irrefl, and_false, or_false]
      omega

end

/-- A number with no leading zeros has the digits its size gives it. -/
theorem decimal_eq_paddedDecimal {width n : Nat} (hge : 10 ^ width ≤ n)
    (hlt : n < 10 ^ (width + 1)) : decimal n = paddedDecimal (width + 1) n := by
  have hpos : 0 < n := lt_of_lt_of_le (by positivity) hge
  rw [decimal, if_neg hpos.ne']
  induction width generalizing n with
  | zero =>
      have hlt' : n < 10 := by simpa using hlt
      rw [Nat.digits_of_lt 10 n hpos.ne' hlt']
      simp [paddedDecimal, Nat.mod_eq_of_lt hlt']
  | succ width ih =>
      have hge' : 10 ^ width ≤ n / 10 := by rw [pow_succ] at hge; omega
      have hlt' : n / 10 < 10 ^ (width + 1) := by rw [pow_succ] at hlt; omega
      have hpos' : 0 < n / 10 := lt_of_lt_of_le (by positivity) hge'
      rw [Nat.digits_def' (by decide) hpos, List.map_cons, List.reverse_cons, ih hge' hlt' hpos']
      rfl

/-- Whether a byte is a decimal digit. -/
def isDigit (byte : UInt8) : Bool := decide (48 ≤ byte) && decide (byte ≤ 57)

/-- Read digits behind a number that was read before them. -/
def parseDigits : Nat → Bytes → Option Nat
  | n, [] => some n
  | n, byte :: rest =>
      if isDigit byte then parseDigits (10 * n + (byte.toNat - 48)) rest else none

/-- Read an unsigned decimal number; there must be a digit. -/
def parseDecimal (bytes : Bytes) : Option Nat :=
  if bytes = [] then none else parseDigits 0 bytes

theorem parseDigits_append (n : Nat) (front rest : Bytes) :
    parseDigits n (front ++ rest) = (parseDigits n front).bind fun m => parseDigits m rest := by
  induction front generalizing n with
  | nil => rfl
  | cons byte front ih =>
      rw [List.cons_append, parseDigits, parseDigits]
      split
      · exact ih _
      · rfl

theorem isDigit_digitChar {digit : Nat} (hlt : digit < 10) : isDigit (digitChar digit) = true := by
  interval_cases digit <;> decide

theorem parseDigits_paddedDecimal {width n : Nat} (hlt : n < 10 ^ width) :
    parseDigits 0 (paddedDecimal width n) = some n := by
  induction width generalizing n with
  | zero =>
      rw [pow_zero] at hlt
      simp [paddedDecimal, parseDigits]
      omega
  | succ width ih =>
      have hlt' : n / 10 < 10 ^ width := by rw [pow_succ] at hlt; omega
      have hmod : n % 10 < 10 := Nat.mod_lt _ (by decide)
      rw [paddedDecimal, parseDigits_append, ih hlt', Option.bind_some, parseDigits,
        if_pos (isDigit_digitChar hmod), digitChar_toNat hmod, parseDigits]
      congr 1
      omega

theorem parseDecimal_paddedDecimal {width n : Nat} (hlt : n < 10 ^ (width + 1)) :
    parseDecimal (paddedDecimal (width + 1) n) = some n := by
  have hne : paddedDecimal (width + 1) n ≠ [] := by simp [paddedDecimal]
  rw [parseDecimal, if_neg hne, parseDigits_paddedDecimal hlt]

/-- Every byte of a decimal number is a digit. -/
theorem isDigit_of_mem_paddedDecimal {width n : Nat} {byte : UInt8}
    (hmem : byte ∈ paddedDecimal width n) : isDigit byte = true := by
  induction width generalizing n with
  | zero => cases hmem
  | succ width ih =>
      rcases List.mem_append.mp hmem with hmem | hmem
      · exact ih hmem
      · rw [List.mem_singleton.mp hmem]
        exact isDigit_digitChar (Nat.mod_lt _ (by decide))

/-- `strconv.ParseInt(s, 10, 64)` without the cause of a failure: an optional sign and
digits of a number in range. -/
def parseInt64 : Bytes → Option Int
  | [] => none
  | byte :: rest =>
      if byte = '+'.toUInt8 then
        (parseDecimal rest).bind fun n => if n < 2 ^ 63 then some n else none
      else if byte = '-'.toUInt8 then
        (parseDecimal rest).bind fun n => if n ≤ 2 ^ 63 then some (-n) else none
      else (parseDecimal (byte :: rest)).bind fun n => if n < 2 ^ 63 then some n else none

theorem parseInt64_paddedDecimal {width n : Nat} (hlt : n < 10 ^ (width + 1)) (hn : n < 2 ^ 63) :
    parseInt64 (paddedDecimal (width + 1) n) = some (n : Int) := by
  have hparse := parseDecimal_paddedDecimal hlt
  cases hbytes : paddedDecimal (width + 1) n with
  | nil =>
      have hlength := paddedDecimal_length (width + 1) n
      rw [hbytes] at hlength
      cases hlength
  | cons byte rest =>
      have hdigit : isDigit byte = true :=
        isDigit_of_mem_paddedDecimal (hbytes ▸ List.mem_cons_self)
      have hplus : byte ≠ '+'.toUInt8 := by
        rintro rfl
        revert hdigit
        decide
      have hminus : byte ≠ '-'.toUInt8 := by
        rintro rfl
        revert hdigit
        decide
      rw [hbytes] at hparse
      rw [parseInt64, if_neg hplus, if_neg hminus, hparse, Option.bind_some, if_pos hn]

/-! ### Numbers of any size -/

theorem exists_paddedDecimal (n : Nat) :
    ∃ width, n < 10 ^ (width + 1) ∧ decimal n = paddedDecimal (width + 1) n := by
  rcases Nat.eq_zero_or_pos n with rfl | hpos
  · exact ⟨0, by decide, rfl⟩
  · have hlt := Nat.lt_pow_succ_log_self (show 1 < 10 by decide) n
    have hge := Nat.pow_log_le_self 10 hpos.ne'
    exact ⟨Nat.log 10 n, hlt, decimal_eq_paddedDecimal hge hlt⟩

theorem isDigit_of_mem_decimal {n : Nat} {byte : UInt8} (hmem : byte ∈ decimal n) :
    isDigit byte = true := by
  obtain ⟨width, _, heq⟩ := exists_paddedDecimal n
  rw [heq] at hmem
  exact isDigit_of_mem_paddedDecimal hmem

theorem notMem_decimal {byte : UInt8} (hbyte : isDigit byte = false) (n : Nat) :
    byte ∉ decimal n := by
  intro hmem
  rw [isDigit_of_mem_decimal hmem] at hbyte
  cases hbyte

theorem parseDecimal_decimal (n : Nat) : parseDecimal (decimal n) = some n := by
  obtain ⟨width, hwidth, heq⟩ := exists_paddedDecimal n
  rw [heq]
  exact parseDecimal_paddedDecimal hwidth

theorem parseInt64_decimal {n : Nat} (hlt : n < 2 ^ 63) :
    parseInt64 (decimal n) = some (n : Int) := by
  obtain ⟨width, hwidth, heq⟩ := exists_paddedDecimal n
  rw [heq]
  exact parseInt64_paddedDecimal hwidth hlt

/-- The first byte of a number is a digit. -/
theorem decimal_eq_cons (n : Nat) : ∃ byte rest, decimal n = byte :: rest ∧ isDigit byte = true := by
  cases hbytes : decimal n with
  | nil =>
      have hparse := parseDecimal_decimal n
      rw [hbytes] at hparse
      cases hparse
  | cons byte rest =>
      exact ⟨byte, rest, rfl, isDigit_of_mem_decimal (hbytes ▸ List.mem_cons_self)⟩

theorem decimal_ne_nil (n : Nat) : decimal n ≠ [] := by
  obtain ⟨byte, rest, heq, _⟩ := decimal_eq_cons n
  rw [heq]
  exact List.cons_ne_nil byte rest

theorem decimal_injective {first second : Nat} (heq : decimal first = decimal second) :
    first = second := by
  have hparse := congrArg parseDecimal heq
  rw [parseDecimal_decimal, parseDecimal_decimal] at hparse
  exact Option.some.inj hparse

/-- `strings.SplitN(s, sep, 2)` for a separator of one byte, if there are two parts. -/
def cutAt (sep : UInt8) : Bytes → Option (Bytes × Bytes)
  | [] => none
  | byte :: rest =>
      if byte = sep then some ([], rest)
      else (cutAt sep rest).map fun parts => (byte :: parts.1, parts.2)

theorem cutAt_append {sep : UInt8} {front : Bytes} (hfront : sep ∉ front) (rest : Bytes) :
    cutAt sep (front ++ sep :: rest) = some (front, rest) := by
  induction front with
  | nil => simp [cutAt]
  | cons byte front ih =>
      have hbyte : byte ≠ sep := fun heq => hfront (heq ▸ List.mem_cons_self)
      rw [List.cons_append, cutAt, if_neg hbyte, ih fun hmem => hfront (List.mem_cons_of_mem _ hmem)]
      rfl

theorem cutAt_eq_none {sep : UInt8} {bytes : Bytes} (hbytes : sep ∉ bytes) :
    cutAt sep bytes = none := by
  induction bytes with
  | nil => rfl
  | cons byte bytes ih =>
      have hbyte : byte ≠ sep := fun heq => hbytes (heq ▸ List.mem_cons_self)
      rw [cutAt, if_neg hbyte, ih fun hmem => hbytes (List.mem_cons_of_mem _ hmem)]
      rfl

/-- `strings.TrimSuffix`. -/
def trimEnd (back bytes : Bytes) : Bytes :=
  if back.isSuffixOf bytes then bytes.take (bytes.length - back.length) else bytes

/-- `strings.TrimPrefix`. -/
def trimFront (front bytes : Bytes) : Bytes :=
  if front.isPrefixOf bytes then bytes.drop front.length else bytes

theorem trimEnd_append (front back : Bytes) : trimEnd back (front ++ back) = front := by
  rw [trimEnd, if_pos (by simp)]
  simp

theorem trimFront_append (front back : Bytes) : trimFront front (front ++ back) = back := by
  rw [trimFront, if_pos (by simp)]
  simp

end Foundation
