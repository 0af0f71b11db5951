import Vectron.Foundation.Text
import Vectron.Placement.Placement

/-! # Input validation

The checks of `auth/service/internal/middleware/validation.go`. The addresses and names come
from gRPC messages and are valid UTF-8, so a text is a list of characters; lengths count
bytes. The regular expressions are read as what they accept.
-/

namespace Vectron.Auth

open Foundation Placement

/-- The gRPC status codes in use. -/
inductive Code where
  | invalidArgument
  | notFound
  | alreadyExists
  | permissionDenied
  | unauthenticated
  | internal
deriving DecidableEq, Repr

/-- Letters of ASCII. -/
def isLetter (c : Char) : Bool := c.isUpper || c.isLower

/-- The class of the local part of an address, `[a-zA-Z0-9._%+-]`. -/
def isLocalChar (c : Char) : Bool := isLetter c || c.isDigit || ['.', '_', '%', '+', '-'].contains c

/-- The class of the domain, `[a-zA-Z0-9.-]`. -/
def isDomainChar (c : Char) : Bool := isLetter c || c.isDigit || ['.', '-'].contains c

/-- `emailRegex`, `^[a-zA-Z0-9._%+-]+@[a-zA-Z0-9.-]+\.[a-zA-Z]{2,}$`. The classes leave one
way to split the text: at the first `@` and at the last dot. -/
def emailRegex (text : List Char) : Bool :=
  match text.dropWhile (· ≠ '@') with
  | [] => false
  | _ :: rest =>
      match rest.reverse.dropWhile (· ≠ '.') with
      | [] => false
      | _ :: domain =>
          let name := text.takeWhile (· ≠ '@')
          let tld := rest.reverse.takeWhile (· ≠ '.')
          !name.isEmpty && name.all isLocalChar && !domain.isEmpty && domain.all isDomainChar &&
            decide (2 ≤ tld.length) && tld.all isLetter

/-- `apiKeyNameRegex`, `^[a-zA-Z0-9\s\-_]+$`. -/
def apiKeyNameRegex (text : List Char) : Bool :=
  !text.isEmpty && text.all fun c =>
    isLetter c || c.isDigit || ['\t', '\n', '\x0c', '\r', ' ', '-', '_'].contains c

def maxEmailLength : Nat := 254
def maxPasswordLength : Nat := 128
def minPasswordLength : Nat := 8
def maxAPIKeyNameLength : Nat := 50

section Checks

variable (unicode : Unicode)

/-- `NormalizeEmail`, which `ValidateEmail` repeats. -/
def normalizeEmail (email : String) : String :=
  String.ofList ((trimSpace email.toList).map unicode.toLower)

/-- `ValidateEmail`; a message is an error with the code `InvalidArgument`. -/
def validateEmail (email : String) : Option String :=
  if email = "" then some "required field is empty"
  else if email.utf8ByteSize > maxEmailLength then some "field exceeds maximum length"
  else if !emailRegex (normalizeEmail unicode email).toList then some "invalid email format"
  else none

/-- The character types of a password. -/
structure CharTypes where
  hasUpper : Bool := false
  hasLower : Bool := false
  hasDigit : Bool := false
  hasSpecial : Bool := false
deriving DecidableEq

def CharTypes.note (types : CharTypes) (char : Char) : CharTypes :=
  if unicode.isUpper char then { types with hasUpper := true }
  else if unicode.isLower char then { types with hasLower := true }
  else if unicode.isDigit char then { types with hasDigit := true }
  else if unicode.isPunct char || unicode.isSymbol char then { types with hasSpecial := true }
  else types

def CharTypes.count (types : CharTypes) : Nat :=
  types.hasUpper.toNat + types.hasLower.toNat + types.hasDigit.toNat + types.hasSpecial.toNat

/-- The errors that `ValidatePassword` collects; the password is valid if there are none. -/
def validatePassword (password : String) : List String :=
  if password = "" then ["password is required"]
  else if password.utf8ByteSize > maxPasswordLength then
    ["password is too long (max 128 characters)"]
  else
    (if password.utf8ByteSize ≥ minPasswordLength then []
      else ["password must be at least 8 characters long"]) ++
    (if (password.toList.foldl (CharTypes.note unicode) {}).count < 3 then
      ["password must contain at least 3 of: uppercase, lowercase, digits, special characters"]
      else [])

def validatePasswordStrict (password : String) : Option String :=
  match validatePassword unicode password with
  | [] => none
  | errors => some ("password validation failed: " ++ "; ".intercalate errors)

def validateAPIKeyName (name : String) : Option String :=
  if trimSpace name.toList = [] then some "API key name is required"
  else if name.utf8ByteSize > maxAPIKeyNameLength then
    some s!"API key name exceeds maximum length of {maxAPIKeyNameLength} characters"
  else if !apiKeyNameRegex name.toList then
    some "API key name can only contain letters, numbers, spaces, hyphens, and underscores"
  else none

def sanitizeString (input : String) : String :=
  String.ofList (((trimSpace input.toList).filter (· ≠ '\x00')).filter fun c =>
    c = '\n' || c = '\t' || c = '\r' || !unicode.isControl c)

end Checks

/-! ## Admitted addresses -/

/-- What the expression says: a local part, an `@`, a domain, a dot and two letters or
more. -/
theorem emailRegex_eq_true {text : List Char} (hmatches : emailRegex text = true) :
    ∃ name domain tld, text = name ++ '@' :: (domain ++ '.' :: tld) ∧
      (∀ c ∈ name, isLocalChar c = true) ∧ (∀ c ∈ domain, isDomainChar c = true) ∧
      (∀ c ∈ tld, isLetter c = true) := by
  unfold emailRegex at hmatches
  split at hmatches
  next => cases hmatches
  next sign rest hrest =>
    split at hmatches
    next => cases hmatches
    next dot domain hdomain =>
      have hsign : sign = '@' := by
        have hhead := List.head?_dropWhile_not (· ≠ '@') text
        simp only [hrest] at hhead
        simpa using hhead
      have hdot : dot = '.' := by
        have hhead := List.head?_dropWhile_not (· ≠ '.') rest.reverse
        simp only [hdomain] at hhead
        simpa using hhead
      subst hsign hdot
      simp only [Bool.and_eq_true, List.all_eq_true, decide_eq_true_eq] at hmatches
      obtain ⟨⟨⟨⟨⟨_, hname⟩, _⟩, hdomain'⟩, _⟩, htld⟩ := hmatches
      refine ⟨text.takeWhile (· ≠ '@'), domain.reverse,
        (rest.reverse.takeWhile (· ≠ '.')).reverse, ?_, hname, ?_, ?_⟩
      · have hsplit := List.takeWhile_append_dropWhile (p := (· ≠ '@')) (l := text)
        have hsplit' := List.takeWhile_append_dropWhile (p := (· ≠ '.')) (l := rest.reverse)
        rw [hdomain] at hsplit'
        have hrest' : rest = domain.reverse ++ '.' ::
            (rest.reverse.takeWhile (· ≠ '.')).reverse := by
          conv_lhs => rw [← rest.reverse_reverse, ← hsplit']
          simp
        rw [← hrest', ← hrest, hsplit]
      · exact fun c hc => hdomain' c (List.mem_reverse.mp hc)
      · exact fun c hc => htld c (List.mem_reverse.mp hc)

/-- A printable ASCII character other than the space. -/
def Graphic (c : Char) : Prop := 33 ≤ c.val.toNat ∧ c.val.toNat ≤ 126

instance (c : Char) : Decidable (Graphic c) :=
  inferInstanceAs (Decidable (_ ∧ _))

theorem Graphic.ascii {c : Char} (hgraphic : Graphic c) : c.val < 128 := by
  rw [UInt32.lt_iff_toNat_lt]
  exact Nat.lt_of_le_of_lt hgraphic.2 (by decide)

theorem Graphic.not_space {c : Char} (hgraphic : Graphic c) : isSpace c = false := by
  obtain ⟨hlow, hhigh⟩ := hgraphic
  simp only [isSpace, Bool.or_eq_false_iff, decide_eq_false_iff_not, List.mem_cons,
    List.not_mem_nil, or_false, Bool.and_eq_false_iff, ← UInt32.toNat_inj,
    UInt32.le_iff_toNat_le, UInt32.reduceToNat]
  omega

theorem graphic_of_isLetter {c : Char} (hletter : isLetter c = true) : Graphic c := by
  simp only [isLetter, Char.isUpper, Char.isLower, Bool.or_eq_true, Bool.and_eq_true,
    decide_eq_true_eq, ge_iff_le, UInt32.le_iff_toNat_le] at hletter
  have hA : 'A'.val.toNat = 65 := rfl
  have hZ : 'Z'.val.toNat = 90 := rfl
  have ha : 'a'.val.toNat = 97 := rfl
  have hz : 'z'.val.toNat = 122 := rfl
  rw [Graphic]
  omega

theorem graphic_of_isDigit {c : Char} (hdigit : c.isDigit = true) : Graphic c := by
  simp only [Char.isDigit, Bool.and_eq_true, decide_eq_true_eq, ge_iff_le,
    UInt32.le_iff_toNat_le] at hdigit
  have hzero : '0'.val.toNat = 48 := rfl
  have hnine : '9'.val.toNat = 57 := rfl
  rw [Graphic]
  omega

/-- An admitted address consists of printable ASCII characters without spaces. -/
theorem graphic_of_emailRegex {text : List Char} (hmatches : emailRegex text = true) :
    ∀ c ∈ text, Graphic c := by
  obtain ⟨name, domain, tld, rfl, hname, hdomain, htld⟩ := emailRegex_eq_true hmatches
  have hclass : ∀ (marks : List Char) c, (∀ mark ∈ marks, Graphic mark) →
      (isLetter c || c.isDigit || marks.contains c) = true → Graphic c := by
    intro marks c hmarks hc
    simp only [Bool.or_eq_true, List.contains_iff_mem] at hc
    rcases hc with (hletter | hdigit) | hmark
    · exact graphic_of_isLetter hletter
    · exact graphic_of_isDigit hdigit
    · exact hmarks c hmark
  have hlocal : ∀ mark ∈ ['.', '_', '%', '+', '-'], Graphic mark := by simp [Graphic]
  have hdots : ∀ mark ∈ ['.', '-'], Graphic mark := by simp [Graphic]
  intro c hc
  simp only [List.mem_append, List.mem_cons] at hc
  rcases hc with hc | rfl | hc | rfl | hc
  · exact hclass _ c hlocal (hname c hc)
  · decide
  · exact hclass _ c hdots (hdomain c hc)
  · decide
  · exact graphic_of_isLetter (htld c hc)

theorem trimSpace_of_graphic {text : List Char} (htext : ∀ c ∈ text, Graphic c) :
    trimSpace text = text := by
  have hkeep : ∀ text : List Char, (∀ c ∈ text, Graphic c) → text.dropWhile isSpace = text := by
    intro text htext
    cases text with
    | nil => rfl
    | cons c rest =>
        rw [List.dropWhile_cons_of_neg]
        simp [(htext c List.mem_cons_self).not_space]
  rw [trimSpace, hkeep text htext,
    hkeep text.reverse fun c hc => htext c (List.mem_reverse.mp hc), List.reverse_reverse]

section

variable {unicode : Unicode} {email : String} (hvalid : validateEmail unicode email = none)

include hvalid

theorem emailRegex_of_valid :
    emailRegex (normalizeEmail unicode email).toList = true := by
  unfold validateEmail at hvalid
  split at hvalid
  · cases hvalid
  · split at hvalid
    · cases hvalid
    · split at hvalid
      · cases hvalid
      next hregex => simpa using hregex

/-- The normal form of an admitted address is its own normal form. -/
theorem normalizeEmail_idem :
    normalizeEmail unicode (normalizeEmail unicode email) = normalizeEmail unicode email := by
  have hgraphic := graphic_of_emailRegex (emailRegex_of_valid hvalid)
  rw [normalizeEmail, trimSpace_of_graphic hgraphic]
  simp only [normalizeEmail, String.toList_ofList] at hgraphic ⊢
  rw [unicode.map_toLower_of_ascii fun c hc => (hgraphic c hc).ascii]

end

end Vectron.Auth
