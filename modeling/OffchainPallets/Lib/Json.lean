import Mathlib.Algebra.Field.Rat
import Mathlib.Data.List.Basic
import Mathlib.Tactic.Common
import Mathlib.Tactic.FieldSimp
import Mathlib.Tactic.Linarith
import Mathlib.Tactic.Positivity

/-!
# The concrete syntax of JSON

JSON documents as they are spelled: with every way to write a character of a string (`StringItem`)
and a number (`Numeral`), and with blanks wherever they may stand. `text` is the spelling, and the
texts of these trees are the well-formed documents. Strings are those that denote Unicode text:
surrogates are escaped in pairs.

What a tree denotes: `Literal.decoded` and `Numeral.value`. A literal that escapes nothing is
spelled as what it denotes (`inner_eq_decoded`).
-/

namespace Lib.Json

/-! ## Strings -/

/-- A hexadecimal digit. A letter is written in one of two cases. -/
structure HexDigit where
  value : Fin 16
  upper : Bool

def HexDigit.char (d : HexDigit) : Char :=
  if d.value.val < 10 then Char.ofNat (48 + d.value.val)
  else Char.ofNat ((if d.upper then 55 else 87) + d.value.val)

/-- Four hexadecimal digits, a unit of UTF-16. -/
structure CodeUnit where
  a : HexDigit
  b : HexDigit
  c : HexDigit
  d : HexDigit

namespace CodeUnit

def value (u : CodeUnit) : ℕ :=
  ((u.a.value.val * 16 + u.b.value.val) * 16 + u.c.value.val) * 16 + u.d.value.val

def text (u : CodeUnit) : List Char := ['\x5c', 'u', u.a.char, u.b.char, u.c.char, u.d.char]

end CodeUnit

/-- The escape sequences of two characters. -/
inductive ShortEscape where
  | quotationMark
  | reverseSolidus
  | solidus
  | backspace
  | formFeed
  | lineFeed
  | carriageReturn
  | tab

namespace ShortEscape

/-- The character after the backslash. -/
def letter : ShortEscape → Char
  | .quotationMark => '\x22'
  | .reverseSolidus => '\x5c'
  | .solidus => '/'
  | .backspace => 'b'
  | .formFeed => 'f'
  | .lineFeed => 'n'
  | .carriageReturn => 'r'
  | .tab => 't'

def decoded : ShortEscape → Char
  | .quotationMark => '\x22'
  | .reverseSolidus => '\x5c'
  | .solidus => '/'
  | .backspace => '\x08'
  | .formFeed => '\x0c'
  | .lineFeed => '\x0a'
  | .carriageReturn => '\x0d'
  | .tab => '\x09'

end ShortEscape

/-- One character of a string, as it is written. -/
inductive StringItem where
  | plain (c : Char) (h : 32 ≤ c.toNat ∧ c ≠ '\x22' ∧ c ≠ '\x5c')
  | short (e : ShortEscape)
  | unicode (u : CodeUnit) (h : u.value < 0xd800 ∨ 0xe000 ≤ u.value)
  | surrogates (high low : CodeUnit) (hhigh : 0xd800 ≤ high.value ∧ high.value < 0xdc00)
      (hlow : 0xdc00 ≤ low.value ∧ low.value < 0xe000)

namespace StringItem

def text : StringItem → List Char
  | .plain c _ => [c]
  | .short e => ['\x5c', e.letter]
  | .unicode u _ => u.text
  | .surrogates high low _ _ => high.text ++ low.text

def decoded : StringItem → Char
  | .plain c _ => c
  | .short e => e.decoded
  | .unicode u _ => Char.ofNat u.value
  | .surrogates high low _ _ =>
      Char.ofNat (0x10000 + (high.value - 0xd800) * 0x400 + (low.value - 0xdc00))

/-- The item is an escape sequence. -/
def escaped : StringItem → Bool
  | .plain _ _ => false
  | _ => true

end StringItem

/-- A string literal. -/
structure Literal where
  items : List StringItem

namespace Literal

/-- What is written between the quotation marks. -/
def inner (s : Literal) : List Char := s.items.flatMap StringItem.text

def text (s : Literal) : List Char := '\x22' :: (s.inner ++ ['\x22'])

def decoded (s : Literal) : List Char := s.items.map StringItem.decoded

/-- The literal contains an escape sequence. -/
def escaped (s : Literal) : Bool := s.items.any StringItem.escaped

/-- **A literal that escapes nothing** is spelled as what it denotes. -/
theorem inner_eq_decoded {s : Literal} (h : s.escaped = false) : s.inner = s.decoded := by
  rw [escaped, List.any_eq_false] at h
  have hitem : ∀ item ∈ s.items, item.text = [item.decoded] := by
    intro item hmem
    have hplain := h item hmem
    rcases item with ⟨c, hc⟩ | e | ⟨u, hu⟩ | ⟨high, low, hhigh, hlow⟩
    · rfl
    · simp [StringItem.escaped] at hplain
    · simp [StringItem.escaped] at hplain
    · simp [StringItem.escaped] at hplain
  rw [inner, decoded, List.map_eq_flatMap]
  exact List.flatMap_congr hitem

end Literal

/-! ## Numbers -/

/-- A digit may be written as a literal. -/
instance neZero_ten : NeZero 10 := ⟨by decide⟩

/-- The number that decimal digits spell. -/
def digitsValue (digits : List (Fin 10)) : ℕ := digits.foldl (fun n d => 10 * n + d.val) 0

theorem digitsValue_snoc (digits : List (Fin 10)) (d : Fin 10) :
    digitsValue (digits ++ [d]) = 10 * digitsValue digits + d.val := by
  unfold digitsValue
  rw [List.foldl_append]
  rfl

theorem digitsValue_lt (digits : List (Fin 10)) :
    digitsValue digits < 10 ^ digits.length := by
  induction digits using List.reverseRecOn with
  | nil => exact Nat.one_pos
  | append_singleton digits d ih =>
      have hd := d.isLt
      rw [digitsValue_snoc, List.length_append, List.length_singleton, pow_succ]
      omega

def digitsText (digits : List (Fin 10)) : List Char := digits.map fun d => Char.ofNat (48 + d.val)

/-- The digits after the point. -/
structure Fraction where
  digits : List (Fin 10)
  nonempty : digits ≠ []

def Fraction.text (f : Fraction) : List Char := '.' :: digitsText f.digits

/-- The exponent, with its sign if it has one: `true` for a minus. -/
structure Exponent where
  upper : Bool
  sign : Option Bool
  digits : List (Fin 10)
  nonempty : digits ≠ []

namespace Exponent

def text (e : Exponent) : List Char :=
  (if e.upper then 'E' else 'e') ::
    ((match e.sign with | none => [] | some true => ['-'] | some false => ['+']) ++
      digitsText e.digits)

def value (e : Exponent) : ℤ :=
  if e.sign = some true then -(digitsValue e.digits : ℤ) else digitsValue e.digits

end Exponent

/-- A number, as it is written: no zero comes before another digit of the integer part. -/
structure Numeral where
  negative : Bool
  integer : List (Fin 10)
  canonical : integer = [0] ∨ (integer ≠ [] ∧ integer.head? ≠ some 0)
  fraction : Option Fraction
  exponent : Option Exponent

namespace Numeral

/-- A zero alone may stand before the point. -/
theorem canonical_zero :
    ([0] : List (Fin 10)) = [0] ∨
      (([0] : List (Fin 10)) ≠ [] ∧ ([0] : List (Fin 10)).head? ≠ some 0) :=
  Or.inl rfl

def text (n : Numeral) : List Char :=
  (if n.negative then ['-'] else []) ++ digitsText n.integer ++
    (n.fraction.map Fraction.text).getD [] ++ (n.exponent.map Exponent.text).getD []

/-- The magnitude without the exponent. -/
def mantissa (n : Numeral) : ℚ :=
  digitsValue n.integer +
    (n.fraction.map fun f => (digitsValue f.digits / 10 ^ f.digits.length : ℚ)).getD 0

def value (n : Numeral) : ℚ :=
  (if n.negative then -1 else 1) * n.mantissa * 10 ^ (n.exponent.map Exponent.value).getD 0

/-- The digits after the point; none are written without a point. -/
def fractionDigits (n : Numeral) : List (Fin 10) := (n.fraction.map Fraction.digits).getD []

def exponentValue (n : Numeral) : ℤ := (n.exponent.map Exponent.value).getD 0

theorem mantissa_eq (n : Numeral) :
    n.mantissa = digitsValue n.integer +
      digitsValue n.fractionDigits / 10 ^ n.fractionDigits.length := by
  unfold mantissa fractionDigits
  cases n.fraction with
  | none => simp [digitsValue]
  | some f => rfl

theorem mantissa_nonneg (n : Numeral) : 0 ≤ n.mantissa := by
  rw [mantissa_eq]
  positivity

/-- A number without an integer part, if it is zero. -/
theorem integer_of_mantissa {n : Numeral} (h : n.mantissa = 0) : digitsValue n.integer = 0 := by
  rw [mantissa_eq] at h
  have hfraction : (0 : ℚ) ≤ digitsValue n.fractionDigits / 10 ^ n.fractionDigits.length := by
    positivity
  have hinteger : (digitsValue n.integer : ℚ) ≤ 0 := by linarith
  exact Nat.le_zero.mp (by exact_mod_cast hinteger)

/-- A minus makes no difference to a number that is not negative, since it is zero. -/
theorem value_of_nonneg {n : Numeral} (h : 0 ≤ n.value) :
    n.value = n.mantissa * 10 ^ n.exponentValue ∧ (n.negative = true → n.mantissa = 0) := by
  have hpower : (0 : ℚ) < 10 ^ n.exponentValue := zpow_pos (by norm_num) _
  have hvalue : n.value =
      (if n.negative then -1 else 1) * n.mantissa * 10 ^ n.exponentValue := rfl
  rw [hvalue] at h ⊢
  by_cases hneg : n.negative = true
  · rw [if_pos hneg] at h ⊢
    have hzero : n.mantissa = 0 := by
      by_contra hne
      have hpos : 0 < n.mantissa := lt_of_le_of_ne n.mantissa_nonneg (Ne.symm hne)
      have hproduct : 0 < n.mantissa * 10 ^ n.exponentValue := mul_pos hpos hpower
      linarith
    simp [hzero]
  · rw [if_neg hneg, one_mul]
    exact ⟨rfl, fun h => absurd h hneg⟩

/-- Neither a fraction nor an exponent is written. -/
def IsInteger (n : Numeral) : Prop := n.fraction = none ∧ n.exponent = none

instance (n : Numeral) : Decidable n.IsInteger :=
  decidable_of_iff (n.fraction.isNone ∧ n.exponent.isNone) (by simp [IsInteger])

theorem value_of_isInteger {n : Numeral} (h : n.IsInteger) :
    n.value = if n.negative then -(digitsValue n.integer : ℚ) else digitsValue n.integer := by
  rw [value, mantissa, h.1, h.2]
  split_ifs <;> simp

end Numeral

/-! ## Documents -/

/-- Insignificant white space. -/
inductive Blank where
  | space
  | tab
  | lineFeed
  | carriageReturn

def Blank.char : Blank → Char
  | .space => '\x20'
  | .tab => '\x09'
  | .lineFeed => '\x0a'
  | .carriageReturn => '\x0d'

def blanksText (blanks : List Blank) : List Char := blanks.map Blank.char

mutual

inductive Value where
  | string (s : Literal)
  | number (n : Numeral)
  | boolean (b : Bool)
  | null
  | array (pad : List Blank) (items : List Item)
  | object (pad : List Blank) (members : List Member)

/-- A value in an array. -/
inductive Item where
  | mk (before : List Blank) (value : Value) (after : List Blank)

/-- A member of an object. -/
inductive Member where
  | mk (before : List Blank) (key : Literal) (afterKey beforeValue : List Blank) (value : Value)
      (after : List Blank)

end

mutual

def Value.text : Value → List Char
  | .string s => s.text
  | .number n => n.text
  | .boolean true => ['t', 'r', 'u', 'e']
  | .boolean false => ['f', 'a', 'l', 's', 'e']
  | .null => ['n', 'u', 'l', 'l']
  | .array pad items => '[' :: (blanksText pad ++ itemsText items ++ [']'])
  | .object pad members => '\x7b' :: (blanksText pad ++ membersText members ++ ['\x7d'])

def Item.text : Item → List Char
  | .mk before value after => blanksText before ++ value.text ++ blanksText after

def Member.text : Member → List Char
  | .mk before key afterKey beforeValue value after =>
      blanksText before ++ key.text ++ blanksText afterKey ++ ':' :: (blanksText beforeValue ++
        value.text ++ blanksText after)

/-- The values of an array, with commas between them. -/
def itemsText : List Item → List Char
  | [] => []
  | [item] => item.text
  | item :: items => item.text ++ ',' :: itemsText items

/-- The members of an object, with commas between them. -/
def membersText : List Member → List Char
  | [] => []
  | [member] => member.text
  | member :: members => member.text ++ ',' :: membersText members

end

namespace Member

/-- The name of a member. -/
def name : Member → String
  | .mk _ key _ _ _ _ => String.ofList key.decoded

def value : Member → Value
  | .mk _ _ _ _ value _ => value

end Member

/-- A document that is an object. -/
structure ObjectText where
  before : List Blank
  pad : List Blank
  members : List Member
  after : List Blank

namespace ObjectText

def text (o : ObjectText) : String :=
  String.ofList (blanksText o.before ++ (Value.object o.pad o.members).text ++ blanksText o.after)

/-- The values of the members with a name, in order. -/
def named (o : ObjectText) (name : String) : List Value :=
  (o.members.filter fun m => m.name = name).map Member.value

end ObjectText

end Lib.Json
