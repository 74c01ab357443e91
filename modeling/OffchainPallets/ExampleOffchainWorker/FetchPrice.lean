import OffchainPallets.Host
import OffchainPallets.Lib.Decimals
import OffchainPallets.Lib.Json

/-!
# `parse_price` and `fetch_price`

The price from the body of the response, in cents. `lite_json::parse_json` is a parameter, in two
parts (`liteJson`): how it reads a text, as a document with its numbers as they are written
(`Json.Numeral`), and how it takes such a number apart. What the pallet gets are the components
(`NumberValue`); what the number is worth, `Json.Numeral.value`, cannot always be told from them,
since a minus before a zero is lost. The arithmetic depends on the profile of the build (`Profile`),
and so do the panics.

`cents_release` and `cents_debug` say what `parse_price` makes of a number in each profile; both
depend on the power of ten it divides by (`NumberValue.divisor`).
-/

namespace OffchainPallets.ExampleOffchainWorker

open Lib

/-! ## `lite_json` -/

/-- `lite_json::NumberValue`, the components of a number. -/
structure NumberValue where
  integer : Int64
  /-- The number that the digits after the point spell. -/
  fraction : UInt64
  fractionLength : UInt32
  exponent : Int32
  deriving DecidableEq

/-- The components of a number as it is written, each of which fits its field. The sign is that of
the integer part, and there is none if that is zero. -/
structure NumberValue.ComponentsOf (n : NumberValue) (m : Json.Numeral) : Prop where
  integer : n.integer.toInt =
    if m.negative then -(Json.digitsValue m.integer : ℤ) else Json.digitsValue m.integer
  fraction : n.fraction.toNat = Json.digitsValue m.fractionDigits
  fractionLength : n.fractionLength.toNat = m.fractionDigits.length
  exponent : n.exponent.toInt = m.exponentValue

/-- `lite_json::JsonValue`, over what stands for its numbers. -/
inductive JsonValue (N : Type) where
  | object (members : List (List Char × JsonValue N))
  | array (items : List (JsonValue N))
  | string (s : List Char)
  | number (n : N)
  | boolean (b : Bool)
  | null

section map

variable {N M : Type} (f : N → M)

mutual

/-- The value with other numbers. -/
def JsonValue.map : JsonValue N → JsonValue M
  | .object members => .object (mapMembers members)
  | .array items => .array (mapItems items)
  | .string s => .string s
  | .number n => .number (f n)
  | .boolean b => .boolean b
  | .null => .null

def mapMembers : List (List Char × JsonValue N) → List (List Char × JsonValue M)
  | [] => []
  | (key, value) :: members => (key, value.map) :: mapMembers members

def mapItems : List (JsonValue N) → List (JsonValue M)
  | [] => []
  | value :: items => value.map :: mapItems items

end

end map

/-- `lite_json::parse_json(..).ok()`: the text as it is read, with the components of its numbers. -/
def liteJson (readJson : String → Option (JsonValue Json.Numeral))
    (components : Json.Numeral → NumberValue) (text : String) : Option (JsonValue NumberValue) :=
  (readJson text).map (JsonValue.map components)

/-! ## The functions -/

/-- The number that the first member `USD` of an object holds.
Source: `parse_price` -/
def usdNumber {N : Type} : Option (JsonValue N) → Option N
  | some (.object obj) =>
      match obj.find? fun m => m.1 = ['U', 'S', 'D'] with
      | some (_, .number number) => some number
      | _ => none
  | _ => none

/-- The cents of a number: its integer part, and the first two digits of its fraction.
Source: `parse_price` -/
def NumberValue.cents (profile : Profile) (price : NumberValue) : Except Panic UInt32 := do
  let exp := (checkedSub price.fractionLength 2).getD 0
  let dollars ← mulU32 profile (asU32 price.integer) 100
  let quotient ← divU64 price.fraction (← powU64 profile 10 exp)
  addU32 profile dollars quotient.toUInt32

/-- With `lite_json::parse_json(..).ok()` as a parameter.
Source: `parse_price` -/
def parsePrice (profile : Profile) (parseJson : String → Option (JsonValue NumberValue))
    (priceStr : String) : Except Panic (Option UInt32) :=
  match usdNumber (parseJson priceStr) with
  | none => .ok none
  | some price => (price.cents profile).map some

/-- With the results of the calls to the host: of `send`, of `try_wait` (`none` at its deadline; a
response has a status code), and the bytes of the body.
Source: `fetch_price` -/
def fetchPrice (profile : Profile) (parseJson : String → Option (JsonValue NumberValue))
    (sent : Except HttpError Unit) (waited : Option (Except Http.Error UInt16))
    (body : List UInt8) : Except Panic (Except Http.Error UInt32) :=
  match sent, waited with
  | .error _, _ => .ok (.error .ioError)
  | .ok (), none => .ok (.error .deadlineReached)
  | .ok (), some (.error e) => .ok (.error e)
  | .ok (), some (.ok code) =>
      if code ≠ 200 then .ok (.error .unknown)
      else
        match String.fromUTF8? ⟨body.toArray⟩ with
        | none => .ok (.error .unknown)
        | some bodyStr =>
            (parsePrice profile parseJson bodyStr).map fun
              | some price => .ok price
              | none => .error .unknown

/-! ## What they compute -/

/-- The power of ten that the fraction is divided by, as a number. -/
def NumberValue.divisor (n : NumberValue) : ℕ := 10 ^ (n.fractionLength.toNat - 2)

/-- The integer part as a `u32`. -/
theorem toNat_asU32 (x : Int64) : ((asU32 x).toNat : ℤ) = x.toInt % 2 ^ 32 := by
  have hcond := x.toBitVec.toInt_eq_toNat_cond
  rw [Int64.toInt_toBitVec] at hcond
  have hcast : (asU32 x).toNat = x.toBitVec.toNat % 2 ^ 32 := UInt64.toNat_toUInt32 _
  rw [hcast, hcond]
  split_ifs <;> omega

theorem toNat_checkedSub_getD (a b : UInt32) :
    ((checkedSub a b).getD 0).toNat = a.toNat - b.toNat := by
  unfold checkedSub
  split_ifs with h
  · exact UInt32.toNat_sub_of_le _ _ h
  · rw [UInt32.le_iff_toNat_le] at h
    rw [Option.getD_none, UInt32.toNat_zero]
    omega

@[simp] theorem arithmetic_release {α : Type} (overflows : Bool) (wrapped : α) :
    Profile.release.arithmetic overflows wrapped = .ok wrapped := by
  simp [Profile.arithmetic]

@[simp] theorem arithmetic_debug {α : Type} (overflows : Bool) (wrapped : α) :
    Profile.debug.arithmetic overflows wrapped =
      if overflows then .error .arithmeticOverflow else .ok wrapped := by
  simp [Profile.arithmetic]

/-- The division in a build, by the divisor as it wraps. -/
theorem divU64_ofNat (a : UInt64) (m : ℕ) :
    divU64 a (UInt64.ofNat m) =
      if m % 2 ^ 64 = 0 then .error .divisionByZero
      else .ok (UInt64.ofNat (a.toNat / (m % 2 ^ 64))) := by
  have hm : (UInt64.ofNat m).toNat = m % 2 ^ 64 := UInt64.toNat_ofNat'
  have hzero : UInt64.ofNat m = 0 ↔ m % 2 ^ 64 = 0 := by
    rw [← UInt64.toNat_inj, hm, UInt64.toNat_zero]
  unfold divU64
  by_cases h : m % 2 ^ 64 = 0
  · rw [if_pos (hzero.mpr h), if_pos h]
  · rw [if_neg (hzero.not.mpr h), if_neg h, Except.ok.injEq, ← UInt64.toNat_inj, UInt64.toNat_div,
      hm, UInt64.toNat_ofNat_of_lt']
    exact (Nat.div_le_self _ _).trans_lt a.toNat_lt

/-- The exponent of the power, in a build. -/
theorem powU64_ten (profile : Profile) (n : NumberValue) :
    powU64 profile 10 ((checkedSub n.fractionLength 2).getD 0) =
      profile.arithmetic (2 ^ 64 ≤ n.divisor) (UInt64.ofNat n.divisor) := by
  have hten : (10 : UInt64).toNat = 10 := rfl
  have htwo : (2 : UInt32).toNat = 2 := rfl
  rw [powU64, hten, toNat_checkedSub_getD, htwo]
  rfl

/-- The cents as a `u32`, from the quotient. -/
theorem dollars_add_quotient (d : UInt32) (q : ℕ) :
    d * 100 + (UInt64.ofNat q).toUInt32 = UInt32.ofNat (100 * d.toNat + q) := by
  have h100 : (100 : UInt32).toNat = 100 := rfl
  rw [← UInt32.toNat_inj, UInt32.toNat_add, UInt32.toNat_mul, UInt64.toNat_toUInt32,
    UInt64.toNat_ofNat', UInt32.toNat_ofNat', h100]
  omega

/-- **In a release build** the sum wraps, and so does the divisor, which may wrap to zero. -/
theorem cents_release (n : NumberValue) :
    n.cents .release =
      if n.divisor % 2 ^ 64 = 0 then .error .divisionByZero
      else .ok (UInt32.ofNat (100 * (asU32 n.integer).toNat +
        n.fraction.toNat / (n.divisor % 2 ^ 64))) := by
  unfold NumberValue.cents
  simp only [mulU32, addU32, powU64_ten, arithmetic_release, bind, Except.bind, divU64_ofNat]
  split_ifs with h
  · rfl
  · rw [← dollars_add_quotient]

/-- **In a debug build** the power, the product and the sum must not overflow. -/
theorem cents_debug (n : NumberValue) :
    n.cents .debug =
      if n.divisor < 2 ^ 64 ∧
          100 * (asU32 n.integer).toNat + n.fraction.toNat / n.divisor % 2 ^ 32 < 2 ^ 32 then
        .ok (UInt32.ofNat (100 * (asU32 n.integer).toNat + n.fraction.toNat / n.divisor))
      else .error .arithmeticOverflow := by
  have h100 : (100 : UInt32).toNat = 100 := rfl
  have hpos : n.divisor ≠ 0 := (Nat.pow_pos (by decide)).ne'
  unfold NumberValue.cents
  simp only [mulU32, addU32, powU64_ten, arithmetic_debug, bind, Except.bind, h100,
    decide_eq_true_eq]
  by_cases hmul : 2 ^ 32 ≤ (asU32 n.integer).toNat * 100
  · have hnot : ¬ (n.divisor < 2 ^ 64 ∧
        100 * (asU32 n.integer).toNat + n.fraction.toNat / n.divisor % 2 ^ 32 < 2 ^ 32) := by
      omega
    simp only [if_pos hmul, if_neg hnot]
  · by_cases hpow : 2 ^ 64 ≤ n.divisor
    · have hnot : ¬ (n.divisor < 2 ^ 64 ∧
          100 * (asU32 n.integer).toNat + n.fraction.toNat / n.divisor % 2 ^ 32 < 2 ^ 32) := by
        omega
      simp only [if_neg hmul, if_pos hpow, if_neg hnot]
    · have hmod : n.divisor % 2 ^ 64 = n.divisor := Nat.mod_eq_of_lt (by omega)
      simp only [if_neg hmul, if_neg hpow, divU64_ofNat, hmod, if_neg hpos]
      have hq : (UInt64.ofNat (n.fraction.toNat / n.divisor)).toUInt32.toNat =
          n.fraction.toNat / n.divisor % 2 ^ 32 := by
        rw [UInt64.toNat_toUInt32, UInt64.toNat_ofNat']
        omega
      have hd : (asU32 n.integer * 100).toNat = 100 * (asU32 n.integer).toNat := by
        rw [UInt32.toNat_mul, h100, Nat.mod_eq_of_lt (by omega)]
        omega
      rw [hq, hd, dollars_add_quotient]
      split_ifs <;> first | rfl | omega

/-- The first member `USD`, with other numbers. -/
theorem find?_mapMembers {N M : Type} (f : N → M) (members : List (List Char × JsonValue N)) :
    (mapMembers f members).find? (fun m => m.1 = ['U', 'S', 'D']) =
      (members.find? fun m => m.1 = ['U', 'S', 'D']).map fun m => (m.1, m.2.map f) := by
  induction members with
  | nil => rfl
  | cons member members ih =>
      obtain ⟨key, value⟩ := member
      by_cases hkey : key = ['U', 'S', 'D']
      · simp [mapMembers, hkey]
      · simp [mapMembers, hkey, ih]

/-- The number that the pallet finds has the components of the number in the text. -/
theorem usdNumber_liteJson {readJson : String → Option (JsonValue Json.Numeral)}
    {components : Json.Numeral → NumberValue} {text : String} :
    usdNumber (liteJson readJson components text) =
      (usdNumber (readJson text)).map components := by
  unfold liteJson
  rcases readJson text with _ | value
  · rfl
  · cases value with
    | object members =>
        simp only [Option.map_some, JsonValue.map, usdNumber, find?_mapMembers]
        generalize members.find? _ = found
        rcases found with _ | ⟨key, value⟩
        · rfl
        · cases value <;> rfl
    | _ => rfl

theorem parsePrice_of_number {profile : Profile}
    {parseJson : String → Option (JsonValue NumberValue)} {text : String} {n : NumberValue}
    (h : usdNumber (parseJson text) = some n) :
    parsePrice profile parseJson text = (n.cents profile).map some := by
  rw [parsePrice, h]

theorem parsePrice_of_none {profile : Profile}
    {parseJson : String → Option (JsonValue NumberValue)} {text : String}
    (h : usdNumber (parseJson text) = none) :
    parsePrice profile parseJson text = .ok none := by
  rw [parsePrice, h]

end OffchainPallets.ExampleOffchainWorker
