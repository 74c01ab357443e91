import Mathlib.Data.Nat.ModEq
import OffchainPallets.ExampleOffchainWorker.FetchPrice

/-!
# What `parse_price` makes of a number

For any text, and any way to read it and to take its numbers apart, the number that the first member
`USD` holds.

* `parse_price_cents_iff` — when the cents of a price that is no number of cents too large are read
  right: a price has two digits of cents, and at most as many more as the power of ten that drops
  them allows. The exponent of the number is not read.
* `parse_price_rejects_iff` — the numbers that are no price are not rejected.
* `parse_price_total_iff` — when no build panics.
-/

namespace OffchainPallets.ExampleOffchainWorker

open Lib

variable {readJson : String → Option (JsonValue Json.Numeral)}
  {components : Json.Numeral → NumberValue} {parseJson : String → Option (JsonValue NumberValue)}
  {text : String} {m : Json.Numeral} {n : NumberValue}

/-! ## The cents -/

/-- A number that is not negative has no negative integer part. -/
theorem integer_of_nonneg (hn : n.ComponentsOf m) (hvalue : 0 ≤ m.value) :
    n.integer.toInt = Json.digitsValue m.integer := by
  rw [hn.integer]
  split_ifs with hneg
  · rw [Json.Numeral.integer_of_mantissa ((Json.Numeral.value_of_nonneg hvalue).2 hneg)]
    rfl
  · rfl

theorem divisor_mod_eq_zero_iff : n.divisor % 2 ^ 64 = 0 ↔ 66 ≤ n.fractionLength.toNat := by
  unfold NumberValue.divisor
  rw [ten_pow_mod_eq_zero_iff]
  omega

/-- The cents of a number without a sign, in a release build. -/
theorem cents_release_eq_iff (hinteger : 0 ≤ n.integer.toInt) (r : ℕ) :
    n.cents .release = .ok (UInt32.ofNat r) ↔
      n.fractionLength.toNat < 66 ∧
        100 * n.integer.toInt.toNat + n.fraction.toNat / (n.divisor % 2 ^ 64) ≡ r
          [MOD 2 ^ 32] := by
  have hlow : (asU32 n.integer).toNat = n.integer.toInt.toNat % 2 ^ 32 := by
    have hcast := toNat_asU32 n.integer
    omega
  rw [cents_release]
  by_cases hzero : n.divisor % 2 ^ 64 = 0
  · have hlong := divisor_mod_eq_zero_iff.mp hzero
    simp only [if_pos hzero, reduceCtorEq, false_iff, not_and]
    omega
  · have hshort := divisor_mod_eq_zero_iff.not.mp hzero
    rw [if_neg hzero, Except.ok.injEq, ← UInt32.toNat_inj, UInt32.toNat_ofNat',
      UInt32.toNat_ofNat', hlow, Nat.ModEq]
    omega

/-- A power of ten that wraps, but not to zero, stays large. -/
theorem le_ten_pow_mod : ∀ k < 64, 20 ≤ k → 2 ^ 32 ≤ 10 ^ k % 2 ^ 64 := by decide

/-- When the digits of the fraction give its cents: as many digits as there are decimals of a
dollar in cents, or more, as long as the power of ten does not wrap below the fraction. -/
theorem fraction_cents_iff {i f l : ℕ} (hf : f < 2 ^ 64)
    (hfit : 10 ^ 2 * i + 10 ^ 2 * f / 10 ^ l < 2 ^ 32) :
    (l < 66 ∧ 100 * i + f / (10 ^ (l - 2) % 2 ^ 64) ≡ 10 ^ 2 * i + 10 ^ 2 * f / 10 ^ l
      [MOD 2 ^ 32]) ↔
      (l < 2 → f = 0) ∧ (22 ≤ l → l < 66 ∧ f < 10 ^ (l - 2) % 2 ^ 64) := by
  rw [Nat.ModEq]
  by_cases hshort : l < 2
  · -- too few digits: they are taken for cents
    have hone : 10 ^ (l - 2) % 2 ^ 64 = 1 := by
      rw [Nat.sub_eq_zero_of_le (by omega)]
      rfl
    have hscaled : 10 ^ 2 * f / 10 ^ l = f ↔ f = 0 := by
      obtain rfl | rfl : l = 0 ∨ l = 1 := by omega
      · omega
      · omega
    have hle : f ≤ 10 ^ 2 * f / 10 ^ l := by
      obtain rfl | rfl : l = 0 ∨ l = 1 := by omega
      · omega
      · omega
    have hlong : ¬ 22 ≤ l := by omega
    have hsmall : l < 66 := by omega
    rw [hone, Nat.div_one]
    simp only [hshort, hlong, hsmall, true_and, true_implies, false_implies, and_true]
    rw [← hscaled]
    generalize 10 ^ 2 * f / 10 ^ l = q at hfit hle ⊢
    omega
  · rw [scaled_digits (by omega)] at hfit ⊢
    by_cases hlong : l < 22
    · have hpow : 10 ^ (l - 2) < 2 ^ 64 :=
        (Nat.pow_le_pow_right (by decide) (by omega : l - 2 ≤ 19)).trans_lt (by norm_num)
      rw [Nat.mod_eq_of_lt hpow]
      omega
    · -- the digits are more than a `u64` can spell, so there are no cents in them
      have hpow : 2 ^ 64 ≤ 10 ^ (l - 2) :=
        (by norm_num : 2 ^ 64 ≤ 10 ^ 20).trans (Nat.pow_le_pow_right (by decide) (by omega))
      rw [Nat.div_eq_of_lt (hf.trans_le hpow)] at hfit ⊢
      by_cases hl : l < 66
      · have hlarge := le_ten_pow_mod (l - 2) (by omega) (by omega)
        have hquotient : f / (10 ^ (l - 2) % 2 ^ 64) < 2 ^ 32 := by
          rw [Nat.div_lt_iff_lt_mul (by omega)]
          nlinarith
        have hzero : f / (10 ^ (l - 2) % 2 ^ 64) = 0 ↔ f < 10 ^ (l - 2) % 2 ^ 64 :=
          Nat.div_eq_zero_iff_lt (by omega)
        rw [← hzero]
        generalize f / (10 ^ (l - 2) % 2 ^ 64) = q at hquotient ⊢
        omega
      · omega

/-- The digits after the point can be made cents: there are two at least, or they are zero; and if
there are more than 21, the power of ten that they are divided by, which wraps, is neither zero nor
at most the number that they spell. -/
def RegularDigits (m : Json.Numeral) : Prop :=
  (m.fractionDigits.length < 2 → Json.digitsValue m.fractionDigits = 0) ∧
    (22 ≤ m.fractionDigits.length → m.fractionDigits.length < 66 ∧
      Json.digitsValue m.fractionDigits < 10 ^ (m.fractionDigits.length - 2) % 2 ^ 64)

/-- When the cents of a number are read right: with regular digits and no exponent, or an exponent
that leaves the number, which was less than a cent, less than a cent; and `0.1e-1` to `0.9e-1`, of
which the one digit is the number of cents. -/
def ReadsCents (m : Json.Numeral) : Prop :=
  (RegularDigits m ∧ (m.exponentValue = 0 ∨ 100 * m.mantissa < 1 ∧ 100 * m.value < 1)) ∨
    (Json.digitsValue m.integer = 0 ∧ m.fractionDigits.length = 1 ∧ m.exponentValue = -1)

/-- The digits alone are less than `2^32` cents, and are not divided by a power of ten that wraps to
as little as they spell. -/
def Unwrapped (m : Json.Numeral) : Prop :=
  100 * m.mantissa < 2 ^ 32 ∧
    (22 ≤ m.fractionDigits.length → m.fractionDigits.length < 66 →
      Json.digitsValue m.fractionDigits < 10 ^ (m.fractionDigits.length - 2) % 2 ^ 64)

/-- The result in a release build is a number of cents exactly if the sum is, as it wraps. -/
theorem parsePrice_eq_cents_iff (husd : usdNumber (readJson text) = some m)
    (hcomponents : (components m).ComponentsOf m) (hvalue : 0 ≤ m.value) (r : ℕ) :
    parsePrice .release (liteJson readJson components) text = .ok (some (UInt32.ofNat r)) ↔
      m.fractionDigits.length < 66 ∧
        100 * Json.digitsValue m.integer + Json.digitsValue m.fractionDigits /
          (10 ^ (m.fractionDigits.length - 2) % 2 ^ 64) ≡ r [MOD 2 ^ 32] := by
  have hnumber : usdNumber (liteJson readJson components text) = some (components m) := by
    rw [usdNumber_liteJson, husd]
    rfl
  have hinteger := integer_of_nonneg hcomponents hvalue
  have hsome : parsePrice .release (liteJson readJson components) text =
      .ok (some (UInt32.ofNat r)) ↔ (components m).cents .release = .ok (UInt32.ofNat r) := by
    rw [parsePrice_of_number hnumber]
    cases (components m).cents .release <;> simp [Except.map]
  rw [hsome, cents_release_eq_iff (by omega), hinteger, Int.toNat_natCast, NumberValue.divisor,
    hcomponents.fraction, hcomponents.fractionLength]

/-- The cents of the digits of a number, whatever its exponent. -/
theorem floor_hundred_mul_mantissa (m : Json.Numeral) :
    ⌊100 * m.mantissa⌋₊ = 10 ^ 2 * Json.digitsValue m.integer +
      10 ^ 2 * Json.digitsValue m.fractionDigits / 10 ^ m.fractionDigits.length := by
  have hundred : (10 : ℚ) ^ 2 = 100 := by norm_num
  rw [Json.Numeral.mantissa_eq, ← hundred, floor_scaled]

/-- One digit after the point, which is taken for cents, is right with the exponent `-1` only, and
before it nothing. -/
theorem one_digit_iff {i d : ℕ} {e : ℤ} (hd : 0 < d) (hd' : d < 10) (he : e ≠ 0) :
    100 * i + d = ⌊((100 * i + 10 * d : ℕ) : ℚ) * 10 ^ e⌋₊ ↔ i = 0 ∧ e = -1 := by
  have hnonneg : (0 : ℚ) ≤ ((100 * i + 10 * d : ℕ) : ℚ) := Nat.cast_nonneg _
  rcases lt_trichotomy e (-1) with hlt | rfl | hgt
  · -- the number has at most the cents of its dollars divided by a hundred
    have hpow : (10 : ℚ) ^ e ≤ 10 ^ (-2 : ℤ) := zpow_le_zpow_right₀ (by norm_num) (by omega)
    have hle : ((100 * i + 10 * d : ℕ) : ℚ) * 10 ^ e ≤ ((100 * i + 10 * d : ℕ) : ℚ) / 100 := by
      calc ((100 * i + 10 * d : ℕ) : ℚ) * 10 ^ e
          ≤ ((100 * i + 10 * d : ℕ) : ℚ) * 10 ^ (-2 : ℤ) := mul_le_mul_of_nonneg_left hpow hnonneg
        _ = ((100 * i + 10 * d : ℕ) : ℚ) / 100 := by norm_num [div_eq_mul_inv]
    have hfloor : ⌊((100 * i + 10 * d : ℕ) : ℚ) * 10 ^ e⌋₊ ≤ (100 * i + 10 * d) / 100 := by
      refine (Nat.floor_le_floor hle).trans ?_
      rw [← Nat.cast_ofNat (R := ℚ) (n := 100), Nat.floor_div_eq_div]
    omega
  · have htenth : ((100 * i + 10 * d : ℕ) : ℚ) * 10 ^ (-1 : ℤ) = ((10 * i + d : ℕ) : ℚ) := by
      push_cast
      ring
    rw [htenth, Nat.floor_natCast]
    omega
  · have hpow : (10 : ℚ) ^ (1 : ℤ) ≤ 10 ^ e := zpow_le_zpow_right₀ (by norm_num) (by omega)
    have hle : ((10 * (100 * i + 10 * d) : ℕ) : ℚ) ≤ ((100 * i + 10 * d : ℕ) : ℚ) * 10 ^ e := by
      have htenfold := mul_le_mul_of_nonneg_left hpow hnonneg
      rw [zpow_one] at htenfold
      push_cast at htenfold ⊢
      linarith
    have hfloor := Nat.le_floor hle
    omega

/-- What has regular digits, or a digit alone before which there is nothing, does not wrap. -/
theorem unwrapped_of_readsCents (h : ReadsCents m) : m.exponentValue = 0 ∨ Unwrapped m := by
  rcases h with ⟨⟨-, hlong⟩, hzero | ⟨hsmall, -⟩⟩ | ⟨hinteger, hlength, -⟩
  · exact Or.inl hzero
  · exact Or.inr ⟨hsmall.trans (by norm_num), fun hl _ => (hlong hl).2⟩
  · refine Or.inr ⟨?_, fun hl => absurd hl (by omega)⟩
    -- one digit is less than a dollar
    have hdigit := Json.digitsValue_lt m.fractionDigits
    rw [hlength, pow_one] at hdigit
    have hdigit' : (Json.digitsValue m.fractionDigits : ℚ) < 10 := by exact_mod_cast hdigit
    rw [Json.Numeral.mantissa_eq, hinteger, hlength]
    norm_num
    linarith

/-- A number without an exponent. -/
theorem readsCents_of_plain (hexp : m.exponentValue = 0) : ReadsCents m ↔ RegularDigits m := by
  simp [ReadsCents, hexp]

/-- Digits that are not regular, and do not wrap: there is one, and it is not zero. -/
theorem one_digit_of_irregular (hregular : ¬ RegularDigits m) (hunwrapped : Unwrapped m)
    (hlength : m.fractionDigits.length < 66) :
    m.fractionDigits.length = 1 ∧ 0 < Json.digitsValue m.fractionDigits := by
  have hshort : m.fractionDigits.length < 2 ∧ Json.digitsValue m.fractionDigits ≠ 0 := by
    by_contra hnot
    apply hregular
    refine ⟨fun hl => ?_, fun hl => ⟨hlength, hunwrapped.2 hl hlength⟩⟩
    by_contra hne
    exact hnot ⟨hl, hne⟩
  have hsome : m.fractionDigits.length ≠ 0 := by
    intro hnil
    rw [List.eq_nil_of_length_eq_zero hnil] at hshort
    exact hshort.2 rfl
  omega

/-- **A number with an exponent**, of which nothing wraps. -/
theorem readsCents_of_exponent (hexp : m.exponentValue ≠ 0) (hunwrapped : Unwrapped m)
    (hvalue : 0 ≤ m.value) (hfit : 100 * m.value < 2 ^ 32)
    (hfraction : Json.digitsValue m.fractionDigits < 2 ^ 64) :
    (m.fractionDigits.length < 66 ∧
      100 * Json.digitsValue m.integer + Json.digitsValue m.fractionDigits /
        (10 ^ (m.fractionDigits.length - 2) % 2 ^ 64) ≡ ⌊100 * m.value⌋₊ [MOD 2 ^ 32]) ↔
      ReadsCents m := by
  have hmantissa := hunwrapped.1
  have hnonneg : 0 ≤ 100 * m.mantissa := mul_nonneg (by norm_num) m.mantissa_nonneg
  have hshift : 100 * m.value = 100 * m.mantissa * 10 ^ m.exponentValue := by
    rw [(Json.Numeral.value_of_nonneg hvalue).1, mul_assoc]
  have hfloor : ⌊100 * m.value⌋₊ < 2 ^ 32 := by
    rw [Nat.floor_lt (mul_nonneg (by norm_num) hvalue)]
    exact_mod_cast hfit
  have hfloor' : ⌊100 * m.mantissa⌋₊ < 2 ^ 32 := by
    rw [Nat.floor_lt hnonneg]
    exact_mod_cast hmantissa
  by_cases hregular : RegularDigits m
  · -- the cents that are read are those of the digits
    obtain ⟨hlength, hread⟩ : m.fractionDigits.length < 66 ∧
        100 * Json.digitsValue m.integer + Json.digitsValue m.fractionDigits /
          (10 ^ (m.fractionDigits.length - 2) % 2 ^ 64) ≡ ⌊100 * m.mantissa⌋₊
            [MOD 2 ^ 32] := by
      rw [floor_hundred_mul_mantissa] at hfloor' ⊢
      exact (fraction_cents_iff hfraction hfloor').mpr hregular
    have hsmall : ⌊100 * m.mantissa⌋₊ = ⌊100 * m.value⌋₊ ↔
        100 * m.mantissa < 1 ∧ 100 * m.value < 1 := by
      rw [hshift]
      exact floor_eq_floor_shift_iff hnonneg hexp
    have hzero (hinteger : Json.digitsValue m.integer = 0)
        (hone : m.fractionDigits.length = 1) : m.mantissa = 0 := by
      rw [Json.Numeral.mantissa_eq, hinteger, hregular.1 (by omega)]
      simp
    rw [Nat.ModEq, hread, Nat.mod_eq_of_lt hfloor', Nat.mod_eq_of_lt hfloor, hsmall]
    constructor
    · rintro ⟨-, h⟩
      exact Or.inl ⟨hregular, Or.inr h⟩
    · rintro (⟨-, hplain | h⟩ | ⟨hinteger, hone, -⟩)
      · exact absurd hplain hexp
      · exact ⟨hlength, h⟩
      · rw [hshift, hzero hinteger hone]
        norm_num
        exact hlength
  · by_cases hlength : m.fractionDigits.length < 66
    · obtain ⟨hone, hpos⟩ := one_digit_of_irregular hregular hunwrapped hlength
      have hdigit := Json.digitsValue_lt m.fractionDigits
      rw [hone, pow_one] at hdigit
      -- a digit is worth ten cents and is taken for one
      have hcents : 100 * m.mantissa = ((100 * Json.digitsValue m.integer +
          10 * Json.digitsValue m.fractionDigits : ℕ) : ℚ) := by
        rw [Json.Numeral.mantissa_eq, hone]
        push_cast
        ring
      have hlow :
          100 * Json.digitsValue m.integer + Json.digitsValue m.fractionDigits < 2 ^ 32 := by
        rw [hcents, Nat.floor_natCast] at hfloor'
        omega
      have hdivisor : 10 ^ (m.fractionDigits.length - 2) % 2 ^ 64 = 1 := by rw [hone]; rfl
      rw [hdivisor, Nat.div_one, Nat.ModEq, Nat.mod_eq_of_lt hlow, Nat.mod_eq_of_lt hfloor, hshift,
        hcents, one_digit_iff hpos hdigit hexp]
      simp [ReadsCents, hregular, hone]
    · have hlong : ¬ ReadsCents m := by
        rintro (⟨hregular', -⟩ | ⟨-, hone, -⟩)
        · exact hregular hregular'
        · omega
      exact iff_of_false (fun h => hlength h.1) hlong

/-- **When `parse_price` reads the cents right.** For every text whose first member `USD` is a
number that is not negative, has less than `2^32` cents, and has the components that are returned:
in a release build the result is that many cents, rounded down, if `ReadsCents` holds of the number;
and only then, if there is no exponent, or if the digits do not wrap.
Source: `parse_price` -/
theorem parse_price_cents_iff (husd : usdNumber (readJson text) = some m)
    (hcomponents : (components m).ComponentsOf m) (hvalue : 0 ≤ m.value)
    (hfit : 100 * m.value < 2 ^ 32) :
    (ReadsCents m → parsePrice .release (liteJson readJson components) text =
      .ok (some (UInt32.ofNat ⌊100 * m.value⌋₊))) ∧
    (m.exponentValue = 0 ∨ Unwrapped m →
      (parsePrice .release (liteJson readJson components) text =
        .ok (some (UInt32.ofNat ⌊100 * m.value⌋₊)) ↔ ReadsCents m)) := by
  have hfraction : Json.digitsValue m.fractionDigits < 2 ^ 64 := by
    rw [← hcomponents.fraction]
    exact UInt64.toNat_lt _
  have hexact : m.exponentValue = 0 ∨ Unwrapped m →
      (parsePrice .release (liteJson readJson components) text =
        .ok (some (UInt32.ofNat ⌊100 * m.value⌋₊)) ↔ ReadsCents m) := by
    intro hcase
    rw [parsePrice_eq_cents_iff husd hcomponents hvalue]
    by_cases hexp : m.exponentValue = 0
    · have hplain : m.value = m.mantissa := by
        rw [(Json.Numeral.value_of_nonneg hvalue).1, hexp, zpow_zero, mul_one]
      have hfloor : ⌊100 * m.mantissa⌋₊ < 2 ^ 32 := by
        rw [← hplain, Nat.floor_lt (mul_nonneg (by norm_num) hvalue)]
        exact_mod_cast hfit
      rw [readsCents_of_plain hexp, hplain]
      rw [floor_hundred_mul_mantissa] at hfloor ⊢
      exact fraction_cents_iff hfraction hfloor
    · exact readsCents_of_exponent hexp (hcase.resolve_left hexp) hvalue hfit hfraction
  exact ⟨fun h => (hexact (unwrapped_of_readsCents h)).mpr h, hexact⟩

/-- The text of an object with the one member `USD`. -/
def usdText (numeral : String) : String := "\x7b\"USD\":" ++ numeral ++ "\x7d"

/-- A parser that has read one text, as an object with the one member `USD`. -/
def readsUsd {N : Type} (text : String) (n : N) (s : String) : Option (JsonValue N) :=
  if s = text then some (.object [(['U', 'S', 'D'], .number n)]) else none

theorem usdNumber_readsUsd {N : Type} (text : String) (n : N) :
    usdNumber (readsUsd text n text) = some n := by
  simp [readsUsd, usdNumber]

/-- The result on such a text, from the cents of its number. -/
theorem parsePrice_readsUsd {profile : Profile} {result : Except Panic UInt32} (text : String)
    (h : n.cents profile = result) :
    parsePrice profile (readsUsd text n) text = result.map some := by
  rw [parsePrice_of_number (usdNumber_readsUsd text n), h]

/-- The same from a number as it is written. -/
theorem parsePrice_liteJson {profile : Profile} {result : Except Panic UInt32} (text : String)
    (h : (components m).cents profile = result) :
    parsePrice profile (liteJson (readsUsd text m) components) text = result.map some := by
  have hnumber : usdNumber (liteJson (readsUsd text m) components text) = some (components m) := by
    rw [usdNumber_liteJson, usdNumber_readsUsd]
    rfl
  rw [parsePrice_of_number hnumber, h]

/-- The components of a number, as long as they fit. -/
def takeApart (m : Json.Numeral) : NumberValue where
  integer := Int64.ofInt
    (if m.negative then -(Json.digitsValue m.integer : ℤ) else Json.digitsValue m.integer)
  fraction := UInt64.ofNat (Json.digitsValue m.fractionDigits)
  fractionLength := UInt32.ofNat m.fractionDigits.length
  exponent := Int32.ofInt m.exponentValue

/-- Two digits of cents: `6536.92`. -/
def twoDigits : Json.Numeral where
  negative := false
  integer := [6, 5, 3, 6]
  canonical := Or.inr (by decide)
  fraction := some ⟨[9, 2], by decide⟩
  exponent := none

theorem value_twoDigits : twoDigits.value = 653692 / 100 := by
  norm_num [twoDigits, Json.Numeral.value, Json.Numeral.mantissa, Json.digitsValue]

/-- `parse_price_cents_iff` at `$6536.92`. -/
theorem parse_price_cents_iff_twoDigits :
    ReadsCents twoDigits ∧
      parsePrice .release (liteJson (readsUsd (usdText "6536.92") twoDigits) takeApart)
        (usdText "6536.92") = .ok (some (UInt32.ofNat ⌊100 * twoDigits.value⌋₊)) := by
  have hreads : ReadsCents twoDigits :=
    Or.inl ⟨⟨fun h => absurd h (by decide), fun h => absurd h (by decide)⟩, Or.inl rfl⟩
  exact ⟨hreads, (parse_price_cents_iff (usdNumber_readsUsd _ _) ⟨rfl, rfl, rfl, rfl⟩
    (by rw [value_twoDigits]; norm_num) (by rw [value_twoDigits]; norm_num)).1 hreads⟩

/-- One digit after the point: `155.5`. -/
def oneDigit : Json.Numeral where
  negative := false
  integer := [1, 5, 5]
  canonical := Or.inr (by decide)
  fraction := some ⟨[5], by decide⟩
  exponent := none

theorem value_oneDigit : oneDigit.value = 1555 / 10 := by
  norm_num [oneDigit, Json.Numeral.value, Json.Numeral.mantissa, Json.digitsValue]

/-- **One digit is taken for cents.** `$155.5` is 15550 cents, and is read as 15505.
Source: `parse_price` -/
theorem one_digit_taken_for_cents :
    String.ofList oneDigit.text = "155.5" ∧
      usdNumber (readsUsd (usdText "155.5") oneDigit (usdText "155.5")) = some oneDigit ∧
      (takeApart oneDigit).ComponentsOf oneDigit ∧
      0 ≤ oneDigit.value ∧ 100 * oneDigit.value < 2 ^ 32 ∧ ⌊100 * oneDigit.value⌋₊ = 15550 ∧
      parsePrice .release (liteJson (readsUsd (usdText "155.5") oneDigit) takeApart)
        (usdText "155.5") = .ok (some 15505) := by
  have hvalue := value_oneDigit
  have hprice : (takeApart oneDigit).cents .release = .ok 15505 := by decide
  exact ⟨rfl, usdNumber_readsUsd _ _, ⟨rfl, rfl, rfl, rfl⟩, by rw [hvalue]; norm_num,
    by rw [hvalue]; norm_num, by rw [hvalue]; norm_num, parsePrice_liteJson _ hprice⟩

/-- The exponent is not read, but a sum that wraps can make up for it: `47721858.84e-1` dollars are
477218588 cents. -/
example : (⟨47721858, 84, 2, -1⟩ : NumberValue).cents .release = .ok 477218588 := by decide

/-! ## What is no price -/

/-- A number of cents that a `u32` holds, when it is rounded down. -/
def Representable (m : Json.Numeral) : Prop :=
  0 ≤ 100 * m.value ∧ ⌊100 * m.value⌋ ≤ 4294967295

/-- **No number is rejected.** Some price is returned only for a representable one, and `None` for
every other text, exactly when the text has no number `USD` that is not representable.
Source: `parse_price` -/
theorem parse_price_rejects_iff :
    ((∀ price, parsePrice .release (liteJson readJson components) text = .ok (some price) →
        ∃ m, usdNumber (readJson text) = some m ∧ Representable m) ∧
      ((¬ ∃ m, usdNumber (readJson text) = some m ∧ Representable m) →
        parsePrice .release (liteJson readJson components) text = .ok none)) ↔
      ∀ m, usdNumber (readJson text) = some m → Representable m := by
  have hnumber := @usdNumber_liteJson readJson components text
  rcases husd : usdNumber (readJson text) with _ | m
  · -- no number, hence no price
    rw [husd, Option.map_none] at hnumber
    simp [parsePrice_of_none hnumber]
  · -- a number is never rejected
    rw [husd, Option.map_some] at hnumber
    have hnotNone : parsePrice .release (liteJson readJson components) text ≠ .ok none := by
      rw [parsePrice_of_number hnumber]
      rcases (components m).cents .release with _ | price <;> simp [Except.map]
    simp only [Option.some.injEq, exists_eq_left', forall_eq']
    constructor
    · rintro ⟨-, hrejects⟩
      by_contra hnot
      exact hnotNone (hrejects hnot)
    · intro hrepresentable
      exact ⟨fun _ _ => hrepresentable, fun hnot => absurd hrepresentable hnot⟩

/-- A debt of half a dollar: `-0.50`. -/
def minusHalf : Json.Numeral where
  negative := true
  integer := [0]
  canonical := Json.Numeral.canonical_zero
  fraction := some ⟨[5, 0], by decide⟩
  exponent := none

/-- A debt of a dollar: `-1`. -/
def minusOne : Json.Numeral where
  negative := true
  integer := [1]
  canonical := Or.inr (by decide)
  fraction := none
  exponent := none

/-- **A negative number is a price.** `-1` dollar is read as 42949671.96 dollars, and of `-0.50`
dollars, of which the minus is lost, nothing is left but the 50 cents.
Source: `parse_price` -/
theorem negative_price_accepted :
    (String.ofList minusOne.text = "-1" ∧
      usdNumber (readsUsd (usdText "-1") minusOne (usdText "-1")) = some minusOne ∧
      ¬ Representable minusOne ∧
      parsePrice .release (liteJson (readsUsd (usdText "-1") minusOne) takeApart) (usdText "-1") =
        .ok (some 4294967196)) ∧
    (String.ofList minusHalf.text = "-0.50" ∧
      usdNumber (readsUsd (usdText "-0.50") minusHalf (usdText "-0.50")) = some minusHalf ∧
      ¬ Representable minusHalf ∧
      parsePrice .release (liteJson (readsUsd (usdText "-0.50") minusHalf) takeApart)
        (usdText "-0.50") = .ok (some 50)) := by
  have hone : minusOne.value = -1 := by
    norm_num [minusOne, Json.Numeral.value, Json.Numeral.mantissa, Json.digitsValue]
  have hhalf : minusHalf.value = -1 / 2 := by
    norm_num [minusHalf, Json.Numeral.value, Json.Numeral.mantissa, Json.digitsValue]
  have hprice : (takeApart minusOne).cents .release = .ok 4294967196 := by decide
  have hprice' : (takeApart minusHalf).cents .release = .ok 50 := by decide
  refine ⟨⟨rfl, usdNumber_readsUsd _ _, ?_, parsePrice_liteJson _ hprice⟩,
    rfl, usdNumber_readsUsd _ _, ?_, parsePrice_liteJson _ hprice'⟩
  · rintro ⟨hnonneg, -⟩
    rw [hone] at hnonneg
    norm_num at hnonneg
  · rintro ⟨hnonneg, -⟩
    rw [hhalf] at hnonneg
    norm_num at hnonneg

/-! ## The panics -/

theorem divisor_lt_iff : n.divisor < 2 ^ 64 ↔ n.fractionLength.toNat ≤ 21 := by
  have hlow : 10 ^ 19 < 2 ^ 64 := by norm_num
  have hhigh : 2 ^ 64 ≤ 10 ^ 20 := by norm_num
  constructor
  · intro hlt
    by_contra hlong
    have hle : 10 ^ 20 ≤ n.divisor := Nat.pow_le_pow_right (by decide) (by omega)
    exact absurd hlt (not_lt.mpr (hhigh.trans hle))
  · intro hle
    exact (Nat.pow_le_pow_right (by decide) (by omega)).trans_lt hlow

/-- The numbers at which no operation overflows: at most 21 digits after the point, and a sum of
the cents, as they are cast, within a `u32`. -/
def NumberValue.Fits (n : NumberValue) : Prop :=
  n.fractionLength.toNat ≤ 21 ∧
    100 * (n.integer.toInt % 2 ^ 32) +
      n.fraction.toNat / 10 ^ (n.fractionLength.toNat - 2) % 2 ^ 32 < 2 ^ 32

/-- The debug build returns exactly where nothing overflows. -/
theorem cents_debug_ok_iff : (∃ price, n.cents .debug = .ok price) ↔ n.Fits := by
  have hcast := toNat_asU32 n.integer
  have hcents : 100 * (asU32 n.integer).toNat + n.fraction.toNat / n.divisor % 2 ^ 32 < 2 ^ 32 ↔
      100 * (n.integer.toInt % 2 ^ 32) +
        n.fraction.toNat / 10 ^ (n.fractionLength.toNat - 2) % 2 ^ 32 < 2 ^ 32 := by
    rw [← hcast, NumberValue.divisor]
    norm_cast
  have hfits : n.Fits ↔ n.divisor < 2 ^ 64 ∧
      100 * (asU32 n.integer).toNat + n.fraction.toNat / n.divisor % 2 ^ 32 < 2 ^ 32 := by
    rw [divisor_lt_iff, hcents, NumberValue.Fits]
  rw [hfits, cents_debug]
  split_ifs with h
  · exact iff_of_true ⟨_, rfl⟩ h
  · exact iff_of_false (by rintro ⟨_, ⟨⟩⟩) h

/-- **When no build panics.** The power of ten fits a `u64` and both builds return, exactly when
the number `USD` of the text, if it has one, has at most 21 digits after the point and fits in the
`u32` that its cents are added up in.
Source: `parse_price` -/
theorem parse_price_total_iff :
    ((∀ n, usdNumber (parseJson text) = some n → n.divisor < 2 ^ 64 ∧ n.divisor ≠ 0) ∧
      ∀ profile, ∃ price, parsePrice profile parseJson text = .ok price) ↔
      ∀ n, usdNumber (parseJson text) = some n → n.Fits := by
  rcases husd : usdNumber (parseJson text) with _ | n
  · simp [parsePrice_of_none husd]
  · simp only [parsePrice_of_number husd, Option.some.injEq, forall_eq']
    constructor
    · rintro ⟨-, htotal⟩
      obtain ⟨result, hresult⟩ := htotal .debug
      rcases hdebug : n.cents .debug with panic | price
      · rw [hdebug] at hresult
        simp [Except.map] at hresult
      · exact cents_debug_ok_iff.mp ⟨price, hdebug⟩
    · intro hfits
      have hlt : n.divisor < 2 ^ 64 := divisor_lt_iff.mpr hfits.1
      have hpos : n.divisor ≠ 0 := (Nat.pow_pos (by decide)).ne'
      refine ⟨⟨hlt, hpos⟩, ?_⟩
      rintro (_ | _)
      · obtain ⟨price, hprice⟩ := cents_debug_ok_iff.mpr hfits
        exact ⟨some price, by rw [hprice]; rfl⟩
      · -- a divisor that does not wrap is not zero
        rw [cents_release, Nat.mod_eq_of_lt hlt, if_neg hpos]
        exact ⟨_, rfl⟩

/-- Nothing but zeros after the point. -/
def sixtySixZeros : String := "1." ++ .ofList (.replicate 66 '0')

/-- What `sixtySixZeros` spells. -/
def manyZeros : NumberValue := ⟨1, 0, 66, 0⟩

/-- **Sixty-six zeros after the point** make the release build divide by zero, and the debug build
overflow.
Source: `parse_price` -/
theorem many_zeros_panic :
    parsePrice .release (readsUsd (usdText sixtySixZeros) manyZeros)
        (usdText sixtySixZeros) = .error .divisionByZero ∧
      parsePrice .debug (readsUsd (usdText sixtySixZeros) manyZeros)
        (usdText sixtySixZeros) = .error .arithmeticOverflow := by
  have hrelease : manyZeros.cents .release = .error .divisionByZero := by decide
  have hdebug : manyZeros.cents .debug = .error .arithmeticOverflow := by decide
  exact ⟨parsePrice_readsUsd _ hrelease, parsePrice_readsUsd _ hdebug⟩

/-- `fetch_price` panics exactly where `parse_price` does on the body of a response with the
code 200.
Source: `fetch_price` -/
theorem fetchPrice_ok_iff {profile : Profile} {sent : Except HttpError Unit}
    {waited : Option (Except Http.Error UInt16)} {body : List UInt8} :
    (∃ result, fetchPrice profile parseJson sent waited body = .ok result) ↔
      ∀ bodyStr, sent = .ok () → waited = some (.ok 200) →
        String.fromUTF8? ⟨body.toArray⟩ = some bodyStr →
          ∃ price, parsePrice profile parseJson bodyStr = .ok price := by
  rcases sent with _ | ⟨⟩
  · simp [fetchPrice]
  · rcases waited with _ | _ | code
    · simp [fetchPrice]
    · simp [fetchPrice]
    · by_cases hcode : code = 200
      · rcases hbody : String.fromUTF8? ⟨body.toArray⟩ with _ | bodyStr
        · simp [fetchPrice, hcode, hbody]
        · rcases hparse : parsePrice profile parseJson bodyStr with _ | price
          · simp [fetchPrice, hcode, hbody, hparse, Except.map]
          · simp [fetchPrice, hcode, hbody, hparse, Except.map]
      · simp [fetchPrice, hcode]

end OffchainPallets.ExampleOffchainWorker
