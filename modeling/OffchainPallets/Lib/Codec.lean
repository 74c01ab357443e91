import Mathlib.Data.Vector.Basic
import Mathlib.Tactic.Positivity
import Mathlib.Tactic.Ring
import Mathlib.Tactic.Common

/-!
# Prefix codecs: formats whose values can be read off the front of a byte string

A `Codec α` writes values of `α` as bytes and reads one off the front of a byte string, and what
it reads from an encoding followed by anything is the value and what follows. So encodings are
injective, no encoding is a proper prefix of another (`encode_append_inj`), and codecs are put one
after the other without framing (`pair`).

The formats built here are those of the SCALE encoding: little-endian integers of a fixed width
(`le`, `u32`, `u64`), byte strings of a fixed length (`fixed`), the compact integers in one, two,
four or five bytes (`compact`), and byte strings behind their compact length (`bytes`).
`leBytes_append` puts two integers side by side: their bytes are those of one wider integer.
-/

namespace Lib

/-! ## Little-endian integers -/

/-- The `n` little-endian bytes of `v`. -/
def leBytes : ℕ → ℕ → List UInt8
  | 0, _ => []
  | n + 1, v => UInt8.ofNat v :: leBytes n (v / 256)

/-- The number that a little-endian byte string stands for. -/
def ofLeBytes : List UInt8 → ℕ
  | [] => 0
  | b :: bs => b.toNat + 256 * ofLeBytes bs

@[simp] theorem length_leBytes (n v : ℕ) : (leBytes n v).length = n := by
  induction n generalizing v with
  | zero => rfl
  | succ n ih => simp [leBytes, ih]

theorem ofLeBytes_leBytes (n v : ℕ) : ofLeBytes (leBytes n v) = v % 256 ^ n := by
  induction n generalizing v with
  | zero => simp [leBytes, ofLeBytes, Nat.mod_one]
  | succ n ih =>
      have hbyte : (UInt8.ofNat v).toNat = v % 256 := UInt8.toNat_ofNat'
      rw [leBytes, ofLeBytes, ih, hbyte, pow_succ', Nat.mod_mul]

theorem leBytes_add (m n v : ℕ) : leBytes (m + n) v = leBytes m v ++ leBytes n (v / 256 ^ m) := by
  induction m generalizing v with
  | zero => simp [leBytes]
  | succ m ih =>
      rw [Nat.succ_add, leBytes, leBytes, ih, List.cons_append, Nat.div_div_eq_div_mul, pow_succ']

theorem leBytes_mod (n v : ℕ) : leBytes n (v % 256 ^ n) = leBytes n v := by
  induction n generalizing v with
  | zero => rfl
  | succ n ih =>
      have hhead : UInt8.ofNat (v % 256 ^ (n + 1)) = UInt8.ofNat v := by
        rw [← UInt8.toNat_inj, UInt8.toNat_ofNat', UInt8.toNat_ofNat', pow_succ']
        exact Nat.mod_mul_right_mod v 256 (256 ^ n)
      rw [leBytes, leBytes, hhead, pow_succ', Nat.mod_mul_right_div_self, ih]

/-- Two numbers side by side are the bytes of one wider number. -/
theorem leBytes_append {m v : ℕ} (hv : v < 256 ^ m) (n w : ℕ) :
    leBytes m v ++ leBytes n w = leBytes (m + n) (v + 256 ^ m * w) := by
  rw [leBytes_add, ← leBytes_mod m (v + 256 ^ m * w), Nat.add_mul_mod_self_left,
    Nat.mod_eq_of_lt hv, Nat.add_mul_div_left v w (by positivity), Nat.div_eq_of_lt hv, zero_add]

/-- Numbers with the same bytes agree up to their width. -/
theorem leBytes_inj {n v w : ℕ} (hv : v < 256 ^ n) (hw : w < 256 ^ n)
    (h : leBytes n v = leBytes n w) : v = w := by
  have := congrArg ofLeBytes h
  rwa [ofLeBytes_leBytes, ofLeBytes_leBytes, Nat.mod_eq_of_lt hv, Nat.mod_eq_of_lt hw] at this

/-- Read a little-endian number of `n` bytes off the front. -/
def takeLe (n : ℕ) (bs : List UInt8) : Option (ℕ × List UInt8) :=
  if n ≤ bs.length then some (ofLeBytes (bs.take n), bs.drop n) else none

@[simp] theorem takeLe_append (n v : ℕ) (rest : List UInt8) :
    takeLe n (leBytes n v ++ rest) = some (v % 256 ^ n, rest) := by
  have hlen : n ≤ (leBytes n v ++ rest).length := by simp
  rw [takeLe, if_pos hlen, List.take_left' (length_leBytes n v),
    List.drop_left' (length_leBytes n v), ofLeBytes_leBytes]

/-! ## Codecs -/

/-- A format whose values can be read off the front of a byte string. -/
structure Codec (α : Type*) where
  /-- The bytes of a value. -/
  encode : α → List UInt8
  /-- Read a value off the front; `none` when the front is no encoding. -/
  decode : List UInt8 → Option (α × List UInt8)
  /-- Reading undoes writing, whatever follows. -/
  decode_encode : ∀ a rest, decode (encode a ++ rest) = some (a, rest)

namespace Codec

variable {α β : Type*}

/-- Two encodings that begin one byte string are encodings of one value. -/
theorem encode_append_inj (c : Codec α) {a b : α} {r s : List UInt8}
    (h : c.encode a ++ r = c.encode b ++ s) : a = b ∧ r = s := by
  have hdec := congrArg c.decode h
  rw [c.decode_encode, c.decode_encode, Option.some.injEq, Prod.mk.injEq] at hdec
  exact hdec

theorem encode_injective (c : Codec α) : Function.Injective c.encode := by
  intro a b h
  exact (c.encode_append_inj (r := []) (s := []) (by rw [h])).1

@[simp] theorem decode_encode_self (c : Codec α) (a : α) :
    c.decode (c.encode a) = some (a, []) := by
  simpa using c.decode_encode a []

/-- The codec of a type that embeds into another. -/
def map (c : Codec α) (to_ : β → α) (of_ : α → β) (h : ∀ b, of_ (to_ b) = b) : Codec β where
  encode b := c.encode (to_ b)
  decode bs := (c.decode bs).map fun x => (of_ x.1, x.2)
  decode_encode b rest := by simp [c.decode_encode, h]

/-- One value after the other. -/
def pair (c : Codec α) (d : Codec β) : Codec (α × β) where
  encode x := c.encode x.1 ++ d.encode x.2
  decode bs := (c.decode bs).bind fun x => (d.decode x.2).map fun y => ((x.1, y.1), y.2)
  decode_encode x rest := by simp [c.decode_encode, d.decode_encode]

/-- A little-endian integer of `n` bytes. -/
def le (n : ℕ) : Codec (BitVec (8 * n)) where
  encode v := leBytes n v.toNat
  decode bs := (takeLe n bs).map fun x => (BitVec.ofNat _ x.1, x.2)
  decode_encode v rest := by
    have hv : v.toNat < 256 ^ n := by
      have := v.isLt
      rwa [pow_mul] at this
    simp [Nat.mod_eq_of_lt hv]

/-- A `u32`, little-endian. -/
def u32 : Codec UInt32 := (le 4).map UInt32.toBitVec UInt32.ofBitVec fun _ => rfl

/-- A `u64`, little-endian. -/
def u64 : Codec UInt64 := (le 8).map UInt64.toBitVec UInt64.ofBitVec fun _ => rfl

/-- A byte string of a fixed length, as it is. -/
def fixed (n : ℕ) : Codec (List.Vector UInt8 n) where
  encode v := v.toList
  decode bs :=
    if h : n ≤ bs.length then some (⟨bs.take n, List.length_take_of_le h⟩, bs.drop n) else none
  decode_encode v rest := by
    have hv : v.toList.length = n := v.toList_length
    have hlen : n ≤ (v.toList ++ rest).length := by simp
    rw [dif_pos hlen, Option.some.injEq]
    exact Prod.ext (Subtype.ext (List.take_left' hv)) (List.drop_left' hv)

/-! ## Compact lengths and byte strings -/

/-- The compact encoding of a `u32`: the two low bits of the first byte give the width. -/
def compactEncode (v : ℕ) : List UInt8 :=
  if v < 2 ^ 6 then leBytes 1 (4 * v)
  else if v < 2 ^ 14 then leBytes 2 (4 * v + 1)
  else if v < 2 ^ 30 then leBytes 4 (4 * v + 2)
  else 3 :: leBytes 4 v

/-- Read a compact `u32`; a number in a wider form than it needs is refused. -/
def compactDecode : List UInt8 → Option (ℕ × List UInt8)
  | [] => none
  | b :: bs =>
      if b.toNat % 4 = 0 then some (b.toNat / 4, bs)
      else if b.toNat % 4 = 1 then
        (takeLe 2 (b :: bs)).bind fun x =>
          if 2 ^ 6 ≤ x.1 / 4 then some (x.1 / 4, x.2) else none
      else if b.toNat % 4 = 2 then
        (takeLe 4 (b :: bs)).bind fun x =>
          if 2 ^ 14 ≤ x.1 / 4 then some (x.1 / 4, x.2) else none
      else if b.toNat / 4 = 0 then
        (takeLe 4 bs).bind fun x => if 2 ^ 30 ≤ x.1 then some (x.1, x.2) else none
      else none

/-- The two low bits of the first byte. -/
theorem toNat_ofNat_mod_four (v : ℕ) : (UInt8.ofNat v).toNat % 4 = v % 4 := by
  rw [UInt8.toNat_ofNat']
  omega

theorem compactDecode_compactEncode {v : ℕ} (hv : v < 2 ^ 32) (rest : List UInt8) :
    compactDecode (compactEncode v ++ rest) = some (v, rest) := by
  unfold compactEncode
  split_ifs with h6 h14 h30
  · have hb : (UInt8.ofNat (4 * v)).toNat = 4 * v := by
      rw [UInt8.toNat_ofNat']
      omega
    simp only [leBytes, List.cons_append, List.nil_append, compactDecode, hb]
    rw [if_pos (by omega), Nat.mul_div_cancel_left v (by omega)]
  · have htake := takeLe_append 2 (4 * v + 1) rest
    simp only [leBytes, List.cons_append, List.nil_append] at htake ⊢
    rw [compactDecode, toNat_ofNat_mod_four, if_neg (by omega), if_pos (by omega), htake,
      Option.bind_some, Nat.mod_eq_of_lt (by omega), if_pos (by omega)]
    congr 2
    omega
  · have htake := takeLe_append 4 (4 * v + 2) rest
    simp only [leBytes, List.cons_append, List.nil_append] at htake ⊢
    rw [compactDecode, toNat_ofNat_mod_four, if_neg (by omega), if_neg (by omega),
      if_pos (by omega), htake, Option.bind_some, Nat.mod_eq_of_lt (by omega), if_pos (by omega)]
    congr 2
    omega
  · have h3 : (3 : UInt8).toNat = 3 := rfl
    rw [List.cons_append, compactDecode, h3, if_neg (by omega), if_neg (by omega),
      if_neg (by omega), if_pos (by omega), takeLe_append, Option.bind_some,
      Nat.mod_eq_of_lt (by omega), if_pos (by omega)]

/-- A byte string whose length fits a `u32`. -/
abbrev Bytes := { bs : List UInt8 // bs.length < 2 ^ 32 }

/-- A byte string behind its compact length. -/
def bytes : Codec Bytes where
  encode v := compactEncode v.1.length ++ v.1
  decode bs := (compactDecode bs).bind fun x =>
    if h : x.1 ≤ x.2.length ∧ x.1 < 2 ^ 32 then
      some (⟨x.2.take x.1, by rw [List.length_take_of_le h.1]; exact h.2⟩, x.2.drop x.1)
    else none
  decode_encode v rest := by
    have hlen : v.1.length ≤ (v.1 ++ rest).length ∧ v.1.length < 2 ^ 32 := ⟨by simp, v.2⟩
    rw [List.append_assoc, compactDecode_compactEncode v.2, Option.bind_some, dif_pos hlen]
    simp

end Codec

end Lib
