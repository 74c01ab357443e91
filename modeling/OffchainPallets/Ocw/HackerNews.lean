import Mathlib.Tactic.Linarith
import OffchainPallets.Lib.Json
import OffchainPallets.Lib.Slots
import OffchainPallets.Ocw.FetchRemoteInfo

/-!
# How an item is read from JSON

The deserializer of `HackerNewsInfo`, which `serde` derives, with `de_string_to_bytes` for the
fields that are byte vectors. `serde_json` is a parameter: it hands the members of an object to the
deserializer, in order (`Presented`). A string comes borrowed from the text only if nothing in it is
escaped.

* `fetch_n_parse_item_iff` — an item is read exactly when none of its three strings is written with
  an escape sequence, and its number with neither fraction nor exponent.
-/

namespace OffchainPallets.Ocw

open Lib

/-! ## `serde_json` -/

/-- How a value is handed to a deserializer. -/
inductive Presented where
  /-- A slice of the text. -/
  | borrowedStr (s : String)
  /-- A string that lives in a buffer. -/
  | str (s : String)
  | u64 (n : UInt64)
  | i64 (n : Int64)
  /-- Anything else: no field takes it. -/
  | other

/-- How a document is handed to a deserializer. -/
inductive PresentedDocument where
  | map (entries : List (String × Presented))
  | seq (items : List Presented)
  | other

/-- The string of a literal, borrowed if it can be. -/
def presentLiteral (s : Json.Literal) : Presented :=
  if s.escaped then .str (String.ofList s.decoded) else .borrowedStr (String.ofList s.inner)

/-- An integer as one of 64 bits, if it fits; any other number as a floating-point number. -/
def presentNumeral (n : Json.Numeral) : Presented :=
  if n.IsInteger then
    if n.negative then
      if Json.digitsValue n.integer ≤ 2 ^ 63 then .i64 (Int64.ofInt (-Json.digitsValue n.integer))
      else .other
    else
      if Json.digitsValue n.integer < 2 ^ 64 then .u64 (UInt64.ofNat (Json.digitsValue n.integer))
      else .other
  else .other

def presentValue : Json.Value → Presented
  | .string s => presentLiteral s
  | .number n => presentNumeral n
  | _ => .other

/-- The members of an object, in order. -/
def presentObject (o : Json.ObjectText) : PresentedDocument :=
  .map (o.members.map fun m => (m.name, presentValue m.value))

/-! ## The deserializer -/

/-- The bytes of a string. -/
def utf8 (s : String) : List UInt8 := s.toUTF8.data.toList

/-- `&str` takes a borrowed string only.
Source: `de_string_to_bytes` -/
def deStringToBytes : Presented → Option Codec.Bytes
  | .borrowedStr s => if h : (utf8 s).length < 2 ^ 32 then some ⟨utf8 s, h⟩ else none
  | _ => none

/-- `u32: Deserialize`. -/
def deserializeU32 : Presented → Option UInt32
  | .u64 n => if n.toNat < 2 ^ 32 then some (UInt32.ofNat n.toNat) else none
  | .i64 n => if 0 ≤ n.toInt ∧ n.toInt < 2 ^ 32 then some (UInt32.ofNat n.toInt.toNat) else none
  | _ => none

/-- The fields that have been read. -/
abbrev ReadFields := Option Codec.Bytes × Option Codec.Bytes × Option Codec.Bytes × Option UInt32

/-- One member of the object: a field may be read once, other members are ignored.
Source: `HackerNewsInfo` -/
def visitEntry (fields : ReadFields) (entry : String × Presented) : Option ReadFields :=
  let (byBytes, title, url, descendants) := fields
  if entry.1 = "by" then
    if byBytes.isSome then none
    else (deStringToBytes entry.2).map fun x => (some x, title, url, descendants)
  else if entry.1 = "title" then
    if title.isSome then none
    else (deStringToBytes entry.2).map fun x => (byBytes, some x, url, descendants)
  else if entry.1 = "url" then
    if url.isSome then none
    else (deStringToBytes entry.2).map fun x => (byBytes, title, some x, descendants)
  else if entry.1 = "descendants" then
    if descendants.isSome then none
    else (deserializeU32 entry.2).map fun x => (byBytes, title, url, some x)
  else some fields

/-- No field may be missing.
Source: `HackerNewsInfo` -/
def finishFields : ReadFields → Option HackerNewsInfo
  | (some byBytes, some title, some url, some descendants) =>
      some ⟨byBytes, title, url, descendants⟩
  | _ => none

/-- An object by its members, an array by its items.
Source: `HackerNewsInfo` -/
def HackerNewsInfo.deserialize : PresentedDocument → Option HackerNewsInfo
  | .map entries => (entries.foldlM visitEntry (none, none, none, none)).bind finishFields
  | .seq [byBytes, title, url, descendants] => do
      some ⟨← deStringToBytes byBytes, ← deStringToBytes title, ← deStringToBytes url,
        ← deserializeU32 descendants⟩
  | _ => none

/-- `serde_json::from_str::<HackerNewsInfo>`, with `serde_json` as a parameter: how a text is
presented, `none` for one that is not well formed. -/
def fromStr (serdeJson : String → Option PresentedDocument) (s : String) :
    Option HackerNewsInfo :=
  (serdeJson s).bind HackerNewsInfo.deserialize

/-! ## Field by field -/

/-- The fields are filled side by side. -/
theorem visitEntry_eq : visitEntry = beside (slot "by" deStringToBytes)
    (beside (slot "title" deStringToBytes)
      (beside (slot "url" deStringToBytes) (slot "descendants" deserializeU32))) := by
  funext ⟨byBytes, title, url, descendants⟩ ⟨name, value⟩
  by_cases hby : name = "by"
  · subst hby
    rcases byBytes with _ | _
    · rcases hread : deStringToBytes value with _ | x <;> simp [visitEntry, beside, slot, hread]
    · simp [visitEntry, beside, slot]
  · by_cases htitle : name = "title"
    · subst htitle
      rcases title with _ | _
      · rcases hread : deStringToBytes value with _ | x <;> simp [visitEntry, beside, slot, hread]
      · simp [visitEntry, beside, slot]
    · by_cases hurl : name = "url"
      · subst hurl
        rcases url with _ | _
        · rcases hread : deStringToBytes value with _ | x <;>
            simp [visitEntry, beside, slot, hread]
        · simp [visitEntry, beside, slot]
      · by_cases hdescendants : name = "descendants"
        · subst hdescendants
          rcases descendants with _ | _
          · rcases hread : deserializeU32 value with _ | x <;>
              simp [visitEntry, beside, slot, hread]
          · simp [visitEntry, beside, slot]
        · simp [visitEntry, beside, slot, hby, htitle, hurl, hdescendants]

/-- The entries under a name, from the members with this name. -/
theorem filter_entries {o : Json.ObjectText} {name : String} {value : Json.Value}
    (h : o.named name = [value]) :
    ((o.members.map fun m => (m.name, presentValue m.value)).filter fun entry =>
      entry.1 = name) = [(name, presentValue value)] := by
  obtain ⟨m, hm, hvalue⟩ := List.map_eq_singleton_iff.mp h
  have hname : m.name = name := by
    have hmem : m ∈ o.members.filter fun m => m.name = name := by simp [hm]
    simpa using (List.mem_filter.mp hmem).2
  rw [List.filter_map]
  have hfilter : (o.members.filter
      ((fun entry : String × Presented => decide (entry.1 = name)) ∘
        fun m => (m.name, presentValue m.value))) = [m] := hm
  rw [hfilter, List.map_singleton, hname, hvalue]

/-- What is written for the four fields. -/
structure ItemText where
  «by» : Json.Literal
  title : Json.Literal
  url : Json.Literal
  descendants : Json.Numeral

/-- The object has exactly one member for each field, with these values. -/
structure ItemText.In (item : ItemText) (o : Json.ObjectText) : Prop where
  «by» : o.named "by" = [.string item.by]
  title : o.named "title" = [.string item.title]
  url : o.named "url" = [.string item.url]
  descendants : o.named "descendants" = [.number item.descendants]

/-- What an object with one member for each field is read as. -/
theorem deserialize_presentObject {item : ItemText} {o : Json.ObjectText} (h : item.In o) :
    HackerNewsInfo.deserialize (presentObject o) =
      (deStringToBytes (presentValue (.string item.by))).bind fun byBytes =>
        (deStringToBytes (presentValue (.string item.title))).bind fun title =>
          (deStringToBytes (presentValue (.string item.url))).bind fun url =>
            (deserializeU32 (presentValue (.number item.descendants))).map fun descendants =>
              ⟨byBytes, title, url, descendants⟩ := by
  rw [presentObject, HackerNewsInfo.deserialize, visitEntry_eq]
  simp only [foldlM_beside, foldlM_slot (filter_entries h.by), foldlM_slot (filter_entries h.title),
    foldlM_slot (filter_entries h.url), foldlM_slot (filter_entries h.descendants)]
  rcases deStringToBytes (presentValue (.string item.by)) with _ | byBytes
  · rfl
  · rcases deStringToBytes (presentValue (.string item.title)) with _ | title
    · rfl
    · rcases deStringToBytes (presentValue (.string item.url)) with _ | url
      · rfl
      · rcases deserializeU32 (presentValue (.number item.descendants)) with _ | descendants
        · rfl
        · rfl

/-! ## The fields -/

/-- A literal is taken exactly if it escapes nothing. -/
theorem deStringToBytes_eq_some_iff {s : Json.Literal} {bytes : Codec.Bytes}
    (h : bytes.1 = utf8 (String.ofList s.decoded)) :
    deStringToBytes (presentValue (.string s)) = some bytes ↔ s.escaped = false := by
  by_cases hescaped : s.escaped = true
  · simp [presentValue, presentLiteral, hescaped, deStringToBytes]
  · rw [Bool.not_eq_true] at hescaped
    have hfits : (utf8 (String.ofList s.decoded)).length < 2 ^ 32 := h ▸ bytes.2
    have hbytes : (⟨utf8 (String.ofList s.decoded), hfits⟩ : Codec.Bytes) = bytes :=
      Subtype.ext h.symm
    have hborrowed : presentValue (.string s) = .borrowedStr (String.ofList s.decoded) := by
      simp [presentValue, presentLiteral, hescaped, Json.Literal.inner_eq_decoded hescaped]
    rw [hborrowed, deStringToBytes, dif_pos hfits, hbytes]
    exact iff_of_true rfl hescaped

/-- A number with the value of a `u32` is taken exactly if it is written as an integer. -/
theorem deserializeU32_eq_some_iff {n : Json.Numeral} {v : UInt32} (h : n.value = v.toNat) :
    deserializeU32 (presentValue (.number n)) = some v ↔ n.IsInteger := by
  have hv := v.toNat_lt
  rw [presentValue]
  by_cases hinteger : n.IsInteger
  · rw [Json.Numeral.value_of_isInteger hinteger] at h
    simp only [hinteger, iff_true]
    by_cases hnegative : n.negative = true
    · -- only zero has a minus
      rw [if_pos hnegative] at h
      have hsum : Json.digitsValue n.integer + v.toNat = 0 := by
        have hcast : (Json.digitsValue n.integer : ℚ) + v.toNat = 0 := by linarith
        exact_mod_cast hcast
      have hzero : Json.digitsValue n.integer = 0 := by omega
      obtain rfl : v = 0 := UInt32.toNat_inj.mp (by omega : v.toNat = 0)
      rw [presentNumeral, if_pos hinteger, if_pos hnegative, hzero]
      rfl
    · rw [if_neg hnegative] at h
      have hvalue : Json.digitsValue n.integer = v.toNat := by exact_mod_cast h
      have hlt : v.toNat < 2 ^ 64 := by omega
      rw [presentNumeral, if_pos hinteger, if_neg hnegative, hvalue, if_pos hlt, deserializeU32,
        UInt64.toNat_ofNat_of_lt' hlt, if_pos hv, UInt32.ofNat_toNat]
  · simp [presentNumeral, hinteger, deserializeU32]

/-- The values that are written, as an item. -/
structure ItemText.Denotes (item : ItemText) (info : HackerNewsInfo) : Prop where
  «by» : info.by.1 = utf8 (String.ofList item.by.decoded)
  title : info.title.1 = utf8 (String.ofList item.title.decoded)
  url : info.url.1 = utf8 (String.ofList item.url.decoded)
  descendants : item.descendants.value = info.descendants.toNat

/-- What a body that is UTF-8 is read as. -/
theorem fetchNParse_body (serdeJson : String → Option PresentedDocument) (now : Timestamp)
    (s : String) :
    fetchNParse (fromStr serdeJson) now .reading (.body (utf8 s)) =
      some (.returned (match fromStr serdeJson s with
        | none => .error .DeserializeToObjError
        | some info => .ok info)) := by
  have hutf8 : String.fromUTF8? ⟨(utf8 s).toArray⟩ = some s := dif_pos s.isValidUTF8
  rcases hread : fromStr serdeJson s with _ | info
  · simp [fetchNParse, parseInfo, hutf8, hread]
  · simp [fetchNParse, parseInfo, hutf8, hread]

/-- **When an item is read.** For every text of an object with exactly one member for each field, in
any order and among any other members, if its values make an item: `fetch_n_parse` returns this item
exactly when no string is written with an escape sequence, and the number is written as an integer.
Source: `fetch_n_parse`, `HackerNewsInfo`, `de_string_to_bytes` -/
theorem fetch_n_parse_item_iff {serdeJson : String → Option PresentedDocument}
    {o : Json.ObjectText} {item : ItemText} {info : HackerNewsInfo} (now : Timestamp)
    (hserde : serdeJson o.text = some (presentObject o)) (hitem : item.In o)
    (hinfo : item.Denotes info) :
    fetchNParse (fromStr serdeJson) now .reading (.body (utf8 o.text)) =
        some (.returned (.ok info)) ↔
      item.by.escaped = false ∧ item.title.escaped = false ∧ item.url.escaped = false ∧
        item.descendants.IsInteger := by
  have hreturned : fetchNParse (fromStr serdeJson) now .reading (.body (utf8 o.text)) =
      some (.returned (.ok info)) ↔ HackerNewsInfo.deserialize (presentObject o) = some info := by
    rw [fetchNParse_body, fromStr, hserde, Option.bind_some]
    rcases HackerNewsInfo.deserialize (presentObject o) with _ | read
    · simp
    · simp
  rw [hreturned, deserialize_presentObject hitem, ← deStringToBytes_eq_some_iff hinfo.by,
    ← deStringToBytes_eq_some_iff hinfo.title, ← deStringToBytes_eq_some_iff hinfo.url,
    ← deserializeU32_eq_some_iff hinfo.descendants]
  simp only [Option.bind_eq_some_iff, Option.map_eq_some_iff]
  constructor
  · rintro ⟨byBytes, hby, title, htitle, url, hurl, descendants, hdescendants, rfl⟩
    exact ⟨hby, htitle, hurl, hdescendants⟩
  · rintro ⟨hby, htitle, hurl, hdescendants⟩
    exact ⟨info.by, hby, info.title, htitle, info.url, hurl, info.descendants, hdescendants, rfl⟩

/-- The literal of a text in which nothing has to be escaped. -/
def plainLiteral (s : String) : Json.Literal where
  items := s.toList.filterMap fun c =>
    if h : 32 ≤ c.toNat ∧ c ≠ '\x22' ∧ c ≠ '\x5c' then some (.plain c h) else none

/-- The object with the four members of an item, without blanks. -/
def itemObject (item : ItemText) : Json.ObjectText where
  before := []
  pad := []
  members := [.mk [] (plainLiteral "by") [] [] (.string item.by) [],
    .mk [] (plainLiteral "title") [] [] (.string item.title) [],
    .mk [] (plainLiteral "url") [] [] (.string item.url) [],
    .mk [] (plainLiteral "descendants") [] [] (.number item.descendants) []]
  after := []

theorem in_itemObject (item : ItemText) : item.In (itemObject item) := ⟨rfl, rfl, rfl, rfl⟩

/-- `serde_json`, as far as it has read one text. -/
def readsObject (o : Json.ObjectText) (s : String) : Option PresentedDocument :=
  if s = o.text then some (presentObject o) else none

theorem readsObject_text (o : Json.ObjectText) : readsObject o o.text = some (presentObject o) :=
  if_pos rfl

/-- The number zero. -/
def zeroNumeral : Json.Numeral := ⟨false, [0], Json.Numeral.canonical_zero, none, none⟩

theorem zeroNumeral_value : zeroNumeral.value = 0 := by
  rw [Json.Numeral.value_of_isInteger (by decide)]
  rfl

/-- An item without an escape sequence. -/
def plainItem : ItemText :=
  ⟨plainLiteral "a", plainLiteral "b", plainLiteral "c", zeroNumeral⟩

theorem plainItem_denotes :
    plainItem.Denotes ⟨⟨[97], by decide⟩, ⟨[98], by decide⟩, ⟨[99], by decide⟩, 0⟩ :=
  ⟨by decide, by decide, by decide, by rw [plainItem, zeroNumeral_value]; rfl⟩

/-- `fetch_n_parse_item_iff` at an item that is read. -/
theorem fetch_n_parse_item_iff_plainItem :
    fetchNParse (fromStr (readsObject (itemObject plainItem))) 0 .reading
          (.body (utf8 (itemObject plainItem).text)) =
        some (.returned (.ok ⟨⟨[97], by decide⟩, ⟨[98], by decide⟩, ⟨[99], by decide⟩, 0⟩)) ↔
      plainItem.by.escaped = false ∧ plainItem.title.escaped = false ∧
        plainItem.url.escaped = false ∧ plainItem.descendants.IsInteger :=
  fetch_n_parse_item_iff 0 (readsObject_text _) (in_itemObject plainItem) plainItem_denotes

/-- An item whose title is a quotation mark. -/
def quotingItem : ItemText :=
  ⟨plainLiteral "a", ⟨[.short .quotationMark]⟩, plainLiteral "c", zeroNumeral⟩

/-- **A title with a quotation mark** makes an item that is not read.
Source: `de_string_to_bytes` -/
theorem quoting_item_refused :
    (itemObject quotingItem).text =
        "\x7b\"by\":\"a\",\"title\":\"\\\"\",\"url\":\"c\",\"descendants\":0\x7d" ∧
      quotingItem.In (itemObject quotingItem) ∧
      quotingItem.Denotes ⟨⟨[97], by decide⟩, ⟨[34], by decide⟩, ⟨[99], by decide⟩, 0⟩ ∧
      fetchNParse (fromStr (readsObject (itemObject quotingItem))) 0 .reading
          (.body (utf8 (itemObject quotingItem).text)) =
        some (.returned (.error .DeserializeToObjError)) := by
  refine ⟨by decide, in_itemObject quotingItem, ?_, ?_⟩
  · exact ⟨by decide, by decide, by decide, by rw [quotingItem, zeroNumeral_value]; rfl⟩
  · rw [fetchNParse_body, fromStr, readsObject_text]
    rfl

end OffchainPallets.Ocw
