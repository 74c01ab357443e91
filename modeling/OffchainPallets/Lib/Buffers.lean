import Mathlib.Data.List.DropRight
import Mathlib.Data.List.Induction
import Mathlib.Data.Multiset.ZeroCons
import Mathlib.Tactic.Common

/-!
# Bounded buffers: a log that drops its head, and a table that overwrites by key

Two ways to keep a bounded part of an unbounded history of values.

* `pushBounded cap` — a queue of at most `cap` values: at the bound the head goes before the new
  value is put at the tail. From the empty queue the history `xs` leaves exactly its last `cap`
  values, in order (`foldl_pushBounded`).
* `insertSlot cap key` — a table that is filled in order up to `cap` values and from then on
  overwrites the slot `key x` of the new value `x`. What a history leaves in slot `i` has a closed
  form (`slotValue`, `getElem?_slotTable`).

The table holds the last `cap` values of its history, as a multiset, as long as every overwrite
hits the slot of the value that leaves the window, and no longer (`slotTable_perm_window_iff`).
-/

namespace Lib

variable {α : Type*}

/-! ## The log -/

/-- Append to a queue of at most `cap` values, dropping the head at the bound. -/
def pushBounded (cap : ℕ) (l : List α) (x : α) : List α :=
  (if l.length = cap then l.tail else l) ++ [x]

theorem rtake_eq_self_of_length_le {xs : List α} {n : ℕ} (h : xs.length ≤ n) : xs.rtake n = xs := by
  rw [List.rtake, Nat.sub_eq_zero_of_le h, List.drop_zero]

theorem length_rtake (xs : List α) (n : ℕ) : (xs.rtake n).length = min xs.length n := by
  rw [List.rtake, List.length_drop]
  omega

theorem rtake_succ_of_lt {xs : List α} {n : ℕ} (h : n < xs.length) :
    xs.rtake (n + 1) = xs[xs.length - (n + 1)] :: xs.rtake n := by
  rw [List.rtake, List.rtake, List.drop_eq_getElem_cons (by omega)]
  congr 2
  omega

/-- One push on the last `cap` values of a history gives the last `cap` values of the longer
history. -/
theorem pushBounded_rtake {cap : ℕ} (hcap : 0 < cap) (xs : List α) (x : α) :
    pushBounded cap (xs.rtake cap) x = (xs ++ [x]).rtake cap := by
  obtain ⟨n, rfl⟩ : ∃ n, cap = n + 1 := ⟨cap - 1, by omega⟩
  rw [List.rtake_concat_succ, pushBounded, length_rtake]
  split_ifs with h
  · rw [rtake_succ_of_lt (by omega), List.tail_cons]
  · rw [rtake_eq_self_of_length_le (by omega), rtake_eq_self_of_length_le (by omega)]

/-- **The bounded log.** From the empty queue a history leaves its last `cap` values. -/
theorem foldl_pushBounded {cap : ℕ} (hcap : 0 < cap) (xs : List α) :
    xs.foldl (pushBounded cap) [] = xs.rtake cap := by
  induction xs using List.reverseRecOn with
  | nil => simp
  | append_singleton xs x ih =>
      rw [List.foldl_append, ih, List.foldl_cons, List.foldl_nil, pushBounded_rtake hcap]

/-! ## The table -/

section table

variable (cap : ℕ) (key : α → ℕ)

/-- Append while there is room, then overwrite the slot of the key. -/
def insertSlot (l : List α) (x : α) : List α :=
  if l.length < cap then l ++ [x] else l.set (key x) x

/-- The table that a history leaves. -/
def slotTable (xs : List α) : List α := xs.foldl (insertSlot cap key) []

/-- What a history leaves in a slot: the last value after the first `cap` ones that has this slot
as its key, or else the value that filled it. -/
def slotValue (xs : List α) (i : ℕ) : Option α :=
  ((xs.drop cap).filter fun x => key x = i).getLast?.or xs[i]?

/-- Every overwrite hits the slot that holds the value leaving the window of the last `cap`. -/
def EvictsOldest (xs : List α) : Prop :=
  ∀ k (h : k < xs.length), cap ≤ k →
    slotValue cap key (xs.take k) (key xs[k]) = xs[k - cap]?

variable {cap key}

theorem insertSlot_of_lt {l : List α} (h : l.length < cap) (x : α) :
    insertSlot cap key l x = l ++ [x] := if_pos h

theorem insertSlot_of_full {l : List α} (h : cap ≤ l.length) (x : α) :
    insertSlot cap key l x = l.set (key x) x := if_neg (not_lt.mpr h)

theorem slotTable_snoc (xs : List α) (x : α) :
    slotTable cap key (xs ++ [x]) = insertSlot cap key (slotTable cap key xs) x := by
  rw [slotTable, List.foldl_append]
  rfl

theorem length_slotTable (xs : List α) :
    (slotTable cap key xs).length = min xs.length cap := by
  induction xs using List.reverseRecOn with
  | nil => simp [slotTable]
  | append_singleton xs x ih =>
      rw [slotTable_snoc, insertSlot, List.length_append, List.length_singleton]
      split_ifs with h
      · rw [List.length_append, List.length_singleton]
        omega
      · rw [List.length_set]
        omega

/-- A history that fits is kept as it is. -/
theorem slotTable_eq_self {xs : List α} (h : xs.length ≤ cap) : slotTable cap key xs = xs := by
  induction xs using List.reverseRecOn with
  | nil => rfl
  | append_singleton xs x ih =>
      rw [List.length_append, List.length_singleton] at h
      rw [slotTable_snoc, ih (by omega), insertSlot_of_lt (by omega)]

theorem slotValue_of_length_le {xs : List α} (h : xs.length ≤ cap) (i : ℕ) :
    slotValue cap key xs i = xs[i]? := by
  rw [slotValue, List.drop_eq_nil_of_le h]
  rfl

/-- One more value after the first `cap`: its own slot changes and no other. -/
theorem slotValue_snoc {xs : List α} (h : cap ≤ xs.length) (x : α) {i : ℕ} (hi : i < cap) :
    slotValue cap key (xs ++ [x]) i = if key x = i then some x else slotValue cap key xs i := by
  rw [slotValue, slotValue, List.drop_append_of_le_length h, List.filter_append,
    List.getLast?_append, List.getElem?_append_left (by omega)]
  by_cases hx : key x = i <;> simp [hx]

/-- **Closed form of the table.** -/
theorem getElem?_slotTable (xs : List α) {i : ℕ} (hi : i < cap) :
    (slotTable cap key xs)[i]? = slotValue cap key xs i := by
  induction xs using List.reverseRecOn with
  | nil => simp [slotTable, slotValue]
  | append_singleton xs x ih =>
      by_cases hlen : xs.length < cap
      · have hle : (xs ++ [x]).length ≤ cap := by
          rw [List.length_append, List.length_singleton]
          omega
        rw [slotTable_eq_self hle, slotValue_of_length_le hle]
      · have htab : (slotTable cap key xs).length = cap := by
          rw [length_slotTable]
          omega
        rw [slotValue_snoc (by omega) x hi, ← ih, slotTable_snoc,
          insertSlot_of_full (by omega), List.getElem?_set]
        by_cases hx : key x = i
        · rw [if_pos hx, if_pos hx, if_pos (by omega)]
        · rw [if_neg hx, if_neg hx]

/-! ## The table and the window -/

/-- One overwrite of a table that holds the window keeps it the window exactly when it hits the
value that leaves. -/
theorem perm_window_snoc_iff {xs : List α} {x : α} (hcap : 0 < cap) (hkey : key x < cap)
    (hlen : cap ≤ xs.length) (hperm : (slotTable cap key xs).Perm (xs.rtake cap)) :
    (slotTable cap key (xs ++ [x])).Perm ((xs ++ [x]).rtake cap) ↔
      slotValue cap key xs (key x) = xs[xs.length - cap]? := by
  obtain ⟨n, rfl⟩ : ∃ n, cap = n + 1 := ⟨cap - 1, by omega⟩
  have htab : (slotTable (n + 1) key xs).length = n + 1 := by
    rw [length_slotTable]
    omega
  have hslot : key x < (slotTable (n + 1) key xs).length := by omega
  -- the old table is the overwritten value and the rest, the old window the leaving value and the
  -- rest; the new ones are the new value and the same rests
  have hold : ((slotTable (n + 1) key xs)[key x] ::
      (slotTable (n + 1) key xs).eraseIdx (key x)).Perm
      (xs[xs.length - (n + 1)] :: xs.rtake n) := by
    refine (List.getElem_cons_eraseIdx_perm hslot).trans ?_
    rwa [← rtake_succ_of_lt (by omega)]
  have hset : (slotTable (n + 1) key (xs ++ [x])).Perm
      (x :: (slotTable (n + 1) key xs).eraseIdx (key x)) := by
    rw [slotTable_snoc, insertSlot_of_full (by omega)]
    exact List.set_perm_cons_eraseIdx hslot x
  have hwin : ((xs ++ [x]).rtake (n + 1)).Perm (x :: xs.rtake n) := by
    rw [List.rtake_concat_succ]
    exact List.perm_append_singleton x _
  have hrest : (slotTable (n + 1) key (xs ++ [x])).Perm ((xs ++ [x]).rtake (n + 1)) ↔
      ((slotTable (n + 1) key xs).eraseIdx (key x)).Perm (xs.rtake n) :=
    ⟨fun h => (hset.symm.trans (h.trans hwin)).cons_inv,
      fun h => hset.trans ((h.cons x).trans hwin.symm)⟩
  rw [hrest, ← getElem?_slotTable xs hkey, List.getElem?_eq_getElem hslot,
    List.getElem?_eq_getElem (by omega), Option.some.injEq]
  constructor
  · intro h
    have hcons := hold.trans (h.symm.cons _)
    rw [← Multiset.coe_eq_coe, ← Multiset.cons_coe, ← Multiset.cons_coe] at hcons
    exact (Multiset.cons_inj_left _).mp hcons
  · intro h
    rw [h] at hold
    exact hold.cons_inv

/-- **The table is the window exactly when every overwrite hits the oldest value.** The left side
speaks about every point of the history. -/
theorem slotTable_perm_window_iff (hcap : 0 < cap) (hkey : ∀ x, key x < cap) (xs : List α) :
    (∀ k ≤ xs.length, (slotTable cap key (xs.take k)).Perm ((xs.take k).rtake cap)) ↔
      EvictsOldest cap key xs := by
  have hstep : ∀ k (h : k < xs.length), cap ≤ k →
      (slotTable cap key (xs.take k)).Perm ((xs.take k).rtake cap) →
      ((slotTable cap key (xs.take (k + 1))).Perm ((xs.take (k + 1)).rtake cap) ↔
        slotValue cap key (xs.take k) (key xs[k]) = xs[k - cap]?) := by
    intro k hk hle hperm
    have hlen : (xs.take k).length = k := List.length_take_of_le hk.le
    rw [List.take_succ_eq_append_getElem hk,
      perm_window_snoc_iff hcap (hkey _) (by omega) hperm, hlen,
      List.getElem?_take_of_lt (by omega)]
  constructor
  · intro h k hk hle
    exact (hstep k hk hle (h k hk.le)).mp (h (k + 1) hk)
  · intro h k
    induction k with
    | zero => intro _; simp [slotTable]
    | succ k ih =>
        intro hk
        by_cases hle : cap ≤ k
        · exact (hstep k hk hle (ih (by omega))).mpr (h k hk hle)
        · have hlen : (xs.take (k + 1)).length ≤ cap := by
            rw [List.length_take_of_le hk]
            omega
          rw [slotTable_eq_self hlen, rtake_eq_self_of_length_le hlen]

end table

end Lib
