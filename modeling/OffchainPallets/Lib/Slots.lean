import Mathlib.Data.List.Basic
import Mathlib.Tactic.Common

/-!
# Records read from a list of entries

An entry is a key with a value. A record is read by going through the entries in order: a `slot`
takes the value under its name once, if the value can be read, and passes over the other entries.
Slots that are filled side by side are filled independently (`foldlM_beside`).

* `foldlM_slot` — when there is exactly one entry under the name, a slot is filled with what its
  value reads as, wherever the entry stands.
-/

namespace Lib

variable {K V X S T E : Type*}

/-- Two readers of the same entries; one that fails lets both fail. -/
def beside (f : S → E → Option S) (g : T → E → Option T) (st : S × T) (e : E) : Option (S × T) :=
  (f st.1 e).bind fun s => (g st.2 e).map fun t => (s, t)

/-- Two readers read independently. -/
theorem foldlM_beside (f : S → E → Option S) (g : T → E → Option T) (es : List E) (s : S) (t : T) :
    es.foldlM (beside f g) (s, t) =
      (es.foldlM f s).bind fun s' => (es.foldlM g t).map fun t' => (s', t') := by
  induction es generalizing s t with
  | nil => rfl
  | cons e es ih =>
      rcases hf : f s e with _ | s'
      · simp [List.foldlM_cons, beside, hf]
      · rcases hg : g t e with _ | t'
        · simp [List.foldlM_cons, beside, hf, hg]
        · simp [List.foldlM_cons, beside, hf, hg, ih]

variable [DecidableEq K]

/-- The value under a name, read once: an entry under another name is passed over, and a second one
under this name is an error. -/
def slot (name : K) (read : V → Option X) (filled : Option X) (entry : K × V) :
    Option (Option X) :=
  if entry.1 = name then
    if filled.isSome then none else (read entry.2).map some
  else some filled

variable {name : K} {read : V → Option X}

theorem foldlM_slot_of_absent {entries : List (K × V)} (h : ∀ entry ∈ entries, entry.1 ≠ name)
    (filled : Option X) : entries.foldlM (slot name read) filled = some filled := by
  induction entries with
  | nil => rfl
  | cons entry entries ih =>
      have hhead : slot name read filled entry = some filled :=
        if_neg (h entry List.mem_cons_self)
      rw [List.foldlM_cons, hhead]
      apply ih
      intro e he
      exact h e (List.mem_cons_of_mem entry he)

/-- **One entry under the name** fills the slot. -/
theorem foldlM_slot {entries : List (K × V)} {value : V}
    (h : (entries.filter fun entry => entry.1 = name) = [(name, value)]) :
    entries.foldlM (slot name read) none = (read value).map some := by
  induction entries with
  | nil => cases h
  | cons entry entries ih =>
      by_cases hname : entry.1 = name
      · -- the only one: the others are passed over
        rw [List.filter_cons_of_pos (by simpa using hname), List.cons.injEq] at h
        obtain ⟨rfl, hrest⟩ := h
        have habsent : ∀ e ∈ entries, e.1 ≠ name := by
          simpa [List.filter_eq_nil_iff] using hrest
        have hhead : slot name read none (name, value) = (read value).map some := by
          simp [slot]
        rw [List.foldlM_cons, hhead]
        rcases read value with _ | x
        · rfl
        · exact foldlM_slot_of_absent habsent (some x)
      · rw [List.filter_cons_of_neg (by simpa using hname)] at h
        have hhead : slot name read none entry = some none := if_neg hname
        rw [List.foldlM_cons, hhead]
        exact ih h

end Lib
