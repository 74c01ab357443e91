import Mathlib.Data.List.MinMax
import OffchainPallets.Lib.Attempts

/-!
# A pool with tags and priorities

Each entry of the pool provides tags and has a priority. Entries that provide a tag in common
collide: the pool keeps the one it holds, unless the new one has a higher priority.

* `insert` — one entry; `submit` — one request, which is first validated.
* `answers_alike` — of requests with the same tags and the same priority, an empty pool accepts only
  the first.
* `Apart.submit` — no two entries of the pool ever provide a tag in common, so there are no more
  entries than tags (`Apart.length_le`).
* `submitAll_eq_argmax` — of requests with the same tags, an empty pool ends up with one of the
  highest priority, the first of them (`exists_winner`).
-/

namespace Lib

namespace TagPool

/-- A request in the pool, with what its validation says. -/
structure Entry (C Tag Priority : Type*) where
  request : C
  priority : Priority
  provides : List Tag

variable {C Tag Priority : Type*}

/-- Two entries provide a tag in common. -/
def Entry.Collides (x y : Entry C Tag Priority) : Prop := ∃ tag ∈ x.provides, tag ∈ y.provides

instance [DecidableEq Tag] (x y : Entry C Tag Priority) : Decidable (x.Collides y) :=
  inferInstanceAs (Decidable (∃ tag ∈ x.provides, tag ∈ y.provides))

section

variable [DecidableEq Tag] [Preorder Priority] [DecidableLE Priority]

/-- An entry is refused if one with which it collides has at least its priority; else it replaces
those with which it collides. -/
def insert (pool : List (Entry C Tag Priority)) (new : Entry C Tag Priority) :
    List (Entry C Tag Priority) × Except Unit Unit :=
  if ∃ x ∈ pool, x.Collides new ∧ new.priority ≤ x.priority then (pool, .error ())
  else (pool.filter (fun x => ¬ x.Collides new) ++ [new], .ok ())

/-- A request that is not valid is refused. -/
def submit (validate : C → Option (Priority × List Tag)) (pool : List (Entry C Tag Priority))
    (c : C) : List (Entry C Tag Priority) × Except Unit Unit :=
  match validate c with
  | none => (pool, .error ())
  | some (priority, provides) => insert pool ⟨c, priority, provides⟩

/-- The pool after some requests, one after the other. -/
def submitAll (validate : C → Option (Priority × List Tag)) (pool : List (Entry C Tag Priority))
    (cs : List C) : List (Entry C Tag Priority) :=
  cs.foldl (fun pool c => (submit validate pool c).1) pool

/-- An entry is accepted when nothing it collides with has at least its priority. -/
theorem insert_snd_eq_ok_iff {pool : List (Entry C Tag Priority)} {new : Entry C Tag Priority} :
    (insert pool new).2 = .ok () ↔ ∀ x ∈ pool, x.Collides new → ¬ new.priority ≤ x.priority := by
  unfold insert
  split_ifs with hrefused
  · obtain ⟨x, hx, hcollides, hle⟩ := hrefused
    apply iff_of_false (by simp)
    intro hall
    exact hall x hx hcollides hle
  · apply iff_of_true rfl
    intro x hx hcollides hle
    exact hrefused ⟨x, hx, hcollides, hle⟩

theorem insert_nil (new : Entry C Tag Priority) : insert [] new = ([new], .ok ()) := by
  simp [insert]

/-- Two entries with the same tags: the new one stays only with a higher priority. -/
theorem insert_rival {held new : Entry C Tag Priority} (htags : new.provides ≠ [])
    (hprovides : held.provides = new.provides) :
    insert [held] new =
      if new.priority ≤ held.priority then ([held], .error ()) else ([new], .ok ()) := by
  obtain ⟨tag, htag⟩ := List.exists_mem_of_ne_nil _ htags
  have hcollides : held.Collides new := ⟨tag, hprovides ▸ htag, htag⟩
  simp [insert, hcollides]

/-- An entry that is held with the same tags and priority keeps a new one out. -/
theorem insert_alike {held new : Entry C Tag Priority} (htags : new.provides ≠ [])
    (hprovides : held.provides = new.provides) (hpriority : held.priority = new.priority) :
    insert [held] new = ([held], .error ()) := by
  rw [insert_rival htags hprovides, if_pos hpriority.ge]

variable {validate : C → Option (Priority × List Tag)} {priority : Priority} {provides : List Tag}

/-- The requests that come after the first are all refused. -/
theorem answers_of_held (htags : provides ≠ []) (c₀ : C) {cs : List C}
    (hvalid : ∀ c ∈ cs, validate c = some (priority, provides)) :
    answers (submit validate) cs [⟨c₀, priority, provides⟩] =
      List.replicate cs.length (.error ()) := by
  induction cs with
  | nil => rfl
  | cons c cs ih =>
      have hrefused : submit validate [⟨c₀, priority, provides⟩] c =
          ([⟨c₀, priority, provides⟩], .error ()) := by
        rw [submit, hvalid c List.mem_cons_self]
        exact insert_alike htags rfl rfl
      have hrest := ih fun d hd => hvalid d (List.mem_cons_of_mem c hd)
      rw [answers, hrefused, hrest]
      rfl

/-- **Requests that are alike.** An empty pool accepts the first and refuses all others. -/
theorem answers_alike (htags : provides ≠ []) {c : C} {cs : List C}
    (hvalid : ∀ d ∈ c :: cs, validate d = some (priority, provides)) :
    answers (submit validate) (c :: cs) [] = .ok () :: List.replicate cs.length (.error ()) := by
  have haccepted : submit validate [] c = ([⟨c, priority, provides⟩], .ok ()) := by
    rw [submit, hvalid c List.mem_cons_self]
    exact insert_nil _
  have hrest : ∀ d ∈ cs, validate d = some (priority, provides) := by
    intro d hd
    exact hvalid d (List.mem_cons_of_mem c hd)
  rw [answers, haccepted, answers_of_held htags c hrest]

end

/-! ## No tag twice -/

section

/-- No two entries collide. -/
def Apart (pool : List (Entry C Tag Priority)) : Prop := pool.Pairwise fun x y => ¬ x.Collides y

variable {pool : List (Entry C Tag Priority)}

theorem Apart.sublist {pool' : List (Entry C Tag Priority)} (h : Apart pool)
    (hsub : List.Sublist pool' pool) : Apart pool' :=
  List.Pairwise.sublist hsub h

variable [DecidableEq Tag]

/-- Of entries that do not collide, one at most provides a tag. -/
theorem Apart.length_filter_le_one (h : Apart pool) (tag : Tag) :
    (pool.filter fun x => tag ∈ x.provides).length ≤ 1 := by
  induction h with
  | nil => exact Nat.zero_le 1
  | @cons x pool hx _ ih =>
      by_cases hmem : tag ∈ x.provides
      · have hrest : (pool.filter fun y => tag ∈ y.provides) = [] := by
          rw [List.filter_eq_nil_iff]
          intro y hy
          simp only [decide_eq_true_eq]
          intro hmem'
          exact hx y hy ⟨tag, hmem, hmem'⟩
        simp [hmem, hrest]
      · simpa [hmem] using ih

/-- **There are as many entries as tags**, at most, if each provides one of the tags. -/
theorem Apart.length_le (h : Apart pool) {tags : List Tag}
    (hall : ∀ x ∈ pool, ∃ tag ∈ tags, tag ∈ x.provides) : pool.length ≤ tags.length := by
  induction tags generalizing pool with
  | nil =>
      have hnil : pool = [] := by
        rw [List.eq_nil_iff_forall_not_mem]
        intro x hx
        obtain ⟨tag, htag, -⟩ := hall x hx
        exact List.not_mem_nil htag
      simp [hnil]
  | cons tag tags ih =>
      -- one entry for the first tag, and the others
      have hone := h.length_filter_le_one tag
      have hothers : (pool.filter fun x => ¬ tag ∈ x.provides).length ≤ tags.length := by
        apply ih (h.sublist List.filter_sublist)
        intro x hx
        rw [List.mem_filter] at hx
        obtain ⟨tag', htag', hmem⟩ := hall x hx.1
        rcases List.mem_cons.mp htag' with rfl | htag'
        · simp [hmem] at hx
        · exact ⟨tag', htag', hmem⟩
      have hsplit := List.length_eq_length_filter_add (l := pool)
        (fun x => decide (tag ∈ x.provides))
      simp only [decide_not] at hothers
      rw [List.length_cons]
      omega

variable [Preorder Priority] [DecidableLE Priority]
  {validate : C → Option (Priority × List Tag)}

/-- **One insertion.** -/
theorem Apart.insert (h : Apart pool) (new : Entry C Tag Priority) :
    Apart (insert pool new).1 := by
  unfold TagPool.insert
  split_ifs with hrefused
  · exact h
  · apply List.pairwise_append.mpr
    refine ⟨h.sublist List.filter_sublist, List.pairwise_singleton _ _, ?_⟩
    intro x hx y hy
    obtain rfl := List.mem_singleton.mp hy
    simpa using (List.mem_filter.mp hx).2

theorem mem_insert {x new : Entry C Tag Priority} (h : x ∈ (TagPool.insert pool new).1) :
    x ∈ pool ∨ x = new := by
  unfold TagPool.insert at h
  split_ifs at h with hrefused
  · exact Or.inl h
  · rcases List.mem_append.mp h with h | h
    · exact Or.inl (List.mem_filter.mp h).1
    · exact Or.inr (List.mem_singleton.mp h)

/-- **One request.** -/
theorem Apart.submit (h : Apart pool) (c : C) : Apart (submit validate pool c).1 := by
  unfold TagPool.submit
  cases validate c with
  | none => exact h
  | some v => exact h.insert _

/-- What a request adds to the pool is an entry with what its validation says. -/
theorem mem_submit {x : Entry C Tag Priority} {c : C} (h : x ∈ (TagPool.submit validate pool c).1) :
    x ∈ pool ∨ x.request = c ∧ validate c = some (x.priority, x.provides) := by
  unfold TagPool.submit at h
  cases hvalid : validate c with
  | none =>
      rw [hvalid] at h
      exact Or.inl h
  | some v =>
      rw [hvalid] at h
      rcases mem_insert h with h | rfl
      · exact Or.inl h
      · exact Or.inr ⟨rfl, rfl⟩

end

/-! ## Rivals for the same tags -/

section

variable [DecidableEq Tag] [LinearOrder Priority] {validate : C → Option (Priority × List Tag)}
  {rank : C → Priority} {provides : List Tag} {cs : List C}

/-- **The pool holds the maximum.** Requests that provide the same tags leave one entry in an empty
pool, the first of those with the highest priority. -/
theorem submitAll_eq_argmax (htags : provides ≠ [])
    (hvalid : ∀ c ∈ cs, validate c = some (rank c, provides)) :
    submitAll validate [] cs =
      ((cs.argmax rank).map fun c => ⟨c, rank c, provides⟩).toList := by
  induction cs using List.reverseRecOn with
  | nil => rfl
  | append_singleton cs c ih =>
      have hc : validate c = some (rank c, provides) := hvalid c (by simp)
      have hrest := ih fun d hd => hvalid d (List.mem_append_left _ hd)
      unfold submitAll at hrest ⊢
      rw [List.foldl_append, hrest, List.foldl_cons, List.foldl_nil, submit, hc,
        List.argmax_concat]
      rcases cs.argmax rank with _ | held
      · exact congrArg Prod.fst (insert_nil _)
      · -- the held entry against the new one
        have hrival : insert [(⟨held, rank held, provides⟩ : Entry C Tag Priority)]
            ⟨c, rank c, provides⟩ =
            if rank c ≤ rank held then ([⟨held, rank held, provides⟩], .error ())
            else ([⟨c, rank c, provides⟩], .ok ()) := insert_rival htags rfl
        simp only [Option.map_some, Option.toList_some, hrival]
        by_cases hle : rank c ≤ rank held
        · simp [hle, not_lt.mpr hle]
        · simp [hle, not_le.mp hle]

/-- A client that submits for every candidate submits all requests. -/
theorem every_eq_submitAll {A : Type*} (request : A → Option C) (as : List A)
    (pool : List (Entry C Tag Priority)) :
    (every (submit validate) request as pool).1 =
      submitAll validate pool (as.filterMap request) := by
  induction as generalizing pool with
  | nil => rfl
  | cons a as ih =>
      rcases hrequest : request a with _ | c
      · rw [List.filterMap_cons_none hrequest]
        simp only [every, hrequest, ih]
      · rw [List.filterMap_cons_some hrequest]
        simp only [every, hrequest, ih]
        rfl

/-- Where all have one priority, the first has the highest. -/
theorem argmax_of_forall_eq {c : C} (h : ∀ d ∈ cs, rank d = rank c) :
    (c :: cs).argmax rank = some c := by
  rw [List.argmax_cons]
  rcases hmax : cs.argmax rank with _ | d
  · rfl
  · have heq := h d (List.argmax_mem hmax)
    simp [heq]

/-- **The winner** of requests that provide the same tags. -/
theorem exists_winner (htags : provides ≠ []) (hsome : cs ≠ [])
    (hvalid : ∀ c ∈ cs, validate c = some (rank c, provides)) :
    ∃ winner ∈ cs, submitAll validate [] cs = [⟨winner, rank winner, provides⟩] ∧
      (∀ c ∈ cs, rank c ≤ rank winner) ∧
      ((∀ c ∈ cs, ∀ d ∈ cs, rank c = rank d) → cs.head? = some winner) := by
  have hpool := submitAll_eq_argmax htags hvalid
  rcases hmax : cs.argmax rank with _ | winner
  · exact absurd (List.argmax_eq_none.mp hmax) hsome
  · rw [hmax] at hpool
    refine ⟨winner, List.argmax_mem hmax, hpool, ?_, ?_⟩
    · intro c hc
      exact List.le_of_mem_argmax hc hmax
    · intro hequal
      rcases cs with _ | ⟨c, cs⟩
      · exact absurd rfl hsome
      · have hfirst := argmax_of_forall_eq fun d hd =>
          hequal d (List.mem_cons_of_mem c hd) c List.mem_cons_self
        exact hfirst.symm.trans hmax

end

end TagPool

end Lib
