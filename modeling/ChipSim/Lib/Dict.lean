import Mathlib.Data.List.Basic
import Mathlib.Data.List.Nodup

/-!
# Insertion-ordered dictionaries

A finite map kept as the list of its entries in insertion order, with distinct keys. Assigning
to a present key keeps its position; assigning to a new key appends it; iteration follows the
list. These are the semantics of a Python `dict`.
-/

namespace Lib

/-- A dictionary: its entries in insertion order, no key twice. -/
structure Dict (α β : Type*) where
  entries : List (α × β)
  nodup : (entries.map Prod.fst).Nodup
deriving DecidableEq

namespace Dict

variable {α β γ : Type*}

/-- The keys, in iteration order. -/
def keys (d : Dict α β) : List α := d.entries.map Prod.fst

/-- The values, in iteration order. -/
def values (d : Dict α β) : List β := d.entries.map Prod.snd

/-- The dictionary without entries. -/
def empty : Dict α β := ⟨[], List.nodup_nil⟩

instance : Inhabited (Dict α β) := ⟨empty⟩

@[simp] theorem keys_empty : (empty : Dict α β).keys = [] := rfl

theorem nodup_keys (d : Dict α β) : d.keys.Nodup := d.nodup

/-- Apply a function to every value. -/
def mapValues (d : Dict α β) (f : α → β → γ) : Dict α γ where
  entries := d.entries.map fun e => (e.1, f e.1 e.2)
  nodup := by rw [List.map_map]; exact d.nodup

/-- Apply a function to every value, dropping the entries it maps to `none`. -/
def filterMapValues (d : Dict α β) (f : α → β → Option γ) : Dict α γ where
  entries := d.entries.filterMap fun e => (f e.1 e.2).map fun w => (e.1, w)
  nodup := by
    have hsub : ((d.entries.filterMap fun e => (f e.1 e.2).map fun w => (e.1, w)).map
        Prod.fst).Sublist (d.entries.map Prod.fst) := by
      induction d.entries with
      | nil => exact List.Sublist.refl _
      | cons e es ih =>
        rw [List.filterMap_cons]
        cases f e.1 e.2 with
        | none => exact ih.cons _
        | some w => exact ih.cons_cons _
    exact d.nodup.sublist hsub

@[simp] theorem keys_mapValues (d : Dict α β) (f : α → β → γ) : (d.mapValues f).keys = d.keys := by
  simp [keys, mapValues, Function.comp_def]

instance : Membership α (Dict α β) := ⟨fun d k => k ∈ d.keys⟩

theorem mem_def {k : α} {d : Dict α β} : k ∈ d ↔ k ∈ d.keys := Iff.rfl

variable [DecidableEq α]

/-- The value under a key. -/
def get? (d : Dict α β) (k : α) : Option β := d.entries.lookup k

/-- The value under a key, or a default (`dict.get(k, default)`). -/
def getD (d : Dict α β) (k : α) (v : β) : β := (d.get? k).getD v

instance (k : α) (d : Dict α β) : Decidable (k ∈ d) :=
  inferInstanceAs (Decidable (k ∈ d.keys))

@[simp] theorem get?_empty (k : α) : (empty : Dict α β).get? k = none := rfl

/-! ## Lookup -/

theorem lookup_cons_ite (e : α × β) (es : List (α × β)) (k : α) :
    (e :: es).lookup k = if k = e.1 then some e.2 else es.lookup k := by
  rw [List.lookup_cons]
  by_cases h : k = e.1
  · simp [h]
  · rw [if_neg h, beq_eq_false_iff_ne.mpr h]

theorem lookup_eq_some_iff (es : List (α × β)) (h : (es.map Prod.fst).Nodup) (k : α) (v : β) :
    es.lookup k = some v ↔ (k, v) ∈ es := by
  induction es with
  | nil => simp
  | cons e es ih =>
    obtain ⟨k', v'⟩ := e
    rw [List.map_cons, List.nodup_cons] at h
    rw [lookup_cons_ite]
    by_cases hk : k = k'
    · subst hk
      have hne : (k, v) ∉ es := fun hm => h.1 (List.mem_map.mpr ⟨_, hm, rfl⟩)
      simp [hne, eq_comm]
    · rw [if_neg hk, ih h.2]
      simp [hk]

theorem mem_entries_iff {d : Dict α β} {k : α} {v : β} :
    (k, v) ∈ d.entries ↔ d.get? k = some v :=
  (lookup_eq_some_iff d.entries d.nodup k v).symm

theorem mem_iff {d : Dict α β} {k : α} : k ∈ d ↔ ∃ v, d.get? k = some v := by
  simp only [mem_def, keys, List.mem_map, Prod.exists, ← mem_entries_iff]
  constructor
  · rintro ⟨a, v, h, rfl⟩
    exact ⟨v, h⟩
  · rintro ⟨v, h⟩
    exact ⟨k, v, h, rfl⟩

theorem get?_eq_none_iff {d : Dict α β} {k : α} : d.get? k = none ↔ k ∉ d := by
  rw [mem_iff]
  cases d.get? k <;> simp

theorem mem_of_get? {d : Dict α β} {k : α} {v : β} (h : d.get? k = some v) : k ∈ d :=
  mem_iff.mpr ⟨v, h⟩

theorem mem_values {d : Dict α β} {v : β} : v ∈ d.values ↔ ∃ k, d.get? k = some v := by
  simp [values, ← mem_entries_iff]

theorem get?_mapValues (d : Dict α β) (f : α → β → γ) (k : α) :
    (d.mapValues f).get? k = (d.get? k).map (f k) := by
  ext w
  rw [← mem_entries_iff, Option.map_eq_some_iff]
  simp only [mapValues, List.mem_map, Prod.mk.injEq, Prod.exists]
  constructor
  · rintro ⟨a, v, h, rfl, rfl⟩
    exact ⟨v, mem_entries_iff.mp h, rfl⟩
  · rintro ⟨v, h, rfl⟩
    exact ⟨k, v, mem_entries_iff.mpr h, rfl, rfl⟩

theorem get?_filterMapValues (d : Dict α β) (f : α → β → Option γ) (k : α) :
    (d.filterMapValues f).get? k = (d.get? k).bind (f k) := by
  ext w
  rw [← mem_entries_iff, Option.bind_eq_some_iff]
  simp only [filterMapValues, List.mem_filterMap, Option.map_eq_some_iff, Prod.mk.injEq,
    Prod.exists]
  constructor
  · rintro ⟨a, v, h, u, hu, rfl, rfl⟩
    exact ⟨v, mem_entries_iff.mp h, hu⟩
  · rintro ⟨v, h, hw⟩
    exact ⟨k, v, mem_entries_iff.mpr h, w, hw, rfl, rfl⟩

/-! ## Assignment -/

/-- Replace the value of `k` in place, or append a new entry. -/
def setEntries (k : α) (v : β) : List (α × β) → List (α × β)
  | [] => [(k, v)]
  | e :: es => if e.1 = k then (k, v) :: es else e :: setEntries k v es

theorem map_fst_setEntries (k : α) (v : β) (es : List (α × β)) :
    (setEntries k v es).map Prod.fst =
      if k ∈ es.map Prod.fst then es.map Prod.fst else es.map Prod.fst ++ [k] := by
  induction es with
  | nil => simp [setEntries]
  | cons e es ih =>
    by_cases he : e.1 = k
    · simp [setEntries, he]
    · have he' : ¬ k = e.1 := fun h => he h.symm
      rw [setEntries, if_neg he, List.map_cons, List.map_cons, ih]
      by_cases hm : k ∈ es.map Prod.fst
      · rw [if_pos hm, if_pos (List.mem_cons_of_mem _ hm)]
      · rw [if_neg hm, if_neg (List.not_mem_cons_of_ne_of_not_mem he' hm), List.cons_append]

theorem lookup_setEntries (k k' : α) (v : β) (es : List (α × β)) :
    (setEntries k v es).lookup k' = if k' = k then some v else es.lookup k' := by
  induction es with
  | nil => simp [setEntries, lookup_cons_ite]
  | cons e es ih =>
    by_cases he : e.1 = k
    · by_cases h : k' = k
      · simp [setEntries, lookup_cons_ite, he, h]
      · simp [setEntries, lookup_cons_ite, he, h]
    · rw [setEntries, if_neg he, lookup_cons_ite, lookup_cons_ite, ih]
      by_cases h : k' = k
      · have h' : ¬ k' = e.1 := fun h' => he (h'.symm.trans h)
        rw [if_neg h', if_pos h, if_pos h]
      · simp [h]

/-- `d[k] = v`. -/
def set (d : Dict α β) (k : α) (v : β) : Dict α β where
  entries := setEntries k v d.entries
  nodup := by
    rw [map_fst_setEntries]
    split
    · exact d.nodup
    · next h =>
      rw [List.nodup_append]
      refine ⟨d.nodup, List.nodup_singleton k, ?_⟩
      intro a ha b hb hab
      rw [List.mem_singleton] at hb
      exact h (hb ▸ hab ▸ ha)

theorem get?_set (d : Dict α β) (k k' : α) (v : β) :
    (d.set k v).get? k' = if k' = k then some v else d.get? k' :=
  lookup_setEntries k k' v d.entries

@[simp] theorem get?_set_self (d : Dict α β) (k : α) (v : β) : (d.set k v).get? k = some v := by
  rw [get?_set, if_pos rfl]

theorem get?_set_of_ne (d : Dict α β) {k k' : α} (v : β) (h : k' ≠ k) :
    (d.set k v).get? k' = d.get? k' := by
  rw [get?_set, if_neg h]

theorem setEntries_setEntries (k : α) (v w : β) (es : List (α × β)) :
    setEntries k w (setEntries k v es) = setEntries k w es := by
  induction es with
  | nil => simp [setEntries]
  | cons e es ih =>
    by_cases he : e.1 = k
    · simp [setEntries, he]
    · simp only [setEntries, if_neg he, ih]

/-- The second of two assignments to a key counts. -/
theorem set_set (d : Dict α β) (k : α) (v w : β) : (d.set k v).set k w = d.set k w := by
  unfold set
  congr 1
  exact setEntries_setEntries k v w d.entries

/-- Assigning the value a key already has changes nothing. -/
theorem set_eq_self {d : Dict α β} {k : α} {v : β} (h : d.get? k = some v) : d.set k v = d := by
  have hentries : ∀ es : List (α × β), es.lookup k = some v → setEntries k v es = es := by
    intro es hes
    induction es with
    | nil => cases hes
    | cons e es ih =>
      rw [lookup_cons_ite] at hes
      rw [setEntries]
      by_cases he : e.1 = k
      · rw [if_pos he.symm, Option.some.injEq] at hes
        rw [if_pos he, ← he, ← hes]
      · rw [if_neg fun hk => he hk.symm] at hes
        rw [if_neg he, ih hes]
  unfold set
  congr 1
  exact hentries d.entries h

theorem keys_set (d : Dict α β) (k : α) (v : β) :
    (d.set k v).keys = if k ∈ d then d.keys else d.keys ++ [k] :=
  map_fst_setEntries k v d.entries

theorem keys_set_of_mem {d : Dict α β} {k : α} (v : β) (h : k ∈ d) :
    (d.set k v).keys = d.keys := by
  rw [keys_set, if_pos h]

@[simp] theorem mem_set {d : Dict α β} {k k' : α} {v : β} :
    k' ∈ d.set k v ↔ k' = k ∨ k' ∈ d := by
  rw [mem_iff, get?_set]
  by_cases h : k' = k
  · simp [h]
  · simp [h, mem_iff]

/-- Update the value of a present key. -/
def modify (d : Dict α β) (k : α) (f : β → β) : Dict α β :=
  match d.get? k with
  | some v => d.set k (f v)
  | none => d

theorem get?_modify (d : Dict α β) (k k' : α) (f : β → β) :
    (d.modify k f).get? k' = if k' = k then (d.get? k').map f else d.get? k' := by
  unfold modify
  cases h : d.get? k with
  | none =>
    by_cases hk : k' = k
    · subst hk; simp [h]
    · simp [hk]
  | some v =>
    by_cases hk : k' = k
    · subst hk; simp [h]
    · simp [hk, get?_set]

@[simp] theorem keys_modify (d : Dict α β) (k : α) (f : β → β) : (d.modify k f).keys = d.keys := by
  unfold modify
  cases h : d.get? k with
  | none => rfl
  | some v => exact keys_set_of_mem _ (mem_of_get? h)

section ModifyLoop

variable {ι : Type*} (key : ι → α) (f : ι → β → β)

theorem get?_foldl_modify_of_ne (ks : List ι) (d : Dict α β) (k : α)
    (h : ∀ i ∈ ks, k ≠ key i) :
    (ks.foldl (fun d i => d.modify (key i) (f i)) d).get? k = d.get? k := by
  induction ks generalizing d with
  | nil => rfl
  | cons i ks ih =>
    rw [List.foldl_cons, ih _ fun j hj => h j (List.mem_cons_of_mem _ hj), get?_modify,
      if_neg (h i List.mem_cons_self)]

/-- A loop that updates the value of each of several distinct keys once. -/
theorem get?_foldl_modify (ks : List ι) (d : Dict α β) (hkey : Function.Injective key)
    (hks : ks.Nodup) {i : ι} (hi : i ∈ ks) :
    (ks.foldl (fun d i => d.modify (key i) (f i)) d).get? (key i) =
      (d.get? (key i)).map (f i) := by
  induction ks generalizing d with
  | nil => exact absurd hi (List.not_mem_nil)
  | cons j ks ih =>
    rw [List.nodup_cons] at hks
    rw [List.foldl_cons]
    rcases List.mem_cons.mp hi with rfl | hi
    · rw [get?_foldl_modify_of_ne, get?_modify, if_pos rfl]
      intro j hj h
      exact hks.1 (hkey h ▸ hj)
    · rw [ih _ hks.2 hi, get?_modify, if_neg]
      intro h
      exact hks.1 (hkey h ▸ hi)

end ModifyLoop

/-- A dictionary whose keys are the numbers below `n` has `n` keys. -/
theorem length_keys_of_mem_iff {d : Dict ℕ β} {n : ℕ} (h : ∀ k, k ∈ d ↔ k < n) :
    d.keys.length = n := by
  have hperm : d.keys.Perm (List.range n) := by
    rw [List.perm_ext_iff_of_nodup d.nodup_keys List.nodup_range]
    intro k
    rw [← mem_def, h, List.mem_range]
  rw [hperm.length_eq, List.length_range]

/-! ## Dictionaries of dictionaries -/

section Nested

variable {κ : Type*} [DecidableEq κ]

/-- `d[i][k]`. -/
def get2? (d : Dict α (Dict κ β)) (i : α) (k : κ) : Option β := (d.get? i).bind (·.get? k)

/-- `d[i][k] = v`. -/
def set2 (d : Dict α (Dict κ β)) (i : α) (k : κ) (v : β) : Dict α (Dict κ β) :=
  d.set i ((d.getD i empty).set k v)

theorem set2_eq_self {d : Dict α (Dict κ β)} {i : α} {k : κ} {v : β}
    (h : d.get2? i k = some v) : d.set2 i k v = d := by
  obtain ⟨e, he, hv⟩ := Option.bind_eq_some_iff.mp h
  have hrow : d.getD i empty = e := by rw [getD, he, Option.getD_some]
  rw [set2, hrow, set_eq_self hv, set_eq_self he]

theorem get2?_set2 (d : Dict α (Dict κ β)) (i i' : α) (k k' : κ) (v : β) :
    (d.set2 i k v).get2? i' k' = if i' = i ∧ k' = k then some v else d.get2? i' k' := by
  unfold get2? set2
  rw [get?_set]
  by_cases hi : i' = i
  · subst hi
    rw [if_pos rfl, Option.bind_some, get?_set]
    by_cases hk : k' = k
    · simp [hk]
    · cases h : d.get? i' with
      | none => simp [hk, getD, h]
      | some e => simp [hk, getD, h]
  · simp [hi]

end Nested

/-! ## Deletion -/

/-- `del d[k]`. -/
def erase (d : Dict α β) (k : α) : Dict α β where
  entries := d.entries.filter fun e => e.1 ≠ k
  nodup := d.nodup.sublist (List.filter_sublist.map Prod.fst)

theorem get?_erase (d : Dict α β) (k k' : α) :
    (d.erase k).get? k' = if k' = k then none else d.get? k' := by
  ext v
  rw [← mem_entries_iff]
  simp only [erase, List.mem_filter, mem_entries_iff]
  by_cases h : k' = k <;> simp [h]

@[simp] theorem mem_erase {d : Dict α β} {k k' : α} : k' ∈ d.erase k ↔ k' ≠ k ∧ k' ∈ d := by
  rw [mem_iff, get?_erase]
  by_cases h : k' = k
  · simp [h]
  · simp [h, mem_iff]

/-! ## Building -/

/-- The dictionary of a list of pairs, later pairs winning (`dict(pairs)`). -/
def ofList (l : List (α × β)) : Dict α β :=
  l.foldl (fun d e => d.set e.1 e.2) empty

/-- `{k: f(k) for k in ks}`. -/
def comprehension (ks : List α) (f : α → β) : Dict α β :=
  ofList (ks.map fun k => (k, f k))

theorem get?_foldl_set (ks : List α) (f : α → β) (d : Dict α β) (k : α) :
    (ks.foldl (fun d k => d.set k (f k)) d).get? k =
      if k ∈ ks then some (f k) else d.get? k := by
  induction ks generalizing d with
  | nil => simp
  | cons a ks ih =>
    rw [List.foldl_cons, ih, get?_set]
    by_cases hk : k ∈ ks
    · simp [hk]
    · by_cases ha : k = a
      · simp [ha]
      · simp [hk, ha]

theorem get?_comprehension (ks : List α) (f : α → β) (k : α) :
    (comprehension ks f).get? k = if k ∈ ks then some (f k) else none := by
  unfold comprehension ofList
  rw [List.foldl_map]
  exact get?_foldl_set ks f empty k

theorem setEntries_of_not_mem {k : α} (v : β) {es : List (α × β)} (h : k ∉ es.map Prod.fst) :
    setEntries k v es = es ++ [(k, v)] := by
  induction es with
  | nil => rfl
  | cons e es ih =>
    rw [List.map_cons, List.mem_cons, not_or] at h
    rw [setEntries, if_neg (Ne.symm h.1), ih h.2, List.cons_append]

theorem entries_foldl_set (ks : List α) (f : α → β) (d : Dict α β) (hks : ks.Nodup)
    (hd : ∀ k ∈ ks, k ∉ d) :
    (ks.foldl (fun d k => d.set k (f k)) d).entries = d.entries ++ ks.map fun k => (k, f k) := by
  induction ks generalizing d with
  | nil => simp
  | cons a ks ih =>
    rw [List.nodup_cons] at hks
    rw [List.foldl_cons, ih _ hks.2]
    · have ha : (d.set a (f a)).entries = d.entries ++ [(a, f a)] :=
        setEntries_of_not_mem _ (hd a List.mem_cons_self)
      rw [ha, List.map_cons, List.append_assoc, List.singleton_append]
    · intro k hk
      rw [mem_set, not_or]
      refine ⟨?_, hd k (List.mem_cons_of_mem _ hk)⟩
      rintro rfl
      exact hks.1 hk

/-- Iteration over a comprehension follows its keys. -/
theorem entries_comprehension (ks : List α) (f : α → β) (hks : ks.Nodup) :
    (comprehension ks f).entries = ks.map fun k => (k, f k) := by
  unfold comprehension ofList
  rw [List.foldl_map, entries_foldl_set ks f empty hks]
  · rfl
  · intro k _
    exact List.not_mem_nil

theorem values_comprehension (ks : List α) (f : α → β) (hks : ks.Nodup) :
    (comprehension ks f).values = ks.map f := by
  rw [values, entries_comprehension ks f hks, List.map_map]
  rfl

theorem keys_comprehension (ks : List α) (f : α → β) (hks : ks.Nodup) :
    (comprehension ks f).keys = ks := by
  rw [keys, entries_comprehension ks f hks, List.map_map]
  exact List.map_id ks

/-- `{k: v for k, v in d.items() if p(v)}`. -/
def filterValues (d : Dict α β) (p : β → Bool) : Dict α β where
  entries := d.entries.filter fun e => p e.2
  nodup := d.nodup.sublist (List.filter_sublist.map _)

omit [DecidableEq α] in
theorem filterValues_true {p : β → Bool} (hp : ∀ v, p v = true) (d : Dict α β) :
    d.filterValues p = d := by
  simp only [filterValues, hp, List.filter_true]

theorem entries_foldl_set_filter (p : β → Bool) (es : List (α × β)) (d : Dict α β)
    (hes : (es.map Prod.fst).Nodup) (hd : ∀ e ∈ es, e.1 ∉ d) :
    (es.foldl (fun d e => if p e.2 then d.set e.1 e.2 else d) d).entries =
      d.entries ++ es.filter fun e => p e.2 := by
  induction es generalizing d with
  | nil => simp
  | cons e es ih =>
    rw [List.map_cons, List.nodup_cons] at hes
    have htail := fun e' he' => hd e' (List.mem_cons_of_mem e he')
    rw [List.foldl_cons, List.filter_cons]
    split
    · have hset : (d.set e.1 e.2).entries = d.entries ++ [(e.1, e.2)] :=
        setEntries_of_not_mem _ (hd e List.mem_cons_self)
      rw [ih _ hes.2, hset, List.append_assoc]
      · rfl
      · intro e' he' hmem
        rcases mem_set.mp hmem with heq | hmem
        · exact hes.1 (heq ▸ List.mem_map_of_mem he')
        · exact htail e' he' hmem
    · exact ih d hes.2 htail

/-- A loop that copies the entries whose values satisfy a predicate. -/
theorem foldl_set_filter (d : Dict α β) (p : β → Bool) :
    d.entries.foldl (fun d e => if p e.2 then d.set e.1 e.2 else d) empty = d.filterValues p := by
  have hentries := entries_foldl_set_filter p d.entries empty d.nodup fun _ _ => List.not_mem_nil
  cases hd : d.entries.foldl (fun d e => if p e.2 then d.set e.1 e.2 else d) empty
  rw [hd] at hentries
  cases hentries
  rfl

end Dict

end Lib
