import Mathlib.Data.List.Pairwise
import ChipSim.Lib.Dict

/-!
# Memo tables

A function is computed through a table of stored values. A call looks its key up; a stored value
that the call accepts is replied, otherwise the function is computed, and may store a value.
-/

namespace Lib

/-- How a function is computed through a table. -/
structure Memo (α κ ν ρ : Type*) where
  key : α → κ
  compute : α → ρ
  store : α → Option ν
  accept : α → ν → Bool
  reply : ν → ρ

namespace Memo

variable {α κ ν ρ : Type*} [DecidableEq κ] (m : Memo α κ ν ρ)

/-- The stored value a call accepts. -/
def hit (d : Dict κ ν) (a : α) : Option ν := (d.get? (m.key a)).filter (m.accept a)

/-- What a call returns. -/
def answer (d : Dict κ ν) (a : α) : ρ :=
  match m.hit d a with
  | some v => m.reply v
  | none => m.compute a

/-- The table after a call. -/
def next (d : Dict κ ν) (a : α) : Dict κ ν :=
  match m.hit d a, m.store a with
  | none, some v => d.set (m.key a) v
  | _, _ => d

/-- What a sequence of calls returns. -/
def answers : Dict κ ν → List α → List ρ
  | _, [] => []
  | d, a :: as => m.answer d a :: answers (m.next d a) as

variable {m} {d : Dict κ ν} {a : α} {as : List α} {k : κ} {v : ν}

theorem get?_next (h : (m.next d a).get? k = some v) :
    d.get? k = some v ∨ m.key a = k ∧ m.store a = some v := by
  unfold next at h
  split at h
  · next w _ hw =>
    by_cases hk : k = m.key a
    · rw [hk, Dict.get?_set_self] at h
      exact Or.inr ⟨hk.symm, hw.trans h⟩
    · rw [Dict.get?_set_of_ne _ _ hk] at h
      exact Or.inl h
  · exact Or.inl h

/-- Every value in the table can be replied to the calls that will accept it. -/
def Sound (m : Memo α κ ν ρ) (d : Dict κ ν) (as : List α) : Prop :=
  ∀ a ∈ as, ∀ v, d.get? (m.key a) = some v → m.accept a v = true → m.reply v = m.compute a

/-- **The table is transparent** if what a call stores is what every later call that accepts it
computes. -/
theorem answers_eq_map (hsound : Sound m d as)
    (h : as.Pairwise fun a b => ∀ v, m.store a = some v → m.key a = m.key b →
      m.accept b v = true → m.reply v = m.compute b) :
    m.answers d as = as.map m.compute := by
  induction as generalizing d with
  | nil => rfl
  | cons a as ih =>
    have hanswer : m.answer d a = m.compute a := by
      unfold answer
      split
      · next v hv =>
        obtain ⟨hget, haccept⟩ := Option.filter_eq_some_iff.mp hv
        exact hsound a List.mem_cons_self v hget haccept
      · rfl
    have hsound' : Sound m (m.next d a) as := by
      intro b hb v hget haccept
      rcases get?_next hget with hold | ⟨hkey, hstore⟩
      · exact hsound b (List.mem_cons_of_mem a hb) v hold haccept
      · exact List.rel_of_pairwise_cons h hb v hstore hkey haccept
    rw [answers, List.map_cons, hanswer, ih hsound' (List.Pairwise.of_cons h)]

/-- A value that every call with its key accepts stays in the table. -/
theorem get?_next_of_accept (hget : d.get? k = some v)
    (haccept : m.key a = k → m.accept a v = true) : (m.next d a).get? k = some v := by
  unfold next
  split
  · next w hmiss _ =>
    have hk : k ≠ m.key a := by
      rintro rfl
      have hhit : m.hit d a = some v := Option.filter_eq_some_iff.mpr ⟨hget, haccept rfl⟩
      rw [hmiss] at hhit
      cases hhit
    rw [Dict.get?_set_of_ne _ _ hk, hget]
  · exact hget

/-- Such a value is what the next call with its key returns. -/
theorem getElem?_answers_of_accept {i : ℕ} {b : α} (hget : d.get? k = some v)
    (haccept : ∀ a ∈ as, m.key a = k → m.accept a v = true) (hi : as[i]? = some b)
    (hb : m.key b = k) : (m.answers d as)[i]? = some (m.reply v) := by
  induction as generalizing d i with
  | nil => simp at hi
  | cons a as ih =>
    cases i with
    | zero =>
      obtain rfl : a = b := by simpa using hi
      have hhit : m.hit d a = some v :=
        Option.filter_eq_some_iff.mpr ⟨hb ▸ hget, haccept a List.mem_cons_self hb⟩
      simp [answers, answer, hhit]
    | succ i =>
      rw [answers, List.getElem?_cons_succ]
      exact ih (get?_next_of_accept hget (haccept a List.mem_cons_self))
        (fun c hc => haccept c (List.mem_cons_of_mem a hc)) (by simpa using hi)

/-- After a call that returned a stored value, or stored one, the table has a value that is
replied with what was returned. -/
theorem exists_get?_next (hstore : ∃ v, m.store a = some v ∧ m.reply v = m.compute a) :
    ∃ v, (m.next d a).get? (m.key a) = some v ∧ m.reply v = m.answer d a := by
  obtain ⟨v, hv, hreply⟩ := hstore
  unfold next answer
  cases hhit : m.hit d a with
  | none =>
    rw [hv]
    exact ⟨v, Dict.get?_set_self _ _ _, hreply⟩
  | some w => exact ⟨w, (Option.filter_eq_some_iff.mp hhit).1, rfl⟩

theorem answers_append (d : Dict κ ν) (as bs : List α) :
    m.answers d (as ++ bs) = m.answers d as ++ m.answers (as.foldl m.next d) bs := by
  induction as generalizing d with
  | nil => rfl
  | cons a as ih => rw [List.cons_append, answers, ih, answers, List.foldl_cons, List.cons_append]

/-- **What a transparent table needs**: two calls with the same key, the first of which stores,
compute the same, as far as this decides what is accepted. -/
theorem compute_eq_of_transparent {τ : Type*} (f : ρ → τ) {bs : List α} {b : α} {i : ℕ}
    (htrans : (m.answers d (as ++ a :: bs)).map f = (as ++ a :: bs).map fun c => f (m.compute c))
    (hstore : ∃ v, m.store a = some v ∧ m.reply v = m.compute a)
    (haccept : ∀ v, f (m.reply v) = f (m.compute a) → ∀ c, m.key c = m.key a →
      m.accept c v = true)
    (hi : bs[i]? = some b) (hb : m.key b = m.key a) : f (m.compute a) = f (m.compute b) := by
  rw [answers_append, List.map_append, List.map_append] at htrans
  have hlength : ∀ (d : Dict κ ν) (cs : List α), (m.answers d cs).length = cs.length := by
    intro d cs
    induction cs generalizing d with
    | nil => rfl
    | cons c cs ih => rw [answers, List.length_cons, List.length_cons, ih]
  obtain ⟨-, htail⟩ := List.append_inj htrans (by simp [hlength])
  rw [answers, List.map_cons, List.map_cons] at htail
  obtain ⟨hhead, htail⟩ := List.cons.inj htail
  obtain ⟨v, hget, hreply⟩ := exists_get?_next (d := as.foldl m.next d) hstore
  rw [← hreply] at hhead
  have hanswer := getElem?_answers_of_accept hget (fun c _ hc => haccept v hhead c hc) hi hb
  have hboth := congrArg (·[i]?) htail
  simp only [List.getElem?_map, hanswer, hi, Option.map_some, Option.some.injEq] at hboth
  rw [← hhead, hboth]

end Memo

end Lib
