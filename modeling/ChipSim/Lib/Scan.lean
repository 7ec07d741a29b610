import Mathlib.Data.List.Infix

/-!
# Search and replace

A pattern gives the length of its match at the beginning of a text. Searching tries the positions
from left to right; replacing goes on behind each match. What a replacement does to the matches of
a pattern, the same or another one, is seen at the text before the first match, at the new text, and
at what follows.
-/

namespace Lib

variable {α : Type*}

/-- A pattern: the length of its match at the beginning of a text. -/
abbrev Pattern (α : Type*) := List α → Option ℕ

namespace Pattern

/-- The first match in a text. -/
def search (p : Pattern α) : List α → Option (List α)
  | [] => none
  | c :: s =>
    match p (c :: s) with
    | some n => some ((c :: s).take n)
    | none => search p s

/-- Replace all matches; the number counts the elements of a match that are still to be skipped. -/
def sub (p : Pattern α) (new : List α) : ℕ → List α → List α
  | _, [] => []
  | k + 1, _ :: s => sub p new k s
  | 0, c :: s =>
    match p (c :: s) with
    | some n => new ++ sub p new (n - 1) s
    | none => c :: sub p new 0 s

/-- A match is not empty and lies within the text. -/
def Proper (p : Pattern α) : Prop := ∀ s n, p s = some n → 0 < n ∧ n ≤ s.length

/-- All matches in a text, at whatever position, have a property. -/
def AllMatches (p : Pattern α) (P : List α → Prop) (text : List α) : Prop :=
  ∀ s, s <:+ text → ∀ n, p s = some n → P (s.take n)

variable {p q : Pattern α} {P : List α → Prop} {new s : List α} {c : α} {n k : ℕ}

theorem AllMatches.of_suffix {text : List α} (h : AllMatches p P text) (hs : s <:+ text) :
    AllMatches p P s := fun t ht => h t (ht.trans hs)

theorem AllMatches.nil (hp : Proper p) : AllMatches p P [] := by
  intro s hs n hn
  obtain rfl := List.suffix_nil.mp hs
  obtain ⟨hpos, hle⟩ := hp [] n hn
  exact absurd (hpos.trans_le hle) (Nat.lt_irrefl 0)

theorem AllMatches.cons (h : AllMatches p P s)
    (hhead : ∀ n, p (c :: s) = some n → P ((c :: s).take n)) : AllMatches p P (c :: s) := by
  intro t ht n hn
  rcases List.suffix_cons_iff.mp ht with rfl | ht
  · exact hhead n hn
  · exact h t ht n hn

theorem AllMatches.append (h : AllMatches p P s)
    (hnew : ∀ t, t ≠ [] → t <:+ new → ∀ n, p (t ++ s) = some n → P ((t ++ s).take n)) :
    AllMatches p P (new ++ s) := by
  induction new with
  | nil => exact h
  | cons c new ih =>
    refine AllMatches.cons (ih fun t ht hs => hnew t ht (hs.trans (List.suffix_cons c new))) ?_
    exact hnew (c :: new) (List.cons_ne_nil c new) (List.suffix_refl _)

/-- The match a search finds. -/
theorem AllMatches.search (h : AllMatches p P s) {found : List α}
    (hfound : p.search s = some found) :
    P found := by
  induction s with
  | nil => cases hfound
  | cons c s ih =>
    rw [Pattern.search] at hfound
    split at hfound
    · next n hn =>
      cases hfound
      exact h _ (List.suffix_refl _) n hn
    · exact ih (h.of_suffix (List.suffix_cons c s)) hfound

/-! ## Replacing -/

theorem sub_skip (k : ℕ) (s : List α) : sub p new k s = sub p new 0 (s.drop k) := by
  induction k generalizing s with
  | zero => rfl
  | succ k ih =>
    cases s with
    | nil => rfl
    | cons c s => rw [sub, ih, List.drop_succ_cons]

/-- At a match, the new text is inserted and the replacement goes on behind the match. -/
theorem sub_of_some (hp : Proper p) (h : p s = some n) :
    sub p new 0 s = new ++ sub p new 0 (s.drop n) := by
  obtain ⟨hpos, hle⟩ := hp s n h
  cases s with
  | nil => exact absurd (hpos.trans_le hle) (Nat.lt_irrefl 0)
  | cons c s =>
    obtain ⟨n, rfl⟩ := Nat.exists_eq_succ_of_ne_zero hpos.ne'
    rw [sub, h]
    exact congrArg (new ++ ·) (sub_skip n s)

theorem sub_of_none (h : p (c :: s) = none) : sub p new 0 (c :: s) = c :: sub p new 0 s := by
  rw [sub, h]

/-- The text before the first match stays, and the replacement goes on behind the match. -/
theorem sub_cases (hp : Proper p) (new s : List α) :
    sub p new 0 s = s ∨ ∃ u m r, s = u ++ (m ++ r) ∧ p (m ++ r) = some m.length ∧
      sub p new 0 s = u ++ (new ++ sub p new 0 r) := by
  induction s with
  | nil => exact Or.inl rfl
  | cons c s ih =>
    cases h : p (c :: s) with
    | none =>
      rw [sub_of_none h]
      rcases ih with hsame | ⟨u, m, r, rfl, hm, heq⟩
      · exact Or.inl (congrArg _ hsame)
      · exact Or.inr ⟨c :: u, m, r, rfl, hm, congrArg _ heq⟩
    | some n =>
      obtain ⟨-, hle⟩ := hp _ n h
      refine Or.inr ⟨[], (c :: s).take n, (c :: s).drop n, ?_, ?_, sub_of_some hp h⟩
      · rw [List.nil_append, List.take_append_drop]
      · rw [List.take_append_drop, h, List.length_take_of_le hle]

theorem mem_of_mem_sub {a : α} (h : a ∈ sub p new k s) : a ∈ new ∨ a ∈ s := by
  induction s generalizing k with
  | nil =>
    rw [show sub p new k [] = [] by cases k <;> rfl] at h
    cases h
  | cons c s ih =>
    cases k with
    | succ k => exact (ih h).imp_right (List.mem_cons_of_mem c)
    | zero =>
      rw [sub] at h
      split at h
      · rcases List.mem_append.mp h with h | h
        · exact Or.inl h
        · exact (ih h).imp_right (List.mem_cons_of_mem c)
      · rcases List.mem_cons.mp h with rfl | h
        · exact Or.inr List.mem_cons_self
        · exact (ih h).imp_right (List.mem_cons_of_mem c)

/-- **Replacement.** The matches of a pattern in a text with replacements: those that begin in a new
text, those that begin before one, and those of a text in which nothing is replaced. -/
theorem allMatches_sub {I : List α → Prop} (hI : ∀ s t, t <:+ s → I s → I t) (hp : Proper p)
    (hq : Proper q)
    (hnew : ∀ t, t ≠ [] → t <:+ new → ∀ r n, p (t ++ r) = some n → P ((t ++ r).take n))
    (hbefore : ∀ u m r r', u ≠ [] → I (u ++ (m ++ r)) → q (u ++ (m ++ r)) = none →
      q (m ++ r) = some m.length → (∀ a ∈ r', a ∈ new ∨ a ∈ r) →
      ∀ n, p (u ++ (new ++ r')) = some n → P ((u ++ (new ++ r')).take n))
    (hrest : ∀ s, I s → q s = none → ∀ n, p s = some n → P (s.take n)) (text : List α)
    (h : I text) : AllMatches p P (sub q new 0 text) := by
  induction hlen : text.length using Nat.strong_induction_on generalizing text with
  | _ l ih =>
  cases text with
  | nil => exact AllMatches.nil hp
  | cons c s =>
    cases hhead : q (c :: s) with
    | some n =>
      obtain ⟨hpos, hle⟩ := hq _ n hhead
      rw [sub_of_some hq hhead]
      refine AllMatches.append (ih _ ?_ _ (hI _ _ (List.drop_suffix n _) h) rfl)
        fun t ht hs n => hnew t ht hs _ n
      rw [List.length_drop]
      omega
    | none =>
      have hs : I s := hI _ _ (List.suffix_cons c s) h
      rw [sub_of_none hhead]
      refine AllMatches.cons (ih _ (hlen ▸ Nat.lt_succ_self _) s hs rfl) fun n hn => ?_
      rcases sub_cases hq new s with hsame | ⟨u, m, r, rfl, hm, heq⟩
      · rw [hsame] at hn ⊢
        exact hrest _ h hhead n hn
      · rw [heq] at hn ⊢
        exact hbefore (c :: u) m r _ (List.cons_ne_nil c u) h hhead hm
          (fun a ha => mem_of_mem_sub ha) n hn

end Pattern

end Lib
