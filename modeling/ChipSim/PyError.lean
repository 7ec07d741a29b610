import Mathlib.Order.MinMax
import ChipSim.Lib.Dict
import ChipSim.Lib.Fold

/-!
# Exceptions

The exceptions the simulator raises or lets through. Code that may raise runs in
`Except PyError`; console output and log files are not part of the model.
-/

namespace ChipSim

open Lib

/-- A Python exception, with its argument where the simulator writes one. -/
inductive PyError
  | keyError (key : String)
  | indexError (message : String)
  | valueError (message : String)
  | typeError (message : String)
  | runtimeError (message : String)
  | zeroDivisionError (message : String)
  | notImplementedError (message : String)
  | assertionError (message : String)
  | attributeError (message : String)
  | systemExit (code : ℕ)
deriving DecidableEq, Repr

variable {α β : Type}

/-- `d[k]`, which raises `KeyError` on a missing key. -/
def getItem [DecidableEq α] [ToString α] (d : Dict α β) (k : α) : Except PyError β :=
  match d.get? k with
  | some v => .ok v
  | none => .error (.keyError (toString k))

theorem getItem_eq_ok [DecidableEq α] [ToString α] {d : Dict α β} {k : α} {v : β} :
    getItem d k = .ok v ↔ d.get? k = some v := by
  unfold getItem
  cases d.get? k <;> simp

/-- `l[i]` for an index that is not negative, which raises `IndexError` past the end. -/
def getIndex (l : List α) (i : ℕ) : Except PyError α :=
  match l[i]? with
  | some a => .ok a
  | none => .error (.indexError "list index out of range")

theorem getIndex_eq_ok {l : List α} {i : ℕ} {a : α} : getIndex l i = .ok a ↔ l[i]? = some a := by
  unfold getIndex
  cases l[i]? <;> simp

/-- `max(l)`, which raises `ValueError` on an empty sequence. -/
def maxOf {α : Type} [Max α] : List α → Except PyError α
  | [] => .error (.valueError "max() arg is an empty sequence")
  | a :: l => .ok (l.foldl max a)

theorem foldl_max_spec {α : Type} [LinearOrder α] (l : List α) (a : α) :
    a ≤ l.foldl max a ∧ (∀ b ∈ l, b ≤ l.foldl max a) ∧ l.foldl max a ∈ a :: l := by
  induction l generalizing a with
  | nil => simp
  | cons b l ih =>
    obtain ⟨h₁, h₂, h₃⟩ := ih (max a b)
    refine ⟨(le_max_left a b).trans h₁, ?_, ?_⟩
    · intro c hc
      rcases List.mem_cons.mp hc with rfl | hc
      · exact (le_max_right a c).trans h₁
      · exact h₂ c hc
    · rw [List.foldl_cons]
      rcases List.mem_cons.mp h₃ with h | h
      · rw [h]
        rcases max_choice a b with hm | hm <;> simp [hm]
      · simp [h]

theorem le_foldl_max {α β : Type} [LinearOrder β] (f : α → β) {l : List α} {a : α} (ha : a ∈ l)
    (b : β) : f a ≤ l.foldl (fun m c => max m (f c)) b := by
  have h := (foldl_max_spec (l.map f) b).2.1 (f a) (List.mem_map_of_mem ha)
  rwa [List.foldl_map] at h

/-- The maximum is an element and bounds every element. -/
theorem maxOf_spec {α : Type} [LinearOrder α] {l : List α} {a : α} (h : maxOf l = .ok a) :
    a ∈ l ∧ ∀ b ∈ l, b ≤ a := by
  cases l with
  | nil => simp [maxOf] at h
  | cons c l =>
    simp only [maxOf, Except.ok.injEq] at h
    subst h
    obtain ⟨h₁, h₂, h₃⟩ := foldl_max_spec l c
    refine ⟨h₃, ?_⟩
    intro b hb
    rcases List.mem_cons.mp hb with rfl | hb
    · exact h₁
    · exact h₂ b hb

theorem maxOf_ok {α : Type} [Max α] {l : List α} (h : l ≠ []) : ∃ a, maxOf l = .ok a := by
  cases l with
  | nil => exact absurd rfl h
  | cons a l => exact ⟨_, rfl⟩

end ChipSim
