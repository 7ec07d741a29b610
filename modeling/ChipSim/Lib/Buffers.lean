import Mathlib.Data.List.Nodup
import Mathlib.Logic.Function.Basic

/-!
# Buffers

Elements with identities lie in buffers, first in, first out. The front element of a buffer moves to
the end of another, perhaps changed, but with its identity. No identity is ever in two places.
-/

namespace Lib

namespace Buffers

variable {ι α : Type*}

/-- The front element of a buffer moves, changed to `y`, to the end of another one. -/
def move [DecidableEq ι] (q : ι → List α) (a b : ι) (y : α) : ι → List α :=
  Function.update (Function.update q a (q a).tail) b
    (Function.update q a (q a).tail b ++ [y])

/-- New elements come to the end of a buffer. -/
def extend [DecidableEq ι] (q : ι → List α) (a : ι) (l : List α) : ι → List α :=
  Function.update q a (q a ++ l)

/-- Every identity lies in one place. -/
structure Unique (id : α → ℕ) (q : ι → List α) : Prop where
  nodup : ∀ a, ((q a).map id).Nodup
  place : ∀ {a b x y}, x ∈ q a → y ∈ q b → id x = id y → a = b

variable {id : α → ℕ} {q : ι → List α} {a b : ι} {x y z : α} {rest : List α}

variable [DecidableEq ι]

theorem move_of_ne {c : ι} (ha : c ≠ a) (hb : c ≠ b) : move q a b y c = q c := by
  unfold move
  rw [Function.update_of_ne hb, Function.update_of_ne ha]

theorem move_source (hq : q a = x :: rest) (hne : a ≠ b) : move q a b y a = rest := by
  unfold move
  rw [Function.update_of_ne hne, Function.update_self, hq, List.tail_cons]

theorem move_target (hne : b ≠ a) : move q a b y b = q b ++ [y] := by
  unfold move
  rw [Function.update_self, Function.update_of_ne hne]

/-- What lies where after a move. -/
theorem mem_move (h : Unique id q) (hq : q a = x :: rest) {c : ι} :
    z ∈ move q a b y c ↔ c = b ∧ z = y ∨ z ∈ q c ∧ id z ≠ id x := by
  have hx : x ∈ q a := by
    rw [hq]
    exact List.mem_cons_self
  have hrest : ∀ c, z ∈ Function.update q a (q a).tail c ↔ z ∈ q c ∧ id z ≠ id x := by
    intro c
    rcases eq_or_ne c a with rfl | hne
    · rw [Function.update_self, hq, List.tail_cons, List.mem_cons]
      have hnodup := h.nodup c
      rw [hq, List.map_cons, List.nodup_cons] at hnodup
      constructor
      · intro hz
        exact ⟨.inr hz, fun hid => hnodup.1 (hid ▸ List.mem_map_of_mem hz)⟩
      · rintro ⟨rfl | hz, hid⟩
        · exact absurd rfl hid
        · exact hz
    · rw [Function.update_of_ne hne]
      exact ⟨fun hz => ⟨hz, fun hid => hne (h.place hz hx hid)⟩, And.left⟩
  unfold move
  rcases eq_or_ne c b with rfl | hne
  · rw [Function.update_self, List.mem_append, hrest, List.mem_singleton]
    tauto
  · rw [Function.update_of_ne hne, hrest]
    tauto

theorem Unique.move (h : Unique id q) (hq : q a = x :: rest) (hid : id y = id x) (b : ι) :
    Unique id (move q a b y) where
  nodup c := by
    have htail : ∀ c, ((Function.update q a (q a).tail c).map id).Nodup := by
      intro c
      rcases eq_or_ne c a with rfl | hne
      · rw [Function.update_self]
        exact (h.nodup c).sublist ((List.tail_sublist _).map id)
      · rw [Function.update_of_ne hne]
        exact h.nodup c
    unfold Buffers.move
    rcases eq_or_ne c b with rfl | hne
    · rw [Function.update_self, List.map_append]
      refine (htail c).append (List.nodup_singleton _) ?_
      intro i hi hy
      obtain ⟨z, hz, hzi⟩ := List.mem_map.mp hi
      rw [List.map_singleton, List.mem_singleton, hid] at hy
      -- What is left in the buffer has other identities.
      rcases eq_or_ne c a with rfl | hca
      · rw [Function.update_self, hq, List.tail_cons] at hz
        have hnodup := h.nodup c
        rw [hq, List.map_cons, List.nodup_cons] at hnodup
        exact hnodup.1 (hy ▸ hzi ▸ List.mem_map_of_mem hz)
      · rw [Function.update_of_ne hca] at hz
        exact hca (h.place hz (hq ▸ List.mem_cons_self) (hzi.trans hy))
    · rw [Function.update_of_ne hne]
      exact htail c
  place {c d u v} hu hv huv := by
    have hx : x ∈ q a := hq ▸ List.mem_cons_self
    rcases (mem_move h hq).mp hu with ⟨rfl, rfl⟩ | ⟨hu, hux⟩
    · rcases (mem_move h hq).mp hv with ⟨rfl, rfl⟩ | ⟨hv, hvx⟩
      · rfl
      · exact absurd (huv.symm.trans hid) hvx
    · rcases (mem_move h hq).mp hv with ⟨rfl, rfl⟩ | ⟨hv, hvx⟩
      · exact absurd (huv.trans hid) hux
      · exact h.place hu hv huv

theorem extend_of_ne {c : ι} (hne : c ≠ a) (l : List α) : extend q a l c = q c :=
  Function.update_of_ne hne _ _

theorem mem_extend {l : List α} {c : ι} :
    z ∈ extend q a l c ↔ z ∈ q c ∨ c = a ∧ z ∈ l := by
  unfold extend
  rcases eq_or_ne c a with rfl | hne
  · rw [Function.update_self, List.mem_append]
    tauto
  · rw [Function.update_of_ne hne]
    tauto

/-- New identities. -/
theorem Unique.extend (h : Unique id q) {l : List α} (hl : (l.map id).Nodup)
    (hnew : ∀ x ∈ l, ∀ b, ∀ y ∈ q b, id y ≠ id x) (a : ι) : Unique id (extend q a l) where
  nodup c := by
    unfold Buffers.extend
    rcases eq_or_ne c a with rfl | hne
    · rw [Function.update_self, List.map_append]
      refine (h.nodup c).append hl ?_
      intro i hi hy
      obtain ⟨z, hz, hzi⟩ := List.mem_map.mp hi
      obtain ⟨x, hx, hxi⟩ := List.mem_map.mp hy
      exact hnew x hx c z hz (hzi.trans hxi.symm)
    · rw [Function.update_of_ne hne]
      exact h.nodup c
  place {c d u v} hu hv huv := by
    rcases mem_extend.mp hu with hu' | ⟨rfl, hu'⟩
    · rcases mem_extend.mp hv with hv' | ⟨rfl, hv'⟩
      · exact h.place hu' hv' huv
      · exact absurd huv (hnew v hv' c u hu')
    · rcases mem_extend.mp hv with hv' | ⟨rfl, hv'⟩
      · exact absurd huv.symm (hnew u hu' d v hv')
      · rfl

end Buffers

end Lib
