import ChipSim.ModelMapper.Shares

/-!
# Nearer chiplets first

The chiplets are taken in the order of their distance from the starting chiplet, and a chiplet that
cannot take all that is left is filled. So a layer spills to a farther chiplet only when all nearer
ones are full.
-/

namespace ChipSim

open Lib

namespace ModelMapper

variable {s : System} {layer : LayerMetrics} {st : Allocation} {remaining : List ℤ}
  {preference : Preference}

/-! ## The order -/

theorem SortKey.le_total (a b : SortKey) : a.le b ∨ b.le a := by
  unfold SortKey.le
  rcases lt_trichotomy a.distance b.distance with h | h | h
  · exact .inl (.inl h)
  · rcases lt_trichotomy a.memory b.memory with h' | h' | h'
    · exact .inr (.inr ⟨h.symm, .inl h'⟩)
    · rcases le_or_gt a.metric b.metric with h'' | h''
      · exact .inr (.inr ⟨h.symm, .inr ⟨h', h''⟩⟩)
      · exact .inl (.inr ⟨h, .inr ⟨h'.symm, h''.le⟩⟩)
    · exact .inl (.inr ⟨h, .inl h'⟩)
  · exact .inr (.inl h)

theorem SortKey.le_trans {a b c : SortKey} (hab : a.le b) (hbc : b.le c) : a.le c := by
  unfold SortKey.le at *
  rcases hab with hab | ⟨hab, hab'⟩
  · rcases hbc with hbc | ⟨hbc, -⟩
    · exact .inl (hab.trans hbc)
    · exact .inl (hbc ▸ hab)
  · rcases hbc with hbc | ⟨hbc, hbc'⟩
    · exact .inl (hab ▸ hbc)
    · refine .inr ⟨hab.trans hbc, ?_⟩
      rcases hab' with h | ⟨h, hm⟩
      · rcases hbc' with h' | ⟨h', -⟩
        · exact .inl (h'.trans h)
        · exact .inl (h' ▸ h)
      · rcases hbc' with h' | ⟨h', hm'⟩
        · exact .inl (h ▸ h')
        · exact .inr ⟨h'.trans h, hm'.trans hm⟩

/-- The distance from the starting chiplet; `⊤` when there is no path. -/
def distance (s : System) (start chipletId : ℕ) : WithTop ℕ :=
  (s.shortestPathLength start chipletId).elim ⊤ fun d => (d : WithTop ℕ)

theorem distance_le_of_before {start : ℕ} {l₁ l₂ : List ℕ} {a b : ℕ}
    (h : allocationOrder s preference remaining start = l₁ ++ b :: l₂) (ha : a ∈ l₁) :
    distance s start a ≤ distance s start b := by
  let key : ℕ → SortKey := fun i =>
    ⟨distance s start i, availMemory s remaining i, metricOf s preference i⟩
  have : Std.Total fun a b => (key a).le (key b) := ⟨fun a b => SortKey.le_total _ _⟩
  have : IsTrans ℕ fun a b => (key a).le (key b) := ⟨fun _ _ _ => SortKey.le_trans⟩
  have hsorted : (allocationOrder s preference remaining start).Pairwise
      fun a b => (key a).le (key b) := List.pairwise_insertionSort _ _
  rw [h, List.pairwise_append] at hsorted
  rcases hsorted.2.2 a ha b List.mem_cons_self with hlt | ⟨heq, -⟩
  · exact hlt.le
  · exact heq.le

/-! ## The loop -/

theorem allocate_idle {chipletId : ℕ} (h : st.resources ≤ 0) :
    allocate s layer st chipletId = st := by
  unfold allocate
  rw [if_pos h]

theorem foldl_idle (ids : List ℕ) (h : st.resources ≤ 0) :
    ids.foldl (allocate s layer) st = st := by
  induction ids with
  | nil => rfl
  | cons id ids ih => rw [List.foldl_cons, allocate_idle h, ih]

theorem AllocMove.other {chipletId : ℕ} {st' : Allocation}
    (h : AllocMove s layer st chipletId st') {k : ℕ} (hk : k ≠ chipletId - 1) :
    st'.remaining.getD k 0 = st.remaining.getD k 0 ∧
      st'.action.getD k 0 = st.action.getD k 0 := by
  have hset : ∀ {α : Type} (l : List α) (v d : α),
      (l.set (chipletId - 1) v).getD k d = l.getD k d := fun l v d => by
    rw [List.getD_eq_getElem?_getD, List.getElem?_set_ne hk.symm, List.getD_eq_getElem?_getD]
  cases h with
  | skip => exact ⟨rfl, rfl⟩
  | fit => exact ⟨hset .., hset ..⟩
  | fill => exact ⟨hset .., hset ..⟩

/-- Chiplets that are not visited are left alone. -/
theorem foldl_other {ids : List ℕ} {k : ℕ} (hids : ∀ id ∈ ids, k ≠ id - 1) :
    (ids.foldl (allocate s layer) st).remaining.getD k 0 = st.remaining.getD k 0 ∧
      (ids.foldl (allocate s layer) st).action.getD k 0 = st.action.getD k 0 := by
  induction ids generalizing st with
  | nil => exact ⟨rfl, rfl⟩
  | cons id ids ih =>
    have hother := (allocate_move s layer st id).other (hids id List.mem_cons_self)
    rw [List.foldl_cons, ← hother.1, ← hother.2]
    exact ih fun j hj => hids j (List.mem_cons_of_mem id hj)

/-- A chiplet with something to offer is full when the loop goes on after it. -/
theorem foldl_full {near : ℕ} {l₁ l₂ : List ℕ} {far : ℕ}
    (hids : ∀ id ∈ l₁ ++ near :: l₂, 1 ≤ id) (hnodup : (l₁ ++ near :: l₂).Nodup)
    (havail : 0 < st.remaining.getD (near - 1) 0)
    (hfull : 0 < unitsFull s layer near) (hfar : far ∈ l₂)
    (hunused : st.action.getD (far - 1) 0 = 0)
    (hused : ((l₁ ++ near :: l₂).foldl (allocate s layer) st).action.getD (far - 1) 0 ≠ 0) :
    ((l₁ ++ near :: l₂).foldl (allocate s layer) st).remaining.getD (near - 1) 0 = 0 := by
  rw [List.nodup_append, List.nodup_cons] at hnodup
  obtain ⟨-, ⟨hnear, -⟩, hdisjoint⟩ := hnodup
  have hmem : near ∈ l₁ ++ near :: l₂ := List.mem_append_right _ List.mem_cons_self
  have hfarmem : far ∈ l₁ ++ near :: l₂ :=
    List.mem_append_right _ (List.mem_cons_of_mem near hfar)
  -- ids are different from `1` on, so their positions are different
  have hpos : ∀ {a b : ℕ}, a ∈ l₁ ++ near :: l₂ → b ∈ l₁ ++ near :: l₂ → a ≠ b →
      a - 1 ≠ b - 1 := fun ha hb hab => by
    have h₁ := hids _ ha
    have h₂ := hids _ hb
    omega
  have hbefore : ∀ k ∈ near :: l₂, ∀ id ∈ l₁, k - 1 ≠ id - 1 := fun k hk id hid =>
    hpos (List.mem_append_right _ hk) (List.mem_append_left _ hid)
      fun heq => hdisjoint id hid k hk heq.symm
  rw [List.foldl_append, List.foldl_cons] at *
  generalize hst₀ : l₁.foldl (allocate s layer) st = st₀ at hused ⊢
  have havail₀ : 0 < st₀.remaining.getD (near - 1) 0 := by
    rw [← hst₀, (foldl_other (hbefore near List.mem_cons_self)).1]
    exact havail
  have hunused₀ : st₀.action.getD (far - 1) 0 = 0 := by
    rw [← hst₀, (foldl_other (hbefore far (List.mem_cons_of_mem near hfar))).2]
    exact hunused
  have hlen₀ : near - 1 < st₀.remaining.length := by
    by_contra hout
    rw [List.getD_eq_default _ _ (not_lt.mp hout)] at havail₀
    exact lt_irrefl _ havail₀
  have hfarnear : far - 1 ≠ near - 1 := hpos hfarmem hmem fun heq => hnear (heq ▸ hfar)
  have hafter : (l₂.foldl (allocate s layer) (allocate s layer st₀ near)).remaining.getD
      (near - 1) 0 = (allocate s layer st₀ near).remaining.getD (near - 1) 0 :=
    (foldl_other fun id hid => hpos hmem
      (List.mem_append_right _ (List.mem_cons_of_mem near hid)) fun heq => hnear (heq ▸ hid)).1
  have hmove := allocate_move s layer st₀ near
  have hother := hmove.other hfarnear
  -- the loop has not stopped after `near`
  have hgoes : 0 < (allocate s layer st₀ near).resources := by
    by_contra hstop
    rw [foldl_idle l₂ (not_lt.mp hstop), hother.2] at hused
    exact hused hunused₀
  rw [hafter]
  generalize allocate s layer st₀ near = st₁ at hmove hgoes
  cases hmove with
  | skip h =>
    rcases h with h | h | h
    · exact absurd hgoes (not_lt.mpr h)
    · exact absurd havail₀ (not_lt.mpr h)
    · exact absurd hfull (by omega)
  | fit => exact absurd hgoes (lt_irrefl _)
  | fill =>
    dsimp only
    rw [getD_set hlen₀, if_pos rfl]

/-! ## Spilling -/

/-- A chiplet that a layer may be mapped to and that has something to offer. -/
structure Eligible (s : System) (preference : Preference) (layer : LayerMetrics)
    (remaining : List ℤ) (chipletId : ℕ) : Prop where
  id : 1 ≤ chipletId ∧ chipletId ≤ remaining.length
  compute : s.isIoChiplet chipletId = false
  allowed : preference.allows chipletId = true
  free : 0 < remaining.getD (chipletId - 1) 0
  required : 0 < unitsFull s layer chipletId

/-- **Spilling.** In a successful mapping of a layer every eligible chiplet that is strictly closer
to the starting chiplet than some used chiplet has no capacity left. -/
theorem spills_when_full {mappings : LayerMappings} {remaining' : List ℤ} {action : List ℚ}
    (h : nearestNeighborMapperV3 s preference layer remaining mappings =
      .ok (.ok (remaining', action))) :
    ∃ start, startingChiplet s preference remaining mappings = .ok (.ok start) ∧
      ∀ near far, Eligible s preference layer remaining near → 1 ≤ far →
        0 < action.getD (far - 1) 0 → distance s start near < distance s start far →
        remaining'.getD (near - 1) 0 = 0 := by
  obtain ⟨start, st, hstart, hst, -, rfl, rfl⟩ := nearestNeighborMapperV3_ok h
  refine ⟨start, hstart, fun near far hnear hfar hused hlt => ?_⟩
  have hids : ∀ id ∈ allocationOrder s preference remaining start, 1 ≤ id := fun id hid =>
    (mem_availableChipletIds.mp (mem_allocationOrder.mp hid)).1.1
  have hmem : near ∈ allocationOrder s preference remaining start :=
    mem_allocationOrder.mpr (mem_availableChipletIds.mpr
      ⟨hnear.id, hnear.free, hnear.compute, hnear.allowed⟩)
  have hvisited : far ∈ allocationOrder s preference remaining start := by
    by_contra hnot
    rw [hst, (foldl_other fun id hid => ?_).2, getD_replicate] at hused
    · exact lt_irrefl _ hused
    · have hone := hids id hid
      have hne : far ≠ id := fun heq => hnot (heq ▸ hid)
      omega
  obtain ⟨l₁, l₂, horder⟩ := List.append_of_mem hmem
  have hlater : far ∈ l₂ := by
    rw [horder, List.mem_append, List.mem_cons] at hvisited
    rcases hvisited with hin | rfl | hin
    · exact absurd hlt (not_lt.mpr (distance_le_of_before horder hin))
    · exact absurd hlt (lt_irrefl _)
    · exact hin
  have hnodup := allocationOrder_nodup s preference remaining start
  rw [horder] at hids hnodup hst
  rw [hst] at hused ⊢
  exact foldl_full hids hnodup hnear.free hnear.required hlater
    (getD_replicate ..) hused.ne'

/-- A layer of `120` weights on three chiplets of `50`: the second chiplet is closer to the first
one than the third one is, and it is full. -/
theorem spills_when_full_three :
    ∃ remaining' action, nearestNeighborMapperV3 (weightChiplets [50, 50, 50]) {} (fcLayer 10 12)
        [50, 50, 50] [] = .ok (.ok (remaining', action)) ∧
      0 < action.getD 2 0 ∧ remaining'.getD 1 0 = 0 := by
  have hrun : ((nearestNeighborMapperV3 (weightChiplets [50, 50, 50]) {} (fcLayer 10 12)
      [50, 50, 50] []).toOption.bind Except.toOption) =
      some ([0, 0, 30], [125 / 3, 125 / 3, 50 / 3]) := by decide +kernel
  obtain ⟨r, hr, hok⟩ := Option.bind_eq_some_iff.mp hrun
  rw [toOption_eq_some] at hr hok
  rw [hok] at hr
  refine ⟨_, _, hr, by norm_num, ?_⟩
  obtain ⟨start, hstart, hspill⟩ := spills_when_full hr
  have hone : ((startingChiplet (weightChiplets [50, 50, 50]) {} [50, 50, 50] []).toOption.bind
      Except.toOption) = some 1 := by decide +kernel
  rw [hstart] at hone
  cases hone
  exact hspill 2 3 ⟨by decide, by decide, rfl, by decide, by decide +kernel⟩ (by decide)
    (by norm_num) (by decide +kernel)

end ModelMapper

end ChipSim
