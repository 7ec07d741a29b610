import ChipSim.PowerComputer.SystemEnergy

/-!
# The communication power

Every simulation of the communication stores an entry with its own runtime, and all entries are
added up: the communication power of a chiplet in a bin is the sum of the shares of the entries for
the part of the bin they cover. A later entry does not end an earlier one, so that the power is
counted once only if no simulation starts before the runtimes of the earlier ones have elapsed.
-/

namespace ChipSim

open Lib

/-! ## The entries of a simulation -/

/-- What a simulation of the communication returns besides the latencies of the phases. -/
structure DsentResult where
  power : Option NetworkPower
  hasAreaOrEnergy : Bool
  totalRuntimeS : Option ℚ
  totalRuntimeUs : Option ℚ

/-- `_store_dsent_stats`. -/
def storeDsentStats (entries : List DsentEntry) (globalTimeUs : ℚ) (r : DsentResult) :
    List DsentEntry :=
  if r.power.isSome ∨ r.hasAreaOrEnergy then
    entries ++ [⟨globalTimeUs, r.totalRuntimeS, r.totalRuntimeUs, r.power⟩]
  else entries

namespace GlobalManager

variable {c : Config} {results : ℕ → DsentResult} {s₀ s : State} {entries : List DsentEntry}

/-- A run and the entries that its simulations have stored; the result of a simulation is given by
its number. -/
inductive Logged (c : Config) (results : ℕ → DsentResult) (s₀ : State) :
    State → List DsentEntry → Prop
  | start : Logged c results s₀ s₀ []
  | step {s s' : State} {entries : List DsentEntry} (h : Logged c results s₀ s entries)
      (hstep : GlobalManager.step c s = .ok s') :
      Logged c results s₀ s' (if s'.simulationCallCounter = s.simulationCallCounter then entries
        else storeDsentStats entries s.globalTimeUs (results s'.simulationCallCounter))

/-- A step with the entries. -/
def loggedStep (c : Config) (results : ℕ → DsentResult) (x : State × List DsentEntry) :
    Except PyError (State × List DsentEntry) := do
  let s' ← GlobalManager.step c x.1
  return (s', if s'.simulationCallCounter = x.1.simulationCallCounter then x.2
    else storeDsentStats x.2 x.1.globalTimeUs (results s'.simulationCallCounter))

theorem Logged.steps {n : ℕ}
    (hn : Machine.steps (loggedStep c results) n (s₀, []) = .ok (s, entries)) :
    Logged c results s₀ s entries := by
  refine Machine.steps_invariant (P := fun x => Logged c results s₀ x.1 x.2) .start ?_ hn
  intro x x' hx hstep
  obtain ⟨s', hs', hx'⟩ := bind_eq_ok.mp hstep
  cases hx'
  exact hx.step hs'

/-- The entries of a run up to some time, in the order of their times. -/
structure InOrder (globalTimeUs : ℚ) (entries : List DsentEntry) : Prop where
  pairwise : entries.Pairwise fun e e' => e.globalTimeUs ≤ e'.globalTimeUs
  times : ∀ e ∈ entries, 0 ≤ e.globalTimeUs ∧ e.globalTimeUs ≤ globalTimeUs

theorem InOrder.store {g : ℚ} (h : InOrder g entries) (h0 : 0 ≤ g) (r : DsentResult) :
    InOrder g (storeDsentStats entries g r) := by
  unfold storeDsentStats
  split
  · refine ⟨List.pairwise_append.mpr ⟨h.pairwise, List.pairwise_singleton .., ?_⟩, ?_⟩
    · intro e he e' he'
      rw [List.mem_singleton.mp he']
      exact (h.times e he).2
    · intro e he
      rcases List.mem_append.mp he with he | he
      · exact h.times e he
      · rw [List.mem_singleton.mp he]
        exact ⟨h0, le_rfl⟩
  · exact h

theorem Logged.inOrder (h0 : 0 ≤ s₀.globalTimeUs) (h : Logged c results s₀ s entries) :
    0 ≤ s.globalTimeUs ∧ InOrder s.globalTimeUs entries := by
  induction h with
  | start => exact ⟨h0, List.Pairwise.nil, fun e he => by cases he⟩
  | step h hstep ih =>
    obtain ⟨hs, hentries⟩ := ih
    have hle := (step_move hstep).globalTimeUs_le
    have hlater : ∀ {g g' : ℚ} {entries : List DsentEntry}, g ≤ g' → InOrder g entries →
        InOrder g' entries := fun hg h =>
      ⟨h.pairwise, fun e he => ⟨(h.times e he).1, (h.times e he).2.trans hg⟩⟩
    refine ⟨hs.trans hle, hlater hle ?_⟩
    split
    · exact hentries
    · exact hentries.store hs _

end GlobalManager

namespace PowerComputer

/-! ## Shares -/

/-- The power of the router of a chiplet in an entry. -/
def routerWatts (k : ℕ) (e : DsentEntry) : ℚ :=
  match e.power with
  | none => 0
  | some data => (data.routers.map fun r =>
      if r.1 + 1 = k ∧ 0 < RouterPower.total r.2 then RouterPower.total r.2 else 0).sum

variable (pc : PowerComputer)

/-- The share of each chiplet in the power of the links of an entry. -/
def linkWatts (e : DsentEntry) : ℚ :=
  match e.power with
  | none => 0
  | some data => if 0 < data.linkPowerW then data.linkPowerW / pc.systemChiplets.length else 0

/-- The share of a chiplet in the power of the routers and links of an entry. -/
def share (k : ℕ) (e : DsentEntry) : ℚ := routerWatts k e + pc.linkWatts e

/-- The largest share of a chiplet in any entry. -/
def largestShare (k : ℕ) : ℚ := (pc.dsentStats.map (pc.share k)).foldl max 0

/-! ## The power in closed form -/

/-- The chiplets that an entry gives power to. -/
def activities (e : DsentEntry) : List (ℕ × ℚ) :=
  match e.power with
  | none => []
  | some data =>
    data.routers.filterMap (fun r => if 0 < RouterPower.total r.2 then
      some (r.1 + 1, RouterPower.total r.2) else none) ++
    if 0 < data.linkPowerW then
      if 0 < data.linkPowerW / pc.systemChiplets.length then
        pc.systemChiplets.map fun k => (k, data.linkPowerW / pc.systemChiplets.length)
      else []
    else []

theorem sum_activities {k : ℕ} (hk : k ∈ pc.systemChiplets) (e : DsentEntry) :
    ((pc.activities e).map fun a => if a.1 = k then a.2 else 0).sum = pc.share k e := by
  have hlength : (0 : ℚ) < pc.systemChiplets.length :=
    Nat.cast_pos.mpr (List.length_pos_of_mem hk)
  unfold activities share routerWatts linkWatts
  cases e.power with
  | none => simp
  | some data =>
    dsimp only
    rw [List.map_append, List.sum_append, sum_map_filterMap]
    congr 1
    · congr 1
      refine List.map_congr_left fun r _ => ?_
      by_cases hpos : 0 < RouterPower.total r.2 <;> by_cases hr : r.1 + 1 = k <;> simp [hpos, hr]
    · by_cases hlink : 0 < data.linkPowerW
      · rw [if_pos hlink, if_pos hlink, if_pos (div_pos hlink hlength), List.map_map]
        refine Eq.trans ?_ (sum_map_ite_eq_of_nodup pc.nodup_systemChiplets hk _)
        exact congrArg List.sum (List.map_congr_left fun b _ => if_congr eq_comm rfl rfl)
      · rw [if_neg hlink, if_neg hlink]
        rfl

/-- An entry with its end, a chiplet and the power it gets. -/
abbrev CommActivity := (DsentEntry × ℚ) × ℕ × ℚ

/-- Add some activities to one of the profiles. -/
def addHalves (timeStepUs : ℚ) : List CommActivity → ChipletPower → ChipletPower :=
  addActivities (fun a => a.2.1) (fun a => a.1.1.globalTimeUs) (fun a => a.1.2)
    (fun a part => a.2.2 * part * (1 / 2)) (pc.numTimePoints timeStepUs) timeStepUs

/-- Activities are added to both profiles. -/
theorem foldl_addComm (timeStepUs : ℚ) (l : List CommActivity) (power : CommPower) :
    l.foldl (fun power a =>
      pc.addComm timeStepUs a.1.1.globalTimeUs a.1.2 a.2.2 power a.2.1) power =
      ⟨pc.addHalves timeStepUs l power.activationComm,
        pc.addHalves timeStepUs l power.weightLoading⟩ := by
  induction l generalizing power with
  | nil => rfl
  | cons a l ih => rw [List.foldl_cons, ih]; rfl

theorem addEntry_eq (timeStepUs : ℚ) (power : CommPower) (x : DsentEntry × ℚ) :
    pc.addEntry timeStepUs power x = ((pc.activities x.1).map fun a => (x, a)).foldl
      (fun power a => pc.addComm timeStepUs a.1.1.globalTimeUs a.1.2 a.2.2 power a.2.1) power := by
  unfold addEntry activities
  rw [List.foldl_map]
  cases x.1.power with
  | none => rfl
  | some data =>
    dsimp only
    have hrouters : ∀ power : CommPower, data.routers.foldl (fun power router =>
        if 0 < RouterPower.total router.2 then pc.addComm timeStepUs x.1.globalTimeUs x.2
          (RouterPower.total router.2) power (router.1 + 1)
        else power) power = (data.routers.filterMap fun r => if 0 < RouterPower.total r.2 then
          some (r.1 + 1, RouterPower.total r.2) else none).foldl (fun power a =>
            pc.addComm timeStepUs x.1.globalTimeUs x.2 a.2 power a.1) power := by
      induction data.routers with
      | nil => exact fun _ => rfl
      | cons r routers ih =>
        intro power
        by_cases hpos : 0 < RouterPower.total r.2 <;> simp [hpos, ih]
    rw [hrouters, List.foldl_append]
    split
    · split
      · rw [List.foldl_map]
      · rfl
    · rfl

/-- All activities of all entries. -/
def allActivities : List CommActivity :=
  pc.timedEntries.flatMap fun x => (pc.activities x.1).map fun a => (x, a)

theorem commPower_eq (timeStepUs : ℚ) : pc.commPower timeStepUs =
    ⟨pc.addHalves timeStepUs pc.allActivities (pc.noPower timeStepUs),
      pc.addHalves timeStepUs pc.allActivities (pc.noPower timeStepUs)⟩ := by
  have hentry : pc.addEntry timeStepUs = fun power x =>
      ((pc.activities x.1).map fun a => (x, a)).foldl
      (fun power a => pc.addComm timeStepUs a.1.1.globalTimeUs a.1.2 a.2.2 power a.2.1) power :=
    funext fun power => funext fun x => pc.addEntry_eq timeStepUs power x
  unfold commPower allActivities
  rw [hentry, ← List.foldl_flatMap]
  exact pc.foldl_addComm timeStepUs _ ⟨pc.noPower timeStepUs, pc.noPower timeStepUs⟩

/-- The communication power of a chiplet in each bin. -/
theorem get?_chipletCommunication {timeStepUs : ℚ} (hstep : 0 < timeStepUs) {k : ℕ}
    (hk : k ∈ pc.systemChiplets) :
    (pc.computePowerProfile timeStepUs).chipletCommunication.get? k =
      some ((List.range (pc.numTimePoints timeStepUs)).map fun t =>
        (pc.timedEntries.map fun x =>
          pc.share k x.1 * binOverlap timeStepUs x.1.globalTimeUs x.2 t).sum / timeStepUs) := by
  have hzero : (pc.noPower timeStepUs).get? k =
      some ((List.range (pc.numTimePoints timeStepUs)).map fun _ => 0) := by
    rw [get?_noPower, if_pos hk]
  have hhalf := get?_addActivities (fun a : CommActivity => a.2.1) (fun a => a.1.1.globalTimeUs)
    (fun a => a.1.2) (fun a part => a.2.2 * part * (1 / 2)) hstep
    (fun a => by rw [mul_zero, zero_mul]) pc.allActivities hzero
  -- the activities of one entry on the chiplet add up to its share
  have hsum : ∀ t, (pc.allActivities.map fun a => if a.2.1 = k then
      a.2.2 * (binOverlap timeStepUs a.1.1.globalTimeUs a.1.2 t / timeStepUs) * (1 / 2)
      else 0).sum =
      (pc.timedEntries.map fun x =>
        pc.share k x.1 * binOverlap timeStepUs x.1.globalTimeUs x.2 t).sum / timeStepUs *
          (1 / 2) := by
    intro t
    unfold allActivities
    rw [List.map_flatMap, List.flatMap_def, List.sum_flatten, List.map_map, div_mul_eq_mul_div,
      mul_div_assoc, ← List.sum_map_mul_right]
    congr 1
    refine List.map_congr_left fun x _ => ?_
    rw [Function.comp_apply, List.map_map, ← pc.sum_activities hk, ← List.sum_map_mul_right,
      ← List.sum_map_mul_right]
    congr 1
    refine List.map_congr_left fun a _ => ?_
    dsimp only [Function.comp_apply]
    split
    · ring
    · ring
  have hne : pc.systemChiplets.isEmpty = false := by
    rw [List.isEmpty_eq_false_iff]
    exact List.ne_nil_of_mem hk
  unfold computePowerProfile
  rw [if_neg (by rw [hne]; decide)]
  dsimp only
  rw [Dict.get?_comprehension, if_pos hk, commPower_eq]
  unfold addHalves Dict.getD
  rw [hhalf, Option.getD_some]
  unfold addArrays
  rw [List.zipWith_map, List.zipWith_self]
  congr 1
  refine List.map_congr_left fun t _ => ?_
  rw [zero_add, hsum]
  ring

/-! ## Entries with their ends -/

theorem map_fst_withEndTimes (g : ℚ) (l : List DsentEntry) :
    (DsentEntry.withEndTimes g l).map Prod.fst = l := by
  induction l with
  | nil => rfl
  | cons e l ih => rw [DsentEntry.withEndTimes, List.map_cons, ih]

/-- No entry lasts beyond the end of the simulation. -/
theorem withEndTimes_le {g : ℚ} {l : List DsentEntry} (h : ∀ e ∈ l, e.globalTimeUs ≤ g) :
    ∀ x ∈ DsentEntry.withEndTimes g l, x.2 ≤ g := by
  induction l with
  | nil => intro x hx; cases hx
  | cons e l ih =>
    have hl : ∀ e' ∈ l, e'.globalTimeUs ≤ g := fun e' he' => h e' (List.mem_cons_of_mem e he')
    intro x hx
    rcases List.mem_cons.mp hx with rfl | hx
    · dsimp only
      unfold DsentEntry.endTime
      split
      · cases hhead : l.head? with
        | none => exact le_rfl
        | some e' => exact hl e' (List.mem_of_head? hhead)
      · exact min_le_right _ _
    · exact ih hl x hx

theorem timedEntries_of_inOrder (h : GlobalManager.InOrder pc.globalTimeUs pc.dsentStats) :
    pc.timedEntries = DsentEntry.withEndTimes pc.globalTimeUs pc.dsentStats := by
  unfold timedEntries DsentEntry.sorted
  rw [h.pairwise.insertionSort_eq]

/-- A simulation before the end of the run starts when the runtimes of all earlier ones have
elapsed. -/
def RuntimesElapsed (globalTimeUs : ℚ) (entries : List DsentEntry) : Prop :=
  entries.Pairwise fun e e' => e'.globalTimeUs < globalTimeUs →
    e.globalTimeUs + e.commRuntimeUs ≤ e'.globalTimeUs

instance (globalTimeUs : ℚ) (entries : List DsentEntry) :
    Decidable (RuntimesElapsed globalTimeUs entries) := by
  unfold RuntimesElapsed
  infer_instance

/-- The first entry has ended when the second one begins, or the second one lasts for no time. -/
def Apart (x y : DsentEntry × ℚ) : Prop := x.2 ≤ y.1.globalTimeUs ∨ y.2 ≤ y.1.globalTimeUs

theorem pairwise_apart {g : ℚ} {entries : List DsentEntry} (h : GlobalManager.InOrder g entries)
    (helapsed : RuntimesElapsed g entries) :
    (DsentEntry.withEndTimes g entries).Pairwise Apart := by
  obtain ⟨hpairwise, htimes⟩ := h
  unfold RuntimesElapsed at helapsed
  induction entries with
  | nil => exact .nil
  | cons e l ih =>
    obtain ⟨-, hsorted⟩ := List.pairwise_cons.mp hpairwise
    obtain ⟨hruntime, hlater⟩ := List.pairwise_cons.mp helapsed
    have htimes' := fun e' he' => htimes e' (List.mem_cons_of_mem e he')
    refine List.pairwise_cons.mpr ⟨fun y hy => ?_, ih hlater hsorted htimes'⟩
    have hmem : y.1 ∈ l := by
      rw [← map_fst_withEndTimes g l]
      exact List.mem_map_of_mem hy
    rcases lt_or_ge y.1.globalTimeUs g with hlt | hge
    · refine .inl ?_
      dsimp only
      unfold DsentEntry.endTime
      split
      · -- without a runtime it ends with the next entry
        cases l with
        | nil => cases hmem
        | cons e' l =>
          rcases List.mem_cons.mp hmem with heq | hmem
          · exact (congrArg DsentEntry.globalTimeUs heq).ge
          · exact (List.pairwise_cons.mp hsorted).1 _ hmem
      · exact (min_le_left _ _).trans (hruntime y.1 hmem hlt)
    · exact .inr ((withEndTimes_le (fun e' he' => (htimes' e' he').2) y hy).trans hge)

/-- The converse, for entries with runtimes. -/
theorem runtimesElapsed_of_apart {g : ℚ} {entries : List DsentEntry}
    (hruntimes : ∀ e ∈ entries, 0 < e.commRuntimeUs)
    (h : (DsentEntry.withEndTimes g entries).Pairwise Apart) : RuntimesElapsed g entries := by
  have hends : ∀ {e : DsentEntry} {next : Option DsentEntry}, 0 < e.commRuntimeUs →
      e.endTime g next = min (e.globalTimeUs + e.commRuntimeUs) g := fun hpos =>
    if_neg hpos.not_ge
  have hmem : ∀ {l : List DsentEntry} {e : DsentEntry}, e ∈ l →
      ∃ next, (e, e.endTime g next) ∈ DsentEntry.withEndTimes g l := by
    intro l e he
    induction l with
    | nil => cases he
    | cons e' l ih =>
      rcases List.mem_cons.mp he with rfl | he
      · exact ⟨_, List.mem_cons_self⟩
      · obtain ⟨next, hnext⟩ := ih he
        exact ⟨next, List.mem_cons_of_mem _ hnext⟩
  unfold RuntimesElapsed
  induction entries with
  | nil => exact .nil
  | cons e l ih =>
    obtain ⟨hfirst, hrest⟩ := List.pairwise_cons.mp h
    have hruntimes' := fun e' he' => hruntimes e' (List.mem_cons_of_mem e he')
    refine List.pairwise_cons.mpr ⟨fun e' he' hlt => ?_, ih hruntimes' hrest⟩
    obtain ⟨next, hnext⟩ := hmem he'
    have hapart := hfirst _ hnext
    unfold Apart at hapart
    rw [hends (hruntimes e List.mem_cons_self), hends (hruntimes' e' he')] at hapart
    rcases hapart with hle | hle
    · exact (min_le_iff.mp hle).resolve_right hlt.not_ge
    · have hpos := hruntimes' e' he'
      exact absurd hle (lt_min (lt_add_of_pos_right _ hpos) hlt).not_ge

/-! ## At every instant -/

/-- The entry lasts at an instant. -/
def Lasts (τ : ℚ) (x : DsentEntry × ℚ) : Prop := x.1.globalTimeUs ≤ τ ∧ τ < x.2

instance (τ : ℚ) : DecidablePred (Lasts τ) := fun x =>
  inferInstanceAs (Decidable (x.1.globalTimeUs ≤ τ ∧ τ < x.2))

/-- At every instant each router of the system has the power of at most one entry. -/
def OneEntryAtATime : Prop :=
  ∀ k ∈ pc.systemChiplets, ∀ τ, (pc.timedEntries.filter fun x =>
    decide (Lasts τ x ∧ 0 < routerWatts k x.1)).length ≤ 1

theorem oneEntryAtATime_of_apart (h : pc.timedEntries.Pairwise Apart) : pc.OneEntryAtATime := by
  intro k _ τ
  rw [length_filter_le_one_iff]
  refine h.imp ?_
  simp only [decide_eq_true_eq]
  rintro x y hxy ⟨⟨hlx, -⟩, hly, -⟩
  rcases hxy with hend | hend
  · exact absurd (hlx.2.trans_le hend) hly.1.not_gt
  · exact absurd (hly.2.trans_le hend) hly.1.not_gt

/-- The converse, if all entries have power for one router. -/
theorem apart_of_oneEntryAtATime (h : GlobalManager.InOrder pc.globalTimeUs pc.dsentStats) {k : ℕ}
    (hk : k ∈ pc.systemChiplets) (hpower : ∀ e ∈ pc.dsentStats, 0 < routerWatts k e)
    (hone : pc.OneEntryAtATime) : pc.timedEntries.Pairwise Apart := by
  have hstarts : pc.timedEntries.Pairwise fun x y => x.1.globalTimeUs ≤ y.1.globalTimeUs ∧
      0 < routerWatts k x.1 ∧ 0 < routerWatts k y.1 := by
    rw [pc.timedEntries_of_inOrder h, ← List.pairwise_map (f := Prod.fst) (R := fun e e' =>
      DsentEntry.globalTimeUs e ≤ e'.globalTimeUs ∧ 0 < routerWatts k e ∧ 0 < routerWatts k e'),
      map_fst_withEndTimes]
    exact h.pairwise.imp_of_mem fun he he' hle => ⟨hle, hpower _ he, hpower _ he'⟩
  have hpair : pc.timedEntries.Pairwise fun x y => ∀ τ,
      ¬ ((Lasts τ x ∧ 0 < routerWatts k x.1) ∧ Lasts τ y ∧ 0 < routerWatts k y.1) := by
    have hall := hone k hk
    simp only [length_filter_le_one_iff, decide_eq_true_eq, List.pairwise_iff_getElem] at hall
    exact List.pairwise_iff_getElem.mpr fun i j hi hj hij τ => hall τ i j hi hj hij
  refine (hstarts.and hpair).imp ?_
  rintro x y ⟨⟨hle, hx, hy⟩, hxy⟩
  unfold Apart
  by_contra! hboth
  -- both last at the instant the later one begins
  exact hxy y.1.globalTimeUs ⟨⟨⟨hle, hboth.1⟩, hx⟩, ⟨le_rfl, hboth.2⟩, hy⟩

/-! ## In every bin -/

/-- The communication power of a chiplet in a bin is at most its largest share in one entry. -/
def WithinLargestShare (timeStepUs : ℚ) : Prop :=
  ∀ (k : ℕ) (profile : List ℚ) (t : ℕ) (power : ℚ),
    (pc.computePowerProfile timeStepUs).chipletCommunication.get? k = some profile →
    profile[t]? = some power → power ≤ pc.largestShare k

theorem largestShare_nonneg (k : ℕ) : 0 ≤ pc.largestShare k :=
  List.foldlRecOn (motive := fun v : ℚ => 0 ≤ v) _ _ le_rfl fun _ hv _ _ =>
    hv.trans (le_max_left _ _)

theorem share_le_largestShare {k : ℕ} {e : DsentEntry} (he : e ∈ pc.dsentStats) :
    pc.share k e ≤ pc.largestShare k := by
  unfold largestShare
  obtain ⟨l₁, l₂, hl⟩ := List.append_of_mem he
  rw [hl, List.map_append, List.map_cons, List.foldl_append, List.foldl_cons]
  exact List.foldlRecOn (motive := fun v : ℚ => pc.share k e ≤ v) _ _ (le_max_right _ _)
    fun _ hv _ _ => hv.trans (le_max_left _ _)

/-- At every instant at most one share is counted. -/
theorem sum_shares_le (h : GlobalManager.InOrder pc.globalTimeUs pc.dsentStats)
    (hapart : pc.timedEntries.Pairwise Apart) (k : ℕ) (τ : ℚ) :
    (pc.timedEntries.map fun x => if Lasts τ x then pc.share k x.1 else 0).sum ≤
      pc.largestShare k := by
  have hshares : ∀ x ∈ pc.timedEntries, pc.share k x.1 ≤ pc.largestShare k := by
    intro x hx
    rw [pc.timedEntries_of_inOrder h] at hx
    refine pc.share_le_largestShare ?_
    rw [← map_fst_withEndTimes pc.globalTimeUs pc.dsentStats]
    exact List.mem_map_of_mem hx
  generalize pc.timedEntries = l at hapart hshares
  induction l with
  | nil => exact pc.largestShare_nonneg k
  | cons x l ih =>
    obtain ⟨hx, hl⟩ := List.pairwise_cons.mp hapart
    have hshares' := fun y hy => hshares y (List.mem_cons_of_mem x hy)
    rw [List.map_cons, List.sum_cons]
    by_cases hlx : Lasts τ x
    · have hzero : ∀ y ∈ l, (if Lasts τ y then pc.share k y.1 else 0) = 0 := by
        intro y hy
        refine if_neg fun hly => ?_
        rcases hx y hy with hend | hend
        · exact absurd (hlx.2.trans_le hend) hly.1.not_gt
        · exact absurd (hly.2.trans_le hend) hly.1.not_gt
      rw [if_pos hlx, List.map_congr_left hzero, List.sum_map_zero, add_zero]
      exact hshares x List.mem_cons_self
    · rw [if_neg hlx, zero_add]
      exact ih hl hshares'

theorem mem_systemChiplets_of_communication {timeStepUs : ℚ} {k : ℕ} {profile : List ℚ}
    (h : (pc.computePowerProfile timeStepUs).chipletCommunication.get? k = some profile) :
    k ∈ pc.systemChiplets := by
  unfold computePowerProfile at h
  split at h
  · cases h
  · dsimp only at h
    rw [Dict.get?_comprehension] at h
    by_contra hk
    rw [if_neg hk] at h
    cases h

theorem within_of_apart (h : GlobalManager.InOrder pc.globalTimeUs pc.dsentStats)
    (hapart : pc.timedEntries.Pairwise Apart) {timeStepUs : ℚ} (hstep : 0 < timeStepUs) :
    pc.WithinLargestShare timeStepUs := by
  intro k profile t power hprofile ht
  have hk := pc.mem_systemChiplets_of_communication hprofile
  rw [pc.get?_chipletCommunication hstep hk, Option.some.injEq] at hprofile
  rw [← hprofile, List.getElem?_map] at ht
  obtain ⟨t', ht', rfl⟩ := Option.map_eq_some_iff.mp ht
  obtain ⟨_, rfl⟩ := List.getElem?_eq_some_iff.mp ht'
  rw [List.getElem_range, div_le_iff₀ hstep]
  have hbin := sum_overlap_le (s := fun x : DsentEntry × ℚ => x.1.globalTimeUs) (e := Prod.snd)
    pc.timedEntries (fun x => pc.share k x.1) (le_add_of_nonneg_right hstep.le)
    (fun τ _ _ => pc.sum_shares_le h hapart k τ) (a := t * timeStepUs)
  rwa [add_sub_cancel_left] at hbin

/-- **Communication power.** If in a run no simulation starts before the runtimes of the earlier
ones have elapsed, each router has the power of at most one entry at every instant, and the power
of a chiplet in a bin is at most its largest share. Where all entries have a runtime and power for
one router, the first is possible in no other run. -/
theorem communication_power {specs : List ChipletSpec} {adjMatrix : ℕ → ℕ → ℚ}
    {rows : List WorkloadEntry} {threshold : ℕ} {c : GlobalManager.Config}
    {results : ℕ → DsentResult} {s₀ s : GlobalManager.State} {entries : List DsentEntry}
    (hstart : GlobalManager.start specs adjMatrix rows threshold = .ok s₀)
    (hrun : GlobalManager.Logged c results s₀ s entries) (hpc : pc.Processes s)
    (hentries : pc.dsentStats = entries) {timeStepUs : ℚ} (hstep : 0 < timeStepUs) :
    (RuntimesElapsed s.globalTimeUs entries →
      pc.OneEntryAtATime ∧ pc.WithinLargestShare timeStepUs) ∧
    ∀ k ∈ pc.systemChiplets, (∀ e ∈ entries, 0 < e.commRuntimeUs ∧ 0 < routerWatts k e) →
      pc.OneEntryAtATime → RuntimesElapsed s.globalTimeUs entries := by
  have h0 : 0 ≤ s₀.globalTimeUs := (GlobalManager.allMeasured_start (n := 0) hstart).time
  subst hentries
  have horder : GlobalManager.InOrder pc.globalTimeUs pc.dsentStats := by
    rw [hpc.time]
    exact (hrun.inOrder h0).2
  rw [← hpc.time]
  constructor
  · intro helapsed
    have hapart : pc.timedEntries.Pairwise Apart := by
      rw [pc.timedEntries_of_inOrder horder]
      exact pairwise_apart horder helapsed
    exact ⟨pc.oneEntryAtATime_of_apart hapart, pc.within_of_apart horder hapart hstep⟩
  · intro k hk hall hone
    have hapart := pc.apart_of_oneEntryAtATime horder hk (fun e he => (hall e he).2) hone
    rw [pc.timedEntries_of_inOrder horder] at hapart
    exact runtimesElapsed_of_apart (fun e he => (hall e he).1) hapart

open GlobalManager in
/-- A simulation on the small system, in which the router of the first chiplet has one watt in every
simulation of the communication, for five microseconds. -/
def loggedRun (rows : List WorkloadEntry) (n : ℕ) : Except PyError (State × List DsentEntry) := do
  let s ← start smallSystem chainMatrix rows 10
  Machine.steps (loggedStep smallConfig fun _ =>
    { power := some { routers := [(0, some { dynamicPowerW := 1 }), (1, none)] }
      hasAreaOrEnergy := false
      totalRuntimeS := some (5 / 10 ^ 6)
      totalRuntimeUs := none }) n (s, [])

/-- The power computer after a simulation with its entries. -/
def ofLogged (x : GlobalManager.State × List DsentEntry) : PowerComputer :=
  { ofState x.1 with dsentStats := x.2 }

open GlobalManager in
/-- Two models with one input each, one after the other: every simulation starts when the last
runtime has elapsed, and the power of the router is counted once. -/
theorem communication_power_single_inputs : ∃ x,
    loggedRun [⟨0, "two-layers", 1, 0⟩, ⟨1, "two-layers", 1, 1⟩] 255 = .ok x ∧
    x.1.stage = .finished ∧ x.2.map (·.globalTimeUs) = [0, 8, 13, 21, 29, 34] ∧
    (ofLogged x).OneEntryAtATime ∧ (ofLogged x).WithinLargestShare 1 := by
  have hrun : ((loggedRun [⟨0, "two-layers", 1, 0⟩, ⟨1, "two-layers", 1, 1⟩] 255).toOption.map
      fun x => (x.1.stage, x.2.map (·.globalTimeUs),
        decide (RuntimesElapsed x.1.globalTimeUs x.2))) =
      some (.finished, [0, 8, 13, 21, 29, 34], true) := by decide +kernel
  obtain ⟨x, hx, heq⟩ := Option.map_eq_some_iff.mp hrun
  rw [toOption_eq_some] at hx
  rw [Prod.mk.injEq, Prod.mk.injEq, decide_eq_true_eq] at heq
  obtain ⟨hfinished, htimes, helapsed⟩ := heq
  obtain ⟨s₀, hs₀, hsteps⟩ := bind_eq_ok.mp hx
  exact ⟨x, hx, hfinished, htimes, (communication_power (ofLogged x) hs₀ (Logged.steps hsteps)
    ⟨rfl, rfl, rfl⟩ rfl one_pos).1 helapsed⟩

open GlobalManager in
/-- In the small simulation the simulations at `13` and `15` both last at `15`: the router of the
first chiplet is counted twice, and its power in that bin is two watts where no entry has more than
one. -/
theorem router_counted_twice : ∃ s₀ results x,
    start smallSystem chainMatrix smallWorkload 10 = .ok s₀ ∧
      Logged smallConfig results s₀ x.1 x.2 ∧ x.1.stage = .finished ∧
    ((ofLogged x).timedEntries.filter fun y =>
      decide (Lasts 15 y ∧ 0 < routerWatts 1 y.1)).length = 2 ∧
    (((ofLogged x).computePowerProfile 1).chipletCommunication.get? 1).bind (·[15]?) = some 2 ∧
    (ofLogged x).largestShare 1 = 1 := by
  have hrun : ((loggedRun smallWorkload 255).toOption.map fun x => (x.1.stage,
      ((ofLogged x).timedEntries.filter fun y =>
        decide (Lasts 15 y ∧ 0 < routerWatts 1 y.1)).length,
      (((ofLogged x).computePowerProfile 1).chipletCommunication.get? 1).bind (·[15]?),
      (ofLogged x).largestShare 1)) = some (.finished, 2, some 2, 1) := by decide +kernel
  obtain ⟨x, hx, heq⟩ := Option.map_eq_some_iff.mp hrun
  rw [toOption_eq_some] at hx
  simp only [Prod.mk.injEq] at heq
  obtain ⟨s₀, hs₀, hsteps⟩ := bind_eq_ok.mp hx
  exact ⟨s₀, _, x, hs₀, Logged.steps hsteps, heq⟩

end PowerComputer

end ChipSim
