import Mathlib
import ChipSim.Thermal.PowerGrid

/-!
# From watts to percentages and back

The rows the adapter writes are accepted by the power grid of the configuration it resolves, and
every block reads back the watts of its chiplet.
-/

namespace ChipSim

open Lib

namespace Thermal

/-! ## Names -/

theorem chipletName_injective {j k : ℤ} (h : chipletName j = chipletName k) : j = k :=
  Int.repr_injective ((String.append_right_inj _).mp h)

theorem powerRowKey_injective {powerLayer : String} {j k : ℤ}
    (h : powerRowKey powerLayer j v1BlockName = powerRowKey powerLayer k v1BlockName) : j = k := by
  unfold powerRowKey at h
  rw [String.append_left_inj, String.append_left_inj, String.append_right_inj] at h
  exact chipletName_injective h

/-- A layer whose name does not begin with white space. -/
def NoLeadingSpace (name : String) : Prop := ∀ c ∈ name.toList.head?, isSpace c = false

theorem strip_powerRowKey {powerLayer : String} (h : NoLeadingSpace powerLayer) (k : ℤ) :
    strip (powerRowKey powerLayer k v1BlockName) = powerRowKey powerLayer k v1BlockName := by
  apply strip_eq_self
  · intro c hc
    unfold powerRowKey at hc
    simp only [String.toList_append, List.append_assoc, List.head?_append] at hc
    cases hl : powerLayer.toList.head? with
    | some d =>
      rw [hl] at hc
      exact h c (hl.trans hc)
    | none =>
      rw [hl, Option.none_or] at hc
      obtain rfl : '_' = c := Option.some.inj hc
      decide
  · intro c hc
    unfold powerRowKey at hc
    rw [String.toList_append, List.getLast?_append] at hc
    obtain rfl : 'l' = c := Option.some.inj hc
    decide

theorem powerRowKey_ne_empty (powerLayer : String) (k : ℤ) :
    (powerRowKey powerLayer k v1BlockName).isEmpty = false := by
  have hne : powerRowKey powerLayer k v1BlockName ≠ "" := by
    intro h
    have hlist := congrArg String.toList h
    unfold powerRowKey at hlist
    rw [String.toList_append] at hlist
    have hlen := congrArg List.length hlist
    simp [v1BlockName] at hlen
  simpa [String.isEmpty_iff] using hne

/-! ## The rows of the adapter -/

/-- Traces of the same positive length, without negative watts. -/
structure PowerTraces (traces : Dict ℤ (List ℚ)) (n : ℕ) : Prop where
  nonempty : traces.keys ≠ []
  pos : 0 < n
  length : ∀ k trace, traces.get? k = some trace → trace.length = n
  nonneg : ∀ k trace, traces.get? k = some trace → ∀ w ∈ trace, 0 ≤ w

section

variable {traces : Dict ℤ (List ℚ)} {n : ℕ} {powerLayer : String}

/-- The trace of a chiplet. -/
def traceOf (traces : Dict ℤ (List ℚ)) (k : ℤ) : List ℚ := traces.getD k []

/-- The largest value of the trace of a chiplet. -/
def maxPowerOf (traces : Dict ℤ (List ℚ)) (k : ℤ) : ℚ :=
  (maxOf (traceOf traces k)).toOption.getD 0

/-- The row of a chiplet. -/
def rowOf (traces : Dict ℤ (List ℚ)) (powerLayer : String) (k : ℤ) : PowerRow :=
  ⟨powerRowKey powerLayer k v1BlockName,
    (percentValues (maxPowerOf traces k) (traceOf traces k)).map .number⟩

theorem PowerTraces.get? (h : PowerTraces traces n) {k : ℤ} (hk : k ∈ traces) :
    traces.get? k = some (traceOf traces k) ∧ traceOf traces k ≠ [] ∧
      maxOf (traceOf traces k) = .ok (maxPowerOf traces k) := by
  obtain ⟨trace, htrace⟩ := Dict.mem_iff.mp hk
  have heq : traceOf traces k = trace := by
    unfold traceOf Dict.getD
    rw [htrace, Option.getD_some]
  have hne : trace ≠ [] := by
    rw [← List.length_pos_iff, h.length k trace htrace]
    exact h.pos
  refine ⟨heq ▸ htrace, heq ▸ hne, ?_⟩
  obtain ⟨m, hm⟩ := maxOf_ok hne
  unfold maxPowerOf
  rw [heq, hm]
  rfl

theorem PowerTraces.length_traceOf (h : PowerTraces traces n) {k : ℤ} (hk : k ∈ traces) :
    (traceOf traces k).length = n :=
  h.length k _ (h.get? hk).1

theorem length_percentValues (m : ℚ) (trace : List ℚ) :
    (percentValues m trace).length = trace.length := by
  unfold percentValues
  split <;> rw [List.length_map]

/-- One chiplet adds its row and its maximum. -/
theorem PowerTraces.convertTrace (h : PowerTraces traces n) (powerLayer : String) {k : ℤ}
    (hk : k ∈ traces) (acc : PowerTraceConversion × Option ℕ)
    (hacc : acc.2 = none ∨ acc.2 = some n) :
    ∃ acc', Thermal.convertTrace traces powerLayer v1BlockName acc k = .ok acc' ∧
      acc'.1.rows = acc.1.rows ++ [rowOf traces powerLayer k] ∧
      acc'.1.maxPowerWByChiplet = acc.1.maxPowerWByChiplet.set k (maxPowerOf traces k) ∧
      acc'.2 = some n := by
  obtain ⟨hget, hne, hmax⟩ := h.get? hk
  have hlen := h.length_traceOf hk
  have hcoerce : coercePowerTrace k (traceOf traces k) = .ok (traceOf traces k) := by
    unfold coercePowerTrace
    rw [if_neg (by simpa using hne), if_neg]
    simpa using h.nonneg k _ hget
  have hcheck : checkLength acc.2 k n = .ok () := by
    rcases hacc with hacc | hacc <;> rw [hacc]
    · rfl
    · exact if_pos rfl
  unfold Thermal.convertTrace
  rw [getItem_eq_ok.mpr hget, ok_bind, hcoerce, ok_bind, hlen, hcheck, ok_bind, hmax, ok_bind]
  refine ⟨_, rfl, rfl, rfl, ?_⟩
  rcases hacc with hacc | hacc <;> rw [hacc] <;> rfl

theorem PowerTraces.convertTraces (h : PowerTraces traces n) (powerLayer : String) {l : List ℤ}
    (hl : ∀ k ∈ l, k ∈ traces) (acc : PowerTraceConversion × Option ℕ)
    (hacc : acc.2 = none ∨ acc.2 = some n) :
    ∃ acc', l.foldlM (Thermal.convertTrace traces powerLayer v1BlockName) acc = .ok acc' ∧
      acc'.1.rows = acc.1.rows ++ l.map (rowOf traces powerLayer) ∧
      acc'.1.maxPowerWByChiplet =
        l.foldl (fun d k => d.set k (maxPowerOf traces k)) acc.1.maxPowerWByChiplet := by
  induction l generalizing acc with
  | nil => exact ⟨acc, rfl, by simp, rfl⟩
  | cons k l ih =>
    obtain ⟨acc₁, h₁, hrows₁, hmax₁, hn⟩ :=
      h.convertTrace powerLayer (hl k List.mem_cons_self) acc hacc
    obtain ⟨acc', h', hrows, hmax⟩ :=
      ih (fun j hj => hl j (List.mem_cons_of_mem k hj)) acc₁ (.inr hn)
    refine ⟨acc', foldlM_cons_ok.mpr ⟨acc₁, h₁, h'⟩, ?_, ?_⟩
    · rw [hrows, hrows₁, List.map_cons, List.append_assoc, List.singleton_append]
    · rw [hmax, hmax₁, List.foldl_cons]

/-- The chiplets in the order of their ids. -/
def sortedIds (traces : Dict ℤ (List ℚ)) : List ℤ := traces.keys.insertionSort (· ≤ ·)

theorem mem_sortedIds {k : ℤ} : k ∈ sortedIds traces ↔ k ∈ traces :=
  (List.perm_insertionSort _ _).mem_iff

theorem nodup_sortedIds : (sortedIds traces).Nodup :=
  (List.perm_insertionSort _ _).nodup_iff.mpr traces.nodup_keys

/-- **Conversion.** The adapter writes one row for each chiplet and notes its maximum. -/
theorem PowerTraces.convert (h : PowerTraces traces n) (powerLayer : String) :
    ∃ conversion, convertWattsToPercentRows traces powerLayer = .ok conversion ∧
      conversion.rows = (sortedIds traces).map (rowOf traces powerLayer) ∧
      conversion.maxPowerWByChiplet.entries =
        (sortedIds traces).map fun k => (k, maxPowerOf traces k) := by
  obtain ⟨acc, hacc, hrows, hmax⟩ := h.convertTraces powerLayer
    (fun k hk => mem_sortedIds.mp hk) ({}, none) (.inl rfl)
  unfold convertWattsToPercentRows
  unfold sortedIds at hacc
  rw [hacc, ok_bind]
  refine ⟨_, rfl, ?_, ?_⟩
  · simpa using hrows
  · dsimp only
    rw [hmax]
    rw [Dict.entries_foldl_set _ _ _ nodup_sortedIds]
    · rfl
    · exact fun _ _ => List.not_mem_nil

/-! ## The resolved configuration -/

/-- A chiplet with the single block `total`. -/
def SingleTotal (chiplet : ChipletConfig) : Prop :=
  ∃ blocks b, chiplet.layoutBlocks = some blocks ∧ blocks.entries = [(v1BlockName, b)]

/-- The chiplet has the single block `total`, with this maximum. -/
def TotalWith (chiplet : ChipletConfig) (maxPower : ℚ) : Prop :=
  ∃ blocks b, chiplet.layoutBlocks = some blocks ∧ blocks.entries = [(v1BlockName, b)] ∧
    b.maxPower = some maxPower

/-- The layer has exactly the chiplets of the traces, each with the single block `total`. -/
structure LayerFor (traces : Dict ℤ (List ℚ)) (layer : LayerConfig) : Prop where
  chiplets : ∀ name, name ∈ layer ↔ ∃ k ∈ traces, name = chipletName k
  blocks : ∀ name chiplet, layer.get? name = some chiplet → SingleTotal chiplet

theorem setMaxPower_ok (powerLayer : String) {layer : LayerConfig} {k : ℤ} {m : ℚ}
    {chiplet : ChipletConfig} (hget : layer.get? (chipletName k) = some chiplet)
    (htotal : SingleTotal chiplet) :
    ∃ chiplet', setMaxPower powerLayer layer (k, m) =
      .ok (layer.set (chipletName k) chiplet') ∧ TotalWith chiplet' m := by
  obtain ⟨blocks, b, hblocks, hentries⟩ := htotal
  have hb : blocks.get? v1BlockName = some b := by
    rw [← Dict.mem_entries_iff, hentries]
    exact List.mem_singleton_self _
  refine ⟨{ chiplet with
    layoutBlocks := some (blocks.set v1BlockName { b with maxPower := some m }) }, ?_,
    _, { b with maxPower := some m }, rfl, ?_, rfl⟩
  · unfold setMaxPower
    dsimp only
    rw [hget]
    dsimp only
    rw [hblocks]
    dsimp only
    rw [hb]
  · show Dict.setEntries v1BlockName _ blocks.entries = _
    rw [hentries]
    rfl

theorem setMaxPowers_ok (powerLayer : String) {l : List (ℤ × ℚ)} {layer : LayerConfig}
    (hl : (l.map Prod.fst).Nodup)
    (hlayer : ∀ e ∈ l, ∃ chiplet, layer.get? (chipletName e.1) = some chiplet ∧
      SingleTotal chiplet) :
    ∃ layer', l.foldlM (setMaxPower powerLayer) layer = .ok layer' ∧ layer'.keys = layer.keys ∧
      (∀ e ∈ l, ∃ chiplet, layer'.get? (chipletName e.1) = some chiplet ∧
        TotalWith chiplet e.2) ∧
      ∀ name, (∀ e ∈ l, name ≠ chipletName e.1) → layer'.get? name = layer.get? name := by
  induction l generalizing layer with
  | nil => exact ⟨layer, rfl, rfl, by simp, fun _ _ => rfl⟩
  | cons e l ih =>
    rw [List.map_cons, List.nodup_cons] at hl
    have hfresh : ∀ e' ∈ l, chipletName e'.1 ≠ chipletName e.1 := fun e' he' heq =>
      hl.1 (List.mem_map.mpr ⟨e', he', chipletName_injective heq⟩)
    obtain ⟨chiplet, hget, htotal⟩ := hlayer e List.mem_cons_self
    obtain ⟨chiplet', hset, htotal'⟩ := setMaxPower_ok powerLayer (m := e.2) hget htotal
    have hrest : ∀ e' ∈ l, ∃ c, (layer.set (chipletName e.1) chiplet').get? (chipletName e'.1) =
        some c ∧ SingleTotal c := fun e' he' => by
      rw [Dict.get?_set_of_ne _ _ (hfresh e' he')]
      exact hlayer e' (List.mem_cons_of_mem e he')
    obtain ⟨layer', hloop, hkeys, hdone, hother⟩ := ih hl.2 hrest
    refine ⟨layer', foldlM_cons_ok.mpr ⟨_, hset, hloop⟩, ?_, ?_, ?_⟩
    · rw [hkeys, Dict.keys_set_of_mem _ (Dict.mem_of_get? hget)]
    · intro e' he'
      rcases List.mem_cons.mp he' with rfl | he'
      · refine ⟨chiplet', ?_, htotal'⟩
        rw [hother _ fun e'' he'' heq => hfresh e'' he'' heq.symm, Dict.get?_set_self]
      · exact hdone e' he'
    · intro name hname
      rw [hother name fun e' he' => hname e' (List.mem_cons_of_mem e he'),
        Dict.get?_set_of_ne _ _ (hname e List.mem_cons_self)]

/-- **Resolving.** The resolved layer has the same chiplets, each with the maximum of its trace. -/
theorem LayerFor.resolve {layer : LayerConfig} (h : LayerFor traces layer) (powerLayer : String)
    {maxPower : Dict ℤ ℚ}
    (hmax : maxPower.entries = (sortedIds traces).map fun k => (k, maxPowerOf traces k)) :
    ∃ layer', maxPower.entries.foldlM (setMaxPower powerLayer) layer = .ok layer' ∧
      layer'.keys = layer.keys ∧ ∀ name chiplet, layer'.get? name = some chiplet →
        ∃ k ∈ traces, name = chipletName k ∧ TotalWith chiplet (maxPowerOf traces k) := by
  have hmem : ∀ e ∈ maxPower.entries, e.1 ∈ traces ∧ e.2 = maxPowerOf traces e.1 := by
    intro e he
    rw [hmax] at he
    obtain ⟨k, hk, rfl⟩ := List.mem_map.mp he
    exact ⟨mem_sortedIds.mp hk, rfl⟩
  have hserved : ∀ e ∈ maxPower.entries, ∃ chiplet, layer.get? (chipletName e.1) = some chiplet ∧
      SingleTotal chiplet := fun e he => by
    obtain ⟨chiplet, hchiplet⟩ := Dict.mem_iff.mp ((h.chiplets _).mpr ⟨e.1, (hmem e he).1, rfl⟩)
    exact ⟨chiplet, hchiplet, h.blocks _ chiplet hchiplet⟩
  obtain ⟨layer', hloop, hkeys, hdone, -⟩ := setMaxPowers_ok powerLayer maxPower.nodup hserved
  refine ⟨layer', hloop, hkeys, fun name chiplet hget => ?_⟩
  have hname : name ∈ layer := by
    rw [Dict.mem_def, ← hkeys]
    exact Dict.mem_of_get? hget
  obtain ⟨k, hk, rfl⟩ := (h.chiplets name).mp hname
  have he : (k, maxPowerOf traces k) ∈ maxPower.entries := by
    rw [hmax]
    exact List.mem_map.mpr ⟨k, mem_sortedIds.mpr hk, rfl⟩
  obtain ⟨chiplet', hget', htotal⟩ := hdone _ he
  rw [hget, Option.some.injEq] at hget'
  exact ⟨k, hk, rfl, hget' ▸ htotal⟩

/-! ## The power grid -/

/-- A chiplet of the grid that stands for one of the traces. -/
structure Represents (traces : Dict ℤ (List ℚ)) (k : ℤ) (c : PowerChiplet) : Prop where
  mem : k ∈ traces
  name : c.name = chipletName k
  block : ∃ b, c.powerBlocks = [b] ∧ b.name = v1BlockName ∧ b.maxPower = maxPowerOf traces k

theorem TotalWith.powerChiplet {chiplet : ChipletConfig} {m : ℚ} (h : TotalWith chiplet m)
    (name : String) : ∃ c, PowerChiplet.new (name, chiplet) = .ok c ∧ c.name = name ∧
      ∃ b, c.powerBlocks = [b] ∧ b.name = v1BlockName ∧ b.maxPower = m := by
  obtain ⟨blocks, b, hblocks, hentries, hb⟩ := h
  have hnew : PowerBlock.new chiplet.startChipletX chiplet.startChipletY (v1BlockName, b) = .ok
      { name := v1BlockName
        x := b.startPointX + chiplet.startChipletX
        y := b.startPointY + chiplet.startChipletY
        lengthX := b.lengthX
        lengthY := b.lengthY
        maxPower := m } := by
    unfold PowerBlock.new
    dsimp only
    rw [hb]
  unfold PowerChiplet.new
  dsimp only
  rw [hblocks]
  dsimp only
  rw [hentries, List.mapM_cons, hnew, ok_bind, List.mapM_nil]
  exact ⟨_, rfl, rfl, _, rfl, rfl, rfl⟩

/-- A chiplet without blocks. -/
def Unpowered (chiplet : ChipletConfig) : Prop :=
  ∀ blocks, chiplet.layoutBlocks = some blocks → blocks.entries = []

theorem Unpowered.powerChiplet {chiplet : ChipletConfig} (h : Unpowered chiplet) (name : String) :
    ∃ c, PowerChiplet.new (name, chiplet) = .ok c ∧ c.powerBlocks = [] := by
  unfold PowerChiplet.new
  dsimp only
  cases hblocks : chiplet.layoutBlocks with
  | none => exact ⟨_, rfl, rfl⟩
  | some blocks =>
    dsimp only
    rw [h blocks hblocks]
    exact ⟨_, rfl, rfl⟩

/-- A layer whose chiplets can all be built. -/
theorem powerLayer_total {e : String × LayerConfig}
    (Q : String × ChipletConfig → PowerChiplet → Prop)
    (h : ∀ f ∈ e.2.entries, ∃ c, PowerChiplet.new f = .ok c ∧ Q f c) :
    ∃ layer, PowerLayer.new e = .ok layer ∧ layer.name = e.1 ∧
      (∀ c ∈ layer.powerChiplets, ∃ f ∈ e.2.entries, Q f c) ∧
      ∀ f ∈ e.2.entries, ∃ c ∈ layer.powerChiplets, Q f c := by
  obtain ⟨chiplets, hnew, h₁, h₂⟩ := mapM_total Q h
  unfold PowerLayer.new
  rw [hnew, ok_bind]
  have hmem : ∀ c, c ∈ (chiplets.insertionSort fun a b => a.chipletY ≤ b.chipletY).insertionSort
      (fun a b => a.chipletX ≤ b.chipletX) ↔ c ∈ chiplets := fun c => by
    rw [(List.perm_insertionSort _ _).mem_iff, (List.perm_insertionSort _ _).mem_iff]
  refine ⟨_, rfl, rfl, fun c hc => h₁ c ((hmem c).mp hc), fun f hf => ?_⟩
  obtain ⟨c, hc, hQ⟩ := h₂ f hf
  exact ⟨c, (hmem c).mpr hc, hQ⟩

/-- The layers of a grid that serves the traces: all blocks are in the power layer, and there is
one for each trace. -/
structure GridFor (traces : Dict ℤ (List ℚ)) (powerLayer : String) (layers : List PowerLayer) :
    Prop where
  source : ∀ layer ∈ layers, ∀ c ∈ layer.powerChiplets,
    c.powerBlocks = [] ∨ layer.name = powerLayer ∧ ∃ k, Represents traces k c
  complete : ∀ k ∈ traces, ∃ layer ∈ layers, layer.name = powerLayer ∧
    ∃ c ∈ layer.powerChiplets, Represents traces k c

/-- The configuration has the chiplets of the traces in the power layer, each with the single block
`total`, and no blocks in the other layers. -/
structure ConfigFor (traces : Dict ℤ (List ℚ)) (powerLayer : String) (config : PowerConfig) :
    Prop where
  served : ∃ layer, config.get? powerLayer = some layer ∧ LayerFor traces layer
  others : ∀ name layer, config.get? name = some layer → name ≠ powerLayer →
    ∀ chipletName chiplet, layer.get? chipletName = some chiplet → Unpowered chiplet

/-- **Resolving.** The resolved configuration gives a grid that serves the traces. -/
theorem ConfigFor.resolve {config : PowerConfig} (h : ConfigFor traces powerLayer config)
    (powerConfigFile : String) {maxPower : Dict ℤ ℚ}
    (hmax : maxPower.entries = (sortedIds traces).map fun k => (k, maxPowerOf traces k)) :
    ∃ resolved layers,
      writeResolvedPowerConfig powerConfigFile config maxPower powerLayer = .ok resolved ∧
      resolved.entries.mapM PowerLayer.new = .ok layers ∧ GridFor traces powerLayer layers := by
  obtain ⟨layer, hlayer, hfor⟩ := h.served
  obtain ⟨layer', hloop, hkeys, htotals⟩ := hfor.resolve powerLayer hmax
  have hserved : ∀ k ∈ traces, ∃ chiplet, layer'.get? (chipletName k) = some chiplet := by
    intro k hk
    refine Dict.mem_iff.mp ?_
    rw [Dict.mem_def, hkeys]
    exact (hfor.chiplets _).mpr ⟨k, hk, rfl⟩
  -- every layer is built; what it contains depends on whether it is the power layer
  have hlayers := mapM_total (f := PowerLayer.new) (l := (config.set powerLayer layer').entries)
    (fun e l => l.name = e.1 ∧ if e.1 = powerLayer then
      (∀ c ∈ l.powerChiplets, ∃ k, Represents traces k c) ∧
        ∀ k ∈ traces, ∃ c ∈ l.powerChiplets, Represents traces k c
      else ∀ c ∈ l.powerChiplets, c.powerBlocks = []) ?_
  · obtain ⟨layers, hnew, h₁, h₂⟩ := hlayers
    refine ⟨config.set powerLayer layer', layers, ?_, hnew, ?_, ?_⟩
    · unfold writeResolvedPowerConfig
      rw [hlayer]
      dsimp only
      rw [hloop]
      rfl
    · intro l hl c hc
      obtain ⟨e, -, hname, hwhich⟩ := h₁ l hl
      split at hwhich
      · next heq => exact .inr ⟨hname.trans heq, hwhich.1 c hc⟩
      · exact .inl (hwhich c hc)
    · intro k hk
      have he : (powerLayer, layer') ∈ (config.set powerLayer layer').entries :=
        Dict.mem_entries_iff.mpr (Dict.get?_set_self ..)
      obtain ⟨l, hl, hname, hwhich⟩ := h₂ _ he
      rw [if_pos rfl] at hwhich
      exact ⟨l, hl, hname, hwhich.2 k hk⟩
  · intro e he
    rw [Dict.mem_entries_iff, Dict.get?_set] at he
    by_cases hname : e.1 = powerLayer
    · rw [if_pos hname, Option.some.injEq] at he
      obtain ⟨l, hnew, hl, h₁, h₂⟩ := powerLayer_total (e := e)
        (fun f c => ∃ k, f.1 = chipletName k ∧ Represents traces k c) fun f hf => by
          rw [← he, Dict.mem_entries_iff] at hf
          obtain ⟨k, hk, hf1, htotal⟩ := htotals f.1 f.2 hf
          obtain ⟨c, hc, hcname, hblock⟩ := htotal.powerChiplet f.1
          exact ⟨c, hc, k, hf1, hk, hcname.trans hf1, hblock⟩
      refine ⟨l, hnew, hl, ?_⟩
      rw [if_pos hname]
      refine ⟨fun c hc => ?_, fun k hk => ?_⟩
      · obtain ⟨_, -, k, -, hrep⟩ := h₁ c hc
        exact ⟨k, hrep⟩
      · obtain ⟨chiplet, hchiplet⟩ := hserved k hk
        obtain ⟨c, hc, j, hj, hrep⟩ := h₂ (chipletName k, chiplet)
          (by rw [← he]; exact Dict.mem_entries_iff.mpr hchiplet)
        exact ⟨c, hc, chipletName_injective hj ▸ hrep⟩
    · rw [if_neg hname] at he
      obtain ⟨l, hnew, hl, h₁, -⟩ := powerLayer_total (e := e) (fun _ c => c.powerBlocks = [])
        fun f hf =>
          (h.others e.1 e.2 he hname f.1 f.2 (Dict.mem_entries_iff.mp hf)).powerChiplet f.1
      refine ⟨l, hnew, hl, ?_⟩
      rw [if_neg hname]
      intro c hc
      obtain ⟨_, -, hblocks⟩ := h₁ c hc
      exact hblocks

theorem GridFor.mem_expectedNames {layers : List PowerLayer} (h : GridFor traces powerLayer layers)
    (name : String) : name ∈ expectedPowerSequenceNames layers ↔
      ∃ k ∈ traces, name = powerRowKey powerLayer k v1BlockName := by
  unfold expectedPowerSequenceNames
  simp only [List.mem_flatMap, List.mem_map]
  constructor
  · rintro ⟨layer, hlayer, c, hc, b, hb, rfl⟩
    rcases h.source layer hlayer c hc with hnil | ⟨hname, k, hrep⟩
    · rw [hnil] at hb
      cases hb
    · obtain ⟨b', hb', hbname, -⟩ := hrep.block
      rw [hb', List.mem_singleton] at hb
      refine ⟨k, hrep.mem, ?_⟩
      rw [hname, hrep.name, hb, hbname]
      rfl
  · rintro ⟨k, hk, rfl⟩
    obtain ⟨layer, hlayer, hname, c, hc, hrep⟩ := h.complete k hk
    obtain ⟨b, hb, hbname, -⟩ := hrep.block
    refine ⟨layer, hlayer, c, hc, b, by rw [hb]; exact List.mem_singleton_self b, ?_⟩
    rw [hname, hrep.name, hbname]
    rfl

/-! ## Validation -/

/-- A row that passes the checks of its name and of its values. -/
structure GoodRow (n : ℕ) (row : PowerRow) : Prop where
  stripped : strip row.name = row.name
  named : row.name.isEmpty = false
  length : row.values.length = n
  numbers : ∀ v ∈ row.values, ∃ q, v = .number q

theorem GoodRow.checkRow {row : PowerRow} (h : GoodRow n row) (hn : 0 < n) {acc : RowChecks}
    (hfresh : row.name ∉ acc.rowByName)
    (hsteps : acc.sequenceSteps = none ∨ acc.sequenceSteps = some n) (i : ℕ) :
    Thermal.checkRow acc (row, i) = .ok
      { rowByName := acc.rowByName.set row.name i
        sequenceSteps := some n
        rows := acc.rows ++ [row] } := by
  have hexpected : acc.sequenceSteps.getD n = n := by
    rcases hsteps with hs | hs <;> rw [hs] <;> rfl
  have hvalues : (row.values.zipIdx 1).forM (checkValue row.name) = .ok ⟨⟩ := forM_ok fun e he => by
    obtain ⟨q, hq⟩ := h.numbers e.1 (List.fst_mem_of_mem_zipIdx he)
    unfold checkValue
    rw [hq]
  unfold Thermal.checkRow
  dsimp only
  rw [h.stripped, h.named, if_neg Bool.false_ne_true, Dict.get?_eq_none_iff.mpr hfresh]
  dsimp only
  rw [h.length, if_neg hn.ne', hexpected, if_neg (not_not.mpr rfl), hvalues]
  rfl

theorem checkRows_ok {rows : List PowerRow} (hrows : ∀ row ∈ rows, GoodRow n row) (hn : 0 < n)
    (hnodup : (rows.map (·.name)).Nodup) (acc : RowChecks)
    (hfresh : ∀ row ∈ rows, row.name ∉ acc.rowByName)
    (hsteps : acc.sequenceSteps = none ∨ acc.sequenceSteps = some n) (i : ℕ) :
    ∃ checks, (rows.zipIdx i).foldlM checkRow acc = .ok checks ∧
      checks.rows = acc.rows ++ rows ∧ (rows ≠ [] → checks.sequenceSteps = some n) ∧
      ∀ name, name ∈ checks.rowByName ↔ name ∈ acc.rowByName ∨ name ∈ rows.map (·.name) := by
  induction rows generalizing acc i with
  | nil => exact ⟨acc, rfl, by simp, by simp, by simp⟩
  | cons row rows ih =>
    rw [List.map_cons, List.nodup_cons] at hnodup
    have hrow := (hrows row List.mem_cons_self).checkRow hn (hfresh row List.mem_cons_self) hsteps i
    have hrest : ∀ r ∈ rows, r.name ∉ acc.rowByName.set row.name i := fun r hr => by
      rw [Dict.mem_set, not_or]
      exact ⟨fun heq => hnodup.1 (List.mem_map.mpr ⟨r, hr, heq⟩),
        hfresh r (List.mem_cons_of_mem row hr)⟩
    obtain ⟨checks, hloop, hdone, hn', hnames⟩ := ih
      (fun r hr => hrows r (List.mem_cons_of_mem row hr)) hnodup.2
      { rowByName := acc.rowByName.set row.name i
        sequenceSteps := some n
        rows := acc.rows ++ [row] } hrest (.inr rfl) (i + 1)
    refine ⟨checks, ?_, ?_, fun _ => ?_, fun name => ?_⟩
    · rw [List.zipIdx_cons]
      exact foldlM_cons_ok.mpr ⟨_, hrow, hloop⟩
    · rw [hdone, List.append_assoc, List.singleton_append]
    · by_cases hnil : rows = []
      · subst hnil
        cases hloop
        rfl
      · exact hn' hnil
    · rw [hnames, Dict.mem_set, List.map_cons, List.mem_cons, or_assoc, or_left_comm]

theorem PowerTraces.goodRow (h : PowerTraces traces n) (hspace : NoLeadingSpace powerLayer) {k : ℤ}
    (hk : k ∈ traces) : GoodRow n (rowOf traces powerLayer k) where
  stripped := strip_powerRowKey hspace k
  named := powerRowKey_ne_empty powerLayer k
  length := by
    unfold rowOf
    rw [List.length_map, length_percentValues, h.length_traceOf hk]
  numbers v hv := by
    obtain ⟨q, -, rfl⟩ := List.mem_map.mp hv
    exact ⟨q, rfl⟩

theorem countSteps_mul (m : ℕ) {interval : ℚ} (h : interval ≠ 0) (label : String) :
    countSteps (m * interval) interval label = .ok m := by
  have hraw : (m * interval / interval : ℚ) = ((m : ℤ) : ℚ) := by
    rw [mul_div_assoc, div_self h, mul_one, Int.cast_natCast]
  unfold countSteps
  rw [if_neg h]
  dsimp only
  rw [hraw, roundHalfEven_intCast, sub_self, abs_zero, if_pos (by positivity)]

theorem PowerTraces.numPowerTimePoints (h : PowerTraces traces n) :
    Thermal.numPowerTimePoints traces = n := by
  unfold Thermal.numPowerTimePoints
  split
  · next hnil =>
    refine absurd ?_ h.nonempty
    unfold Dict.values at hnil
    unfold Dict.keys
    rw [List.map_eq_nil_iff] at hnil ⊢
    exact hnil
  · next trace rest hvalues =>
    obtain ⟨k, hk⟩ := Dict.mem_values.mp (show trace ∈ traces.values by simp [hvalues])
    exact h.length k trace hk

/-- **Validation.** The rows of the adapter pass the checks of the grid, for the default time
controls. -/
theorem PowerTraces.validate (h : PowerTraces traces n) (hspace : NoLeadingSpace powerLayer)
    {layers : List PowerLayer} (hgrid : GridFor traces powerLayer layers) (powerSeqFile : String) :
    validatePowerSequence (.ofTimeControls powerSeqFile .transient (thermalTimeControls {} traces))
      layers ((sortedIds traces).map (rowOf traces powerLayer)) =
      .ok ((sortedIds traces).map (rowOf traces powerLayer)) := by
  have hnonempty : (sortedIds traces).map (rowOf traces powerLayer) ≠ [] := by
    rw [Ne, List.map_eq_nil_iff, ← List.length_eq_zero_iff]
    unfold sortedIds
    rw [List.length_insertionSort, List.length_eq_zero_iff]
    exact h.nonempty
  have hgood : ∀ row ∈ (sortedIds traces).map (rowOf traces powerLayer), GoodRow n row := by
    intro row hrow
    obtain ⟨k, hk, rfl⟩ := List.mem_map.mp hrow
    exact h.goodRow hspace (mem_sortedIds.mp hk)
  have hnodup : (((sortedIds traces).map (rowOf traces powerLayer)).map (·.name)).Nodup := by
    rw [List.map_map]
    exact nodup_sortedIds.map fun j k hjk => powerRowKey_injective hjk
  obtain ⟨checks, hloop, hrows, hsteps, hnames⟩ := checkRows_ok hgood h.pos hnodup {}
    (fun _ _ => List.not_mem_nil) (.inl rfl) 1
  have hname : ∀ name, name ∈ checks.rowByName ↔ name ∈ expectedPowerSequenceNames layers := by
    intro name
    rw [hnames, hgrid.mem_expectedNames, List.map_map, List.mem_map]
    constructor
    · rintro (hempty | ⟨k, hk, rfl⟩)
      · exact absurd hempty List.not_mem_nil
      · exact ⟨k, mem_sortedIds.mp hk, rfl⟩
    · rintro ⟨k, hk, rfl⟩
      exact .inr ⟨k, mem_sortedIds.mpr hk, rfl⟩
  have hmissing : (expectedPowerSequenceNames layers).filter
      (fun name => decide (name ∉ checks.rowByName)) = [] := by
    rw [List.filter_eq_nil_iff]
    intro name hmem
    simpa using (hname name).mpr hmem
  have hextra : checks.rowByName.keys.filter
      (fun name => decide (name ∉ expectedPowerSequenceNames layers)) = [] := by
    rw [List.filter_eq_nil_iff]
    intro name hmem
    simpa using (hname name).mp hmem
  have hcount : validateSteps (.ofTimeControls powerSeqFile .transient
      (thermalTimeControls {} traces)) n = .ok () := by
    unfold validateSteps
    dsimp only [Args.ofTimeControls, thermalTimeControls, Option.getD_none]
    rw [h.numPowerTimePoints, countSteps_mul n (by norm_num [timeStepUs]), ok_bind,
      if_neg (not_not.mpr rfl)]
  unfold validatePowerSequence
  rw [if_neg (by simpa using hnonempty), hloop, ok_bind]
  dsimp only
  rw [hmissing, hextra, hsteps hnonempty, hrows]
  simp only [List.insertionSort_nil, ne_eq, not_true_eq_false, if_false, Option.getD_some, hcount,
    ok_bind, pure_eq_ok, List.nil_append]

/-! ## Reading back -/

theorem find_row {l : List ℤ} {k : ℤ} (hk : k ∈ l) :
    ((l.map (rowOf traces powerLayer)).find? fun row =>
      decide (row.name = powerRowKey powerLayer k v1BlockName)) =
      some (rowOf traces powerLayer k) := by
  induction l with
  | nil => cases hk
  | cons j l ih =>
    rw [List.map_cons]
    by_cases hj : j = k
    · subst hj
      exact List.find?_cons_of_pos (by simp [rowOf])
    · rw [List.find?_cons_of_neg, ih ((List.mem_cons.mp hk).resolve_left (Ne.symm hj))]
      rw [decide_eq_true_eq]
      exact fun heq => hj (powerRowKey_injective heq)

/-- The maximum times the fractions are the watts, also for a chiplet that never uses power. -/
theorem PowerTraces.watts (h : PowerTraces traces n) {k : ℤ} (hk : k ∈ traces) :
    (percentValues (maxPowerOf traces k) (traceOf traces k)).map
      (fun v => maxPowerOf traces k * (v / 100)) = traceOf traces k := by
  obtain ⟨hget, -, hmax⟩ := h.get? hk
  obtain ⟨-, hbound⟩ := maxOf_spec hmax
  unfold percentValues
  split
  · next hzero =>
    rw [List.map_map]
    refine (List.map_congr_left fun w hw => ?_).trans (List.map_id _)
    have hw0 : w = 0 := le_antisymm (hzero ▸ hbound w hw) (h.nonneg k _ hget w hw)
    simp [hw0]
  · next hne =>
    rw [List.map_map]
    refine (List.map_congr_left fun w _ => ?_).trans (List.map_id _)
    simp only [Function.comp_apply, id]
    field_simp

theorem Represents.readBack {c : PowerChiplet} {k : ℤ} (hrep : Represents traces k c)
    (h : PowerTraces traces n) (powerLayer : String) {b : PowerBlock} (hb : b ∈ c.powerBlocks)
    {a : Args}
    (ha : a.simulationType = .transient) :
    ∃ powerSeq, b.createPowerSeq a powerLayer c.name
      ((sortedIds traces).map (rowOf traces powerLayer)) = .ok powerSeq ∧
      b.watts powerSeq = (traceOf traces k).map some := by
  obtain ⟨b', hb', hname, hmax⟩ := hrep.block
  rw [hb', List.mem_singleton] at hb
  subst hb
  have hkey : powerSeqName powerLayer c.name b.name = powerRowKey powerLayer k v1BlockName := by
    rw [hrep.name, hname]
    rfl
  have hfloat : (rowOf traces powerLayer k).values.mapM Cell.float =
      .ok ((percentValues (maxPowerOf traces k) (traceOf traces k)).map some) := by
    show (List.map _ _).mapM Cell.float = _
    rw [List.mapM_map]
    exact mapM_ok fun _ _ => rfl
  refine ⟨((percentValues (maxPowerOf traces k) (traceOf traces k)).map some).map
    fun v => v.map (· / 100), ?_, ?_⟩
  · unfold PowerBlock.createPowerSeq
    dsimp only
    rw [hkey, find_row (mem_sortedIds.mpr hrep.mem)]
    dsimp only
    rw [hfloat]
    dsimp only
    rw [ha]
  · unfold PowerBlock.watts
    rw [hmax]
    conv_rhs => rw [← h.watts hrep.mem]
    simp only [List.map_map]
    rfl

/-- **Round trip.** For every map of traces and every configuration with their chiplets as the only
blocks, the power grid accepts the rows of the adapter, and its blocks read back the traces. -/
theorem power_round_trip (traces : Dict ℤ (List ℚ)) (n : ℕ) (powerLayer : String)
    (config : PowerConfig) (h : PowerTraces traces n) (hspace : NoLeadingSpace powerLayer)
    (hconfig : ConfigFor traces powerLayer config) (powerConfigFile powerSeqFile : String) :
    ∃ conversion resolved grid,
      convertWattsToPercentRows traces powerLayer = .ok conversion ∧
      writeResolvedPowerConfig powerConfigFile config conversion.maxPowerWByChiplet powerLayer =
        .ok resolved ∧
      PowerGrid.new (.ofTimeControls powerSeqFile .transient (thermalTimeControls {} traces))
        resolved conversion.rows = .ok grid ∧
      (∀ k trace, traces.get? k = some trace → ∃ layer ∈ grid.powerLayers,
        layer.name = powerLayer ∧ ∃ c ∈ layer.powerChiplets, c.name = chipletName k ∧
          ∃ b, c.powerBlocks = [b] ∧ ∃ powerSeq,
            b.createPowerSeq grid.args layer.name c.name grid.powerSeq = .ok powerSeq ∧
            b.watts powerSeq = trace.map some) ∧
      ∀ layer ∈ grid.powerLayers, ∀ c ∈ layer.powerChiplets, ∀ b ∈ c.powerBlocks,
        layer.name = powerLayer ∧ ∃ k ∈ traces, c.name = chipletName k := by
  obtain ⟨conversion, hconv, hrows, hmax⟩ := h.convert powerLayer
  obtain ⟨resolved, layers, hres, hlayers, hgrid⟩ := hconfig.resolve powerConfigFile hmax
  have hvalid := h.validate hspace hgrid powerSeqFile
  refine ⟨conversion, resolved,
    { args := .ofTimeControls powerSeqFile .transient (thermalTimeControls {} traces)
      powerSeq := (sortedIds traces).map (rowOf traces powerLayer)
      powerLayers := layers }, hconv, hres, ?_, ?_, ?_⟩
  · unfold PowerGrid.new
    rw [hlayers, ok_bind, hrows, hvalid, ok_bind]
    rfl
  · intro k trace htrace
    have hk := Dict.mem_of_get? htrace
    obtain ⟨layer, hlayer, hname, c, hc, hrep⟩ := hgrid.complete k hk
    obtain ⟨b, hb, -⟩ := hrep.block
    have hmem : b ∈ c.powerBlocks := by
      rw [hb]
      exact List.mem_singleton_self b
    obtain ⟨powerSeq, hseq, hwatts⟩ := hrep.readBack h powerLayer hmem
      (a := .ofTimeControls powerSeqFile .transient (thermalTimeControls {} traces)) rfl
    have htraceOf : traceOf traces k = trace :=
      Option.some.inj ((h.get? hk).1.symm.trans htrace)
    exact ⟨layer, hlayer, hname, c, hc, hrep.name, b, hb, powerSeq, hname ▸ hseq,
      htraceOf ▸ hwatts⟩
  · intro layer hlayer c hc b hb
    rcases hgrid.source layer hlayer c hc with hnil | ⟨hname, k, hrep⟩
    · rw [hnil] at hb
      cases hb
    · exact ⟨hname, k, hrep.mem, hrep.name⟩

end

/-! ## Two chiplets -/

/-- A chiplet that uses power and one that does not. -/
def sampleTraces : Dict ℤ (List ℚ) := .ofList [(2, [0, 0]), (1, [1, 2])]

/-- A block without a maximum yet. -/
def unitBlock : BlockConfig := ⟨0, 0, 1, 1, none⟩

/-- A chiplet with the single block `total`. -/
def totalChiplet (x : ℚ) : ChipletConfig := ⟨x, 0, some (.ofList [("total", unitBlock)])⟩

/-- The power layer of the two chiplets. -/
def logicLayer : LayerConfig :=
  .ofList [("chiplet_1", totalChiplet 0), ("chiplet_2", totalChiplet 2)]

/-- A configuration with a second layer, which has one chiplet. -/
def stackedConfig (chiplet : ChipletConfig) : PowerConfig :=
  .ofList [("logic", logicLayer), ("memory", .ofList [("stack", chiplet)])]

theorem powerTraces_sample : PowerTraces sampleTraces 2 := by
  have hentries : ∀ k trace, sampleTraces.get? k = some trace →
      (k, trace) ∈ [((2 : ℤ), [(0 : ℚ), 0]), (1, [1, 2])] := fun k trace h =>
    Dict.mem_entries_iff.mpr h
  refine ⟨by decide, by decide, fun k trace h => ?_, fun k trace h w hw => ?_⟩
  · have hmem := hentries k trace h
    simp only [List.mem_cons, Prod.mk.injEq, List.not_mem_nil, or_false] at hmem
    rcases hmem with ⟨-, rfl⟩ | ⟨-, rfl⟩ <;> rfl
  · have hmem := hentries k trace h
    simp only [List.mem_cons, Prod.mk.injEq, List.not_mem_nil, or_false] at hmem
    rcases hmem with ⟨-, rfl⟩ | ⟨-, rfl⟩ <;>
      · simp only [List.mem_cons, List.not_mem_nil, or_false] at hw
        rcases hw with rfl | rfl <;> norm_num

theorem layerFor_logic : LayerFor sampleTraces logicLayer := by
  refine ⟨fun name => ?_, fun name chiplet h => ?_⟩
  · have hkeys : name ∈ logicLayer ↔ name ∈ ["chiplet_1", "chiplet_2"] := Iff.rfl
    have hids : ∀ k, k ∈ sampleTraces ↔ k ∈ [(2 : ℤ), 1] := fun _ => Iff.rfl
    rw [hkeys]
    simp only [hids, List.mem_cons, List.not_mem_nil, or_false, exists_eq_or_imp, exists_eq_left]
    rw [show chipletName 1 = "chiplet_1" by decide +kernel,
      show chipletName 2 = "chiplet_2" by decide +kernel, or_comm]
  · have hmem : (name, chiplet) ∈ [("chiplet_1", totalChiplet 0), ("chiplet_2", totalChiplet 2)] :=
      Dict.mem_entries_iff.mpr h
    simp only [List.mem_cons, Prod.mk.injEq, List.not_mem_nil, or_false] at hmem
    rcases hmem with ⟨-, rfl⟩ | ⟨-, rfl⟩ <;> exact ⟨_, unitBlock, rfl, rfl⟩

/-- Without blocks in the second layer both traces are read back. -/
theorem power_round_trip_sample :
    ConfigFor sampleTraces "logic" (stackedConfig ⟨0, 0, none⟩) ∧
    ∃ conversion resolved grid,
      convertWattsToPercentRows sampleTraces "logic" = .ok conversion ∧
      conversion.zeroPowerChiplets = [2] ∧
      writeResolvedPowerConfig "power.yml" (stackedConfig ⟨0, 0, none⟩)
        conversion.maxPowerWByChiplet "logic" = .ok resolved ∧
      PowerGrid.new (.ofTimeControls "power.csv" .transient (thermalTimeControls {} sampleTraces))
        resolved conversion.rows = .ok grid ∧
      ∀ k trace, sampleTraces.get? k = some trace → ∃ layer ∈ grid.powerLayers,
        layer.name = "logic" ∧ ∃ c ∈ layer.powerChiplets, c.name = chipletName k ∧
          ∃ b, c.powerBlocks = [b] ∧ ∃ powerSeq,
            b.createPowerSeq grid.args layer.name c.name grid.powerSeq = .ok powerSeq ∧
            b.watts powerSeq = trace.map some := by
  have hconfig : ConfigFor sampleTraces "logic" (stackedConfig ⟨0, 0, none⟩) := by
    refine ⟨⟨logicLayer, rfl, layerFor_logic⟩, fun name layer h hname j chiplet hchiplet => ?_⟩
    have hmem : (name, layer) ∈ [("logic", logicLayer),
        ("memory", .ofList [("stack", (⟨0, 0, none⟩ : ChipletConfig))])] :=
      Dict.mem_entries_iff.mpr h
    simp only [List.mem_cons, Prod.mk.injEq, List.not_mem_nil, or_false] at hmem
    rcases hmem with ⟨rfl, -⟩ | ⟨-, rfl⟩
    · exact absurd rfl hname
    · have hstack : (j, chiplet) ∈ [("stack", (⟨0, 0, none⟩ : ChipletConfig))] :=
        Dict.mem_entries_iff.mpr hchiplet
      rw [List.mem_singleton, Prod.mk.injEq] at hstack
      rw [hstack.2]
      exact fun blocks hblocks => by cases hblocks
  refine ⟨hconfig, ?_⟩
  have hspace : NoLeadingSpace "logic" := by
    intro c hc
    rw [show "logic".toList.head? = some 'l' by decide +kernel, Option.mem_some_iff] at hc
    rw [← hc]
    decide
  obtain ⟨conversion, resolved, grid, hconv, hres, hgrid, hread, -⟩ := power_round_trip
    sampleTraces 2 "logic" _ powerTraces_sample hspace hconfig "power.yml" "power.csv"
  have hzero : ((convertWattsToPercentRows sampleTraces "logic").toOption.map
      (·.zeroPowerChiplets)) = some [2] := by decide +kernel
  rw [hconv] at hzero
  exact ⟨conversion, resolved, grid, hconv, Option.some.inj hzero, hres, hgrid, hread⟩

/-- The error of a computation that raises. -/
def errorOf {α : Type} : Except PyError α → Option PyError
  | .ok _ => none
  | .error e => some e

/-- A block in the second layer is missing from the rows of the adapter, though the power layer has
exactly the chiplets of the traces, each with the single block `total`. -/
theorem validation_rejects_second_layer :
    PowerTraces sampleTraces 2 ∧
    (stackedConfig ⟨0, 0, some (.ofList [("bank", { unitBlock with maxPower := some 3 })])⟩).get?
      "logic" = some logicLayer ∧ LayerFor sampleTraces logicLayer ∧
    errorOf (do
      let conversion ← convertWattsToPercentRows sampleTraces "logic"
      let resolved ← writeResolvedPowerConfig "power.yml" (stackedConfig
        ⟨0, 0, some (.ofList [("bank", { unitBlock with maxPower := some 3 })])⟩)
        conversion.maxPowerWByChiplet "logic"
      PowerGrid.new (.ofTimeControls "power.csv" .transient (thermalTimeControls {} sampleTraces))
        resolved conversion.rows) =
      some (.valueError "Power sequence is missing 1 required rows: memory_stack_bank") :=
  ⟨powerTraces_sample, rfl, layerFor_logic, by decide +kernel⟩

end Thermal

end ChipSim
