import Mathlib.Tactic.FieldSimp
import ChipSim.Lib.Lists
import ChipSim.Lib.Memo
import ChipSim.Lib.Round
import ChipSim.PyError

/-!
# Analytical compute simulation

The chunks on CMOS chiplets are simulated by a formula, through a cache whose keys are texts. The
texts give the operations without decimals and the percentage with two, so chunks with different
numbers of operations can share a key.
-/

namespace ChipSim

open Lib

/-- `f"{q:.{digits}f}"`. -/
def formatFixed (digits : ℕ) (q : ℚ) : String :=
  let n := (roundHalfEven (|q| * 10 ^ digits)).toNat
  let sign := if q < 0 then "-" else ""
  let whole := toString (n / 10 ^ digits)
  let fraction := toString (n % 10 ^ digits)
  if digits = 0 then sign ++ whole
  else sign ++ whole ++ "." ++ String.ofList (List.replicate (digits - fraction.length) '0') ++
    fraction

/-- The name of a chiplet type. -/
structure ChipletTypeName where
  text : String
  noSeparator : '|' ∉ text.toList

/-- The parameters of a chiplet type that the analytical model reads. -/
structure AnalyticalParams where
  macsPerSecond : Option ℚ
  energyPerMac : Option ℚ

/-- The fields of a partitioned layer that are read; `macsPerSecond` and `energyPerMac` are the
texts of fields a caller may have embedded in the layer. -/
structure AnalyticalLayer where
  totalMacs : Option ℚ
  description : Option String
  percentage : Option ℚ
  macsPerSecond : Option String := none
  energyPerMac : Option String := none

/-- A request to simulate a chunk on a CMOS chiplet. -/
structure AnalyticalRequest where
  partitionedLayer : AnalyticalLayer
  chipletId : ℕ
  chipletType : ChipletTypeName
  batchSize : ℤ := 1

/-- The result of a compute simulation. -/
structure ComputeResult where
  latencyUs : ℚ
  energyFj : ℚ
  cycles : ℤ
deriving DecidableEq

namespace AnalyticalBackend

/-- `AnalyticalBackend.simulate`. -/
def simulate (layer : AnalyticalLayer) (chipletId : ℕ) (params : AnalyticalParams) :
    Except PyError ComputeResult :=
  match layer.totalMacs, params.macsPerSecond, params.energyPerMac with
  | none, _, _ => .error (.valueError
      s!"Missing 'total_macs' field in partitioned layer for chiplet {chipletId}")
  | some _, none, _ => .error (.valueError
      s!"Missing 'macs_per_second' parameter for CMOS chiplet {chipletId}")
  | some _, some _, none => .error (.valueError
      s!"Missing 'energy_per_mac' parameter for CMOS chiplet {chipletId}")
  | some totalMacs, some macsPerSecond, some energyPerMac =>
    if macsPerSecond = 0 then .error (.zeroDivisionError "division by zero")
    else .ok
      { latencyUs := totalMacs / macsPerSecond * 10 ^ 6
        energyFj := totalMacs * energyPerMac
        cycles := -1 }

end AnalyticalBackend

namespace ComputeSimulator

/-- `_compute_cache_key_for_analytical`. -/
def computeCacheKeyForAnalytical (r : AnalyticalRequest) : String :=
  let chipletType := r.chipletType.text
  let macs := formatFixed 0 (r.partitionedLayer.totalMacs.getD 0)
  let description := r.partitionedLayer.description.getD "unknown"
  let percentage := formatFixed 2 (r.partitionedLayer.percentage.getD 100)
  let batchSize := r.batchSize
  let macsPerSecond := r.partitionedLayer.macsPerSecond.getD "None"
  let energyPerMac := r.partitionedLayer.energyPerMac.getD "None"
  s!"analytical|chiplet_type={chipletType}|macs={macs}|desc={description}|pct={percentage}" ++
    s!"|batch={batchSize}|mps={macsPerSecond}|e_per_mac={energyPerMac}"

/-- The uncached simulation of a request; the parameters are those of its chiplet type. -/
def simulateUncached (params : String → AnalyticalParams) (r : AnalyticalRequest) :
    Except PyError ComputeResult :=
  AnalyticalBackend.simulate r.partitionedLayer r.chipletId (params r.chipletType.text)

/-- `_simulate_with_analytical`, with the cache before and after the call. A result is stored
whenever there is one. -/
def simulateWithAnalytical (params : String → AnalyticalParams) (cache : Dict String ComputeResult)
    (r : AnalyticalRequest) : Except PyError ComputeResult × Dict String ComputeResult :=
  let cacheKey := computeCacheKeyForAnalytical r
  match cache.get? cacheKey with
  | some result => (.ok result, cache)
  | none =>
    match simulateUncached params r with
    | .error e => (.error e, cache)
    | .ok result => (.ok result, cache.set cacheKey result)

/-- The results of a sequence of requests. -/
def simulateAll (params : String → AnalyticalParams) :
    Dict String ComputeResult → List AnalyticalRequest → List (Except PyError ComputeResult)
  | _, [] => []
  | cache, r :: rs =>
    let (result, cache) := simulateWithAnalytical params cache r
    result :: simulateAll params cache rs

/-! ## The cache as a memo table -/

/-- The simulation through the cache. -/
def memo (params : String → AnalyticalParams) :
    Memo AnalyticalRequest String ComputeResult (Except PyError ComputeResult) where
  key := computeCacheKeyForAnalytical
  compute := simulateUncached params
  store r := (simulateUncached params r).toOption
  accept _ _ := true
  reply := .ok

theorem simulateWithAnalytical_eq (params : String → AnalyticalParams)
    (cache : Dict String ComputeResult) (r : AnalyticalRequest) :
    simulateWithAnalytical params cache r =
      ((memo params).answer cache r, (memo params).next cache r) := by
  have hhit : (memo params).hit cache r = cache.get? (computeCacheKeyForAnalytical r) := by
    unfold Memo.hit
    cases hget : cache.get? ((memo params).key r) <;> exact hget.symm
  unfold simulateWithAnalytical Memo.answer Memo.next
  rw [hhit]
  dsimp only
  cases cache.get? (computeCacheKeyForAnalytical r) with
  | some result => rfl
  | none =>
    unfold memo
    dsimp only
    cases simulateUncached params r with
    | error e => rfl
    | ok result => rfl

theorem simulateAll_eq (params : String → AnalyticalParams) (cache : Dict String ComputeResult)
    (rs : List AnalyticalRequest) :
    simulateAll params cache rs = (memo params).answers cache rs := by
  induction rs generalizing cache with
  | nil => rfl
  | cons r rs ih =>
    unfold simulateAll Memo.answers
    rw [simulateWithAnalytical_eq]
    dsimp only
    rw [ih]

/-! ## Keys -/

/-- The key tells the chiplet type. -/
theorem chipletType_of_key {r r' : AnalyticalRequest}
    (h : computeCacheKeyForAnalytical r = computeCacheKeyForAnalytical r') :
    r.chipletType.text = r'.chipletType.text := by
  have hlist := congrArg String.toList h
  unfold computeCacheKeyForAnalytical at hlist
  simp only [String.toList_append, List.append_assoc] at hlist
  have htail := List.append_cancel_left hlist
  exact String.toList_inj.mp (append_cons_inj_of_not_mem r.chipletType.noSeparator
    r'.chipletType.noSeparator htail)

/-! ## When the cache is transparent -/

/-- What the formula needs is there. -/
def Simulatable (params : String → AnalyticalParams) (r : AnalyticalRequest) : Prop :=
  r.partitionedLayer.totalMacs ≠ none ∧ (params r.chipletType.text).macsPerSecond ≠ none ∧
    (params r.chipletType.text).macsPerSecond ≠ some 0 ∧
    (params r.chipletType.text).energyPerMac ≠ none

theorem simulateUncached_ok {params : String → AnalyticalParams} {r : AnalyticalRequest}
    (h : Simulatable params r) : ∃ totalMacs macsPerSecond energyPerMac,
      r.partitionedLayer.totalMacs = some totalMacs ∧
      (params r.chipletType.text).macsPerSecond = some macsPerSecond ∧ macsPerSecond ≠ 0 ∧
      (params r.chipletType.text).energyPerMac = some energyPerMac ∧
      simulateUncached params r =
        .ok ⟨totalMacs / macsPerSecond * 10 ^ 6, totalMacs * energyPerMac, -1⟩ := by
  obtain ⟨hmacs, hspeed, hzero, henergy⟩ := h
  obtain ⟨totalMacs, hmacs⟩ := Option.ne_none_iff_exists'.mp hmacs
  obtain ⟨macsPerSecond, hspeed⟩ := Option.ne_none_iff_exists'.mp hspeed
  obtain ⟨energyPerMac, henergy⟩ := Option.ne_none_iff_exists'.mp henergy
  have hne : macsPerSecond ≠ 0 := fun h0 => hzero (h0 ▸ hspeed)
  refine ⟨totalMacs, macsPerSecond, energyPerMac, hmacs, hspeed, hne, henergy, ?_⟩
  unfold simulateUncached AnalyticalBackend.simulate
  rw [hmacs, hspeed, henergy]
  exact if_neg hne

theorem simulatable_of_ok {params : String → AnalyticalParams} {r : AnalyticalRequest}
    {v : ComputeResult} (h : simulateUncached params r = .ok v) : Simulatable params r := by
  unfold simulateUncached AnalyticalBackend.simulate at h
  split at h
  · cases h
  · cases h
  · cases h
  · next hmacs hspeed henergy =>
    split at h
    · cases h
    · next hne =>
      refine ⟨by simp [hmacs], by simp [hspeed], ?_, by simp [henergy]⟩
      rw [hspeed, Ne, Option.some.injEq]
      exact hne

/-- Requests on one chiplet type with the same operations have the same result. -/
theorem simulateUncached_congr {params : String → AnalyticalParams} {r r' : AnalyticalRequest}
    (h : Simulatable params r) (htype : r.chipletType.text = r'.chipletType.text)
    (hmacs : r.partitionedLayer.totalMacs = r'.partitionedLayer.totalMacs) :
    simulateUncached params r = simulateUncached params r' := by
  have h' : Simulatable params r' := by
    unfold Simulatable at h ⊢
    rwa [htype, hmacs] at h
  obtain ⟨x, m, e, hx, hm, -, he, heq⟩ := simulateUncached_ok h
  obtain ⟨x', m', e', hx', hm', -, he', heq'⟩ := simulateUncached_ok h'
  rw [htype, hm', Option.some.injEq] at hm
  rw [htype, he', Option.some.injEq] at he
  rw [hmacs, hx', Option.some.injEq] at hx
  rw [heq, heq', hm, he, hx]

theorem totalMacs_of_simulateUncached {params : String → AnalyticalParams}
    {r r' : AnalyticalRequest} (h : Simulatable params r)
    (htype : r.chipletType.text = r'.chipletType.text)
    (heq : simulateUncached params r = simulateUncached params r') :
    r.partitionedLayer.totalMacs = r'.partitionedLayer.totalMacs := by
  obtain ⟨x, m, e, hx, hm, hne, he, hok⟩ := simulateUncached_ok h
  obtain ⟨x', m', e', hx', hm', -, -, hok'⟩ := simulateUncached_ok
    (simulatable_of_ok (heq.symm.trans hok))
  rw [← htype, hm, Option.some.injEq] at hm'
  subst hm'
  rw [hok, hok', Except.ok.injEq, ComputeResult.mk.injEq] at heq
  have hlatency := heq.1
  field_simp at hlatency
  rw [hx, hx', hlatency]

/-- **The cache of the analytical backend is transparent** for a sequence of requests exactly if the
keys tell the numbers of operations apart. -/
theorem analytical_cache_iff (params : String → AnalyticalParams) (rs : List AnalyticalRequest) :
    simulateAll params .empty rs = rs.map (simulateUncached params) ↔
      rs.Pairwise fun a b => Simulatable params a →
        computeCacheKeyForAnalytical a = computeCacheKeyForAnalytical b →
        a.partitionedLayer.totalMacs = b.partitionedLayer.totalMacs := by
  rw [simulateAll_eq]
  constructor
  · intro htrans
    rw [List.pairwise_iff_getElem]
    intro i j hi hj hij ha hkey
    have hsplit : rs = rs.take i ++ rs[i] :: rs.drop (i + 1) := by
      rw [List.getElem_cons_drop, List.take_append_drop]
    obtain ⟨x, m, e, -, -, -, -, hok⟩ := simulateUncached_ok ha
    have hstore : (memo params).store rs[i] = some ⟨x / m * 10 ^ 6, x * e, -1⟩ :=
      toOption_eq_some.mpr hok
    refine totalMacs_of_simulateUncached ha (chipletType_of_key hkey) ?_
    have htrans' : ((memo params).answers .empty (rs.take i ++ rs[i] :: rs.drop (i + 1))).map id =
        (rs.take i ++ rs[i] :: rs.drop (i + 1)).map fun r => id ((memo params).compute r) := by
      rw [← hsplit, List.map_id]
      exact htrans
    refine Memo.compute_eq_of_transparent id (i := j - (i + 1)) htrans' ⟨_, hstore, hok.symm⟩
      (fun _ _ _ _ => rfl) ?_ hkey.symm
    · rw [List.getElem?_drop, List.getElem?_eq_some_iff]
      exact ⟨by omega, by congr 1; omega⟩
  · intro hkeys
    refine Memo.answers_eq_map (fun a _ v hget => by cases hget) (hkeys.imp ?_)
    intro a b h v hstore hkey _
    have hok : simulateUncached params a = .ok v := toOption_eq_some.mp hstore
    have ha := simulatable_of_ok hok
    exact hok.symm.trans (simulateUncached_congr ha (chipletType_of_key hkey) (h ha hkey))

/-- Parameters of the chiplet type for CMOS chiplets. -/
def cmosParams (_ : String) : AnalyticalParams := ⟨some (10 ^ 12), some 50⟩

/-- A third of a layer of a thousand operations, of which some more or some less are on the
chiplet. -/
def thirdOf (percentage : ℚ) : AnalyticalRequest where
  partitionedLayer :=
    { totalMacs := some (1000 * (percentage / 100))
      description := some "Linear"
      percentage := some percentage }
  chipletId := 1
  chipletType := ⟨"CMOS_Compute", by decide⟩

/-- **Two chunks with the same key**: `333.31` and `333.33` operations. The second one gets the
result of the first one. -/
theorem third_confused :
    (simulateAll cmosParams .empty [thirdOf (33331 / 1000), thirdOf (33333 / 1000)]).map
        Except.toOption =
          [some ⟨33331 / 10 ^ 8, 33331 / 2, -1⟩, some ⟨33331 / 10 ^ 8, 33331 / 2, -1⟩] ∧
      (simulateUncached cmosParams (thirdOf (33333 / 1000))).toOption =
        some ⟨33333 / 10 ^ 8, 33333 / 2, -1⟩ := by
  decide +kernel

end ComputeSimulator

end ChipSim
