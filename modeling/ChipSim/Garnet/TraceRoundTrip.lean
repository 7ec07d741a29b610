import Mathlib
import ChipSim.Garnet.Trace
import ChipSim.Lib.Lists

/-!
# Reading a trace back

Every row fits the buffer of the reader and is cut into the fields it was written from, so the
reader gets one packet for each entry. The interface at the destination is written as the chiplet
plus `100`. It is attached to the router of the chiplet on a system of `100` chiplets; on all others
only packets to the first chiplet arrive, and only where the interface does not exist.
-/

namespace ChipSim

open Lib

namespace Garnet

variable {n v : ℕ} {e : TrafficEntry} {inputs : List SimulatorInput}

/-! ## Fields -/

/-- The digits of a number. -/
def digits (v : ℕ) : List Char := Nat.toDigits 10 v

theorem isDigit_digits {c : Char} (h : c ∈ digits v) : c.isDigit = true :=
  Nat.isDigit_of_mem_toDigits (by norm_num) (by norm_num) h

theorem digits_cons (v : ℕ) : ∃ c l, digits v = c :: l ∧ c.isDigit = true := by
  cases h : digits v with
  | nil => exact absurd h Nat.toDigits_ne_nil
  | cons c l => exact ⟨c, l, rfl, isDigit_digits (h ▸ List.mem_cons_self)⟩

theorem toList_toString (v : ℕ) : (toString v).toList = digits v := Nat.toList_repr

theorem length_digits_le (h : v < 10 ^ 10) : (digits v).length ≤ 10 :=
  (Nat.length_toDigits_le_iff (by norm_num) (by norm_num)).mpr h

/-- A digit is neither a delimiter, nor white space, nor a sign. -/
theorem not_special_of_isDigit {c : Char} (h : c.isDigit = true) :
    isDelimiter c = false ∧ isCSpace c = false ∧ c ≠ '-' ∧ c ≠ '+' ∧ c ≠ '\n' := by
  refine ⟨?_, ?_, ?_, ?_, ?_⟩
  · by_contra hc
    rw [Bool.not_eq_false, isDelimiter, Bool.or_eq_true, decide_eq_true_iff,
      decide_eq_true_iff] at hc
    rcases hc with rfl | rfl <;> exact absurd h (by decide)
  · by_contra hc
    simp only [Bool.not_eq_false, isCSpace, Bool.or_eq_true, decide_eq_true_iff] at hc
    rcases hc with ((((rfl | rfl) | rfl) | rfl) | rfl) | rfl <;> exact absurd h (by decide)
  all_goals
    rintro rfl
    exact absurd h (by decide)

/-- What `atoi` makes of a number. -/
def cInt (v : ℕ) : ℤ := (max (-2 ^ 63) (min (2 ^ 63 - 1) (v : ℤ))).bmod (2 ^ 32)

theorem cInt_of_lt (h : v < 2 ^ 31) : cInt v = v := by
  unfold cInt
  rw [min_eq_right (by omega), max_eq_right (by omega), Int.bmod_eq_of_le] <;> omega

theorem atoi_digits (v : ℕ) {t : List Char} (ht : ∀ c ∈ t, c.isDigit = false) :
    atoi (digits v ++ t) = cInt v := by
  obtain ⟨c, l, hl, hc⟩ := digits_cons v
  obtain ⟨-, hspace, hminus, hplus, -⟩ := not_special_of_isDigit hc
  have hdrop : (digits v ++ t).dropWhile isCSpace = c :: (l ++ t) := by
    rw [hl, List.cons_append, List.dropWhile_cons_of_neg (by rw [hspace]; decide)]
  have htake : (c :: (l ++ t)).takeWhile Char.isDigit = digits v := by
    rw [← List.cons_append, ← hl, List.takeWhile_append_of_pos fun a ha => isDigit_digits ha,
      List.takeWhile_eq_nil_iff.mpr, List.append_nil]
    intro hpos
    exact Bool.not_eq_true _ ▸ ht _ (List.get_mem t ⟨0, hpos⟩)
  have hvalue : strtol (digits v ++ t) = max (-2 ^ 63) (min (2 ^ 63 - 1) (v : ℤ)) := by
    unfold strtol
    simp only [hdrop]
    split
    · next h => exact absurd (List.cons.inj h).1 hminus
    · next h => exact absurd (List.cons.inj h).1 hplus
    · rw [htake]
      unfold digits
      rw [Nat.ofDigitChars_toDigits (by norm_num) (by norm_num)]
  unfold atoi cInt
  rw [hvalue]

/-! ## Rows -/

/-- Numbers separated by blanks. -/
def spaced : List ℕ → List Char
  | [] => []
  | [v] => digits v
  | v :: w :: vs => digits v ++ ' ' :: spaced (w :: vs)

/-- The numbers of a row. -/
def rowFields (e : TrafficEntry) : List ℕ :=
  [1, e.src, e.src, e.dst + 100, e.dst, 0, e.flits, e.networkIdx, e.inputIdx, e.phaseId]

theorem toList_garnetRow (e : TrafficEntry) : (garnetRow e).toList = spaced (rowFields e) := by
  have hone : (toString "1 ").toList = digits 1 ++ [' '] := rfl
  have hblank : (toString " ").toList = [' '] := rfl
  have hzero : (toString " 0 ").toList = ' ' :: (digits 0 ++ [' ']) := rfl
  unfold garnetRow rowFields
  simp only [spaced, String.toList_append, toList_toString, hone, hblank, hzero,
    List.append_assoc, List.cons_append, List.nil_append]

/-- The tokens of a line of numbers: the end of the line stays at the last one. -/
def tokensOf : List ℕ → List (List Char)
  | [] => [['\n']]
  | [v] => [digits v ++ ['\n']]
  | v :: w :: vs => digits v :: tokensOf (w :: vs)

theorem strtok_spaced (v : ℕ) (vs : List ℕ) :
    strtok (spaced (v :: vs) ++ ['\n']) = tokensOf (v :: vs) := by
  have hdigits : ∀ v, ∀ c ∈ digits v, isDelimiter c = false := fun v c hc =>
    (not_special_of_isDigit (isDigit_digits hc)).1
  have hne : ∀ v, digits v ≠ [] := fun v => Nat.toDigits_ne_nil
  unfold strtok
  induction vs generalizing v with
  | nil =>
    apply words_eq_singleton
    · intro c hc
      rcases List.mem_append.mp hc with hc | hc
      · exact hdigits v c hc
      · rw [List.mem_singleton.mp hc]
        decide
    · exact List.append_ne_nil_of_left_ne_nil (hne v) _
  | cons w vs ih =>
    show words isDelimiter (digits v ++ ' ' :: spaced (w :: vs) ++ ['\n']) = _
    rw [List.append_assoc, List.cons_append, words_append_cons (hdigits v) (hne v) (by decide), ih]
    rfl

/-- The packet of a row before interfaces that do not exist are replaced. -/
def rowPacket (e : TrafficEntry) : NetworkTraceRecord where
  time := cInt 1
  srcId := cInt e.src
  srcRouterId := cInt e.src
  destId := cInt (e.dst + 100)
  destRouterId := cInt e.dst
  vnet := cInt 0
  numFlits := cInt e.flits
  networkIdx := cInt e.networkIdx
  inputIdx := cInt e.inputIdx
  phaseId := cInt e.phaseId

theorem extractPacket_row (e : TrafficEntry) :
    ∃ token tokens, strtok ((garnetRow e).toList ++ ['\n']) = token :: tokens ∧
      extractPacket (token :: tokens) = some (rowPacket e) := by
  refine ⟨_, _, by rw [toList_garnetRow]; exact strtok_spaced _ _, ?_⟩
  have hplain : ∀ v, atoi (digits v) = cInt v := fun v => by
    have := atoi_digits v (t := []) fun c hc => absurd hc List.not_mem_nil
    rwa [List.append_nil] at this
  have hlast : ∀ v, atoi (digits v ++ ['\n']) = cInt v := fun v => atoi_digits v fun c hc => by
    rw [List.mem_singleton.mp hc]
    decide
  simp only [tokensOf, extractPacket, List.getElem?_cons_zero, List.getElem?_cons_succ,
    Option.map_some, Option.getD_some, hplain, hlast]
  rfl

/-! ## Lines -/

theorem fgets_line {body : List Char} (hbody : '\n' ∉ body) (hn : body.length < n)
    (rest : List Char) : fgets n (body ++ '\n' :: rest) = (body ++ ['\n'], rest) := by
  induction body generalizing n with
  | nil =>
    obtain ⟨m, rfl⟩ : ∃ m, n = m + 1 := ⟨n - 1, by simp at hn; omega⟩
    rfl
  | cons c body ih =>
    obtain ⟨m, rfl⟩ : ∃ m, n = m + 1 := ⟨n - 1, by simp at hn; omega⟩
    rw [List.cons_append, fgets, if_neg (fun h : c = '\n' => hbody (h ▸ List.mem_cons_self)),
      ih (fun h => hbody (List.mem_cons_of_mem c h)) (by simpa using hn)]
    rfl

theorem newline_notMem_spaced (vs : List ℕ) : '\n' ∉ spaced vs := by
  have hdigits : ∀ v, '\n' ∉ digits v := fun v h =>
    (not_special_of_isDigit (isDigit_digits h)).2.2.2.2 rfl
  induction vs with
  | nil => exact List.not_mem_nil
  | cons v vs ih =>
    cases vs with
    | nil => exact hdigits v
    | cons w vs =>
      intro h
      rcases List.mem_append.mp h with h | h
      · exact hdigits v h
      · rcases List.mem_cons.mp h with h | h
        · exact absurd h (by decide)
        · exact ih h

/-- The values of an entry that are written, all within the range of the reader. -/
structure Written (e : TrafficEntry) : Prop where
  src : e.src < 2 ^ 31
  dst : e.dst < 2 ^ 31
  flits : e.flits < 2 ^ 31
  networkIdx : e.networkIdx < 2 ^ 31
  inputIdx : e.inputIdx < 2 ^ 31
  phaseId : e.phaseId < 2 ^ 31

/-- Such a row fits the buffer. -/
theorem Written.length_lt (h : Written e) : (garnetRow e).toList.length < 99 := by
  have hsrc := length_digits_le (v := e.src) (by have := h.src; omega)
  have hni := length_digits_le (v := e.dst + 100) (by have := h.dst; omega)
  have hdst := length_digits_le (v := e.dst) (by have := h.dst; omega)
  have hflits := length_digits_le (v := e.flits) (by have := h.flits; omega)
  have hnet := length_digits_le (v := e.networkIdx) (by have := h.networkIdx; omega)
  have hinput := length_digits_le (v := e.inputIdx) (by have := h.inputIdx; omega)
  have hphase := length_digits_le (v := e.phaseId) (by have := h.phaseId; omega)
  have hone : (digits 1).length = 1 := rfl
  have hzero : (digits 0).length = 1 := rfl
  rw [toList_garnetRow]
  simp only [rowFields, spaced, List.length_append, List.length_cons]
  omega

/-! ## Files -/

/-- The records of a list of entries, as the reader injects them. -/
def expected (numNis : ℕ) (es : List TrafficEntry) : List NetworkTraceRecord :=
  es.map fun e => remap numNis (rowPacket e)

theorem fileText_cons (e : TrafficEntry) (es : List TrafficEntry) :
    fileText ((e :: es).map garnetRow) =
      (garnetRow e).toList ++ '\n' :: fileText (es.map garnetRow) := by
  simp [fileText]

/-- A call of the reader for a row that fits the buffer. -/
theorem wakeup_row (numNis : ℕ) (maxPackets : ℤ) (e : TrafficEntry) {fuel injected : ℕ}
    {next : Option NetworkTraceRecord} {rest : List Char}
    (hline : (garnetRow e).toList.length < 99)
    (hlimit : ((injected + next.toList.length : ℕ) : ℤ) ≤ maxPackets) :
    wakeup numNis maxPackets (fuel + 1) next injected ((garnetRow e).toList ++ '\n' :: rest) =
      (wakeup numNis maxPackets fuel (some (remap numNis (rowPacket e)))
        (injected + next.toList.length) rest).map (next.toList ++ ·) := by
  have hread := fgets_line (toList_garnetRow e ▸ newline_notMem_spaced _) hline rest
  obtain ⟨token, tokens, htokens, hpacket⟩ := extractPacket_row e
  -- the file is not at its end: the row is not empty, or it ends here
  cases hchars : (garnetRow e).toList ++ '\n' :: rest with
  | nil => simp at hchars
  | cons c cs =>
    rw [hchars] at hread
    simp only [wakeup, hread, htokens, hpacket, if_pos (Or.inr hlimit)]

/-- **The reader injects one packet for each row**, when every row fits the buffer and the limit
on the number of packets is not reached. -/
theorem wakeup_rows (numNis : ℕ) (maxPackets : ℤ) {es : List TrafficEntry} {fuel injected : ℕ}
    {next : Option NetworkTraceRecord} (hes : ∀ e ∈ es, (garnetRow e).toList.length < 99)
    (hfuel : es.length < fuel)
    (hmax : (injected + next.toList.length + es.length : ℤ) ≤ maxPackets + 1) :
    wakeup numNis maxPackets fuel next injected (fileText (es.map garnetRow)) =
      some (next.toList ++ expected numNis es) := by
  induction es generalizing fuel injected next with
  | nil =>
    obtain ⟨fuel, rfl⟩ : ∃ m, fuel = m + 1 := ⟨fuel - 1, by simp at hfuel; omega⟩
    simp [fileText, wakeup, expected]
  | cons e es ih =>
    obtain ⟨fuel, rfl⟩ : ∃ m, fuel = m + 1 := ⟨fuel - 1, by simp at hfuel; omega⟩
    rw [List.length_cons] at hfuel hmax
    push_cast at hmax
    rw [fileText_cons, wakeup_row numNis maxPackets e (hes e List.mem_cons_self) (by
      push_cast
      omega), ih (fun e he => hes e (List.mem_cons_of_mem _ he)) (by omega) (by simp; omega)]
    rfl

theorem garnetRow_cycle (e : TrafficEntry) : rowCycle (garnetRow e) = 1 := by
  unfold rowCycle
  rw [toList_garnetRow]
  rfl

/-- All rows have the same cycle, so that sorting keeps their order. -/
theorem sortRows_garnetRow (es : List TrafficEntry) :
    sortRows (es.map garnetRow) = es.map garnetRow := by
  apply List.Pairwise.insertionSort_eq
  rw [List.pairwise_map]
  refine List.pairwise_iff_getElem.mpr fun i j hi hj hij => ?_
  rw [garnetRow_cycle, garnetRow_cycle]

/-- The flits of the entries of a matrix are its sum. -/
theorem sum_flits_matrixEntries (input : SimulatorInput) :
    ((matrixEntries input).map (·.flits)).sum = (input.1.map List.sum).sum := by
  have hrow : ∀ row : List ℕ × ℕ, ((row.1.zipIdx.filterMap fun cell =>
      if 0 < cell.1 then
        some (⟨row.2, cell.2, cell.1, input.2.1, input.2.2.1, input.2.2.2⟩ : TrafficEntry)
      else none).map (·.flits)).sum = row.1.sum := by
    intro row
    rw [sum_map_filterMap]
    calc (row.1.zipIdx.map _).sum = (row.1.zipIdx.map Prod.fst).sum := by
          congr 1
          refine List.map_congr_left fun cell _ => ?_
          split_ifs with hcell
          · rfl
          · exact (Nat.eq_zero_of_not_pos hcell).symm
      _ = row.1.sum := by rw [List.zipIdx_map_fst]
  unfold matrixEntries
  rw [List.map_flatMap, List.flatMap, List.sum_flatten, List.map_map]
  calc (input.1.zipIdx.map _).sum = (input.1.zipIdx.map (List.sum ∘ Prod.fst)).sum := by
        congr 1
        exact List.map_congr_left fun row _ => hrow row
    _ = (input.1.map List.sum).sum := by rw [← List.map_map, List.zipIdx_map_fst]

theorem sum_flits_trafficData (inputs : List SimulatorInput) :
    ((trafficData inputs).map (·.flits)).sum = totalPackets inputs := by
  unfold trafficData totalPackets
  rw [List.map_flatMap, List.flatMap, List.sum_flatten, List.map_map]
  congr 1
  exact List.map_congr_left fun input _ => sum_flits_matrixEntries input

theorem flits_pos (he : e ∈ trafficData inputs) :
    0 < e.flits := by
  obtain ⟨input, -, he⟩ := List.mem_flatMap.mp he
  obtain ⟨row, -, he⟩ := List.mem_flatMap.mp he
  obtain ⟨cell, -, he⟩ := List.mem_filterMap.mp he
  split_ifs at he with hcell
  cases he
  exact hcell

theorem length_trafficData_le (inputs : List SimulatorInput) :
    (trafficData inputs).length ≤ totalPackets inputs := by
  rw [← sum_flits_trafficData, ← List.length_map (·.flits)]
  refine List.length_le_sum_of_one_le _ fun f hf => ?_
  obtain ⟨e, he, rfl⟩ := List.mem_map.mp hf
  exact flits_pos he

theorem length_le_fileText (lines : List String) : lines.length ≤ (fileText lines).length := by
  unfold fileText
  induction lines with
  | nil => simp
  | cons line lines ih =>
    rw [List.flatMap_cons, List.length_append, List.length_append, List.length_cons,
      List.length_singleton]
    omega

/-- The file of a list of matrices with traffic, read from its second line on. -/
theorem readTrace_fileText (numNis : ℕ) (maxPackets : ℤ) (es : List TrafficEntry) :
    readTrace numNis maxPackets (fileText (header :: es.map garnetRow)) =
      wakeup numNis maxPackets ((fileText (es.map garnetRow)).length + 1) none 0
        (fileText (es.map garnetRow)) := by
  have hheader : ∀ rest, fgets 999 (header.toList ++ '\n' :: rest) =
      (header.toList ++ ['\n'], rest) := fgets_line (by decide) (by decide)
  have hfile : fileText (header :: es.map garnetRow) =
      header.toList ++ '\n' :: fileText (es.map garnetRow) := by
    simp [fileText]
  simp only [readTrace, hfile, hheader]

/-- **What is read back** from the file of a list of matrices whose rows fit the buffer. -/
theorem readBack_eq (h : ∀ e ∈ trafficData inputs, (garnetRow e).toList.length < 99) :
    readBack n inputs = some (expected (2 * n) (trafficData inputs)) := by
  unfold readBack prepareGarnetTrafficFiles
  by_cases hempty : (trafficData inputs).isEmpty
  · simp only [if_pos hempty]
    rw [List.isEmpty_iff.mp hempty]
    rfl
  · have hlength := length_le_fileText ((trafficData inputs).map garnetRow)
    have htotal := length_trafficData_le inputs
    rw [List.length_map] at hlength
    simp only [if_neg hempty, sortRows_garnetRow]
    rw [readTrace_fileText, wakeup_rows _ _ h (by omega) (by simp; omega)]
    rfl

/-! ## Every packet has fields of the reader's range -/

/-- The fields of a packet that an entry is compared with, within the range of `int`. -/
structure InRange (r : NetworkTraceRecord) : Prop where
  srcRouterId : r.srcRouterId < 2 ^ 31
  destId : r.destId < 2 ^ 31
  numFlits : r.numFlits < 2 ^ 31
  networkIdx : r.networkIdx < 2 ^ 31
  inputIdx : r.inputIdx < 2 ^ 31
  phaseId : r.phaseId < 2 ^ 31

theorem atoi_lt (token : List Char) : atoi token < 2 ^ 31 := by
  have := Int.bmod_lt (x := strtol token) (m := 2 ^ 32) (by norm_num)
  unfold atoi
  norm_num at this ⊢
  omega

theorem inRange_extractPacket {tokens : List (List Char)} {r : NetworkTraceRecord}
    (h : extractPacket tokens = some r) : InRange r := by
  have hid : ∀ token : Option (List Char), (token.map atoi).getD 0 < 2 ^ 31 := by
    rintro (_ | token)
    · norm_num
    · exact atoi_lt token
  unfold extractPacket at h
  split at h
  · cases h
    exact ⟨atoi_lt _, atoi_lt _, atoi_lt _, hid _, hid _, hid _⟩
  · cases h

theorem InRange.remap {r : NetworkTraceRecord} (h : InRange r) (numNis : ℕ) :
    InRange (remap numNis r) := by
  unfold Garnet.remap
  split_ifs
  · exact { h with srcRouterId := by norm_num }
  · exact { h with destId := by norm_num }
  · exact h

theorem inRange_wakeup (numNis : ℕ) (maxPackets : ℤ) {fuel injected : ℕ}
    {next : Option NetworkTraceRecord} {file : List Char} {records : List NetworkTraceRecord}
    (hnext : ∀ r ∈ next, InRange r)
    (h : wakeup numNis maxPackets fuel next injected file = some records) :
    ∀ r ∈ records, InRange r := by
  have hpackets : ∀ r ∈ next.toList, InRange r := fun r hr => hnext r (Option.mem_toList.mp hr)
  induction fuel generalizing next injected file records with
  | zero =>
    cases h
    exact fun r hr => absurd hr List.not_mem_nil
  | succ fuel ih =>
    unfold wakeup at h
    simp only at h
    split at h
    · cases h
      exact hpackets
    · split at h
      · cases h
        exact hpackets
      · split at h
        · cases h
        · next packet hpacket =>
          have hnext' : ∀ r ∈ some (Garnet.remap numNis packet), InRange r := fun r hr =>
            Option.mem_some_iff.mp hr ▸ (inRange_extractPacket hpacket).remap numNis
          split_ifs at h
          · obtain ⟨rest, hrest, rfl⟩ := Option.map_eq_some_iff.mp h
            intro r hr
            rcases List.mem_append.mp hr with hr | hr
            · exact hpackets r hr
            · exact ih hnext' hrest (fun r hr => hnext' r (Option.mem_toList.mp hr)) r hr
          · cases h
            exact hpackets

theorem inRange_readBack {records : List NetworkTraceRecord} (h : readBack n inputs = some records)
    :
    ∀ r ∈ records, InRange r := by
  unfold readBack at h
  split at h
  · cases h
    exact fun r hr => absurd hr List.not_mem_nil
  · exact inRange_wakeup _ _ (fun r hr => absurd hr (by simp)) h

/-! ## The round trip -/

/-- A record is the packet of an entry: it leaves the router of the row, and goes to an interface
that is attached to the router of the column. -/
structure Matches (n : ℕ) (e : TrafficEntry) (r : NetworkTraceRecord) : Prop where
  src : r.srcRouterId = e.src
  dest_nonneg : 0 ≤ r.destId
  dest_lt : r.destId < 2 * n
  dest : routerOf n r.destId = e.dst
  flits : r.numFlits = e.flits
  networkIdx : r.networkIdx = e.networkIdx
  inputIdx : r.inputIdx = e.inputIdx
  phaseId : r.phaseId = e.phaseId

/-- Reading the matrices back yields exactly one record for each positive entry. -/
def ReadsBack (n : ℕ) (inputs : List SimulatorInput) : Prop :=
  ∃ records, readBack n inputs = some records ∧
    List.Forall₂ (Matches n) (trafficData inputs) records

/-- The entries that arrive: on `100` chiplets the interface that is written belongs to the
column; up to `50` chiplets it does not exist, and everything is sent to the first chiplet. -/
structure Arrives (n : ℕ) (e : TrafficEntry) : Prop where
  dest : n = 100 ∨ e.dst = 0 ∧ n ≤ 50
  flits : e.flits < 2 ^ 31
  networkIdx : e.networkIdx < 2 ^ 31
  inputIdx : e.inputIdx < 2 ^ 31
  phaseId : e.phaseId < 2 ^ 31

theorem Matches.written {r : NetworkTraceRecord} (h : Matches n e r) (hr : InRange r) :
    Written e where
  src := by have := h.src; have := hr.srcRouterId; omega
  dst := by
    obtain ⟨ni, hni⟩ := Int.eq_ofNat_of_zero_le h.dest_nonneg
    have hrouter : (ni : ℤ) % n = e.dst := by rw [← hni]; exact h.dest
    have hle := Nat.mod_le ni n
    have hlt := hr.destId
    rw [hni] at hlt
    omega
  flits := by have := h.flits; have := hr.numFlits; omega
  networkIdx := by have := h.networkIdx; have := hr.networkIdx; omega
  inputIdx := by have := h.inputIdx; have := hr.inputIdx; omega
  phaseId := by have := h.phaseId; have := hr.phaseId; omega

/-- The interface the packets to a chiplet are sent to. -/
def destNi (n dst : ℕ) : ℤ :=
  if outOfRange (2 * n) (cInt (dst + 100)) then 0 else cInt (dst + 100)

/-- The source of a written entry is in range. -/
theorem srcId_inRange (h : Written e) (hsrc : e.src < n) :
    ¬ outOfRange (2 * n) (rowPacket e).srcId := by
  show ¬ (cInt e.src < 0 ∨ ((2 * n : ℕ) : ℤ) ≤ cInt e.src)
  rw [cInt_of_lt h.src]
  push_cast
  omega

/-- The packet of a row keeps the source, the size and the ids of the entry. -/
theorem rowPacket_of_written (h : Written e) (hsrc : e.src < n) :
    let r := remap (2 * n) (rowPacket e)
    r.srcRouterId = e.src ∧ r.destId = destNi n e.dst ∧ r.numFlits = e.flits ∧
      r.networkIdx = e.networkIdx ∧ r.inputIdx = e.inputIdx ∧ r.phaseId = e.phaseId := by
  have hdest : (rowPacket e).destId = cInt (e.dst + 100) := rfl
  unfold remap destNi
  rw [if_neg (srcId_inRange h hsrc), ← hdest]
  split_ifs <;>
    exact ⟨cInt_of_lt h.src, rfl, cInt_of_lt h.flits, cInt_of_lt h.networkIdx,
      cInt_of_lt h.inputIdx, cInt_of_lt h.phaseId⟩

/-- An interface number that does not fit `int` is negative, and out of range as well. -/
theorem destNi_eq (n : ℕ) {dst : ℕ} (hlt : dst < 2 ^ 31) :
    destNi n dst = if dst + 100 < 2 * n ∧ dst + 100 < 2 ^ 31 then (dst + 100 : ℤ) else 0 := by
  unfold destNi
  by_cases hsmall : dst + 100 < 2 ^ 31
  · rw [cInt_of_lt hsmall]
    have hout : outOfRange (2 * n) ((dst + 100 : ℕ) : ℤ) ↔ 2 * n ≤ dst + 100 := by
      unfold outOfRange
      omega
    simp only [hout]
    push_cast
    split_ifs <;> omega
  · have hwrap : cInt (dst + 100) = (dst + 100 : ℤ) - 2 ^ 32 := by
      unfold cInt
      rw [min_eq_right (by omega), max_eq_right (by omega), Int.bmod_def]
      push_cast
      omega
    have hout : outOfRange (2 * n) ((dst + 100 : ℤ) - 2 ^ 32) := Or.inl (by omega)
    rw [hwrap, if_pos hout, if_neg fun h => hsmall h.2]

/-- The interface is attached to the router of the chiplet only on `100` chiplets, or when it is
replaced by the first one. -/
theorem routerOf_destNi_iff {n dst : ℕ} (hdst : dst < n) (hlt : dst < 2 ^ 31) :
    (0 ≤ destNi n dst ∧ destNi n dst < 2 * n ∧ routerOf n (destNi n dst) = dst) ↔
      n = 100 ∨ dst = 0 ∧ n ≤ 50 := by
  rw [destNi_eq n hlt]
  split_ifs with h
  · have hmod : (dst + 100) % n = if dst + 100 < n then dst + 100 else dst + 100 - n := by
      split_ifs with hwrap
      · exact Nat.mod_eq_of_lt hwrap
      · rw [Nat.mod_eq_sub_mod (by omega), Nat.mod_eq_of_lt (by omega)]
    have hrouter : routerOf n (dst + 100 : ℤ) = ((dst + 100) % n : ℕ) := by
      unfold routerOf
      push_cast
      rfl
    rw [hrouter, hmod]
    split_ifs <;> omega
  · have hrouter : routerOf n 0 = 0 := Int.zero_emod _
    rw [hrouter]
    omega

theorem matches_iff (h : Written e) (hsrc : e.src < n) (hdst : e.dst < n) :
    Matches n e (remap (2 * n) (rowPacket e)) ↔ Arrives n e := by
  obtain ⟨hs, hd, hf, hn, hi, hp⟩ := rowPacket_of_written h hsrc
  have hiff := routerOf_destNi_iff hdst h.dst
  rw [← hd] at hiff
  constructor
  · intro hm
    exact ⟨hiff.mp ⟨hm.dest_nonneg, hm.dest_lt, hm.dest⟩, h.flits, h.networkIdx, h.inputIdx,
      h.phaseId⟩
  · intro ha
    obtain ⟨hnonneg, hlt, hrouter⟩ := hiff.mpr ha.dest
    exact ⟨hs, hnonneg, hlt, hrouter, hf, hn, hi, hp⟩

theorem bounds_of_square (h : Square n inputs) (he : e ∈ trafficData inputs) :
    e.src < n ∧ e.dst < n := by
  obtain ⟨input, hinput, he⟩ := List.mem_flatMap.mp he
  obtain ⟨⟨row, i⟩, hrow, he⟩ := List.mem_flatMap.mp he
  obtain ⟨⟨v, j⟩, hcell, he⟩ := List.mem_filterMap.mp he
  have hi := List.snd_lt_of_mem_zipIdx hrow
  have hj := List.snd_lt_of_mem_zipIdx hcell
  have hlength := (h input hinput).2 row (List.fst_mem_of_mem_zipIdx hrow)
  rw [(h input hinput).1] at hi
  split_ifs at he
  cases he
  simp only at hi hj hlength ⊢
  omega

/-- **When the trace is read back as it was written.** -/
theorem readsBack_iff (n : ℕ) (inputs : List SimulatorInput) (hsquare : Square n inputs) :
    ReadsBack n inputs ↔ ∀ e ∈ trafficData inputs, Arrives n e := by
  have hexpected : ∀ es : List TrafficEntry, List.Forall₂ (Matches n) es (expected (2 * n) es) ↔
      ∀ e ∈ es, Matches n e (remap (2 * n) (rowPacket e)) := fun es => by
    unfold expected
    rw [List.forall₂_map_right_iff, List.forall₂_same]
  constructor
  · rintro ⟨records, hread, hmatch⟩ e he
    have hwritten : ∀ e ∈ trafficData inputs, Written e := by
      intro e he
      obtain ⟨i, hi, rfl⟩ := List.getElem_of_mem he
      have hi' : i < records.length := hmatch.length_eq ▸ hi
      exact (hmatch.get hi hi').written (inRange_readBack hread _ (List.getElem_mem hi'))
    rw [readBack_eq fun e he => (hwritten e he).length_lt] at hread
    cases hread
    have hbounds := bounds_of_square hsquare he
    exact (matches_iff (hwritten e he) hbounds.1 hbounds.2).mp ((hexpected _).mp hmatch e he)
  · intro h
    have hwritten : ∀ e ∈ trafficData inputs, Written e := by
      intro e he
      have ha := h e he
      have hbounds := bounds_of_square hsquare he
      have := ha.dest
      exact ⟨by omega, by omega, ha.flits, ha.networkIdx, ha.inputIdx, ha.phaseId⟩
    refine ⟨_, readBack_eq fun e he => (hwritten e he).length_lt, (hexpected _).mpr fun e he => ?_⟩
    have hbounds := bounds_of_square hsquare he
    exact (matches_iff (hwritten e he) hbounds.1 hbounds.2).mpr (h e he)

/-- Three flits from the second chiplet of four to the first one. -/
def toFirst : List SimulatorInput :=
  [([[0, 0, 0, 0], [3, 0, 0, 0], [0, 0, 0, 0], [0, 0, 0, 0]], 1, 2, 3)]

theorem readsBack_toFirst : acceptedByAnyNet 4 = true ∧ ReadsBack 4 toFirst := by
  have hdata : trafficData toFirst = [⟨1, 0, 3, 1, 2, 3⟩] := by decide
  refine ⟨by decide +kernel, (readsBack_iff 4 toFirst ?_).mpr ?_⟩
  · unfold Square
    decide
  · rw [hdata]
    intro e he
    rw [List.mem_singleton.mp he]
    exact ⟨Or.inr ⟨rfl, by norm_num⟩, by norm_num, by norm_num, by norm_num, by norm_num⟩

/-- Three flits from the first chiplet of four to the second one. -/
def toSecond : List SimulatorInput :=
  [([[0, 3, 0, 0], [0, 0, 0, 0], [0, 0, 0, 0], [0, 0, 0, 0]], 0, 0, 0)]

/-- **The packet to the second chiplet is sent to the first one.** -/
theorem toSecond_not_read_back : acceptedByAnyNet 4 = true ∧
    (readBack 4 toSecond).map (·.map fun r => routerOf 4 r.destId) = some [0] ∧
    (trafficData toSecond).map (·.dst) = [1] ∧ ¬ ReadsBack 4 toSecond := by
  have hrouters : (readBack 4 toSecond).map (·.map fun r => routerOf 4 r.destId) = some [0] := by
    decide +kernel
  have hdata : trafficData toSecond = [⟨0, 1, 3, 0, 0, 0⟩] := by decide
  refine ⟨by decide +kernel, hrouters, by rw [hdata]; rfl, ?_⟩
  rintro ⟨records, hread, hmatch⟩
  rw [hdata] at hmatch
  obtain ⟨r, rest, hr, hrest, rfl⟩ := List.forall₂_cons_left_iff.mp hmatch
  rw [hread, Option.map_some, List.map_cons, hr.dest] at hrouters
  simp at hrouters

end Garnet

end ChipSim
