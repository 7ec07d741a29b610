import ChipSim.Garnet.Stats
import ChipSim.Garnet.TraceRoundTrip

/-!
# The line of a phase

A statistic of a phase is printed with its name, its value and its unit in columns. The reader
finds the ids of the phase in the name and the latency in the second column, whatever the widths
of the columns.
-/

namespace ChipSim

open Lib

namespace Garnet

/-! ## The text -/

/-- The name of the network that the names of its statistics begin with. -/
def networkName : List Char := "system.ruby.network.".toList

/-- The name of a statistic within the network, and what follows. -/
def phaseText (id : ℕ × ℕ × ℕ) (rest : List Char) : List Char :=
  "phase_latency_".toList ++
    (digits id.1 ++ '_' :: (digits id.2.1 ++ '_' :: (digits id.2.2 ++ rest)))

/-- What follows the name: the value after some blanks, then the unit. -/
def columns (blanks value : ℕ) : List Char :=
  ' ' :: (List.replicate blanks ' ' ++
    (digits value ++ ' ' :: (List.replicate 22 ' ' ++ "(Unspecified)".toList)))

/-- A line that gives the statistic of a phase a value. -/
def IsPhaseLine (id : ℕ × ℕ × ℕ) (value : ℕ) (line : String) : Prop :=
  ∃ blanks, line.toList = networkName ++ phaseText id (columns blanks value)

theorem phaseLatency_eq : "system.ruby.network.phase_latency_".toList =
    networkName ++ "phase_latency_".toList := by decide

theorem statName_eq (id : ℕ × ℕ × ℕ) (rest : List Char) :
    statName id ++ rest = networkName ++ phaseText id rest := by
  unfold statName phaseText digits
  rw [phaseLatency_eq]
  simp only [List.append_assoc, List.cons_append]

theorem replicate_append_cons {α : Type*} (n : ℕ) (a : α) (l : List α) :
    List.replicate n a ++ a :: l = a :: (List.replicate n a ++ l) := by
  rw [List.append_cons, ← List.replicate_succ', List.replicate_succ, List.cons_append]

/-- What is printed for a phase. -/
theorem scalarPrint_eq_some {id : ℕ × ℕ × ℕ} {value : ℕ} {line : String}
    (h : scalarPrint (statName id) value = some line) : value ≠ 0 ∧ IsPhaseLine id value line := by
  unfold scalarPrint at h
  split at h
  · cases h
  · next hvalue =>
    cases h
    refine ⟨hvalue, (40 - (statName id).length) + (12 - (digits value).length), ?_⟩
    rw [String.toList_ofList, List.rightpad, List.append_assoc, statName_eq, List.leftpad]
    unfold columns
    have hunit : List.replicate 22 ' ' ++ " (Unspecified)".toList =
        ' ' :: (List.replicate 22 ' ' ++ "(Unspecified)".toList) := by decide
    rw [hunit, List.append_assoc, replicate_append_cons, ← List.replicate_append_replicate,
      List.append_assoc]
    rfl

theorem scalarPrint_isSome (name : List Char) {value : ℕ} (h : value ≠ 0) :
    ∃ line, scalarPrint name value = some line := ⟨_, if_neg h⟩

/-! ## Reading a line -/

theorem digitRun_digits (v : ℕ) {rest : List Char} (h : ∀ c ∈ rest.head?, c.isDigit = false) :
    digitRun (digits v ++ rest) = some (v, rest) := by
  have hrest : rest.takeWhile Char.isDigit = [] ∧ rest.dropWhile Char.isDigit = rest := by
    cases rest with
    | nil => exact ⟨rfl, rfl⟩
    | cons c rest =>
      have hc : ¬ c.isDigit = true := by rw [h c rfl]; decide
      exact ⟨List.takeWhile_cons_of_neg hc, List.dropWhile_cons_of_neg hc⟩
  have hdigits : ∀ c ∈ digits v, c.isDigit = true := fun c hc => isDigit_digits hc
  have hne : digits v ≠ [] := Nat.toDigits_ne_nil
  unfold digitRun
  dsimp only
  rw [List.takeWhile_append_of_pos hdigits, List.dropWhile_append_of_pos hdigits, hrest.1, hrest.2,
    List.append_nil, if_neg (by simpa using hne)]
  exact congrArg (fun n => some (n, rest)) (Nat.ofDigitChars_toDigits (by norm_num) (by norm_num))

theorem after_append (start rest : List Char) : after start (start ++ rest) = some rest := by
  unfold after
  rw [if_pos (List.isPrefixOf_iff_prefix.mpr (List.prefix_append _ _)), List.drop_left]

theorem after_singleton (c : Char) (rest : List Char) : after [c] (c :: rest) = some rest :=
  after_append [c] rest

theorem matchPhase_phaseText (id : ℕ × ℕ × ℕ) {rest : List Char}
    (h : ∀ c ∈ rest.head?, c.isDigit = false) : matchPhase (phaseText id rest) = some id := by
  have hbar : ∀ l : List Char, ∀ c ∈ ('_' :: l).head?, c.isDigit = false := by
    intro l c hc
    cases hc
    decide
  unfold matchPhase phaseText
  rw [after_append, Option.bind_eq_bind, Option.bind_some, digitRun_digits _ (hbar _)]
  simp only [Option.bind_eq_bind, Option.bind_some, after_singleton, digitRun_digits _ (hbar _),
    digitRun_digits _ h]
  rfl

theorem searchPhase_of_matchPhase {s : List Char} {id : ℕ × ℕ × ℕ} (h : matchPhase s = some id) :
    searchPhase s = some id := by
  cases s with
  | nil => cases h
  | cons c s => rw [searchPhase, h]

/-- A phase begins with a `p`. -/
theorem searchPhase_append {s : List Char} (hs : 'p' ∉ s) (rest : List Char) :
    searchPhase (s ++ rest) = searchPhase rest := by
  induction s with
  | nil => rfl
  | cons c s ih =>
    rw [List.mem_cons, not_or] at hs
    have hafter : after "phase_latency_".toList (c :: (s ++ rest)) = none := by
      refine if_neg fun hprefix => hs.1 ?_
      have := List.isPrefixOf_iff_prefix.mp hprefix
      exact (List.cons_prefix_cons.mp this).1
    have hnone : matchPhase (c :: (s ++ rest)) = none := by
      unfold matchPhase
      rw [hafter]
      rfl
    rw [List.cons_append, searchPhase, hnone]
    exact ih hs.2

theorem searchPhase_line (id : ℕ × ℕ × ℕ) (blanks value : ℕ) :
    searchPhase (networkName ++ phaseText id (columns blanks value)) = some id := by
  rw [searchPhase_append (by decide)]
  refine searchPhase_of_matchPhase (matchPhase_phaseText id fun c hc => ?_)
  cases hc
  decide

/-- The characters of ASCII that can be seen. -/
def isVisible (c : Char) : Bool := 33 ≤ c.toNat && c.toNat < 127

/-- Visible characters are no white space. -/
theorem isSpace_of_isVisible {c : Char} (h : isVisible c = true) : isSpace c = false := by
  simp only [isVisible, Bool.and_eq_true, decide_eq_true_eq] at h
  unfold isSpace
  simp only [Bool.or_eq_false_iff, Bool.and_eq_false_iff, decide_eq_false_iff_not,
    beq_eq_false_iff_ne]
  omega

theorem isSpace_digits {v : ℕ} {c : Char} (h : c ∈ digits v) : isSpace c = false :=
  isSpace_of_isDigit (isDigit_digits h)

theorem isSpace_phaseText {id : ℕ × ℕ × ℕ} {c : Char} (h : c ∈ networkName ++ phaseText id []) :
    isSpace c = false := by
  unfold phaseText at h
  simp only [List.mem_append, List.mem_cons, List.not_mem_nil, or_false] at h
  have hname : networkName.all isVisible = true := by decide +kernel
  have hphase : "phase_latency_".toList.all isVisible = true := by decide +kernel
  rcases h with h | h | h | rfl | h | rfl | h
  · exact isSpace_of_isVisible (List.all_eq_true.mp hname c h)
  · exact isSpace_of_isVisible (List.all_eq_true.mp hphase c h)
  · exact isSpace_digits h
  · decide
  · exact isSpace_digits h
  · decide
  · exact isSpace_digits h

theorem phaseText_append (id : ℕ × ℕ × ℕ) (rest : List Char) :
    phaseText id rest = phaseText id [] ++ rest := by
  unfold phaseText
  simp only [List.append_assoc, List.cons_append, List.nil_append]

/-- The reader splits the value from the name. -/
theorem split_line (id : ℕ × ℕ × ℕ) (blanks value : ℕ) :
    words isSpace (networkName ++ phaseText id (columns blanks value)) =
      [networkName ++ phaseText id [], digits value, "(Unspecified)".toList] := by
  have hblank : isSpace ' ' = true := by decide
  rw [phaseText_append, ← List.append_assoc]
  unfold columns
  have hunit : "(Unspecified)".toList.all isVisible = true := by decide +kernel
  have hne : networkName ++ phaseText id [] ≠ [] :=
    List.append_ne_nil_of_left_ne_nil (by decide) _
  rw [words_append_cons (fun c hc => isSpace_phaseText hc) hne hblank,
    words_replicate_append hblank,
    words_append_cons (fun c hc => isSpace_digits hc) Nat.toDigits_ne_nil hblank,
    words_replicate_append hblank,
    words_eq_singleton
      (fun c hc => isSpace_of_isVisible (List.all_eq_true.mp hunit c hc)) (by decide)]

theorem float_digits (v : ℕ) : float (digits v) = .ok (some (v : ℚ)) := by
  obtain ⟨c, l, hl, hc⟩ := digits_cons v
  have hnan : digits v ∉ ["nan", "-nan", "inf", "-inf"].map String.toList := by
    intro hmem
    rw [hl] at hmem
    simp at hmem
    rcases hmem with h | h | h | h <;> (rw [h.1] at hc; exact absurd hc (by decide))
  have htake : (digits v).takeWhile Char.isDigit = digits v :=
    List.takeWhile_eq_self_iff.mpr fun c hc => isDigit_digits hc
  have hdrop : (digits v).dropWhile Char.isDigit = [] :=
    List.dropWhile_eq_nil_iff.mpr fun c hc => isDigit_digits hc
  have hminus : c ≠ '-' := (not_special_of_isDigit hc).2.2.1
  have hvalue : Nat.ofDigitChars 10 (c :: l) 0 = v := by
    rw [← hl]
    exact Nat.ofDigitChars_toDigits (by norm_num) (by norm_num)
  rw [hl] at hnan htake hdrop ⊢
  unfold float
  dsimp only
  rw [if_neg hnan]
  simp [hminus, htake, hdrop, hvalue]

/-- A text after the name of the network is in a line only where that name is. -/
theorem prefix_of_networkName {t r : List Char} (hr : '.' ∉ r)
    (h : networkName ++ t <:+: networkName ++ r) : t <+: r := by
  have hname : networkName = ['s', 'y', 's', 't', 'e', 'm', '.', 'r', 'u', 'b', 'y', '.', 'n', 'e',
    't', 'w', 'o', 'r', 'k', '.'] := by decide
  rw [hname] at h
  simp [List.infix_cons_iff, List.cons_prefix_cons] at h
  rcases h with h | h
  · exact h
  · exact absurd (h.subset (by simp)) hr

theorem dot_notMem_line (id : ℕ × ℕ × ℕ) (blanks value : ℕ) :
    '.' ∉ phaseText id (columns blanks value) := by
  have hdigits : ∀ v, '.' ∉ digits v := fun v h => absurd (isDigit_digits h) (by decide)
  unfold phaseText columns
  simp only [List.mem_append, List.mem_cons, List.mem_replicate, not_or]
  exact ⟨by decide, hdigits _, by decide, hdigits _, by decide, hdigits _, by decide,
    fun h => absurd h.2 (by decide), hdigits _, by decide, fun h => absurd h.2 (by decide),
    by decide⟩

/-- The names of the averages, within the network. -/
def averageNames : List (List Char) :=
  ["average_packet_latency", "average_packet_queueing_latency", "average_packet_network_latency",
    "packets_injected::total", "packets_received::total", "average_hops"].map String.toList

theorem averageStats_names :
    averageStats.map (fun average => average.1.toList) = averageNames.map (networkName ++ ·) := by
  decide +kernel

/-- The name of a phase begins as none of them does. -/
theorem not_prefix_phaseText {t : List Char} (ht : t ∈ averageNames) (id : ℕ × ℕ × ℕ)
    (rest : List Char) : ¬ t <+: phaseText id rest := by
  have hstart : averageNames.all (fun t => 2 ≤ t.length && t.take 2 != ['p', 'h']) = true := by
    decide +kernel
  have hphase : (phaseText id rest).take 2 = ['p', 'h'] := by
    unfold phaseText
    rw [List.take_append_of_le_length (by decide)]
    decide
  have hne := List.all_eq_true.mp hstart t ht
  simp only [Bool.and_eq_true, decide_eq_true_eq, bne_iff_ne] at hne
  rintro ⟨u, hu⟩
  rw [← hu, List.take_append_of_le_length hne.1] at hphase
  exact hne.2 hphase

section Line

variable {id : ℕ × ℕ × ℕ} {value : ℕ} {line : String}

/-- The names of the averages are not in the line of a phase. -/
theorem IsPhaseLine.find_average (h : IsPhaseLine id value line) :
    averageStats.find? (fun average => contains line average.1) = none := by
  obtain ⟨blanks, h⟩ := h
  refine List.find?_eq_none.mpr fun average haverage hcontains => ?_
  have hmem : average.1.toList ∈ averageNames.map (networkName ++ ·) := by
    rw [← averageStats_names]
    exact List.mem_map_of_mem haverage
  obtain ⟨t, ht, hname⟩ := List.mem_map.mp hmem
  have hinfix : average.1.toList <:+: line.toList := of_decide_eq_true hcontains
  rw [h, ← hname] at hinfix
  exact not_prefix_phaseText ht id _
    (prefix_of_networkName (dot_notMem_line id blanks value) hinfix)

theorem IsPhaseLine.strip (h : IsPhaseLine id value line) : strip line = line := by
  obtain ⟨blanks, h⟩ := h
  refine strip_eq_self (fun c hc => ?_) fun c hc => ?_
  · rw [h] at hc
    cases hc
    decide
  · have hlast : line.toList.getLast? = some ')' := by
      have hunit : "(Unspecified)".toList = "(Unspecified".toList ++ [')'] := by decide
      rw [h]
      unfold phaseText columns
      rw [hunit]
      simp only [← List.append_assoc, ← List.cons_append]
      exact List.getLast?_concat
    rw [hlast] at hc
    cases hc
    decide

/-- A line of a phase sets its latency. -/
theorem IsPhaseLine.extractLine (h : IsPhaseLine id value line) (s : GarnetStats) :
    extractLine s line =
      .ok { s with allPhaseLatencies := s.allPhaseLatencies.set id (value : ℚ) } := by
  have hstrip := h.strip
  have hfind := h.find_average
  obtain ⟨blanks, h⟩ := h
  have hticks : startsWith line "simTicks" = false := by
    unfold startsWith
    rw [h]
    rfl
  have hcontains : contains line "system.ruby.network.phase_latency_" = true := by
    refine decide_eq_true (List.IsPrefix.isInfix ?_)
    rw [h, phaseLatency_eq]
    exact (List.prefix_append_right_inj _).mpr (List.prefix_append _ _)
  have hvalue : ticksValue line = .ok (value : ℚ) := by
    unfold ticksValue statValue ChipSim.split
    rw [h, split_line]
    show (float (digits value) >>= _) = _
    rw [float_digits]
    rfl
  unfold Garnet.extractLine
  dsimp only
  rw [hstrip, if_neg (by rw [hticks]; decide), hfind]
  dsimp only
  rw [if_pos hcontains, h, searchPhase_line]
  dsimp only
  rw [hvalue]
  rfl

end Line

end Garnet

end ChipSim
