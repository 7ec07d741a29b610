import ChipSim.Garnet.TraceRoundTrip

/-!
# The end of a traced simulation

The calls of `wakeup` inject the rows of the trace, and the flits of the injected packets arrive in
any order in between and afterwards. The simulation ends with the arrival of the last flit. A row
that does not fit the buffer of the reader is read as two, and the second one has too few tokens.
-/

namespace ChipSim

open Lib

namespace Garnet

/-! ## Injections and deliveries -/

/-- The state of the trace: the members of `GarnetNetwork`, whether another call of `wakeup` is due,
the packets at the interfaces, the number of flits they have delivered, and whether the simulation
loop has been left. -/
structure TraceState where
  tracefile : List Char
  nextPacket : Option NetworkTraceRecord := none
  numPacketsInjected : ℕ := 0
  numFlitsInjected : ℤ := 0
  numFlitsReceived : ℤ := 0
  endSimulation : Bool := false
  wakeupDue : Bool := true
  enqueued : List NetworkTraceRecord := []
  delivered : ℕ := 0
  exited : Bool := false

namespace TraceState

/-- The packet that was read before is given to its interface. -/
def inject (s : TraceState) : TraceState :=
  { s with
    numPacketsInjected := s.numPacketsInjected + s.nextPacket.toList.length
    numFlitsInjected := s.numFlitsInjected + (s.nextPacket.toList.map (·.numFlits)).sum
    enqueued := s.enqueued ++ s.nextPacket.toList }

/-- One call of `wakeup`; `none` is a null pointer. -/
def wakeupCall (numNis : ℕ) (maxPackets : ℤ) (s : TraceState) : Option TraceState :=
  let injected := s.inject
  match s.tracefile with
  | [] => some { injected with endSimulation := true, wakeupDue := false }
  | c :: cs =>
    let r := fgets 99 (c :: cs)
    match strtok r.1 with
    | [] => some { injected with tracefile := r.2, wakeupDue := false }
    | token :: tokens =>
      match extractPacket (token :: tokens) with
      | none => none
      | some packet => some { injected with
          tracefile := r.2
          nextPacket := some (remap numNis packet)
          wakeupDue := decide (maxPackets < 0 ∨ (injected.numPacketsInjected : ℤ) ≤ maxPackets) }

/-- `increment_trace_flits_received`. -/
def incrementTraceFlitsReceived (maxPackets : ℤ) (s : TraceState) : TraceState :=
  let received := s.numFlitsReceived + 1
  { s with
    numFlitsReceived := received
    exited := (s.endSimulation && decide (received = s.numFlitsInjected)) ||
      decide (0 ≤ maxPackets ∧ maxPackets < s.numPacketsInjected ∧
        received = s.numFlitsInjected) }

/-- The number of flits at the interfaces and in the network, from the start. -/
def numFlits (s : TraceState) : ℕ := (s.enqueued.map (·.numFlits.toNat)).sum

/-- A call of `wakeup`, or the arrival of a flit that has been injected. -/
inductive Step (numNis : ℕ) (maxPackets : ℤ) (s : TraceState) : TraceState → Prop
  | wakeup {s' : TraceState} (hexited : s.exited = false) (hdue : s.wakeupDue = true)
      (h : s.wakeupCall numNis maxPackets = some s') : Step numNis maxPackets s s'
  | deliver (hexited : s.exited = false) (hflit : s.delivered < s.numFlits) :
      Step numNis maxPackets s
        { s.incrementTraceFlitsReceived maxPackets with delivered := s.delivered + 1 }

/-- The state after the first line of the file has been skipped. -/
def start (file : List Char) : TraceState := { tracefile := (fgets 999 file).2 }

/-- Some calls and arrivals. -/
def Run (numNis : ℕ) (maxPackets : ℤ) : TraceState → TraceState → Prop :=
  Relation.ReflTransGen (Step numNis maxPackets)

end TraceState

open TraceState

variable {numNis : ℕ} {maxPackets : ℤ} {s s' : TraceState}

/-- The calls follow each other as in the reader of the whole file. -/
theorem wakeup_succ (fuel : ℕ) (s : TraceState) :
    wakeup numNis maxPackets (fuel + 1) s.nextPacket s.numPacketsInjected s.tracefile =
      (s.wakeupCall numNis maxPackets).bind fun s' =>
        if s'.wakeupDue then
          (wakeup numNis maxPackets fuel s'.nextPacket s'.numPacketsInjected s'.tracefile).map
            (s.nextPacket.toList ++ ·)
        else some s.nextPacket.toList := by
  conv_lhs => unfold wakeup
  unfold wakeupCall
  dsimp only
  cases s.tracefile with
  | nil => rfl
  | cons c cs =>
    dsimp only
    cases strtok (fgets 99 (c :: cs)).1 with
    | nil => rfl
    | cons token tokens =>
      dsimp only
      cases extractPacket (token :: tokens) with
      | none => rfl
      | some packet =>
        simp only [Option.bind_some, decide_eq_true_eq]
        rfl

theorem length_fgets_le (n : ℕ) (file : List Char) : (fgets n file).2.length ≤ file.length := by
  induction n generalizing file with
  | zero => exact le_rfl
  | succ n ih =>
    cases file with
    | nil => exact le_rfl
    | cons c file =>
      unfold fgets
      split
      · exact Nat.le_succ _
      · exact (ih file).trans (Nat.le_succ _)

/-- What a call does: the packet read before is enqueued, and another call is due only after a row
has been read. -/
theorem wakeupCall_spec (h : s.wakeupCall numNis maxPackets = some s') :
    s'.enqueued = s.enqueued ++ s.nextPacket.toList ∧ s'.exited = s.exited ∧
      (s'.wakeupDue = true → s'.tracefile.length < s.tracefile.length) := by
  unfold wakeupCall at h
  dsimp only at h
  split at h
  · cases h
    exact ⟨rfl, rfl, by rintro ⟨⟩⟩
  · next c cs hfile =>
    have hlength : (fgets 99 (c :: cs)).2.length < s.tracefile.length := by
      rw [hfile, fgets]
      split
      · exact Nat.lt_succ_self _
      · exact Nat.lt_succ_of_le (length_fgets_le 98 cs)
    split at h
    · cases h
      exact ⟨rfl, rfl, fun _ => hlength⟩
    · split at h
      · cases h
      · cases h
        exact ⟨rfl, rfl, fun _ => hlength⟩

/-- The calls inject what the reader of the whole file injects. -/
theorem exists_run_of_wakeup {fuel : ℕ} {records : List NetworkTraceRecord}
    (hfile : s.tracefile.length < fuel) (hexited : s.exited = false) (hdue : s.wakeupDue = true)
    (h : wakeup numNis maxPackets fuel s.nextPacket s.numPacketsInjected s.tracefile =
      some records) :
    ∃ s', Run numNis maxPackets s s' ∧ s'.wakeupDue = false ∧
      s'.enqueued = s.enqueued ++ records := by
  induction fuel generalizing s records with
  | zero => cases hfile
  | succ fuel ih =>
    rw [wakeup_succ] at h
    obtain ⟨t, ht, h⟩ := Option.bind_eq_some_iff.mp h
    obtain ⟨henqueued, hexit, hshorter⟩ := wakeupCall_spec ht
    split_ifs at h with htdue
    · obtain ⟨rest, hrest, rfl⟩ := Option.map_eq_some_iff.mp h
      obtain ⟨s', hrun, hnot, hs'⟩ := ih (by have := hshorter htdue; omega)
        (hexit.trans hexited) htdue hrest
      refine ⟨s', .head (.wakeup hexited hdue ht) hrun, hnot, ?_⟩
      rw [hs', henqueued, List.append_assoc]
    · cases h
      exact ⟨t, .single (.wakeup hexited hdue ht), Bool.eq_false_iff.mpr htdue, henqueued⟩

/-! ## The invariant of a run -/

theorem numFlits_remap (r : NetworkTraceRecord) : (remap numNis r).numFlits = r.numFlits := by
  unfold remap
  split_ifs <;> rfl

/-- The rows of the trace in a state: those that have been read and those still in the file. -/
structure Tracing (numNis : ℕ) (es : List TrafficEntry) (s : TraceState) : Prop where
  file : ∃ read rest, es = read ++ rest ∧ s.tracefile = fileText (rest.map garnetRow) ∧
    (s.wakeupDue = true → s.enqueued ++ s.nextPacket.toList = expected numNis read ∧
      s.endSimulation = false) ∧
    (s.wakeupDue = false → rest = [] ∧ s.enqueued = expected numNis read)
  packets : s.numPacketsInjected = s.enqueued.length
  flits : s.numFlitsInjected = (s.enqueued.map (·.numFlits)).sum
  received : s.numFlitsReceived = s.delivered

theorem wakeupCall_nil (h : s.tracefile = []) :
    s.wakeupCall numNis maxPackets =
      some { s.inject with endSimulation := true, wakeupDue := false } := by
  unfold wakeupCall
  rw [h]

theorem wakeupCall_row {e : TrafficEntry} {rest : List Char}
    (hfile : s.tracefile = (garnetRow e).toList ++ '\n' :: rest)
    (hline : (garnetRow e).toList.length < 99) :
    s.wakeupCall numNis maxPackets = some { s.inject with
      tracefile := rest
      nextPacket := some (remap numNis (rowPacket e))
      wakeupDue := decide (maxPackets < 0 ∨ (s.inject.numPacketsInjected : ℤ) ≤ maxPackets) } := by
  have hread := fgets_line (toList_garnetRow e ▸ newline_notMem_spaced _) hline rest
  obtain ⟨token, tokens, htokens, hpacket⟩ := extractPacket_row e
  unfold wakeupCall
  rw [hfile]
  cases hchars : (garnetRow e).toList ++ '\n' :: rest with
  | nil => simp at hchars
  | cons c cs =>
    rw [hchars] at hread
    simp only [hread, htokens, hpacket]

theorem tracing_start (es : List TrafficEntry) :
    Tracing numNis es (start (fileText (header :: es.map garnetRow))) := by
  have hheader : ∀ rest, fgets 999 (header.toList ++ '\n' :: rest) =
      (header.toList ++ ['\n'], rest) := fgets_line (by decide) (by decide)
  have hfile : (start (fileText (header :: es.map garnetRow))).tracefile =
      fileText (es.map garnetRow) := by
    have htext : fileText (header :: es.map garnetRow) =
        header.toList ++ '\n' :: fileText (es.map garnetRow) := by
      simp [fileText]
    show (fgets 999 (fileText (header :: es.map garnetRow))).2 = _
    rw [htext, hheader]
  exact ⟨⟨[], es, rfl, hfile, fun _ => ⟨rfl, rfl⟩, by rintro ⟨⟩⟩, rfl, rfl, rfl⟩

variable {es : List TrafficEntry}

/-- The packets enqueued are those of the first rows. -/
theorem Tracing.length_le (h : Tracing numNis es s) :
    s.enqueued.length ≤ es.length ∧
      (s.enqueued.length = es.length → s.enqueued = expected numNis es) := by
  obtain ⟨read, rest, rfl, -, hdue, hdone⟩ := h.file
  have hexpected : (expected numNis read).length = read.length := List.length_map _
  cases hs : s.wakeupDue with
  | true =>
    have heq := (hdue hs).1
    have hlength := congrArg List.length heq
    rw [List.length_append, hexpected] at hlength
    rw [List.length_append]
    refine ⟨by omega, fun hall => ?_⟩
    -- then no row is left, in the file or as the next packet
    obtain rfl : rest = [] := List.eq_nil_of_length_eq_zero (by omega)
    have hnext : s.nextPacket.toList = [] := List.eq_nil_of_length_eq_zero (by omega)
    rw [hnext, List.append_nil] at heq
    rw [heq, List.append_nil]
  | false =>
    obtain ⟨rfl, heq⟩ := hdone hs
    rw [List.append_nil, heq, hexpected]
    exact ⟨le_rfl, fun _ => rfl⟩

theorem Tracing.wakeup (h : Tracing numNis es s)
    (hes : ∀ e ∈ es, (garnetRow e).toList.length < 99) (hmax : (es.length : ℤ) ≤ maxPackets + 1)
    (hdue : s.wakeupDue = true) (hcall : s.wakeupCall numNis maxPackets = some s') :
    Tracing numNis es s' := by
  obtain ⟨read, rest, rfl, hfile, hread, -⟩ := h.file
  obtain ⟨heq, hend⟩ := hread hdue
  have hpackets : s.inject.numPacketsInjected = (s.enqueued ++ s.nextPacket.toList).length := by
    rw [List.length_append, ← h.packets]
    rfl
  have hflits : s.inject.numFlitsInjected =
      ((s.enqueued ++ s.nextPacket.toList).map (·.numFlits)).sum := by
    rw [List.map_append, List.sum_append, ← h.flits]
    rfl
  cases rest with
  | nil =>
    rw [wakeupCall_nil (by rw [hfile]; rfl)] at hcall
    cases hcall
    exact ⟨⟨read, [], rfl, hfile, by rintro ⟨⟩, fun _ => ⟨rfl, heq⟩⟩, hpackets, hflits, h.received⟩
  | cons e rest =>
    rw [List.map_cons, ← List.map_cons, fileText_cons] at hfile
    rw [wakeupCall_row hfile (hes e (by simp))] at hcall
    cases hcall
    have hlimit : (s.inject.numPacketsInjected : ℤ) ≤ maxPackets := by
      have hlength : (expected numNis read).length = read.length := List.length_map _
      rw [hpackets, heq, hlength]
      rw [List.length_append, List.length_cons] at hmax
      push_cast at hmax
      omega
    refine ⟨⟨read ++ [e], rest, by simp, rfl, fun _ => ⟨?_, hend⟩, fun hnot => ?_⟩, hpackets,
      hflits, h.received⟩
    · show s.enqueued ++ s.nextPacket.toList ++ [remap numNis (rowPacket e)] = _
      rw [heq]
      simp [expected]
    · exact absurd (Or.inr hlimit) (of_decide_eq_false hnot)

theorem Tracing.deliver (h : Tracing numNis es s) : Tracing numNis es
    { s.incrementTraceFlitsReceived maxPackets with delivered := s.delivered + 1 } :=
  ⟨h.file, h.packets, h.flits, by
    show s.numFlitsReceived + 1 = ((s.delivered + 1 : ℕ) : ℤ)
    rw [h.received, Nat.cast_succ]⟩

/-- An exit happens when the packets of all rows have been enqueued and all their flits counted. -/
theorem Tracing.exited (h : Tracing numNis es s) (hmax : (es.length : ℤ) ≤ maxPackets + 1)
    (hexit : (s.incrementTraceFlitsReceived maxPackets).exited = true) :
    s.enqueued = expected numNis es ∧
      ((s.delivered + 1 : ℕ) : ℤ) = ((expected numNis es).map (·.numFlits)).sum := by
  have hcount : s.numFlitsReceived + 1 = s.numFlitsInjected ∧ s.enqueued = expected numNis es := by
    unfold incrementTraceFlitsReceived at hexit
    simp only [Bool.or_eq_true, Bool.and_eq_true, decide_eq_true_eq] at hexit
    rcases hexit with ⟨hend, hcount⟩ | ⟨-, hpackets, hcount⟩
    · obtain ⟨read, rest, rfl, -, hdue, hdone⟩ := h.file
      have hnot : s.wakeupDue = false := by
        by_contra hdue'
        rw [(hdue (Bool.not_eq_false _ ▸ hdue')).2] at hend
        cases hend
      obtain ⟨rfl, heq⟩ := hdone hnot
      exact ⟨hcount, by rw [List.append_nil]; exact heq⟩
    · rw [h.packets] at hpackets
      obtain ⟨hle, hall⟩ := h.length_le
      exact ⟨hcount, hall (by omega)⟩
  rw [← hcount.2, ← h.flits, ← hcount.1, h.received]
  exact ⟨rfl, Nat.cast_succ _⟩

theorem Tracing.run (h : Tracing numNis es s) (hexited : s.exited = false)
    (hes : ∀ e ∈ es, (garnetRow e).toList.length < 99) (hmax : (es.length : ℤ) ≤ maxPackets + 1)
    (hrun : Run numNis maxPackets s s') :
    Tracing numNis es s' ∧ (s'.exited = true → s'.enqueued = expected numNis es ∧
      (s'.delivered : ℤ) = ((expected numNis es).map (·.numFlits)).sum) := by
  induction hrun with
  | refl => exact ⟨h, fun hexit => by rw [hexited] at hexit; cases hexit⟩
  | tail _ hstep ih =>
    cases hstep with
    | wakeup hnot hdue hcall =>
      refine ⟨ih.1.wakeup hes hmax hdue hcall, fun hexit => ?_⟩
      rw [(wakeupCall_spec hcall).2.1, hnot] at hexit
      cases hexit
    | deliver hnot hflit => exact ⟨ih.1.deliver, fun hexit => ih.1.exited hmax hexit⟩

/-! ## Rows that do not fit the buffer -/

theorem fgets_take {n : ℕ} {body : List Char} (hbody : '\n' ∉ body) (hn : n ≤ body.length)
    (rest : List Char) : fgets n (body ++ rest) = (body.take n, body.drop n ++ rest) := by
  induction n generalizing body with
  | zero => rfl
  | succ n ih =>
    cases body with
    | nil => cases hn
    | cons c body =>
      rw [List.cons_append, fgets, if_neg fun h : c = '\n' => hbody (h ▸ List.mem_cons_self),
        ih (fun h => hbody (List.mem_cons_of_mem c h)) (Nat.le_of_succ_le_succ hn)]
      rfl

theorem extractPacket_eq_none {tokens : List (List Char)} (h : tokens.length < 7) :
    extractPacket tokens = none := by
  unfold extractPacket
  split
  · simp only [List.length_cons] at h
    omega
  · rfl

/-- A line with few tokens, but not blank, is a null pointer. -/
theorem wakeup_eq_none_of_tokens {fuel injected : ℕ} {next : Option NetworkTraceRecord}
    {file : List Char} (hfile : file ≠ []) (hpos : 0 < (strtok (fgets 99 file).1).length)
    (hfew : (strtok (fgets 99 file).1).length < 7) :
    wakeup numNis maxPackets (fuel + 1) next injected file = none := by
  cases file with
  | nil => exact absurd rfl hfile
  | cons c cs =>
    cases htokens : strtok (fgets 99 (c :: cs)).1 with
    | nil =>
      rw [htokens] at hpos
      cases hpos
    | cons token tokens =>
      rw [htokens] at hfew
      simp only [wakeup, htokens, extractPacket_eq_none hfew]

theorem countP_isDelimiter_spaced (vs : List ℕ) : (spaced vs).countP isDelimiter ≤ vs.length := by
  have hdigits : ∀ v, (digits v).countP isDelimiter = 0 := fun v =>
    List.countP_eq_zero.mpr fun c hc => by
      rw [(not_special_of_isDigit (isDigit_digits hc)).1]
      decide
  induction vs with
  | nil => exact le_rfl
  | cons v vs ih =>
    cases vs with
    | nil =>
      show (digits v).countP isDelimiter ≤ 1
      rw [hdigits]
      exact Nat.zero_le 1
    | cons w vs =>
      show (digits v ++ ' ' :: spaced (w :: vs)).countP isDelimiter ≤ _
      rw [List.countP_append, hdigits, List.countP_cons_of_pos (by decide), List.length_cons]
      omega

/-- A line of ten tokens with at most ten delimiters between them. -/
structure IsRow (row : List Char) : Prop where
  newline : '\n' ∉ row
  tokens : (strtok (row ++ ['\n'])).length = 10
  delimiters : row.countP isDelimiter ≤ 10

theorem isRow_garnetRow (e : TrafficEntry) : IsRow (garnetRow e).toList := by
  rw [toList_garnetRow]
  refine ⟨newline_notMem_spaced _, ?_, countP_isDelimiter_spaced (rowFields e)⟩
  rw [rowFields, strtok_spaced]
  rfl

variable {row : List Char}

/-- A long part of a row has a token. -/
theorem IsRow.strtok_pos (h : IsRow row) {part : List Char} (hpart : part.Sublist row)
    (hlong : 10 < part.length) : 0 < (strtok part).length := by
  have hcount := (hpart.countP_le (p := isDelimiter)).trans h.delimiters
  have hnot : ¬ ∀ c ∈ part, isDelimiter c = true := fun hall => by
    rw [List.countP_eq_length.mpr hall] at hcount
    omega
  push Not at hnot
  obtain ⟨c, hc, hp⟩ := hnot
  exact length_words_pos hc (Bool.eq_false_iff.mpr hp)

/-- What is left of a long row has a token, and at most four when the first part has seven. -/
theorem IsRow.strtok_rest (h : IsRow row) {n : ℕ} (hn : 10 < n)
    (hfirst : 7 ≤ (strtok (row.take n)).length) (rest : List Char) :
    0 < (strtok (fgets n (row.drop n ++ '\n' :: rest)).1).length ∧
      (strtok (fgets n (row.drop n ++ '\n' :: rest)).1).length < 7 := by
  have hbody : '\n' ∉ row.drop n := fun hmem => h.newline (List.mem_of_mem_drop hmem)
  have htokens := h.tokens
  have hcut := length_words_add_le (p := isDelimiter) (row.take n) (row.drop n ++ ['\n'])
  rw [← List.append_assoc, List.take_append_drop] at hcut
  unfold strtok at hfirst htokens
  rcases Nat.lt_or_ge (row.drop n).length n with hshort | hmore
  · rw [fgets_line hbody hshort rest]
    refine ⟨length_words_pos (List.mem_append_right _ List.mem_cons_self) (by decide), ?_⟩
    unfold strtok
    dsimp only
    omega
  · rw [fgets_take hbody hmore]
    have hsub : ((row.drop n).take n).Sublist row :=
      (List.take_sublist _ _).trans (List.drop_sublist _ _)
    refine ⟨h.strtok_pos hsub (by rw [List.length_take]; omega), ?_⟩
    have hle := length_words_le_append (p := isDelimiter) ((row.drop n).take n)
      ((row.drop n).drop n ++ ['\n'])
    rw [← List.append_assoc, List.take_append_drop] at hle
    unfold strtok
    dsimp only
    omega

/-- A row that does not fit is read as two, one of which has too few tokens. -/
theorem IsRow.wakeup_eq_none (h : IsRow row) (hlong : 99 ≤ row.length) {fuel injected : ℕ}
    {next : Option NetworkTraceRecord} (rest : List Char)
    (hlimit : ((injected + next.toList.length : ℕ) : ℤ) ≤ maxPackets) :
    wakeup numNis maxPackets (fuel + 2) next injected (row ++ '\n' :: rest) = none := by
  have hread := fgets_take h.newline hlong ('\n' :: rest)
  have hpos : 0 < (strtok (row.take 99)).length :=
    h.strtok_pos (List.take_sublist _ _) (by rw [List.length_take]; omega)
  rcases Nat.lt_or_ge (strtok (row.take 99)).length 7 with hfew | hfirst
  · exact wakeup_eq_none_of_tokens (by simp) (by rw [hread]; exact hpos) (by rw [hread]; exact hfew)
  obtain ⟨hrest, hrestFew⟩ := h.strtok_rest (by norm_num) hfirst rest
  have hnone : ∀ packet injected, wakeup numNis maxPackets (fuel + 1) packet injected
      (row.drop 99 ++ '\n' :: rest) = none := fun packet injected =>
    wakeup_eq_none_of_tokens (by simp) hrest hrestFew
  cases hchars : row ++ '\n' :: rest with
  | nil => simp at hchars
  | cons c cs =>
    rw [hchars] at hread
    cases htokens : strtok (row.take 99) with
    | nil =>
      rw [htokens] at hpos
      cases hpos
    | cons token tokens =>
      simp only [wakeup, hread, htokens]
      cases extractPacket (token :: tokens) with
      | none => rfl
      | some packet =>
        dsimp only
        rw [if_pos (Or.inr hlimit)]
        exact congrArg (Option.map _) (hnone _ _)

theorem wakeup_rows_long (maxPackets : ℤ) {fuel injected : ℕ} {next : Option NetworkTraceRecord}
    (hes : ∃ e ∈ es, 99 ≤ (garnetRow e).toList.length) (hfuel : es.length ≤ fuel)
    (hmax : (injected + next.toList.length + es.length : ℤ) ≤ maxPackets + 1) :
    wakeup numNis maxPackets (fuel + 1) next injected (fileText (es.map garnetRow)) = none := by
  induction es generalizing fuel injected next with
  | nil =>
    obtain ⟨e, he, -⟩ := hes
    cases he
  | cons e es ih =>
    obtain ⟨fuel, rfl⟩ : ∃ m, fuel = m + 1 := ⟨fuel - 1, by simp at hfuel; omega⟩
    rw [List.length_cons] at hfuel hmax
    push_cast at hmax
    have hlimit : ((injected + next.toList.length : ℕ) : ℤ) ≤ maxPackets := by
      push_cast
      omega
    rw [fileText_cons]
    rcases Nat.lt_or_ge (garnetRow e).toList.length 99 with hfits | hlong
    · obtain ⟨e', he', hlong⟩ := hes
      have hes' : ∃ e' ∈ es, 99 ≤ (garnetRow e').toList.length := by
        rcases List.mem_cons.mp he' with rfl | he'
        · omega
        · exact ⟨e', he', hlong⟩
      rw [wakeup_row numNis maxPackets e hfits hlimit, ih hes' (by omega) (by simp; omega)]
      rfl
    · exact (isRow_garnetRow e).wakeup_eq_none hlong _ hlimit

/-! ## Completion -/

theorem prepareGarnetTrafficFiles_eq_some {inputs : List SimulatorInput} {file : List Char}
    (h : prepareGarnetTrafficFiles inputs = some file) :
    file = fileText (header :: (trafficData inputs).map garnetRow) := by
  unfold prepareGarnetTrafficFiles at h
  dsimp only at h
  split_ifs at h
  rw [sortRows_garnetRow] at h
  cases h
  rfl

/-- A file with a row that does not fit is not read to its end. -/
theorem readBack_eq_none (n : ℕ) {inputs : List SimulatorInput} {file : List Char}
    (hfile : prepareGarnetTrafficFiles inputs = some file)
    (h : ∃ e ∈ trafficData inputs, 99 ≤ (garnetRow e).toList.length) :
    readBack n inputs = none := by
  have hlength := length_le_fileText ((trafficData inputs).map garnetRow)
  have htotal := length_trafficData_le inputs
  rw [List.length_map] at hlength
  unfold readBack
  rw [hfile, prepareGarnetTrafficFiles_eq_some hfile]
  dsimp only
  rw [readTrace_fileText]
  exact wakeup_rows_long _ h hlength (by simp; omega)

/-- The packets have the flits of the matrices, as long as these are numbers of the reader. -/
theorem sum_numFlits_expected (numNis : ℕ) {inputs : List SimulatorInput}
    (hflits : totalPackets inputs < 2 ^ 31) :
    ((expected numNis (trafficData inputs)).map (·.numFlits)).sum = totalPackets inputs := by
  rw [← sum_flits_trafficData] at hflits ⊢
  unfold expected
  rw [List.map_map, Nat.cast_list_sum, List.map_map]
  congr 1
  refine List.map_congr_left fun e he => ?_
  have hle : e.flits ≤ ((trafficData inputs).map (·.flits)).sum :=
    List.le_sum_of_mem (List.mem_map_of_mem he)
  show (remap numNis (rowPacket e)).numFlits = (e.flits : ℤ)
  rw [numFlits_remap]
  exact cInt_of_lt (by omega)

/-- **Completion.** All rows of a trace are injected, and the simulation ends only when all rows
have been injected and all flits received, exactly when every row fits the buffer of the reader. -/
theorem completes_iff (n : ℕ) (inputs : List SimulatorInput) (hflits : totalPackets inputs < 2 ^ 31)
    (file : List Char) (hfile : prepareGarnetTrafficFiles inputs = some file) :
    (readBack n inputs = some (expected (2 * n) (trafficData inputs)) ∧
      ∀ s, Run (2 * n) (totalPackets inputs - 1) (start file) s → s.exited = true →
        s.enqueued = expected (2 * n) (trafficData inputs) ∧ s.delivered = totalPackets inputs) ↔
    ∀ e ∈ trafficData inputs, (garnetRow e).toList.length < 99 := by
  constructor
  · rintro ⟨hread, -⟩
    by_contra hlong
    push Not at hlong
    rw [readBack_eq_none n hfile hlong] at hread
    cases hread
  · intro hrows
    refine ⟨readBack_eq hrows, fun s hrun hexited => ?_⟩
    rw [prepareGarnetTrafficFiles_eq_some hfile] at hrun
    have htotal := length_trafficData_le inputs
    obtain ⟨-, hexit⟩ := (tracing_start (trafficData inputs)).run rfl hrows (by omega) hrun
    obtain ⟨henqueued, hdelivered⟩ := hexit hexited
    rw [sum_numFlits_expected _ hflits] at hdelivered
    exact ⟨henqueued, Int.ofNat.inj hdelivered⟩

/-- A run of the reader ends with the packets that are read back. -/
theorem exists_run_of_readBack {n : ℕ} {inputs : List SimulatorInput} {file : List Char}
    (hfile : prepareGarnetTrafficFiles inputs = some file) {records : List NetworkTraceRecord}
    (h : readBack n inputs = some records) :
    ∃ s, Run (2 * n) (totalPackets inputs - 1) (start file) s ∧ s.wakeupDue = false ∧
      s.enqueued = records := by
  unfold readBack at h
  rw [hfile] at h
  exact exists_run_of_wakeup (s := start file) (Nat.lt_succ_self _) rfl rfl h

theorem completes_toFirst : ∃ file, prepareGarnetTrafficFiles toFirst = some file ∧
    ∀ s, Run 8 2 (start file) s → s.exited = true → s.delivered = 3 := by
  obtain ⟨file, hfile⟩ : ∃ file, prepareGarnetTrafficFiles toFirst = some file := ⟨_, rfl⟩
  have hrows : ∀ e ∈ trafficData toFirst, (garnetRow e).toList.length < 99 := by decide +kernel
  refine ⟨file, hfile, fun s hrun hexited => ?_⟩
  exact (((completes_iff 4 toFirst (by decide) file hfile).mpr hrows).2 s hrun hexited).2

/-- Three flits of a network whose index has ninety-one digits. -/
def longIndex : List SimulatorInput :=
  [([[0, 0, 0, 0], [3, 0, 0, 0], [0, 0, 0, 0], [0, 0, 0, 0]], 10 ^ 90, 0, 0)]

/-- The only row does not fit the buffer, and its second part has two tokens. -/
theorem longIndex_not_injected :
    (prepareGarnetTrafficFiles longIndex).isSome = true ∧ totalPackets longIndex = 3 ∧
      readBack 4 longIndex = none := by
  decide +kernel

end Garnet

end ChipSim
