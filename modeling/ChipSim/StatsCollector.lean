import Mathlib.Data.Int.Notation
import Mathlib.Data.List.Induction

/-!
# Collecting statistics

Entries are buffered and appended to a file, entry by entry, when the buffer has reached a
threshold. The buffer is emptied only after all of it has been written, so a dump that fails half
way leaves entries both in the file and in the buffer, and the next dump writes them again.
-/

namespace ChipSim

/-- The collector together with the entries in its file. -/
structure StatsCollector (α : Type) where
  dumpThreshold : ℤ
  statsFile : List α
  statsBuffer : List α := []

namespace StatsCollector

variable {α : Type}

/-- `dump_stats`. A failure is the number of entries that were written before it; it is caught, and
the buffer stays as it is. -/
def dumpStats (s : StatsCollector α) (failure : Option ℕ) : StatsCollector α :=
  if s.statsBuffer.isEmpty then s
  else
    match failure with
    | none => { s with statsFile := s.statsFile ++ s.statsBuffer, statsBuffer := [] }
    | some written => { s with statsFile := s.statsFile ++ s.statsBuffer.take written }

/-- The entry is put into the buffer. -/
def buffered (s : StatsCollector α) (entry : α) : StatsCollector α :=
  { s with statsBuffer := s.statsBuffer ++ [entry] }

/-- `add_stats`. -/
def addStats (s : StatsCollector α) (entry : α) (failure : Option ℕ) : StatsCollector α :=
  if (s.buffered entry).dumpThreshold ≤ (s.buffered entry).statsBuffer.length then
    (s.buffered entry).dumpStats failure
  else s.buffered entry

/-- `finalize`. -/
def finalize (s : StatsCollector α) (failure : Option ℕ) : StatsCollector α := s.dumpStats failure

/-! ## Runs -/

/-- A call together with the failure of the dump it may cause. -/
inductive Call (α : Type)
  | addStats (entry : α) (failure : Option ℕ)
  | dumpStats (failure : Option ℕ)
  | finalize (failure : Option ℕ)

/-- The collector after a call. -/
def perform (s : StatsCollector α) : Call α → StatsCollector α
  | .addStats entry failure => s.addStats entry failure
  | .dumpStats failure => s.dumpStats failure
  | .finalize failure => s.finalize failure

/-- The entries a call adds. -/
def Call.added : Call α → List α
  | .addStats entry _ => [entry]
  | .dumpStats _ | .finalize _ => []

/-- The collector after some calls. -/
def run (s : StatsCollector α) (calls : List (Call α)) : StatsCollector α := calls.foldl perform s

/-- The entries some calls add. -/
def added (calls : List (Call α)) : List α := calls.flatMap Call.added

@[simp] theorem run_append_singleton (s : StatsCollector α) (calls : List (Call α))
    (call : Call α) : s.run (calls ++ [call]) = (s.run calls).perform call := by
  simp [run]

@[simp] theorem added_append_singleton (calls : List (Call α)) (call : Call α) :
    added (calls ++ [call]) = added calls ++ call.added := by
  simp [added]

/-- The file followed by the buffer. -/
def contents (s : StatsCollector α) : List α := s.statsFile ++ s.statsBuffer

/-! ## Repeated entries -/

/-- A dump does not fail after an entry was written. -/
def CleanDump (s : StatsCollector α) (failure : Option ℕ) : Prop :=
  s.statsBuffer ≠ [] → ∀ written ∈ failure, written = 0

/-- A call does not cause a dump that fails after an entry was written. -/
def Clean (s : StatsCollector α) : Call α → Prop
  | .addStats entry failure =>
    s.dumpThreshold ≤ s.statsBuffer.length + 1 → (s.buffered entry).CleanDump failure
  | .dumpStats failure | .finalize failure => s.CleanDump failure

/-- A dump keeps the contents exactly when it writes all or nothing. -/
theorem contents_dumpStats_iff (s : StatsCollector α) (failure : Option ℕ) :
    (s.dumpStats failure).contents = s.contents ↔ s.CleanDump failure := by
  unfold dumpStats CleanDump contents
  by_cases hempty : s.statsBuffer = []
  · simp [hempty]
  rw [if_neg (by simpa using hempty)]
  cases failure with
  | none => simp
  | some written =>
    dsimp only
    rw [List.append_assoc, List.append_cancel_left_eq, List.append_left_eq_self,
      List.take_eq_nil_iff]
    simp [hempty]

theorem contents_buffered (s : StatsCollector α) (entry : α) :
    (s.buffered entry).contents = s.contents ++ [entry] :=
  (List.append_assoc ..).symm

theorem contents_perform_iff (s : StatsCollector α) (call : Call α) :
    (s.perform call).contents = s.contents ++ call.added ↔ s.Clean call := by
  cases call with
  | addStats entry failure =>
    have hlength : ((s.buffered entry).statsBuffer.length : ℤ) = s.statsBuffer.length + 1 := by
      simp [buffered]
    have hdump := contents_dumpStats_iff (s.buffered entry) failure
    rw [contents_buffered] at hdump
    simp only [perform, addStats, Clean, Call.added, hlength]
    split
    · next hfull => rw [hdump, imp_iff_right (show s.dumpThreshold ≤ _ from hfull)]
    · next hfull =>
      exact iff_of_true (contents_buffered s entry) fun h => absurd h hfull
  | dumpStats failure =>
    rw [Call.added, List.append_nil]
    exact contents_dumpStats_iff s failure
  | finalize failure =>
    rw [Call.added, List.append_nil]
    exact contents_dumpStats_iff s failure

/-- **Exactly once.** At every time of a run the file followed by the buffer lists the entries in
the order they were added, exactly when no dump fails after an entry was written. -/
theorem contents_eq_added_iff (initial : List α) (dumpThreshold : ℤ) (calls : List (Call α)) :
    (∀ done rest, calls = done ++ rest →
      (run ⟨dumpThreshold, initial, []⟩ done).contents = initial ++ added done) ↔
    ∀ done call rest, calls = done ++ call :: rest →
      (run ⟨dumpThreshold, initial, []⟩ done).Clean call := by
  constructor
  · intro h done call rest hcalls
    have hbefore := h done (call :: rest) hcalls
    have hafter := h (done ++ [call]) rest (by simpa using hcalls)
    rw [run_append_singleton, added_append_singleton, ← List.append_assoc, ← hbefore] at hafter
    exact (contents_perform_iff _ call).mp hafter
  · intro h done
    induction done using List.reverseRecOn with
    | nil => exact fun _ _ => rfl
    | append_singleton done call ih =>
      intro rest hcalls
      rw [List.append_assoc, List.singleton_append] at hcalls
      rw [run_append_singleton, added_append_singleton, ← List.append_assoc,
        ← ih (call :: rest) hcalls]
      exact (contents_perform_iff _ call).mpr (h done call rest hcalls)

/-- An entry whose dump fails after it was written stands in the file and in the buffer, and after
the next dump twice in the file. -/
theorem written_twice :
    let s := run (⟨1, [], []⟩ : StatsCollector ℕ) [.addStats 7 (some 1)]
    s.statsFile = [7] ∧ s.statsBuffer = [7] ∧ (s.perform (.finalize none)).statsFile = [7, 7] := by
  decide

/-! ## No lost entries -/

/-- The buffer holds the last entries, and the file has all the others. -/
def Kept (initial : List α) (s : StatsCollector α) (entries : List α) : Prop :=
  ∃ written, entries = written ++ s.statsBuffer ∧ (initial ++ written).Sublist s.statsFile

theorem Kept.dumpStats {initial entries : List α} {s : StatsCollector α}
    (h : Kept initial s entries)
    (failure : Option ℕ) : Kept initial (s.dumpStats failure) entries := by
  obtain ⟨written, hentries, hfile⟩ := h
  unfold StatsCollector.dumpStats
  split
  · exact ⟨written, hentries, hfile⟩
  cases failure with
  | none =>
    refine ⟨entries, (List.append_nil _).symm, ?_⟩
    rw [hentries, ← List.append_assoc]
    exact hfile.append (List.Sublist.refl _)
  | some n => exact ⟨written, hentries, hfile.trans (List.sublist_append_left _ _)⟩

theorem Kept.buffered {initial entries : List α} {s : StatsCollector α} (h : Kept initial s entries)
    (entry : α) : Kept initial (s.buffered entry) (entries ++ [entry]) := by
  obtain ⟨written, hentries, hfile⟩ := h
  exact ⟨written, by rw [hentries, List.append_assoc]; rfl, hfile⟩

theorem Kept.perform {initial entries : List α} {s : StatsCollector α} (h : Kept initial s entries)
    (call : Call α) : Kept initial (s.perform call) (entries ++ call.added) := by
  cases call with
  | addStats entry failure =>
    show Kept initial (s.addStats entry failure) (entries ++ [entry])
    unfold StatsCollector.addStats
    split
    · exact (h.buffered entry).dumpStats failure
    · exact h.buffered entry
  | dumpStats failure =>
    rw [Call.added, List.append_nil]
    exact h.dumpStats failure
  | finalize failure =>
    rw [Call.added, List.append_nil]
    exact h.dumpStats failure

/-- **No entry is lost.** Whatever fails, the added entries stand in the file followed by the
buffer in their order. -/
theorem added_sublist_contents (initial : List α) (dumpThreshold : ℤ) (calls : List (Call α)) :
    (initial ++ added calls).Sublist (run ⟨dumpThreshold, initial, []⟩ calls).contents := by
  have hkept : Kept initial (run ⟨dumpThreshold, initial, []⟩ calls) (added calls) := by
    induction calls using List.reverseRecOn with
    | nil => exact ⟨[], rfl, by rw [List.append_nil]; exact List.Sublist.refl _⟩
    | append_singleton calls call ih =>
      rw [run_append_singleton, added_append_singleton]
      exact ih.perform call
  obtain ⟨written, hentries, hfile⟩ := hkept
  rw [hentries, ← List.append_assoc]
  exact hfile.append (List.Sublist.refl _)

end StatsCollector

end ChipSim
