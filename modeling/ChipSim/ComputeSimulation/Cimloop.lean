import ChipSim.LayerPartitioner.Rounding
import ChipSim.Lib.Scan
import ChipSim.PyString
import Mathlib.Algebra.BigOperators.Ring.Finset

/-!
# CIMLoop configurations

The configuration for a chunk is made from the template of its layer by search and replace: the
instance definition is rewritten for convolutional and fully connected layers and is left alone for
self-attention layers. Text is a list of characters.
-/

namespace ChipSim

open Lib

/-- The parameters of a layer that are read here. -/
structure CimloopParams where
  inputChannels : Option ℕ
  outputChannels : Option ℤ
  weightHeight : Option ℕ
  hStride : Option ℕ
  outputHeight : Option ℕ
  outputWidth : Option ℕ

/-- A partitioned layer as it is read here. -/
structure CimloopLayer where
  description : Option String
  parameters : Option CimloopParams
  percentage : Option ℚ

namespace CimloopBackend

/-! ## Patterns -/

/-- A literal text. -/
def literal (text : String) : Pattern Char := fun s =>
  if text.toList.isPrefixOf s then some text.toList.length else none

/-- `instance:\s*{[^}]*}`. -/
def instancePattern : Pattern Char := fun s =>
  if "instance:".toList.isPrefixOf s then
    let afterName := s.drop 9
    let spaces := afterName.takeWhile isSpace
    match afterName.dropWhile isSpace with
    | '\x7b' :: inside =>
      let body := inside.takeWhile (· ≠ '\x7d')
      if '\x7d' ∈ inside then some (9 + spaces.length + 1 + body.length + 1) else none
    | _ => none
  else none

/-- `notes:\s*[^\n]*`. -/
def notesPattern : Pattern Char := fun s =>
  if "notes:".toList.isPrefixOf s then
    let afterName := s.drop 6
    let spaces := afterName.takeWhile isSpace
    let line := (afterName.dropWhile isSpace).takeWhile (· ≠ '\n')
    some (6 + spaces.length + line.length)
  else none

/-- `notes: Attention[^\n]*`. -/
def attentionNotesPattern : Pattern Char := fun s =>
  if "notes: Attention".toList.isPrefixOf s then
    some (16 + ((s.drop 16).takeWhile (· ≠ '\n')).length)
  else none

/-- `re.search(rf'{name}:\s*(\d+)', text)` and the number it finds. -/
def readField (name : Char) : List Char → Option ℕ
  | [] => none
  | c :: s =>
    let digits := ((s.drop 1).dropWhile isSpace).takeWhile Char.isDigit
    if c = name ∧ s.head? = some ':' ∧ digits ≠ [] then some (Nat.ofDigitChars 10 digits 0)
    else readField name s

/-- `re.sub(pattern, new, text)`. -/
def replace (p : Pattern Char) (new : String) (text : List Char) : List Char :=
  p.sub new.toList 0 text

/-! ## The configuration -/

/-- The instance of a convolutional layer. -/
def convInstance (inChannels : ℕ) (outChannels : ℤ) (p q kernelSize stride : ℕ) : String :=
  s!"instance: \x7bC: {inChannels}, M: {outChannels}, P: {p}, Q: {q}, R: {kernelSize}, " ++
    s!"S: {kernelSize}, HStride: {stride}, WStride: {stride}\x7d"

/-- The instance of a fully connected layer, with its sequence length if there is one. -/
def linearInstance (inFeatures : ℕ) (outFeatures : ℤ) (pDimension : ℕ) : String :=
  if 1 < pDimension then
    s!"instance: \x7bC: {inFeatures}, M: {outFeatures}, P: {pDimension}\x7d"
  else s!"instance: \x7bC: {inFeatures}, M: {outFeatures}\x7d"

/-- A value that has to be there. -/
def require {α : Type} (value : Option α) (message : String) : Except PyError α :=
  match value with
  | some v => .ok v
  | none => .error (.valueError message)

/-- Replace the notes, which have to be there. -/
def replaceNotes (kind : String) (layerIdx : ℕ) (note : String) (text : List Char) :
    Except PyError (List Char) := do
  let _ ← require (notesPattern.search text)
    s!"Cannot find 'notes:' field in template for {kind} layer {layerIdx}"
  return replace notesPattern note text

/-- The configuration of a convolutional layer. -/
def convConfig (layerIdx : ℕ) (note : String) (params : CimloopParams) (text : List Char) :
    Except PyError (List Char) := do
  let inChannels ← require params.inputChannels
    s!"Missing 'input_channels' parameter for Conv2d layer {layerIdx}"
  let outChannels ← require params.outputChannels
    s!"Missing 'output_channels' parameter for Conv2d layer {layerIdx}"
  let kernelSize ← require params.weightHeight
    s!"Missing 'weight_height' parameter for Conv2d layer {layerIdx}"
  let stride := params.hStride.getD 1
  let found ← require (instancePattern.search text)
    s!"Cannot find instance definition in template for Conv2d layer {layerIdx}"
  let p ← require ((readField 'P' found).or params.outputHeight)
    s!"Cannot determine output height (P) for Conv2d layer {layerIdx}"
  let q ← require ((readField 'Q' found).or params.outputWidth)
    s!"Cannot determine output width (Q) for Conv2d layer {layerIdx}"
  let new := convInstance inChannels outChannels p q kernelSize stride
  replaceNotes "Conv2d" layerIdx note (replace instancePattern new text)

/-- The configuration of a fully connected layer. -/
def linearConfig (layerIdx : ℕ) (note : String) (params : CimloopParams) (text : List Char) :
    Except PyError (List Char) := do
  let inFeatures ← require params.inputChannels
    s!"Missing 'input_channels' parameter for Linear layer {layerIdx}"
  let outFeatures ← require params.outputChannels
    s!"Missing 'output_channels' parameter for Linear layer {layerIdx}"
  let pDimension := params.outputHeight.getD 1
  let _ ← require (instancePattern.search text)
    s!"Cannot find instance definition in template for Linear layer {layerIdx}"
  let new := linearInstance inFeatures outFeatures pDimension
  replaceNotes "Linear" layerIdx note (replace instancePattern new text)

/-- The configuration of a self-attention layer: the instance definition of the template stays. -/
def attentionConfig (layerIdx : ℕ) (note : String) (text : List Char) :
    Except PyError (List Char) := do
  let _ ← require (instancePattern.search text)
    s!"Cannot find instance definition in template for self-attention layer {layerIdx}"
  if (literal "notes: From einsum").search text ≠ none then
    return replace (literal "notes: From einsum") note text
  else if (literal "notes: DPTViTSelfAttention").search text ≠ none then
    return replace (literal "notes: DPTViTSelfAttention") note text
  else if (literal "notes: Attention").search text ≠ none then
    return replace attentionNotesPattern note text
  else return replace notesPattern note text

/-- `'DPTViTSelfAttention' in description or ...`. -/
def isAttention (description : String) : Bool :=
  contains description "DPTViTSelfAttention" || contains description "SelfAttention" ||
    contains description "ViTSelfAttention"

/-- `generate_yaml_config` from the text of the template; `floatText` prints a number. -/
def generateYamlConfig (floatText : ℚ → String) (template : String) (layerIdx chipletId : ℕ)
    (layer : CimloopLayer) : Except PyError (List Char) := do
  let text := replace (literal "\x7b\x7binclude_text('../problem_base.yaml')\x7d\x7d")
    "\x7b\x7binclude_text('workloads/problem_base.yaml')\x7d\x7d" template.toList
  let description ← require layer.description
    s!"Missing 'description' field in partitioned layer for layer {layerIdx}"
  let params ← require layer.parameters
    s!"Missing 'parameters' field in partitioned layer for layer {layerIdx}"
  let percentage := floatText (layer.percentage.getD 100)
  let note (kind : String) : String :=
    s!"notes: {kind} - Partitioned for Chiplet {chipletId} ({percentage}%)"
  if contains description "Conv1d" then
    .error (.valueError s!"Conv1d layer type is not supported (layer {layerIdx})")
  else if contains description "Conv2d" then convConfig layerIdx (note "Conv2d") params text
  else if contains description "Linear" then linearConfig layerIdx (note "Linear") params text
  else if isAttention description then attentionConfig layerIdx (note "Self-Attention") text
  else .error (.valueError s!"Unsupported layer type '{description}' for layer {layerIdx}")

/-! ## Instance definitions -/

/-- The beginning of an instance definition. -/
def opening (spaces : List Char) : List Char := "instance:".toList ++ (spaces ++ ['\x7b'])

theorem length_opening (spaces : List Char) : (opening spaces).length = spaces.length + 10 := by
  unfold opening
  rw [List.length_append, List.length_append, show "instance:".toList.length = 9 from rfl,
    List.length_singleton]
  omega

theorem opening_close (spaces body rest : List Char) :
    opening spaces ++ (body ++ '\x7d' :: rest) =
      (opening spaces ++ (body ++ ['\x7d'])) ++ rest := by
  simp

/-- The text up to the first closing brace. -/
theorem takeWhile_close {body : List Char} (h : '\x7d' ∉ body) (rest : List Char) :
    (body ++ '\x7d' :: rest).takeWhile (· ≠ '\x7d') = body := by
  have hbody : ∀ c ∈ body, decide (c ≠ '\x7d') = true := fun c hc =>
    decide_eq_true fun heq => h (heq ▸ hc)
  rw [List.takeWhile_append_of_pos hbody]
  simp

theorem instancePattern_spec {s : List Char} {n : ℕ} (h : instancePattern s = some n) :
    ∃ spaces body rest, s = opening spaces ++ (body ++ '\x7d' :: rest) ∧
      (∀ c ∈ spaces, isSpace c = true) ∧ '\x7d' ∉ body ∧
      n = (opening spaces ++ (body ++ ['\x7d'])).length := by
  unfold instancePattern at h
  split at h
  · next hname =>
    obtain ⟨t, rfl⟩ := List.isPrefixOf_iff_prefix.mp hname
    rw [show List.drop 9 ("instance:".toList ++ t) = t from rfl] at h
    dsimp only at h
    split at h
    · next inside hinside =>
      split at h
      · next hclose =>
        obtain ⟨body, rest, rfl, hbody⟩ := List.eq_append_cons_of_mem hclose
        refine ⟨t.takeWhile isSpace, body, rest, ?_, fun c hc => List.mem_takeWhile_imp hc,
          hbody, ?_⟩
        · have ht := List.takeWhile_append_dropWhile (p := isSpace) (l := t)
          rw [hinside] at ht
          unfold opening
          rw [List.append_assoc, List.append_assoc]
          exact congrArg _ ht.symm
        · rw [takeWhile_close hbody, Option.some.injEq] at h
          rw [← h, List.length_append, length_opening, List.length_append, List.length_singleton]
          omega
      · cases h
    · cases h
  · cases h

theorem instancePattern_of_opening (rest : List Char) {spaces body : List Char}
    (hspaces : ∀ c ∈ spaces, isSpace c = true) (hbody : '\x7d' ∉ body) :
    instancePattern (opening spaces ++ (body ++ '\x7d' :: rest)) =
      some (opening spaces ++ (body ++ ['\x7d'])).length := by
  have hafter : (opening spaces ++ (body ++ '\x7d' :: rest)).drop 9 =
      spaces ++ '\x7b' :: (body ++ '\x7d' :: rest) := by
    unfold opening
    rw [List.append_assoc, List.append_assoc]
    rfl
  have hname :
      "instance:".toList.isPrefixOf (opening spaces ++ (body ++ '\x7d' :: rest)) = true := by
    unfold opening
    rw [List.append_assoc]
    exact List.isPrefixOf_iff_prefix.mpr (List.prefix_append _ _)
  have hopen : isSpace '\x7b' = false := by decide
  unfold instancePattern
  rw [if_pos hname, hafter]
  dsimp only
  rw [List.takeWhile_append_of_pos hspaces, List.dropWhile_append_of_pos hspaces,
    List.takeWhile_cons_of_neg (by simp [hopen]), List.dropWhile_cons_of_neg (by simp [hopen])]
  change (if '\x7d' ∈ body ++ '\x7d' :: rest then _ else _) = _
  rw [if_pos (by simp), takeWhile_close hbody, List.append_nil, List.length_append, length_opening,
    List.length_append, List.length_singleton]
  congr 1
  omega

/-- A text with the beginning of an instance definition and a closing brace behind it. -/
theorem instancePattern_ne_none {spaces s : List Char} (hspaces : ∀ c ∈ spaces, isSpace c = true)
    (hclose : '\x7d' ∈ s) : instancePattern (opening spaces ++ s) ≠ none := by
  obtain ⟨body, rest, rfl, hbody⟩ := List.eq_append_cons_of_mem hclose
  rw [instancePattern_of_opening _ hspaces hbody]
  simp

theorem instancePattern_proper : instancePattern.Proper := by
  intro s n h
  obtain ⟨spaces, body, rest, rfl, -, -, rfl⟩ := instancePattern_spec h
  rw [List.length_append, List.length_append, List.length_append, List.length_append,
    length_opening, List.length_singleton, List.length_cons]
  omega

theorem notesPattern_spec {s : List Char} {n : ℕ} (h : notesPattern s = some n) :
    "notes:".toList <+: s ∧ 6 ≤ n ∧ n ≤ s.length := by
  unfold notesPattern at h
  split at h
  · next hname =>
    have hprefix := List.isPrefixOf_iff_prefix.mp hname
    obtain ⟨t, rfl⟩ := hprefix
    rw [show List.drop 6 ("notes:".toList ++ t) = t from rfl] at h
    dsimp only at h
    rw [Option.some.injEq] at h
    have htake := congrArg List.length (List.takeWhile_append_dropWhile (p := isSpace) (l := t))
    have hline := (List.takeWhile_prefix (p := (· ≠ '\n')) (l := t.dropWhile isSpace)).length_le
    rw [List.length_append] at htake
    refine ⟨List.prefix_append _ _, ?_, ?_⟩
    · omega
    · rw [List.length_append, show "notes:".toList.length = 6 from rfl]
      omega
  · cases h

theorem notesPattern_proper : notesPattern.Proper := by
  intro s n h
  obtain ⟨-, hpos, hle⟩ := notesPattern_spec h
  exact ⟨by omega, hle⟩

/-! ## Replacing the instance definitions -/

/-- Text that may stand between the braces of an instance definition. -/
def PlainText (s : List Char) : Prop :=
  ∀ c ∈ s, c ≠ '\x7d' ∧ c ≠ 'n' ∧ c ≠ 'o'

instance (s : List Char) : Decidable (PlainText s) :=
  decidable_of_iff (s.all fun c => decide (c ≠ '\x7d' ∧ c ≠ 'n' ∧ c ≠ 'o')) (by simp [PlainText])

theorem PlainText.append {s t : List Char} (hs : PlainText s) (ht : PlainText t) :
    PlainText (s ++ t) := by
  intro c hc
  exact (List.mem_append.mp hc).elim (hs c) (ht c)

/-- An instance definition with plain text between the braces. -/
def PlainInstance (new : List Char) : Prop :=
  ∃ body, new = opening [' '] ++ (body ++ ['\x7d']) ∧ PlainText body

/-- The beginning of an instance definition has its first character nowhere else, and no `o`. -/
theorem not_mem_tail_opening {spaces : List Char} (hspaces : ∀ c ∈ spaces, isSpace c = true) :
    'i' ∉ (opening spaces).tail ∧ 'o' ∉ opening spaces := by
  have hspace : ∀ c, isSpace c = false → c ∉ spaces := fun c hc hmem => by
    rw [hspaces c hmem] at hc
    cases hc
  constructor
  · change 'i' ∉ "nstance:".toList ++ (spaces ++ ['\x7b'])
    simp [hspace 'i' (by decide)]
  · unfold opening
    simp [hspace 'o' (by decide)]

/-- A match whose text is cut somewhere: the cut is behind the opening brace, or before it. -/
theorem instancePattern_append {u v : List Char} {n : ℕ} (h : instancePattern (u ++ v) = some n) :
    ∃ spaces, (∀ c ∈ spaces, isSpace c = true) ∧
      ((∃ u' body rest, u = opening spaces ++ u' ∧ u' ++ v = body ++ '\x7d' :: rest ∧
        '\x7d' ∉ body ∧ n = (opening spaces ++ (body ++ ['\x7d'])).length) ∨
      ∃ c h', opening spaces = u ++ c :: h' ∧ c :: h' <+: v) := by
  obtain ⟨spaces, body, rest, heq, hspaces, hbody, rfl⟩ := instancePattern_spec h
  refine ⟨spaces, hspaces, ?_⟩
  rcases List.append_eq_append_iff.mp heq with ⟨h', hopen, hv⟩ | ⟨u', hu, hrest⟩
  · cases h' with
    | nil =>
      rw [List.append_nil] at hopen
      exact Or.inl ⟨[], body, rest, by rw [hopen, List.append_nil], hv, hbody, rfl⟩
    | cons c h' => exact Or.inr ⟨c, h', hopen, hv ▸ List.prefix_append _ _⟩
  · exact Or.inl ⟨u', body, rest, hu, hrest.symm, hbody, rfl⟩

section

variable {new : List Char}

theorem PlainInstance.match_self (h : PlainInstance new) (r : List Char) :
    instancePattern (new ++ r) = some new.length := by
  obtain ⟨body, rfl, hbody⟩ := h
  have hclose : '\x7d' ∉ body := fun hmem => (hbody _ hmem).1 rfl
  have hmatch := instancePattern_of_opening r
    (List.forall_mem_singleton.mpr (by decide : isSpace ' ' = true)) hclose
  rw [List.append_assoc, List.append_assoc]
  exact hmatch

/-- No other match begins in the new text. -/
theorem PlainInstance.match_suffix (h : PlainInstance new) {t : List Char} (ht : t ≠ [])
    (hsuffix : t <:+ new) (r : List Char) {n : ℕ} (hn : instancePattern (t ++ r) = some n) :
    (t ++ r).take n = new := by
  by_cases hall : t = new
  · subst hall
    rw [h.match_self r, Option.some.injEq] at hn
    rw [← hn, List.take_left]
  · exfalso
    obtain ⟨body, rfl, hbody⟩ := h
    -- the match begins with `in`, which is nowhere in the rest of the new text
    obtain ⟨spaces, _, _, heq, -, -, -⟩ := instancePattern_spec hn
    obtain ⟨c, t, rfl⟩ := List.exists_cons_of_ne_nil ht
    obtain ⟨rfl, hrest⟩ : c = 'i' ∧ t ++ r = 'n' :: _ := List.cons.inj heq
    have htail := (List.suffix_cons_iff.mp hsuffix).resolve_left hall
    have hbody' : 'i' :: t <:+ body ++ ['\x7d'] := by
      change _ <:+ 'n' :: 's' :: 't' :: 'a' :: 'n' :: 'c' :: 'e' :: ':' :: ' ' :: '\x7b' ::
        (body ++ _)
        at htail
      simpa [List.suffix_cons_iff] using htail
    cases t with
    | nil =>
      obtain ⟨z, hz⟩ := hbody'
      exact absurd (List.append_inj' hz rfl).2 (by decide)
    | cons d t =>
      obtain rfl : d = 'n' := (List.cons.inj hrest).1
      rcases List.mem_append.mp
        (hbody'.subset (List.mem_cons_of_mem _ List.mem_cons_self)) with h | h
      · exact (hbody _ h).2.1 rfl
      · exact absurd h (by decide)

/-- A match that begins before the new text was one before. -/
theorem PlainInstance.match_before (h : PlainInstance new) {u m r r' : List Char} (hu : u ≠ [])
    (hnone : instancePattern (u ++ (m ++ r)) = none)
    (hm : instancePattern (m ++ r) = some m.length) :
    instancePattern (u ++ (new ++ r')) = none := by
  by_contra hsome
  obtain ⟨n, hn⟩ := Option.ne_none_iff_exists'.mp hsome
  obtain ⟨spaces, hspaces, ⟨u', _, _, rfl, -, -, -⟩ | ⟨c, h', hopen, hprefix⟩⟩ :=
    instancePattern_append hn
  · -- the match of the old text closes the brace
    obtain ⟨_, body, rest, heq, -, -, -⟩ := instancePattern_spec hm
    refine absurd hnone ?_
    rw [List.append_assoc]
    refine instancePattern_ne_none hspaces ?_
    rw [heq]
    simp
  · obtain ⟨body, rfl, -⟩ := h
    obtain ⟨rfl⟩ : c = 'i' := by
      obtain ⟨t, ht⟩ := hprefix
      exact (List.cons.inj ht).1
    obtain ⟨d, u, rfl⟩ := List.exists_cons_of_ne_nil hu
    refine (not_mem_tail_opening hspaces).1 ?_
    rw [hopen]
    simp

/-- After the replacement there are no other instance definitions. -/
theorem PlainInstance.allMatches (h : PlainInstance new) (text : List Char) :
    instancePattern.AllMatches (· = new) (instancePattern.sub new 0 text) := by
  refine Pattern.allMatches_sub (I := fun _ => True) (fun _ _ _ _ => trivial)
    instancePattern_proper instancePattern_proper
    (fun t ht hs r n hn => h.match_suffix ht hs r hn) ?_ ?_ text trivial
  · intro u m r r' hu _ hnone hm _ n hn
    rw [h.match_before hu hnone hm] at hn
    cases hn
  · intro s _ hnone n hn
    rw [hnone] at hn
    cases hn

end

/-! ## Replacing the notes -/

/-- A note: one colon, no brace, and a closing parenthesis at its end. -/
def PlainNote (note : List Char) : Prop :=
  ∃ text, note = "notes:".toList ++ (text ++ [')']) ∧ ∀ c ∈ text, c ≠ ':' ∧ c ≠ '\x7d'

theorem PlainNote.not_match {note : List Char} (h : PlainNote note) {t : List Char} (ht : t ≠ [])
    (hsuffix : t <:+ note) (r : List Char) : instancePattern (t ++ r) = none := by
  obtain ⟨text, rfl, htext⟩ := h
  by_contra hsome
  obtain ⟨n, hn⟩ := Option.ne_none_iff_exists'.mp hsome
  obtain ⟨spaces, body, rest, heq, -, -, -⟩ := instancePattern_spec hn
  unfold opening at heq
  rw [List.append_assoc] at heq
  -- the match begins behind the name of the field
  have hrest : t <:+ text ++ [')'] := by
    obtain ⟨c, t, rfl⟩ := List.exists_cons_of_ne_nil ht
    obtain ⟨rfl, -⟩ : c = 'i' ∧ t ++ r = _ := List.cons.inj heq
    change _ <:+ 'n' :: 'o' :: 't' :: 'e' :: 's' :: ':' :: (text ++ [')']) at hsuffix
    simpa [List.suffix_cons_iff] using hsuffix
  rcases List.append_eq_append_iff.mp heq with ⟨a, hname, -⟩ | ⟨a, hname, -⟩
  · -- the end of the note would be in the name
    obtain ⟨t', x, rfl⟩ := (List.eq_nil_or_concat' t).resolve_left ht
    obtain ⟨z, hz⟩ := hrest
    rw [← List.append_assoc] at hz
    have hx := (List.append_inj' hz rfl).2
    have hmem : x ∈ "instance:".toList := by
      rw [hname]
      simp
    rw [(List.cons.inj hx).1] at hmem
    exact absurd hmem (by decide)
  · -- the colon of the name would be in the text
    have hmem : ':' ∈ text ++ [')'] := hrest.subset (by rw [hname]; simp)
    rcases List.mem_append.mp hmem with hmem | hmem
    · exact (htext _ hmem).1 rfl
    · exact absurd hmem (by decide)

theorem PlainNote.not_mem_close {note : List Char} (h : PlainNote note) : '\x7d' ∉ note := by
  obtain ⟨text, rfl, htext⟩ := h
  have htext' : '\x7d' ∉ text := fun hmem => (htext _ hmem).2 rfl
  simp [htext']

theorem PlainInstance.not_mem_o {new : List Char} (h : PlainInstance new) : 'o' ∉ new := by
  obtain ⟨body, rfl, hbody⟩ := h
  have hbody' : 'o' ∉ body := fun hmem => (hbody _ hmem).2.2 rfl
  have hopen :=
    (not_mem_tail_opening (List.forall_mem_singleton.mpr (by decide : isSpace ' ' = true))).2
  simp [hbody', hopen]

/-- A match that begins before a note is a match of the text before. -/
theorem PlainInstance.match_before_note {new note : List Char} (h : PlainInstance new)
    (hnote : PlainNote note) {u m r r' : List Char}
    (hI : instancePattern.AllMatches (· = new) (u ++ (m ++ r)))
    (hm : notesPattern (m ++ r) = some m.length) (hr' : ∀ a ∈ r', a ∈ note ∨ a ∈ r) {n : ℕ}
    (hn : instancePattern (u ++ (note ++ r')) = some n) : (u ++ (note ++ r')).take n = new := by
  obtain ⟨spaces, hspaces, ⟨u', body, rest, rfl, heq, hbody, rfl⟩ | ⟨c, h', hopen, hprefix⟩⟩ :=
    instancePattern_append hn
  · by_cases hclose : '\x7d' ∈ u'
    · -- the match ends before the note
      obtain ⟨b, w, rfl, hb⟩ := List.eq_append_cons_of_mem hclose
      obtain rfl : b = body := by
        have htake := congrArg (List.takeWhile (· ≠ '\x7d')) heq
        rwa [List.append_assoc, List.cons_append, takeWhile_close hb,
          takeWhile_close hbody] at htake
      have hmatch := instancePattern_of_opening (w ++ (m ++ r)) hspaces hb
      have hold := hI _ (List.suffix_refl _) (opening spaces ++ (b ++ ['\x7d'])).length (by
        rw [← hmatch]
        simp)
      rw [opening_close spaces b w, List.append_assoc, List.take_left] at hold ⊢
      exact hold
    · -- it would go beyond the note, and a match before would contain a part of the old notes
      exfalso
      have hr : '\x7d' ∈ u' ++ (m ++ r) := by
        have hmem : '\x7d' ∈ u' ++ (note ++ r') := by
          rw [heq]
          simp
        have hmem' := ((List.mem_append.mp hmem).resolve_left hclose)
        have hr :=
          (hr' _ ((List.mem_append.mp hmem').resolve_left hnote.not_mem_close)).resolve_left
          hnote.not_mem_close
        exact List.mem_append_right _ (List.mem_append_right _ hr)
      obtain ⟨b, w, hbw, hb⟩ := List.eq_append_cons_of_mem hr
      obtain ⟨⟨x, hx⟩, -, -⟩ := notesPattern_spec hm
      have ho : 'o' ∈ b := by
        have heq' : (u' ++ "notes:".toList) ++ x = b ++ '\x7d' :: w := by
          rw [← hbw, ← hx, List.append_assoc]
        rcases List.append_eq_append_iff.mp heq' with ⟨a, rfl, -⟩ | ⟨a, ha, hw⟩
        · simp
        · cases a with
          | nil =>
            rw [List.append_nil] at ha
            simp [← ha]
          | cons d a =>
            obtain rfl : '\x7d' = d := (List.cons.inj hw).1
            have hmem : '\x7d' ∈ u' ++ "notes:".toList := by
              rw [ha]
              simp
            exact absurd ((List.mem_append.mp hmem).resolve_left hclose) (by decide)
      have hmatch := instancePattern_of_opening w hspaces hb
      have hold := hI (opening spaces ++ u' ++ (m ++ r)) (List.suffix_refl _) _ (by
        rw [List.append_assoc, hbw]
        exact hmatch)
      refine h.not_mem_o ?_
      rw [← hold, List.append_assoc, hbw, opening_close spaces b w, List.take_left]
      simp [ho]
  · -- the opening brace is not in the note
    exfalso
    obtain ⟨text, rfl, -⟩ := hnote
    obtain ⟨x, hx⟩ := hprefix
    obtain ⟨rfl, hnext⟩ : c = 'n' ∧ h' ++ x = 'o' :: _ := List.cons.inj hx
    cases h' with
    | nil =>
      unfold opening at hopen
      rw [← List.append_assoc] at hopen
      exact absurd (List.append_inj' hopen rfl).2 (by decide)
    | cons d h' =>
      obtain rfl : d = 'o' := (List.cons.inj hnext).1
      refine (not_mem_tail_opening hspaces).2 ?_
      rw [hopen]
      simp

/-- Replacing the notes leaves only instance definitions that were there. -/
theorem PlainInstance.allMatches_notes {new note text : List Char} (h : PlainInstance new)
    (hnote : PlainNote note) (htext : instancePattern.AllMatches (· = new) text) :
    instancePattern.AllMatches (· = new) (notesPattern.sub note 0 text) := by
  refine Pattern.allMatches_sub (I := instancePattern.AllMatches (· = new))
    (fun s t ht hs => hs.of_suffix ht) instancePattern_proper notesPattern_proper ?_ ?_ ?_
    text htext
  · intro t ht hs r n hn
    rw [hnote.not_match ht hs r] at hn
    cases hn
  · exact fun u m r r' _ hI _ hm hr' n hn => h.match_before_note hnote hI hm hr' hn
  · exact fun s hs _ n hn => hs s (List.suffix_refl s) n hn

/-! ## What the configuration says -/

/-- The number behind the first occurrence of a name. -/
theorem readField_append {name : Char} {start digits rest : List Char} (hstart : name ∉ start)
    (hdigits : ∀ c ∈ digits, c.isDigit = true) (hne : digits ≠ [])
    (hrest : ∀ c ∈ rest.head?, c.isDigit = false) :
    readField name (start ++ name :: ':' :: ' ' :: (digits ++ rest)) =
      some (Nat.ofDigitChars 10 digits 0) := by
  induction start with
  | nil =>
    have hspace : ∀ c ∈ digits, isSpace c = false := fun c hc => isSpace_of_isDigit (hdigits c hc)
    obtain ⟨d, ds, rfl⟩ := List.exists_cons_of_ne_nil hne
    have htake : (d :: ds ++ rest).takeWhile Char.isDigit = d :: ds := by
      rw [List.takeWhile_append_of_pos hdigits]
      cases rest with
      | nil => simp
      | cons c rest => simp [hrest c rfl]
    have hdrop : (' ' :: (d :: ds ++ rest)).dropWhile isSpace = d :: ds ++ rest := by
      rw [List.dropWhile_cons_of_pos (by decide), List.cons_append,
        List.dropWhile_cons_of_neg (by simp [hspace d List.mem_cons_self])]
    rw [List.nil_append, readField, List.drop_succ_cons, List.drop_zero, hdrop, htake,
      if_pos ⟨rfl, rfl, hne⟩]
  | cons c start ih =>
    have hne : c ≠ name := fun heq => hstart (heq ▸ List.mem_cons_self)
    rw [List.cons_append, readField, if_neg (not_and_of_not_left _ hne),
      ih fun h => hstart (List.mem_cons_of_mem c h)]

theorem isDigit_toString {n : ℕ} {c : Char} (h : c ∈ (toString n).toList) : c.isDigit = true := by
  rw [show (toString n).toList = Nat.toDigits 10 n from Nat.toList_repr] at h
  exact Nat.isDigit_of_mem_toDigits (by decide) (by decide) h

theorem plainText_toString (n : ℕ) : PlainText (toString n).toList := by
  intro c hc
  have h := isDigit_toString hc
  refine ⟨?_, ?_, ?_⟩ <;> (rintro rfl; revert h; decide)

/-- The instance definitions for a number of output channels. -/
structure InstanceFor (channels : ℕ) (new : List Char) : Prop where
  plain : PlainInstance new
  reads : readField 'M' new = some channels

/-- The common form of the instance definitions. -/
theorem instanceFor (inChannels channels : ℕ) {tail : List Char} (htail : PlainText tail)
    (hhead : ∀ c ∈ (tail ++ ['\x7d']).head?, c.isDigit = false) :
    InstanceFor channels ("instance: \x7bC: ".toList ++ ((toString inChannels).toList ++
      (", M: ".toList ++ ((toString channels).toList ++ (tail ++ ['\x7d']))))) := by
  constructor
  · refine ⟨"C: ".toList ++ ((toString inChannels).toList ++ (", M: ".toList ++
      ((toString channels).toList ++ tail))), ?_, ?_⟩
    · simp only [List.append_assoc]
      rfl
    · exact PlainText.append (by decide) ((plainText_toString _).append
        (PlainText.append (by decide) ((plainText_toString _).append htail)))
  · have hdigits : Nat.ofDigitChars 10 (toString channels).toList 0 = channels := by
      rw [show (toString channels).toList = Nat.toDigits 10 channels from Nat.toList_repr]
      exact Nat.ofDigitChars_toDigits (by decide) (by decide)
    have hstart :
        'M' ∉ "instance: \x7bC: ".toList ++ ((toString inChannels).toList ++ [',', ' ']) := by
      intro hmem
      rcases List.mem_append.mp hmem with hmem | hmem
      · exact absurd hmem (by decide)
      · rcases List.mem_append.mp hmem with hmem | hmem
        · exact absurd (isDigit_toString hmem) (by decide)
        · exact absurd hmem (by decide)
    have hne : (toString channels).toList ≠ [] := by
      rw [show (toString channels).toList = Nat.toDigits 10 channels from Nat.toList_repr]
      exact Nat.toDigits_ne_nil
    have hread := readField_append hstart (fun c hc => isDigit_toString hc) hne hhead
    rw [hdigits] at hread
    rw [← hread]
    simp only [List.append_assoc]
    rfl

theorem convInstance_for (inChannels channels p q kernelSize stride : ℕ) :
    InstanceFor channels (convInstance inChannels channels p q kernelSize stride).toList := by
  have htail : PlainText (", P: ".toList ++ ((toString p).toList ++ (", Q: ".toList ++
      ((toString q).toList ++ (", R: ".toList ++ ((toString kernelSize).toList ++ (", ".toList ++
      ("S: ".toList ++ ((toString kernelSize).toList ++ (", HStride: ".toList ++
      ((toString stride).toList ++ (", WStride: ".toList ++ (toString stride).toList)))))))))))) :=
    (PlainText.append (by decide) ((plainText_toString _).append (PlainText.append (by decide)
      ((plainText_toString _).append (PlainText.append (by decide) ((plainText_toString _).append
      (PlainText.append (by decide) (PlainText.append (by decide) ((plainText_toString _).append
      (PlainText.append (by decide) ((plainText_toString _).append (PlainText.append (by decide)
      (plainText_toString _)))))))))))))
  have h := instanceFor inChannels channels htail (by rintro c ⟨⟩; decide)
  unfold convInstance
  simp only [String.toList_append, List.append_assoc] at h ⊢
  exact h

theorem linearInstance_for (inFeatures channels pDimension : ℕ) :
    InstanceFor channels (linearInstance inFeatures channels pDimension).toList := by
  unfold linearInstance
  split
  · have htail : PlainText (", P: ".toList ++ (toString pDimension).toList) :=
      PlainText.append (by decide) (plainText_toString _)
    have h := instanceFor inFeatures channels htail (by rintro c ⟨⟩; decide)
    simp only [String.toList_append, List.append_assoc] at h ⊢
    exact h
  · have htail : PlainText [] := by decide
    have h := instanceFor inFeatures channels htail (by rintro c ⟨⟩; decide)
    simp only [String.toList_append, List.append_assoc] at h ⊢
    exact h

/-! ## Chunks -/

theorem noteText_of_all {s : List Char}
    (h : (s.all fun c => decide (c ≠ ':' ∧ c ≠ '\x7d')) = true) :
    ∀ c ∈ s, c ≠ ':' ∧ c ≠ '\x7d' := fun c hc => of_decide_eq_true (List.all_eq_true.mp h c hc)

/-- The text of the note for a chunk. -/
theorem plainNote {floatText : ℚ → String}
    (hfloat : ∀ q, ∀ c ∈ (floatText q).toList, c ≠ ':' ∧ c ≠ '\x7d') {kind : String}
    (hkind : ∀ c ∈ kind.toList, c ≠ ':' ∧ c ≠ '\x7d') (chipletId : ℕ) (q : ℚ) :
    PlainNote s!"notes: {kind} - Partitioned for Chiplet {chipletId} ({floatText q}%)".toList := by
  refine ⟨" ".toList ++ (kind.toList ++ (" - Partitioned for Chiplet ".toList ++
    ((toString chipletId).toList ++ (" (".toList ++ ((floatText q).toList ++
      "%".toList))))), ?_, ?_⟩
  · simp only [String.toList_append, List.append_assoc]
    rfl
  · intro c hc
    simp only [List.mem_append] at hc
    rcases hc with hc | hc | hc | hc | hc | hc | hc
    · exact noteText_of_all (by decide) c hc
    · exact hkind c hc
    · exact noteText_of_all (by decide) c hc
    · have hdigit := isDigit_toString hc
      constructor <;> (rintro rfl; revert hdigit; decide)
    · exact noteText_of_all (by decide) c hc
    · exact hfloat q c hc
    · exact noteText_of_all (by decide) c hc

theorem require_eq_ok {α : Type} {value : Option α} {message : String} {a : α} :
    require value message = .ok a ↔ value = some a := by
  cases value <;> simp [require]

/-- All instance definitions are the one for the channels after both replacements. -/
theorem allMatches_replaceNotes {kind note : String} {layerIdx channels : ℕ} {new : String}
    {text config : List Char} (hnew : InstanceFor channels new.toList)
    (hnote : PlainNote note.toList)
    (h : replaceNotes kind layerIdx note (replace instancePattern new text) = .ok config) :
    instancePattern.AllMatches (fun s => readField 'M' s = some channels) config := by
  obtain ⟨_, -, h⟩ := bind_eq_ok.mp h
  cases h
  intro s hs n hn
  have hall := hnew.plain.allMatches_notes hnote (hnew.plain.allMatches text)
  rw [hall s hs n hn]
  exact hnew.reads

theorem convConfig_allMatches {layerIdx channels : ℕ} {note : String} {params : CimloopParams}
    {text config : List Char} (hparams : params.outputChannels = some (channels : ℤ))
    (hnote : PlainNote note.toList) (h : convConfig layerIdx note params text = .ok config) :
    instancePattern.AllMatches (fun s => readField 'M' s = some channels) config := by
  obtain ⟨inChannels, -, h⟩ := bind_eq_ok.mp h
  obtain ⟨outChannels, hout, h⟩ := bind_eq_ok.mp h
  obtain ⟨kernelSize, -, h⟩ := bind_eq_ok.mp h
  obtain ⟨found, -, h⟩ := bind_eq_ok.mp h
  obtain ⟨p, -, h⟩ := bind_eq_ok.mp h
  obtain ⟨q, -, h⟩ := bind_eq_ok.mp h
  rw [require_eq_ok, hparams, Option.some.injEq] at hout
  subst hout
  exact allMatches_replaceNotes (convInstance_for ..) hnote h

theorem linearConfig_allMatches {layerIdx channels : ℕ} {note : String} {params : CimloopParams}
    {text config : List Char} (hparams : params.outputChannels = some (channels : ℤ))
    (hnote : PlainNote note.toList) (h : linearConfig layerIdx note params text = .ok config) :
    instancePattern.AllMatches (fun s => readField 'M' s = some channels) config := by
  obtain ⟨inFeatures, -, h⟩ := bind_eq_ok.mp h
  obtain ⟨outFeatures, hout, h⟩ := bind_eq_ok.mp h
  obtain ⟨_, -, h⟩ := bind_eq_ok.mp h
  rw [require_eq_ok, hparams, Option.some.injEq] at hout
  subst hout
  exact allMatches_replaceNotes (linearInstance_for ..) hnote h

open LayerPartitioner

/-- A chunk of a layer as the backend sees it. -/
def chunkLayer (layerDef : LayerDef) (hStride : Option ℕ) (chunk : PartitionedLayer) :
    CimloopLayer where
  description := some (descriptionText layerDef.description)
  parameters := some
    { inputChannels := layerDef.parameters.inputChannels
      outputChannels := some chunk.outputChannels
      weightHeight := layerDef.parameters.weightHeight
      hStride := hStride
      outputHeight := layerDef.parameters.outputHeight
      outputWidth := layerDef.parameters.outputWidth }
  percentage := some chunk.percentage

/-- The layers whose instance definition is rewritten. -/
def isRewritten (description : String) : Bool :=
  contains description "Conv2d" || contains description "Linear"

/-- The output channels a configuration asks to simulate. -/
def simulatedChannels (config : List Char) : Option ℕ :=
  (instancePattern.search config).bind (readField 'M')

/-- The instance definitions of a chunk. -/
theorem chunk_allMatches {floatText : ℚ → String}
    (hfloat : ∀ q, ∀ c ∈ (floatText q).toList, c ≠ ':' ∧ c ≠ '\x7d') {template : String}
    {layerIdx chipletId channels : ℕ} {layerDef : LayerDef} {hStride : Option ℕ}
    {chunk : PartitionedLayer} (hchannels : chunk.outputChannels = channels)
    (hkind : isRewritten (descriptionText layerDef.description) = true) {config : List Char}
    (h : generateYamlConfig floatText template layerIdx chipletId
      (chunkLayer layerDef hStride chunk) = .ok config) :
    instancePattern.AllMatches (fun s => readField 'M' s = some channels) config := by
  obtain ⟨description, hdescription, h⟩ := bind_eq_ok.mp h
  obtain ⟨params, hparams, h⟩ := bind_eq_ok.mp h
  rw [require_eq_ok] at hdescription hparams
  cases hdescription
  cases hparams
  have hout : (some chunk.outputChannels : Option ℤ) = some (channels : ℤ) := by rw [hchannels]
  dsimp only at h
  unfold isRewritten at hkind
  rw [Bool.or_eq_true] at hkind
  split at h
  · cases h
  split at h
  · exact convConfig_allMatches hout (plainNote hfloat (noteText_of_all (by decide)) _ _) h
  · next hconv =>
    rw [if_pos (hkind.resolve_left hconv)] at h
    exact linearConfig_allMatches hout (plainNote hfloat (noteText_of_all (by decide)) _ _) h

/-- Every chunk has output channels. -/
theorem outputChannels_eq_natCast {layerDef : LayerDef} {totalMacs : Option ℕ}
    {shares : List (ℕ × ℚ)} {chunk : ℕ × PartitionedLayer}
    (h : chunk ∈ partitionLayer layerDef totalMacs shares) :
    ∃ n : ℕ, chunk.2.outputChannels = n := by
  have hne : shares ≠ [] := by
    rintro rfl
    have hids := ids_partitionLayer layerDef totalMacs []
    rw [List.map_nil, List.map_eq_nil_iff] at hids
    exact absurd (hids ▸ h) List.not_mem_nil
  have hone := (partitionLayer_exact layerDef totalMacs hne).one_le _ (List.mem_map_of_mem h)
  exact ⟨chunk.2.outputChannels.toNat, (Int.toNat_of_nonneg (by omega)).symm⟩

/-- The channels simulated for a chunk. -/
theorem simulatedChannels_of_allMatches {channels : ℤ} {config : List Char}
    (h : instancePattern.AllMatches (fun s => (readField 'M' s).map Nat.cast = some channels)
      config)
    (hfound : instancePattern.search config ≠ none) :
    (((simulatedChannels config).getD 0 : ℕ) : ℤ) = channels := by
  obtain ⟨found, hsearch⟩ := Option.ne_none_iff_exists'.mp hfound
  obtain ⟨n, hn, hcast⟩ := Option.map_eq_some_iff.mp (h.search hsearch)
  unfold simulatedChannels
  rw [hsearch, Option.bind_some, hn]
  exact hcast

/-- **Chunks.** The configurations of the chunks of a convolutional or fully connected layer define
instances with the output channels of their chunks only, so the channels simulated add up to those
of the layer. -/
theorem configs_describe_chunks (floatText : ℚ → String)
    (hfloat : ∀ q, ∀ c ∈ (floatText q).toList, c ≠ ':' ∧ c ≠ '\x7d') (template : String)
    (layerIdx : ℕ) (layerDef : LayerDef) (hStride : Option ℕ) (totalMacs : Option ℕ)
    (shares : List (ℕ × ℚ)) (hkind : isRewritten (descriptionText layerDef.description) = true)
    (hsum : (channels (partitionLayer layerDef totalMacs shares)).sum =
      (layerDef.parameters.outputChannels.getD 1 : ℕ)) (configs : List (List Char))
    (h : (partitionLayer layerDef totalMacs shares).mapM (fun chunk =>
      generateYamlConfig floatText template layerIdx chunk.1
        (chunkLayer layerDef hStride chunk.2)) = .ok configs) :
    List.Forall₂ (fun chunk config => instancePattern.AllMatches
      (fun s => (readField 'M' s).map Nat.cast = some chunk.2.outputChannels) config)
      (partitionLayer layerDef totalMacs shares) configs ∧
    ((∀ config ∈ configs, instancePattern.search config ≠ none) →
      (configs.map fun config => (simulatedChannels config).getD 0).sum =
        layerDef.parameters.outputChannels.getD 1) := by
  have hchunks : List.Forall₂ (fun chunk config => instancePattern.AllMatches
      (fun s => (readField 'M' s).map Nat.cast = some chunk.2.outputChannels) config)
      (partitionLayer layerDef totalMacs shares) configs := by
    refine forall₂_mapM h fun chunk hchunk config hconfig s hs n hn => ?_
    obtain ⟨count, hcount⟩ := outputChannels_eq_natCast hchunk
    rw [chunk_allMatches hfloat hcount hkind hconfig s hs n hn, hcount]
    rfl
  refine ⟨hchunks, fun hfound => ?_⟩
  have hmap : (configs.map fun config => (((simulatedChannels config).getD 0 : ℕ) : ℤ)) =
      channels (partitionLayer layerDef totalMacs shares) := by
    unfold channels
    rw [← List.forall₂_eq_eq_eq, List.forall₂_map_left_iff, List.forall₂_map_right_iff]
    refine ((List.forall₂_and_left _ _).mpr ⟨hfound, hchunks.flip⟩).imp fun config chunk hboth => ?_
    exact simulatedChannels_of_allMatches hboth.2 hboth.1
  rw [← Nat.cast_inj (R := ℤ), ← hsum, ← hmap, Nat.cast_list_sum, List.map_map]
  rfl

/-- A layer with eight output channels. -/
def eightChannels (description : LayerDescription) : LayerDef where
  description := description
  parameters := { inputChannels := some 4, outputChannels := some 8 }

/-- A template with eight output channels. -/
def eightChannelsTemplate : String := "instance: \x7bC: 4, M: 8, P: 2\x7d\nnotes: From einsum"

/-- The configurations of a layer with eight output channels cut into halves. -/
def eightChannelsConfigs (description : LayerDescription) : Except PyError (List (List Char)) :=
  (partitionLayer (eightChannels description) none [(1, 50), (2, 50)]).mapM fun chunk =>
    generateYamlConfig (fun _ => "50.0") eightChannelsTemplate 1 chunk.1
      (chunkLayer (eightChannels description) none chunk.2)

theorem configs_describe_chunks_linear : ∃ configs, eightChannelsConfigs .linear = .ok configs ∧
    (configs.map fun config => (simulatedChannels config).getD 0).sum = 8 := by
  have h : (eightChannelsConfigs .linear).toOption.map
      (fun configs => configs.all fun config => instancePattern.search config != none) =
        some true := by decide +kernel
  obtain ⟨configs, hconfigs, hall⟩ := Option.map_eq_some_iff.mp h
  rw [toOption_eq_some] at hconfigs
  refine ⟨configs, hconfigs, (configs_describe_chunks (fun _ => "50.0")
    (fun _ => noteText_of_all (by decide)) eightChannelsTemplate 1
    (eightChannels .linear) none none [(1, 50), (2, 50)] (by decide +kernel)
    (by decide +kernel) configs hconfigs).2 fun config hconfig => ?_⟩
  exact bne_iff_ne.mp (List.all_eq_true.mp hall config hconfig)

/-- The configurations of a self-attention layer keep the output channels of the template: each
half of eight channels is simulated with all eight. -/
theorem attention_chunks_not_described :
    channels (partitionLayer (eightChannels .selfAttention) none [(1, 50), (2, 50)]) = [4, 4] ∧
      ∃ configs, eightChannelsConfigs .selfAttention = .ok configs ∧
        configs.map simulatedChannels = [some 8, some 8] := by
  refine ⟨by decide +kernel, ?_⟩
  have h : (eightChannelsConfigs .selfAttention).toOption.map (·.map simulatedChannels) =
      some [some 8, some 8] := by decide +kernel
  obtain ⟨configs, hconfigs, hchannels⟩ := Option.map_eq_some_iff.mp h
  exact ⟨configs, toOption_eq_some.mp hconfigs, hchannels⟩

end CimloopBackend

end ChipSim
