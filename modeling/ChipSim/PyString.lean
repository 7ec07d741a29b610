import Mathlib.Algebra.Order.Field.Rat
import Mathlib.Data.List.DropRight
import Mathlib.Data.List.Infix
import ChipSim.Lib.Words
import ChipSim.PyError

/-!
# Text

The operations on text that the simulator uses, and the numbers it reads from text.
-/

namespace ChipSim

open Lib

/-- The characters `str.strip` removes. -/
def isSpace (c : Char) : Bool :=
  let n := c.toNat
  (9 ≤ n && n ≤ 13) || (28 ≤ n && n ≤ 32) || n == 0x85 || n == 0xa0 || n == 0x1680 ||
    (0x2000 ≤ n && n ≤ 0x200a) || n == 0x2028 || n == 0x2029 || n == 0x202f || n == 0x205f ||
    n == 0x3000

theorem isSpace_of_isDigit {c : Char} (h : c.isDigit = true) : isSpace c = false := by
  rw [Char.isDigit_iff_toNat, show '0'.toNat = 48 from rfl, show '9'.toNat = 57 from rfl] at h
  unfold isSpace
  simp only [Bool.or_eq_false_iff, Bool.and_eq_false_iff, decide_eq_false_iff_not,
    beq_eq_false_iff_ne]
  omega

/-- `str.strip`. -/
def strip (s : String) : String :=
  String.ofList ((s.toList.dropWhile isSpace).rdropWhile isSpace)

theorem strip_eq_self {s : String} (hhead : ∀ c ∈ s.toList.head?, isSpace c = false)
    (hlast : ∀ c ∈ s.toList.getLast?, isSpace c = false) : strip s = s := by
  have hdrop : s.toList.dropWhile isSpace = s.toList := by
    cases hs : s.toList with
    | nil => rfl
    | cons c l =>
      rw [hs] at hhead
      exact List.dropWhile_cons_of_neg (by simp [hhead c rfl])
  unfold strip
  rw [hdrop]
  have hrdrop : s.toList.rdropWhile isSpace = s.toList := by
    rw [List.rdropWhile_eq_self_iff]
    intro hne
    rw [hlast _ (List.getLast?_eq_getLast_of_ne_nil hne)]
    decide
  rw [hrdrop, String.ofList_toList]

/-- `str.split` without a separator. -/
def split (s : String) : List (List Char) := words isSpace s.toList

/-- `str.startswith`. -/
def startsWith (s start : String) : Bool := start.toList.isPrefixOf s.toList

/-- `sub in s`. -/
def contains (s sub : String) : Bool := decide (sub.toList <:+: s.toList)

/-- `float(text)` of a number in fixed notation; `none` is a value that is not finite. -/
def float (text : List Char) : Except PyError (Option ℚ) :=
  let invalid : Except PyError (Option ℚ) :=
    .error (.valueError s!"could not convert string to float: '{String.ofList text}'")
  if text ∈ ["nan", "-nan", "inf", "-inf"].map String.toList then .ok none
  else
    let (sign, number) : ℚ × List Char := match text with
      | '-' :: number => (-1, number)
      | number => (1, number)
    let whole := number.takeWhile Char.isDigit
    match number.dropWhile Char.isDigit with
    | [] =>
      if whole.isEmpty then invalid else .ok (some (sign * (Nat.ofDigitChars 10 whole 0 : ℕ)))
    | '.' :: fraction =>
      if (whole.isEmpty && fraction.isEmpty) || !fraction.all Char.isDigit then invalid
      else .ok (some (sign * ((Nat.ofDigitChars 10 whole 0 : ℕ) +
        (Nat.ofDigitChars 10 fraction 0 : ℕ) / 10 ^ fraction.length)))
    | _ => invalid

end ChipSim
