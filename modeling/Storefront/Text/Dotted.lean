import Storefront.Text.Digit
import Storefront.Text.Word

/-!
Dotted names: segments of word characters and dashes with a dot between any two of them.
-/

namespace Storefront.Text

def isSegmentChar (c : Char) : Bool := isWord c || c = '-'

/-- The longest continuation of a dotted name, and what follows it. -/
def takeDotted : List Char → List Char × List Char
  | [] => ([], [])
  | [c] => if isSegmentChar c then ([c], []) else ([], [c])
  | c :: d :: s =>
    if isSegmentChar c || (c = '.' && isSegmentChar d) then
      let (name, rest) := takeDotted (d :: s)
      (c :: name, rest)
    else ([], c :: d :: s)

theorem takeDotted_append (s : List Char) : (takeDotted s).1 ++ (takeDotted s).2 = s := by
  fun_induction takeDotted s <;> simp_all

/-- The parts of a text between its separators. -/
def splitOn (separator : Char) : List Char → List (List Char)
  | [] => [[]]
  | c :: s =>
    let parts := splitOn separator s
    if c = separator then [] :: parts
    else match parts with
      | [] => [[c]]
      | part :: parts => (c :: part) :: parts

theorem splitOn_ne_nil (separator : Char) (s : List Char) : splitOn separator s ≠ [] := by
  cases s with
  | nil => simp [splitOn]
  | cons c s =>
    simp only [splitOn]
    split
    · simp
    · split <;> simp

theorem intercalate_splitOn (separator : Char) (s : List Char) :
    [separator].intercalate (splitOn separator s) = s := by
  induction s with
  | nil => rfl
  | cons c s ih =>
    have hne := splitOn_ne_nil separator s
    simp only [splitOn]
    cases hs : splitOn separator s with
    | nil => exact absurd hs hne
    | cons part parts =>
      rw [hs] at ih
      by_cases hc : c = separator
      · subst hc
        simpa [List.intercalate, List.intersperse] using ih
      · rw [if_neg hc]
        cases parts with
        | nil => simpa [List.intercalate] using ih
        | cons q qs => simpa [List.intercalate] using ih

end Storefront.Text
