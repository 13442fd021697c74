/-!
Blank characters and the trimming of text. Blank are the white space of Unicode and the four
information separators U+001C to U+001F.
-/

namespace Storefront.Text

def isBlank (c : Char) : Bool :=
  let n := c.toNat
  (0x09 ≤ n && n ≤ 0x0d) || (0x1c ≤ n && n ≤ 0x20) || n = 0x85 || n = 0xa0 || n = 0x1680 ||
    (0x2000 ≤ n && n ≤ 0x200a) || n = 0x2028 || n = 0x2029 || n = 0x202f || n = 0x205f ||
    n = 0x3000

def dropBlanks (s : List Char) : List Char := s.dropWhile isBlank

def trimRight (s : List Char) : List Char := (s.reverse.dropWhile isBlank).reverse

def trim (s : List Char) : List Char := trimRight (dropBlanks s)

/-- The text without its leading and trailing blanks. -/
def trimmed (s : String) : String := String.ofList (trim s.toList)

theorem dropBlanks_cons_of_not {c : Char} {s : List Char} (h : isBlank c = false) :
    dropBlanks (c :: s) = c :: s := by
  simp [dropBlanks, h]

theorem dropBlanks_append {a : Char} (ha : isBlank a = false) (u t : List Char) :
    dropBlanks (u ++ a :: t) = dropBlanks u ++ a :: t := by
  induction u with
  | nil => exact dropBlanks_cons_of_not ha
  | cons c u ih =>
    cases hc : isBlank c with
    | true => simpa [dropBlanks, hc] using ih
    | false =>
      rw [dropBlanks_cons_of_not hc]
      exact dropBlanks_cons_of_not hc

theorem trimRight_prefix (s : List Char) : trimRight s <+: s := by
  rw [trimRight, ← List.reverse_suffix, List.reverse_reverse]
  exact List.dropWhile_suffix _

end Storefront.Text
