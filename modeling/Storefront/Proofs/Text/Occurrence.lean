import Mathlib.Data.List.Infix
import Storefront.Text.Search

/-!
How often a pattern occurs in a text. A text can be counted on its own where it does not end within
the pattern, whatever comes after it.
-/

namespace Storefront.Text

/-- The number of places where the pattern begins. -/
def occurrences (pattern s : List Char) : Nat := s.tails.countP (pattern.isPrefixOf ·)

/-- The text brings `n` occurrences to every text that it stands before. -/
def Brings (pattern : List Char) (n : Nat) (s : List Char) : Prop :=
  ∀ t, occurrences pattern (s ++ t) = n + occurrences pattern t

/-- No end of the text is a proper beginning of the pattern. -/
def isClosed (pattern s : List Char) : Bool :=
  s.tails.all fun u => u.isEmpty || !u.isPrefixOf pattern || pattern.length ≤ u.length

variable {pattern p s t : List Char} {c : Char} {m n : Nat}

theorem infix_intercalate {line : String} {lines : List String} (h : line ∈ lines) :
    line.toList <:+: ("\n".intercalate lines).toList := by
  induction lines with
  | nil => cases h
  | cons first lines ih =>
    cases lines with
    | nil =>
      rw [List.mem_singleton.1 h, String.intercalate_singleton]
    | cons next lines =>
      rw [String.intercalate_cons_cons, String.toList_append]
      obtain rfl | h := List.mem_cons.1 h
      · rw [String.toList_append, List.append_assoc]
        exact (List.prefix_append _ _).isInfix
      · exact (ih h).trans (List.suffix_append _ _).isInfix

theorem occurrences_cons (pattern : List Char) (c : Char) (s : List Char) :
    occurrences pattern (c :: s) =
      (if pattern.isPrefixOf (c :: s) then 1 else 0) + occurrences pattern s := by
  rw [occurrences, List.tails_cons, List.countP_cons, Nat.add_comm]
  rfl

theorem occurrences_nil (c : Char) (p : List Char) : occurrences (c :: p) [] = 0 := rfl

/-- Where no end of a text begins the pattern, what comes after the text does not matter. -/
theorem isPrefixOf_append_of_isClosed (h : isClosed pattern (c :: s) = true) (t : List Char) :
    pattern.isPrefixOf (c :: s ++ t) = pattern.isPrefixOf (c :: s) := by
  rw [isClosed, List.tails_cons, List.all_cons, Bool.and_eq_true] at h
  simp only [List.isEmpty_cons, Bool.false_or, Bool.or_eq_true, decide_eq_true_eq,
    Bool.not_eq_true'] at h
  rw [Bool.eq_iff_iff, List.isPrefixOf_iff_prefix, List.isPrefixOf_iff_prefix]
  refine ⟨fun hprefix => ?_, fun hprefix => hprefix.trans (List.prefix_append _ t)⟩
  rcases Nat.le_total pattern.length (c :: s).length with hle | hle
  · exact List.prefix_of_prefix_length_le hprefix (List.prefix_append _ t) hle
  · have hstart : c :: s <+: pattern :=
      List.prefix_of_prefix_length_le (List.prefix_append _ t) hprefix hle
    obtain hnot | hlength := h.1
    · exact absurd (List.isPrefixOf_iff_prefix.2 hstart) (Bool.eq_false_iff.1 hnot)
    · rw [hstart.eq_of_length_le hlength]

namespace Brings

theorem nil (pattern : List Char) : Brings pattern 0 [] := fun _ => (Nat.zero_add _).symm

theorem append (hs : Brings pattern m s) (ht : Brings pattern n t) :
    Brings pattern (m + n) (s ++ t) := by
  intro u
  rw [List.append_assoc, hs, ht, Nat.add_assoc]

theorem occurrences_eq (h : Brings (c :: p) n s) : occurrences (c :: p) s = n := by
  simpa [occurrences_nil] using h []

/-- Where the pattern cannot begin it does not occur. -/
theorem of_not_mem (h : c ∉ s) : Brings (c :: p) 0 s := by
  intro t
  induction s with
  | nil => exact (Nat.zero_add _).symm
  | cons d s ih =>
    rw [List.mem_cons, not_or] at h
    rw [List.cons_append, occurrences_cons, ih h.2]
    have hstart : (c :: p).isPrefixOf (d :: (s ++ t)) = false := by
      rw [List.isPrefixOf_cons_cons, beq_eq_false_iff_ne.2 h.1, Bool.false_and]
    rw [hstart, if_neg Bool.false_ne_true, Nat.zero_add]

theorem of_isClosed (h : isClosed (c :: p) s = true) :
    Brings (c :: p) (occurrences (c :: p) s) s := by
  intro t
  induction s with
  | nil => exact (Nat.zero_add _).symm
  | cons d s ih =>
    have htail : isClosed (c :: p) s = true := by
      rw [isClosed, List.tails_cons, List.all_cons, Bool.and_eq_true] at h
      exact h.2
    have hstart := isPrefixOf_append_of_isClosed h t
    rw [List.cons_append] at hstart ⊢
    rw [occurrences_cons, occurrences_cons, ih htail, hstart, Nat.add_assoc]

end Brings

end Storefront.Text
