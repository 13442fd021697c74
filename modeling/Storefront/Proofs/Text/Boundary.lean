import Mathlib.Data.List.TakeWhile
import Storefront.Text.Blank
import Storefront.Text.Dotted

/-!
Where runs of characters end. A blank ends words, digits and dotted names; a run that a text leaves
off with ends at whatever comes behind the text and does not go on with it.
-/

namespace Storefront.Text

/-- The code points of the blanks. -/
private def blankCodes : List Nat := [
  0x09, 0x0a, 0x0b, 0x0c, 0x0d, 0x1c, 0x1d, 0x1e, 0x1f, 0x20, 0x85, 0xa0, 0x1680, 0x2000, 0x2001,
  0x2002, 0x2003, 0x2004, 0x2005, 0x2006, 0x2007, 0x2008, 0x2009, 0x200a, 0x2028, 0x2029, 0x202f,
  0x205f, 0x3000]

/-- What holds of all blanks can be checked one by one. -/
private theorem of_isBlank {p : Char → Bool} (hp : blankCodes.all fun n => p (Char.ofNat n))
    {c : Char} (h : isBlank c = true) : p c = true := by
  have hc : c.toNat ∈ blankCodes := by
    simp only [isBlank, Bool.or_eq_true, Bool.and_eq_true, decide_eq_true_eq] at h
    simp only [blankCodes, List.mem_cons, List.not_mem_nil, or_false]
    omega
  simpa using List.all_eq_true.1 hp c.toNat hc

/-- A character that passes a test is none that fails it. -/
theorem ne_of_test {p : Char → Bool} {c d : Char} (hc : p c = true) (hd : p d = false) : c ≠ d :=
  ne_of_apply_ne p fun heq => Bool.noConfusion (hc.symm.trans (heq.trans hd))

theorem isWord_eq_false_of_isBlank {c : Char} (h : isBlank c = true) : isWord c = false := by
  simpa using of_isBlank (p := fun c => !isWord c) (by decide +kernel) h

theorem isDigit_eq_false_of_isBlank {c : Char} (h : isBlank c = true) : isDigit c = false := by
  simpa using of_isBlank (p := fun c => !isDigit c) (by decide +kernel) h

theorem isBlank_eq_false_of_isWord {c : Char} (h : isWord c = true) : isBlank c = false := by
  rw [Bool.eq_false_iff]
  intro hb
  exact ne_of_test h (isWord_eq_false_of_isBlank hb) rfl

/-- A name that goes on to the end of its text ends at the blank after it. -/
theorem takeWhile_isWord_append_blank (x s : List Char) :
    (x ++ ' ' :: s).takeWhile isWord = x.takeWhile isWord := by
  have hblank : isWord ' ' = false := by decide
  induction x with
  | nil => simp [hblank]
  | cons c x ih => simp only [List.cons_append, List.takeWhile_cons, ih]

/-- A run of characters ends where the text does, unless what follows goes on with it. -/
theorem takeWhile_append_of_head? {p : Char → Bool} {r : List Char}
    (hr : ∀ c ∈ r.head?, p c = false) (s : List Char) :
    (s ++ r).takeWhile p = s.takeWhile p ∧ (s ++ r).dropWhile p = s.dropWhile p ++ r := by
  induction s with
  | nil =>
    cases r with
    | nil => exact ⟨rfl, rfl⟩
    | cons c r => simp [hr c rfl]
  | cons c s ih =>
    cases hc : p c with
    | true => simp [hc, ih]
    | false => simp [hc]

/-! ### Dotted names -/

/-- Dotted names end where a character comes that no name holds. -/
theorem takeDotted_append_of_not {a : Char} (ha : isSegmentChar a = false) (hdot : a ≠ '.')
    (s r : List Char) :
    takeDotted (s ++ a :: r) = ((takeDotted s).1, (takeDotted s).2 ++ a :: r) := by
  fun_induction takeDotted s with
  | case1 => cases r <;> simp [takeDotted, ha, hdot]
  | case2 c hc => cases r <;> simp [takeDotted, hc, ha, hdot]
  | case3 c hc => cases r <;> simp [takeDotted, hc, ha]
  | case4 c d s hcd name rest heq ih =>
    simp only [List.cons_append] at ih ⊢
    rw [takeDotted, if_pos hcd, ih, heq]
  | case5 c d s hcd =>
    simp only [List.cons_append]
    rw [takeDotted, if_neg hcd]

theorem not_mem_takeDotted {a : Char} (hsegment : isSegmentChar a = false) (hdot : a ≠ '.')
    (s : List Char) : a ∉ (takeDotted s).1 := by
  fun_induction takeDotted s with
  | case1 => exact List.not_mem_nil
  | case2 c hc =>
    intro h
    rw [List.mem_singleton.1 h, hc] at hsegment
    exact Bool.noConfusion hsegment
  | case3 => exact List.not_mem_nil
  | case4 c d s hc name rest heq ih =>
    intro h
    rcases List.mem_cons.1 h with rfl | h
    · simp [hsegment, hdot] at hc
    · exact ih (by rwa [heq])
  | case5 => exact List.not_mem_nil

/-! ### Parts between separators -/

theorem splitOn_of_not_mem {separator : Char} {s : List Char} (h : separator ∉ s) :
    splitOn separator s = [s] := by
  induction s with
  | nil => rfl
  | cons c s ih =>
    rw [List.mem_cons, not_or] at h
    obtain ⟨hc, hs⟩ := h
    rw [splitOn, ih hs]
    exact if_neg (Ne.symm hc)

theorem splitOn_append (separator : Char) (s t : List Char) :
    splitOn separator (s ++ separator :: t) = splitOn separator s ++ splitOn separator t := by
  induction s with
  | nil =>
    rw [List.nil_append, splitOn]
    exact if_pos rfl
  | cons c s ih =>
    rw [List.cons_append, splitOn, splitOn, ih]
    cases hs : splitOn separator s with
    | nil => exact absurd hs (splitOn_ne_nil separator s)
    | cons part parts =>
      by_cases hc : c = separator
      · simp [hc]
      · simp [hc]

theorem splitOn_append_cons {separator : Char} {s : List Char} (h : separator ∉ s)
    (t : List Char) : splitOn separator (s ++ separator :: t) = s :: splitOn separator t := by
  rw [splitOn_append, splitOn_of_not_mem h]
  rfl

theorem splitOn_intercalate {separator : Char} {parts : List (List Char)} (hparts : parts ≠ [])
    (h : ∀ part ∈ parts, separator ∉ part) :
    splitOn separator ([separator].intercalate parts) = parts := by
  induction parts with
  | nil => exact absurd rfl hparts
  | cons part parts ih =>
    obtain ⟨hpart, hrest⟩ := List.forall_mem_cons.1 h
    cases parts with
    | nil => simpa [List.intercalate] using splitOn_of_not_mem hpart
    | cons next parts =>
      have hcons : [separator].intercalate (part :: next :: parts) =
          part ++ separator :: [separator].intercalate (next :: parts) := by
        simp [List.intercalate]
      rw [hcons, splitOn_append_cons hpart, ih (List.cons_ne_nil _ _) hrest]

theorem not_mem_of_mem_splitOn {separator : Char} {s part : List Char}
    (h : part ∈ splitOn separator s) : separator ∉ part := by
  induction s generalizing part with
  | nil =>
    rw [List.mem_singleton.1 h]
    exact List.not_mem_nil
  | cons c s ih =>
    rw [splitOn] at h
    cases hs : splitOn separator s with
    | nil => exact absurd hs (splitOn_ne_nil separator s)
    | cons first parts =>
      rw [hs] at h ih
      split at h
      · rcases List.mem_cons.1 h with rfl | h
        · exact List.not_mem_nil
        · exact ih h
      · next hc =>
        have hnone : ∀ part ∈ first :: parts, separator ∉ part := fun _ => ih
        obtain ⟨hfirst, hparts⟩ := List.forall_mem_cons.1 hnone
        rcases List.mem_cons.1 h with rfl | h
        · exact List.not_mem_cons_of_ne_of_not_mem (Ne.symm hc) hfirst
        · exact hparts part h

/-! ### Trimming -/

theorem exists_blanks_of_trimRight (s : List Char) :
    ∃ blanks, s = trimRight s ++ blanks ∧ ∀ c ∈ blanks, isBlank c = true := by
  refine ⟨(s.reverse.takeWhile isBlank).reverse, ?_, fun c hc => ?_⟩
  · rw [trimRight, ← List.reverse_append, List.takeWhile_append_dropWhile, List.reverse_reverse]
  · exact List.mem_takeWhile_imp (List.mem_reverse.1 hc)

/-- A text ends with the blanks of its last part, as long as this has anything else. -/
theorem trimRight_append {t : List Char} (h : trimRight t ≠ []) (s : List Char) :
    trimRight (s ++ t) = s ++ trimRight t := by
  have hne : t.reverse.dropWhile isBlank ≠ [] := fun hnil => h (by rw [trimRight, hnil]; rfl)
  rw [trimRight, List.reverse_append, List.dropWhile_append, if_neg (by simpa using hne),
    List.reverse_append, List.reverse_reverse, trimRight]

/-- All is trimmed where all is blank. -/
theorem trim_eq_nil_iff {s : List Char} : trim s = [] ↔ ∀ c ∈ s, isBlank c := by
  have hright : trim s = [] ↔ ∀ c ∈ dropBlanks s, isBlank c := by
    simp [trim, trimRight, List.dropWhile_eq_nil_iff]
  rw [hright]
  constructor
  · intro h c hc
    rw [← List.takeWhile_append_dropWhile (p := isBlank) (l := s)] at hc
    rcases List.mem_append.1 hc with hc | hc
    · exact List.mem_takeWhile_imp hc
    · exact h c hc
  · intro h c hc
    exact h c ((List.dropWhile_suffix _).subset hc)

theorem trimmed_ne_empty_iff {s : String} :
    trimmed s ≠ "" ↔ ∃ c ∈ s.toList, isBlank c = false := by
  have hnil : trimmed s = "" ↔ trim s.toList = [] := by
    rw [trimmed, ← String.toList_inj, String.toList_ofList]
    rfl
  simp [hnil, trim_eq_nil_iff]

end Storefront.Text
