/-!
Search for a text in another one.
-/

namespace Storefront.Text

/-- What stands before and after the first place where `mark` occurs. -/
def cutAt? (mark : List Char) : List Char → Option (List Char × List Char)
  | [] => if mark.isEmpty then some ([], []) else none
  | c :: s =>
    if mark.isPrefixOf (c :: s) then some ([], (c :: s).drop mark.length)
    else (cutAt? mark s).map fun (before, rest) => (c :: before, rest)

theorem eq_append_of_cutAt? {mark s before rest : List Char}
    (h : cutAt? mark s = some (before, rest)) : s = before ++ mark ++ rest := by
  induction s generalizing before with
  | nil =>
    simp only [cutAt?] at h
    split at h
    · next hm => simp_all
    · simp at h
  | cons c s ih =>
    simp only [cutAt?] at h
    split at h
    · next hp =>
      obtain ⟨t, ht⟩ := List.isPrefixOf_iff_prefix.1 hp
      cases h
      simp [← ht]
    · obtain ⟨⟨b, r⟩, hb, he⟩ := Option.map_eq_some_iff.1 h
      cases he
      simp [ih hb]

/-- The text is cut where the mark occurs first. -/
theorem length_le_of_cutAt? {mark s before rest before' behind : List Char}
    (h : cutAt? mark s = some (before, rest)) (hs : s = before' ++ (mark ++ behind)) :
    before.length ≤ before'.length := by
  induction s generalizing before before' with
  | nil =>
    rw [cutAt?] at h
    split at h
    · cases h
      exact Nat.zero_le _
    · cases h
  | cons c s ih =>
    rw [cutAt?] at h
    split at h
    · cases h
      exact Nat.zero_le _
    · next hstart =>
      obtain ⟨⟨first, rest'⟩, hcut, heq⟩ := Option.map_eq_some_iff.1 h
      cases heq
      cases before' with
      | nil =>
        rw [List.nil_append] at hs
        exact absurd (List.isPrefixOf_iff_prefix.2 (hs ▸ List.prefix_append mark behind)) hstart
      | cons d before' =>
        obtain ⟨-, hs⟩ := List.cons.inj hs
        exact Nat.succ_le_succ (ih hcut hs)

theorem cutAt?_ne_none (mark before behind : List Char) :
    cutAt? mark (before ++ (mark ++ behind)) ≠ none := by
  induction before with
  | nil =>
    cases h : mark ++ behind with
    | nil =>
      obtain ⟨rfl, -⟩ := List.append_eq_nil_iff.1 h
      exact Option.some_ne_none _
    | cons c s =>
      have hprefix : mark.isPrefixOf (c :: s) = true :=
        List.isPrefixOf_iff_prefix.2 (h ▸ List.prefix_append mark behind)
      rw [List.nil_append, cutAt?, if_pos hprefix]
      exact Option.some_ne_none _
  | cons c before ih =>
    rw [List.cons_append, cutAt?]
    split
    · exact Option.some_ne_none _
    · exact fun hnone => ih (Option.map_eq_none_iff.1 hnone)

theorem cutAt?_eq_none_iff {mark s : List Char} :
    cutAt? mark s = none ↔ ¬∃ before behind, s = before ++ (mark ++ behind) := by
  constructor
  · rintro hnone ⟨before, behind, rfl⟩
    exact cutAt?_ne_none mark before behind hnone
  · intro h
    rw [Option.eq_none_iff_forall_ne_some]
    intro ⟨before, behind⟩ hcut
    exact h ⟨before, behind, by rw [eq_append_of_cutAt? hcut, List.append_assoc]⟩

def occursIn (mark s : List Char) : Bool := (cutAt? mark s).isSome

theorem occursIn_iff {mark s : List Char} : occursIn mark s = true ↔ mark <:+: s := by
  rw [occursIn, Option.isSome_iff_ne_none, ne_eq, cutAt?_eq_none_iff, Classical.not_not]
  constructor
  · rintro ⟨before, behind, rfl⟩
    exact ⟨before, behind, List.append_assoc _ _ _⟩
  · rintro ⟨before, behind, rfl⟩
    exact ⟨before, behind, List.append_assoc _ _ _⟩

/-- The text with the first occurrence of `mark` replaced. -/
def replaceFirst (mark replacement s : List Char) : List Char :=
  match cutAt? mark s with
  | some (before, rest) => before ++ replacement ++ rest
  | none => s

def endsWith (s ending : List Char) : Bool := ending.reverse.isPrefixOf s.reverse

theorem endsWith_iff {s ending : List Char} : endsWith s ending = true ↔ ending <:+ s := by
  rw [endsWith, List.isPrefixOf_iff_prefix, List.reverse_prefix]

/-- The text without the ending, where it has it. -/
def dropEnding (ending s : List Char) : List Char :=
  if endsWith s ending then s.take (s.length - ending.length) else s

theorem dropEnding_append (s ending : List Char) : dropEnding ending (s ++ ending) = s := by
  rw [dropEnding, if_pos (endsWith_iff.2 (List.suffix_append s ending)), List.length_append,
    Nat.add_sub_cancel, List.take_left]

/-- What begins with no character of `s` and occurs in `s` and what follows it occurs in the latter. -/
theorem infix_of_infix_append {c : Char} {w s t : List Char} (hc : c ∉ s)
    (h : c :: w <:+: s ++ t) : c :: w <:+: t := by
  induction s with
  | nil => exact h
  | cons d s ih =>
    rcases List.infix_cons_iff.1 h with hstart | h
    · obtain ⟨rfl, -⟩ := List.cons_prefix_cons.1 hstart
      exact absurd List.mem_cons_self hc
    · exact ih (fun hmem => hc (List.mem_cons_of_mem d hmem)) h

end Storefront.Text
