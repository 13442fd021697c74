import Storefront.Proofs.Schema.Wrapping

/-!
Which schema block is found in a source: the one that the first opening tag begins and the first
closing tag behind it ends.
-/

namespace Storefront.Schema

/-- The tag of the word stands in the text after `before`, and none of the word starts earlier. -/
structure FirstTag (word s before tag rest : List Char) : Prop where
  isTag : IsTag word tag
  split : s = before ++ (tag ++ rest)
  first : ∀ b t r, IsTag word t → s = b ++ (t ++ r) → before.length ≤ b.length

namespace FirstTag

variable {word s before tag rest : List Char}

theorem exists_of_afterTag? (h : afterTag? word s = some rest) :
    ∃ tag, FirstTag word s [] tag rest := by
  obtain ⟨tag, htag, hs⟩ := Schema.exists_of_afterTag? h
  exact ⟨tag, htag, hs, fun _ _ _ _ _ => Nat.zero_le _⟩

/-- No tag of the word starts before the first one. -/
theorem untagged (h : FirstTag word s before tag rest) : Untagged word before := by
  rintro t ht ⟨b, r, hbefore⟩
  have hle : before.length ≤ b.length :=
    h.first b t (r ++ (tag ++ rest)) ht (by rw [h.split, ← hbefore]; simp)
  obtain ⟨u, rfl⟩ := ht.exists_eq_cons
  have hlength := congrArg List.length hbefore
  simp only [List.length_append, List.length_cons] at hlength
  omega

section words

variable (hword : ∀ w ∈ word, w.isLower = true) (hne : word ≠ [])

include hword hne

theorem cons {c : Char} (hc : afterTag? word (c :: s) = none)
    (h : FirstTag word s before tag rest) : FirstTag word (c :: s) (c :: before) tag rest := by
  refine ⟨h.isTag, congrArg (c :: ·) h.split, fun b t r ht hs => ?_⟩
  cases b with
  | nil =>
    rw [hs, List.nil_append, afterTag?_append hword hne ht] at hc
    cases hc
  | cons d b => exact Nat.succ_le_succ (h.first b t r ht (List.cons.inj hs).2)

end words

end FirstTag

/-! ### The closing tag -/

theorem beforeClosing?_eq_some_iff {s body : List Char} :
    beforeClosing? s = some body ↔
      ∃ closing behind, FirstTag closingWord s body closing behind := by
  constructor
  · intro h
    induction s generalizing body with
    | nil => cases h
    | cons c s ih =>
      rw [beforeClosing?] at h
      cases htag : afterTag? closingWord (c :: s) with
      | some behind =>
        rw [htag] at h
        cases h
        obtain ⟨closing, hfirst⟩ := FirstTag.exists_of_afterTag? htag
        exact ⟨closing, behind, hfirst⟩
      | none =>
        rw [htag] at h
        obtain ⟨body, hbody, rfl⟩ := Option.map_eq_some_iff.1 h
        obtain ⟨closing, behind, hfirst⟩ := ih hbody
        exact ⟨closing, behind, hfirst.cons isLower_closingWord (by decide) htag⟩
  · rintro ⟨closing, behind, hfirst⟩
    rw [hfirst.split]
    exact beforeClosing?_append hfirst.untagged hfirst.isTag behind

theorem beforeClosing?_ne_none {closing : List Char} (hclosing : IsTag closingWord closing)
    (mid behind : List Char) : beforeClosing? (mid ++ (closing ++ behind)) ≠ none := by
  induction mid with
  | nil =>
    obtain ⟨u, hbrace⟩ := hclosing.exists_eq_cons
    have hfound := afterTag?_append isLower_closingWord (by decide) hclosing behind
    rw [hbrace, List.cons_append] at hfound
    rw [List.nil_append, hbrace, List.cons_append, beforeClosing?, hfound]
    exact Option.some_ne_none _
  | cons c mid ih =>
    rw [List.cons_append, beforeClosing?]
    split
    · exact Option.some_ne_none _
    · exact fun hnone => ih (Option.map_eq_none_iff.1 hnone)

/-! ### The block -/

theorem findBody?_eq_some_iff {s body : List Char} :
    findBody? s = some body ↔ ∃ before opening rest closing behind,
      FirstTag openingWord s before opening rest ∧
        FirstTag closingWord rest body closing behind := by
  constructor
  · intro h
    induction s with
    | nil => cases h
    | cons c s ih =>
      rw [findBody?] at h
      cases htag : afterTag? openingWord (c :: s) with
      | some rest =>
        rw [htag] at h
        obtain ⟨opening, hopening⟩ := FirstTag.exists_of_afterTag? htag
        obtain ⟨closing, behind, hclosing⟩ := beforeClosing?_eq_some_iff.1 h
        exact ⟨[], opening, rest, closing, behind, hopening, hclosing⟩
      | none =>
        rw [htag] at h
        obtain ⟨before, opening, rest, closing, behind, hopening, hclosing⟩ := ih h
        exact ⟨c :: before, opening, rest, closing, behind,
          hopening.cons isLower_openingWord (by decide) htag, hclosing⟩
  · rintro ⟨before, opening, rest, closing, behind, hopening, hclosing⟩
    rw [hopening.split, hclosing.split]
    exact findBody?_append hopening.untagged hopening.isTag hclosing.untagged hclosing.isTag behind

/-- A text in which a closing tag stands behind an opening tag. -/
def HasBlock (s : List Char) : Prop := ∃ before opening mid closing behind,
  IsTag openingWord opening ∧ IsTag closingWord closing ∧
    s = before ++ (opening ++ (mid ++ (closing ++ behind)))

theorem findBody?_ne_none {s : List Char} (h : HasBlock s) : findBody? s ≠ none := by
  obtain ⟨before, opening, mid, closing, behind, hopening, hclosing, rfl⟩ := h
  obtain ⟨u, hbrace⟩ := hopening.exists_eq_cons
  have hfound :=
    afterTag?_append isLower_openingWord (by decide) hopening (mid ++ (closing ++ behind))
  rw [hbrace, List.cons_append] at hfound
  rw [hbrace, List.cons_append]
  induction before with
  | nil =>
    rw [List.nil_append, findBody?, hfound]
    exact beforeClosing?_ne_none hclosing mid behind
  | cons c before ih =>
    rw [List.cons_append, findBody?]
    cases htag : afterTag? openingWord
        (c :: (before ++ '\x7b' :: (u ++ (mid ++ (closing ++ behind))))) with
    | none => exact ih
    | some rest =>
      -- An earlier opening tag ends before this one, so the closing tag is behind it as well.
      obtain ⟨t, ht, hsplit⟩ := exists_of_afterTag? htag
      obtain ⟨v, -, rfl⟩ := ht.exists_rest isLower_openingWord hsplit
      have htext : v ++ '\x7b' :: (u ++ (mid ++ (closing ++ behind))) =
          (v ++ '\x7b' :: (u ++ mid)) ++ (closing ++ behind) := by simp
      rw [htext]
      exact beforeClosing?_ne_none hclosing _ behind

theorem hasBlock_of_findBody? {s body : List Char} (h : findBody? s = some body) : HasBlock s := by
  obtain ⟨before, opening, rest, closing, behind, hopening, hclosing⟩ := findBody?_eq_some_iff.1 h
  exact ⟨before, opening, body, closing, behind, hopening.isTag, hclosing.isTag,
    by rw [← hclosing.split, ← hopening.split]⟩

/-- The body that is found reaches from the leftmost opening tag to the first closing tag behind it,
and there is none just where no closing tag stands behind an opening tag. Neither how the two tags
are spelled nor what follows the second one matters. -/
theorem findBody?_finds_first (s : List Char) :
    (findBody? s = none ↔ ¬HasBlock s) ∧
    (∀ body, findBody? s = some body ↔ ∃ before opening rest closing behind,
      FirstTag openingWord s before opening rest ∧ FirstTag closingWord rest body closing behind) ∧
    (∀ body, findBody? s = some body → Untagged closingWord body) ∧
    (∀ before opening rest, FirstTag openingWord s before opening rest →
      ∀ opening', IsTag openingWord opening' →
        findBody? (before ++ (opening' ++ rest)) = findBody? s) ∧
    ∀ before opening rest body closing behind, FirstTag openingWord s before opening rest →
      FirstTag closingWord rest body closing behind →
        ∀ opening' closing' behind', IsTag openingWord opening' → IsTag closingWord closing' →
          findBody? (before ++ (opening' ++ (body ++ (closing' ++ behind')))) = findBody? s := by
  refine ⟨⟨fun hnone hblock => findBody?_ne_none hblock hnone, fun hnot => ?_⟩,
    fun body => findBody?_eq_some_iff, fun body h => ?_,
    fun before opening rest hopening opening' hopening' => ?_,
    fun before opening rest body closing behind hopening hclosing opening' closing' behind'
      hopening' hclosing' => ?_⟩
  · rw [Option.eq_none_iff_forall_ne_some]
    exact fun body h => hnot (hasBlock_of_findBody? h)
  · obtain ⟨before, opening, rest, closing, behind, -, hclosing⟩ := findBody?_eq_some_iff.1 h
    exact hclosing.untagged
  · rw [hopening.split, findBody?_eq_beforeClosing? hopening.untagged hopening.isTag,
      findBody?_eq_beforeClosing? hopening.untagged hopening']
  · have hbody : findBody? s = some body :=
      findBody?_eq_some_iff.2 ⟨before, opening, rest, closing, behind, hopening, hclosing⟩
    rw [hbody]
    exact findBody?_append hopening.untagged hopening' hclosing.untagged hclosing' behind'

/-- A half of a tag in front, a second opening tag in the body and tags in capitals instead. -/
theorem findBody?_finds_first_nested :
    let s := "\x7b%- \x7b% schema %\x7da\x7b% schema %\x7db\x7b%-endschema%\x7dc".toList
    let body := "a\x7b% schema %\x7db".toList
    findBody? s = some body ∧ Untagged closingWord body ∧
      ∃ before opening rest closing behind, FirstTag openingWord s before opening rest ∧
        FirstTag closingWord rest body closing behind ∧
        findBody? (before ++ ("\x7b%SCHEMA-%\x7d".toList ++
          (body ++ ("\x7b%\nENDSCHEMA%\x7d".toList ++ "d".toList)))) = findBody? s := by
  intro s body
  have hbody : findBody? s = some body := by decide
  have hspelled : Spells openingWord "SCHEMA".toList := by
    unfold Spells
    decide
  have hendSpelled : Spells closingWord "ENDSCHEMA".toList := by
    unfold Spells
    decide
  have hopening' : IsTag openingWord "\x7b%SCHEMA-%\x7d".toList :=
    ⟨[], "SCHEMA".toList, ['-'], List.all_eq_true.1 (by decide), hspelled,
      List.all_eq_true.1 (by decide), rfl⟩
  have hclosing' : IsTag closingWord "\x7b%\nENDSCHEMA%\x7d".toList :=
    ⟨['\n'], "ENDSCHEMA".toList, [], List.all_eq_true.1 (by decide), hendSpelled,
      List.all_eq_true.1 (by decide), rfl⟩
  obtain ⟨-, hsome, huntagged, -, hrespelled⟩ := findBody?_finds_first s
  obtain ⟨before, opening, rest, closing, behind, hopening, hclosing⟩ := (hsome body).1 hbody
  exact ⟨hbody, huntagged body hbody, before, opening, rest, closing, behind, hopening, hclosing,
    hrespelled before opening rest body closing behind hopening hclosing _ _ _ hopening' hclosing'⟩

end Storefront.Schema
