import Storefront.Proofs.Json.Segment

/-!
Texts without comments. What is left of a text splits into those segments of the text that are no
comments, also where a comment is gone from between two of them, since the character before a
comment is never a slash. So nothing that is left opens a comment outside of strings, and no more is
taken from it (`commentFree_stripComments`).
-/

namespace Storefront.Json

/-- The text leaves no string open: it is made of characters other than quotes, and of string
literals up to their ends. -/
inductive OutsideStrings : List Char → Prop
  | nil : OutsideStrings []
  | char {c : Char} {s : List Char} (hc : c ≠ '"') (h : OutsideStrings s) : OutsideStrings (c :: s)
  | string {t s : List Char} (ht : Content t) (h : OutsideStrings s) :
    OutsideStrings ('"' :: (t ++ '"' :: s))

/-- Nowhere outside of its strings does the text go on with `//` or `/*`. -/
def CommentFree (s : List Char) : Prop :=
  ∀ u v, s = u ++ v → OutsideStrings u → ∀ l : Lexeme, l.isComment = true → ¬l.opening <+: v

/-! ### Texts whose segments are no comments -/

namespace Lexeme

theorem ne_code_of_isComment (l : Lexeme) (h : l.isComment = true) : l ≠ .code := by
  rintro rfl
  cases h

theorem not_opening_prefix_nil {l : Lexeme} (hl : l ≠ .code) : ¬l.opening <+: [] := by
  cases l with
  | code => exact absurd rfl hl
  | _ => decide

end Lexeme

namespace Segment.FollowedBy

variable {g : Segment} {rest : List Char}

theorem begins (h : g.FollowedBy rest) : g.lexeme.opening <+: g.text ++ rest := by
  cases h with
  | code => exact List.nil_prefix
  | opened =>
    rw [List.append_assoc]
    exact List.prefix_append _ _

theorem isComment_of_opening {l : Lexeme} (hl : l.isComment = true) (h : g.FollowedBy rest)
    (hopen : l.opening <+: g.text ++ rest) : g.isComment = true := by
  have hcode := l.ne_code_of_isComment hl
  cases h with
  | code h => exact absurd hopen (h l hcode)
  | opened hm h =>
    obtain rfl := Lexeme.eq_of_opening_prefix hcode hm hopen (begins (.opened hm h))
    exact hl

/-- Where a string has no end nothing follows it. -/
theorem outsideStrings_append (h : g.FollowedBy rest) (hkept : g.isComment = false) :
    rest = [] ∨ ∀ u, OutsideStrings u → OutsideStrings (g.text ++ u) := by
  cases h with
  | @code c _ h =>
    refine .inr fun u hu => .char ?_ hu
    rintro rfl
    exact h .string (by decide) ⟨rest, rfl⟩
  | @opened l t _ hl h =>
    cases h with
    | @string t ht =>
      refine .inr fun u hu => ?_
      have hu' := OutsideStrings.string ht hu
      simpa [Lexeme.opening] using hu'
    | openString | openEscape | openLine | openBlock => exact .inl rfl
    | lineComment | blockComment => cases hkept

end Segment.FollowedBy

theorem CommentFree.of_append {g : Segment} {rest : List Char} (hg : g.FollowedBy rest)
    (hkept : g.isComment = false) (h : CommentFree (g.text ++ rest)) : CommentFree rest := by
  intro u v hrest hu l hl hopen
  rcases hg.outsideStrings_append hkept with rfl | houtside
  · obtain ⟨-, rfl⟩ := List.append_eq_nil_iff.1 hrest.symm
    exact Lexeme.not_opening_prefix_nil (l.ne_code_of_isComment hl) hopen
  · refine h (g.text ++ u) v ?_ (houtside u hu) l hl hopen
    rw [hrest, List.append_assoc]

namespace Splits

variable {s u v : List Char} {segments : List Segment}

/-- Where no segment is a comment, one begins at each place outside of strings. -/
theorem of_outsideStrings (h : Splits (u ++ v) segments)
    (hkept : ∀ g ∈ segments, g.isComment = false) (hu : OutsideStrings u) :
    ∃ after, after <:+ segments ∧ Splits v after := by
  induction hu generalizing segments with
  | nil => exact ⟨segments, List.suffix_rfl, h⟩
  | @char c s hc _ ih =>
    obtain ⟨g, rest, after, hs, rfl, hg, hafter⟩ := h.exists_cons (List.cons_ne_nil _ _)
    obtain ⟨hfirst, hlast⟩ := List.forall_mem_cons.1 hkept
    cases hg with
    | code =>
      obtain ⟨rfl, rfl⟩ := List.cons.inj hs
      obtain ⟨later, hlater, hv⟩ := ih hafter hlast
      exact ⟨later, hlater.trans (List.suffix_cons _ _), hv⟩
    | @opened l _ _ hl =>
      cases l with
      | code => exact absurd rfl hl
      | string => exact absurd (List.cons.inj hs).1 hc
      | lineComment | blockComment => cases hfirst
  | @string t s ht _ ih =>
    obtain ⟨g, rest, after, hs, rfl, hg, hafter⟩ := h.exists_cons (List.cons_ne_nil _ _)
    -- The literal is a segment, and no other segment begins where it does.
    have hliteral : Segment.FollowedBy ⟨.string, '"' :: (t ++ ['"'])⟩ (s ++ v) :=
      .opened (l := .string) (by decide) (.string ht (s ++ v))
    have htext : '"' :: (t ++ ['"']) ++ (s ++ v) = g.text ++ rest := by
      rw [← hs]
      simp
    obtain ⟨rfl, rfl⟩ := hliteral.unique hg htext
    obtain ⟨later, hlater, hv⟩ := ih hafter (List.forall_mem_cons.1 hkept).2
    exact ⟨later, hlater.trans (List.suffix_cons _ _), hv⟩

theorem commentFree_iff (h : Splits s segments) :
    CommentFree s ↔ ∀ g ∈ segments, g.isComment = false := by
  constructor
  · intro hfree
    induction h with
    | nil => exact List.forall_mem_nil _
    | @cons g rest segments hg _ ih =>
      have hkept : g.isComment = false := by
        by_contra hcomment
        rw [Bool.not_eq_false] at hcomment
        exact hfree [] _ rfl .nil g.lexeme hcomment hg.begins
      exact List.forall_mem_cons.2 ⟨hkept, ih (hfree.of_append hg hkept)⟩
  · rintro hkept u v rfl hu l hl hopen
    obtain ⟨after, hafter, hv⟩ := h.of_outsideStrings hkept hu
    have hne : v ≠ [] := by
      rintro rfl
      exact Lexeme.not_opening_prefix_nil (l.ne_code_of_isComment hl) hopen
    obtain ⟨g, rest, later, rfl, rfl, hg, -⟩ := hv.exists_cons hne
    have hcomment := hg.isComment_of_opening hl hopen
    rw [hkept g (hafter.subset List.mem_cons_self)] at hcomment
    exact Bool.false_ne_true hcomment

end Splits

/-! ### What is left of a text -/

/-- What begins with no slash keeps its first character, since a comment begins with one. -/
theorem head?_stripComments {s : List Char} (h : s.head? ≠ some '/') :
    (stripComments s).head? = s.head? := by
  cases s with
  | nil => rfl
  | cons c s =>
    have hc : c ≠ '/' := fun hc => h (congrArg some hc)
    rw [stripComments]
    by_cases hquote : c = '"'
    · subst hquote
      rfl
    · rw [stripFrom]
      · rfl
      · exact hquote
      · exact fun _ hslash => absurd hslash hc
      · exact fun _ hslash => absurd hslash hc

theorem pair_prefix_cons_iff {a b c : Char} {s : List Char} :
    [a, b] <+: c :: s ↔ a = c ∧ s.head? = some b := by
  rw [List.cons_prefix_cons]
  cases s <;> simp [eq_comm]

/-- A character does not open anything with the character behind a comment. It would have to be a
slash, and with the slash of the comment it would have opened one before. -/
theorem exists_opening_of_stripComments {l : Lexeme} (hl : l ≠ .code) {c : Char} {s : List Char}
    (h : l.opening <+: c :: stripComments s) : ∃ m : Lexeme, m ≠ .code ∧ m.opening <+: c :: s := by
  have hpair {b : Char} (hopening : l.opening = ['/', b]) :
      ∃ m : Lexeme, m ≠ .code ∧ m.opening <+: c :: s := by
    rw [hopening, pair_prefix_cons_iff] at h
    obtain ⟨hc, hb⟩ := h
    by_cases hs : s.head? = some '/'
    · exact ⟨.lineComment, by decide, pair_prefix_cons_iff.2 ⟨hc, hs⟩⟩
    · rw [head?_stripComments hs] at hb
      exact ⟨l, hl, hopening ▸ pair_prefix_cons_iff.2 ⟨hc, hb⟩⟩
  cases l with
  | code => exact absurd rfl hl
  | string =>
    obtain ⟨rfl, -⟩ := List.cons_prefix_cons.1 h
    exact ⟨.string, hl, s, rfl⟩
  | lineComment => exact hpair rfl
  | blockComment => exact hpair rfl

theorem Segment.FollowedBy.followedBy_stripComments {g : Segment} {rest : List Char}
    (h : g.FollowedBy rest) (hkept : g.isComment = false) : g.FollowedBy (stripComments rest) := by
  cases h with
  | code h =>
    refine .code fun l hl hopen => ?_
    obtain ⟨m, hm, hopen⟩ := exists_opening_of_stripComments hl hopen
    exact h m hm hopen
  | opened hl h =>
    cases h with
    | string h rest => exact .opened hl (.string h _)
    | openString h => exact .opened hl (.openString h)
    | openEscape h => exact .opened hl (.openEscape h)
    | lineComment | openLine | blockComment | openBlock => cases hkept

namespace Splits

variable {s : List Char} {segments : List Segment}

theorem splits_stripComments (h : Splits s segments) :
    Splits (stripComments s) (segments.filter (!·.isComment)) := by
  induction h with
  | nil => exact .nil
  | @cons g rest segments hg _ ih =>
    rw [stripComments, hg.stripFrom_append]
    cases hcomment : g.isComment with
    | true =>
      rw [Segment.kept_of_isComment hcomment, List.filter_cons_of_neg (by simp [hcomment])]
      exact ih
    | false =>
      rw [Segment.kept_of_not_isComment hcomment, List.filter_cons_of_pos (by simp [hcomment])]
      exact .cons (hg.followedBy_stripComments hcomment) ih

theorem stripComments_eq_self (h : Splits s segments)
    (hkept : ∀ g ∈ segments, g.isComment = false) : stripComments s = s := by
  rw [h.stripComments_eq, flatMap_kept, List.filter_eq_self.2 (by simpa using hkept),
    h.flatMap_text]

end Splits

theorem CommentFree.stripComments_eq {s : List Char} (h : CommentFree s) : stripComments s = s := by
  obtain ⟨segments, hs⟩ := exists_splits s
  exact hs.stripComments_eq_self (hs.commentFree_iff.1 h)

/-- What is left of a text has no comment outside of its strings, so that no more is taken from it:
only texts without comments are left as they are. It splits into the segments of the text that are
no comments, also where comments have stood between them. -/
theorem commentFree_stripComments (s : List Char) :
    CommentFree (stripComments s) ∧ stripComments (stripComments s) = stripComments s ∧
      (stripComments s = s ↔ CommentFree s) ∧
      ∀ segments, Splits s segments →
        Splits (stripComments s) (segments.filter (!·.isComment)) := by
  have hfree (s : List Char) : CommentFree (stripComments s) := by
    obtain ⟨segments, hs⟩ := exists_splits s
    refine hs.splits_stripComments.commentFree_iff.2 fun g hg => ?_
    simpa using (List.mem_filter.1 hg).2
  refine ⟨hfree s, (hfree s).stripComments_eq, ⟨fun h => ?_, CommentFree.stripComments_eq⟩,
    fun segments h => h.splits_stripComments⟩
  rw [← h]
  exact hfree s

/-- A comment between a star and a slash, and the mark of one in a string that ends with the text. -/
theorem commentFree_stripComments_between :
    let s := "*/**//\"//\\".toList
    let segments : List Segment := [⟨.code, ['*']⟩, ⟨.blockComment, "/**/".toList⟩,
      ⟨.code, ['/']⟩, ⟨.string, "\"//\\".toList⟩]
    Splits s segments ∧ Splits "*/\"//\\".toList (segments.filter (!·.isComment)) ∧
      stripComments s = "*/\"//\\".toList ∧ CommentFree "*/\"//\\".toList := by
  intro s segments
  have hstar : Segment.FollowedBy ⟨.code, ['*']⟩ "/**//\"//\\".toList := .code fun l hl => by
    cases l <;> simp [Lexeme.opening] at hl ⊢
  have hcomment : Tail .blockComment "*/".toList "/\"//\\".toList :=
    Tail.blockComment (s := []) (by decide) _
  have hslash : Segment.FollowedBy ⟨.code, ['/']⟩ "\"//\\".toList := .code fun l hl => by
    cases l <;> simp [Lexeme.opening] at hl ⊢
  have hstring : Tail .string "//\\".toList [] :=
    Tail.openEscape (s := ['/', '/']) (.char (by decide) (by decide)
      (.char (by decide) (by decide) .nil))
  have hs : Splits s segments :=
    .cons hstar (.cons (.opened (l := .blockComment) (by decide) hcomment)
      (.cons hslash (.cons (.opened (l := .string) (by decide) hstring) .nil)))
  obtain ⟨hfree, -, -, hsplits⟩ := commentFree_stripComments s
  exact ⟨hs, hsplits segments hs, rfl, hfree⟩

end Storefront.Json
