import Mathlib.Data.List.Infix
import Storefront.Json.Comment

/-!
The segments of a text with comments: string literals, comments of both kinds, and the characters
outside of them. From its start on a text splits into segments in just one way, and what is left
without comments are the segments that are none.
-/

namespace Storefront.Json

namespace Lexeme

/-- What the lexeme begins with. -/
def opening : Lexeme → List Char
  | code => []
  | string => ['"']
  | lineComment => ['/', '/']
  | blockComment => ['/', '*']

def isComment : Lexeme → Bool
  | code | string => false
  | lineComment | blockComment => true

/-- What is left of text in the lexeme. -/
def kept (l : Lexeme) (s : List Char) : List Char := if l.isComment then [] else s

end Lexeme

/-- What stands in a string literal: characters, and escapes of a backslash with the character that
it takes along. -/
inductive Content : List Char → Prop
  | nil : Content []
  | char {c : Char} {s : List Char} (hquote : c ≠ '"') (hbackslash : c ≠ '\\') (h : Content s) :
    Content (c :: s)
  | escape (c : Char) {s : List Char} (h : Content s) : Content ('\\' :: c :: s)

def blockEnd : List Char := ['*', '/']

/-- What a lexeme has after its opening, and the text that follows it. A string ends at its first
quote outside of escapes, a line comment before the first line feed, and a block comment with the
first `*/`. What nothing ends goes on to the end of the text, where a backslash escapes nothing. -/
inductive Tail : Lexeme → List Char → List Char → Prop
  | string {s : List Char} (h : Content s) (rest : List Char) : Tail .string (s ++ ['"']) rest
  | openString {s : List Char} (h : Content s) : Tail .string s []
  | openEscape {s : List Char} (h : Content s) : Tail .string (s ++ ['\\']) []
  | lineComment {s : List Char} (h : '\n' ∉ s) (rest : List Char) :
    Tail .lineComment s ('\n' :: rest)
  | openLine {s : List Char} (h : '\n' ∉ s) : Tail .lineComment s []
  | blockComment {s : List Char} (h : ¬blockEnd <:+: s ++ ['*']) (rest : List Char) :
    Tail .blockComment (s ++ blockEnd) rest
  | openBlock {s : List Char} (h : ¬blockEnd <:+: s) : Tail .blockComment s []

/-- A part of a text that belongs to one lexeme. -/
structure Segment where
  lexeme : Lexeme
  text : List Char
  deriving DecidableEq

namespace Segment

def isComment (g : Segment) : Bool := g.lexeme.isComment

def kept (g : Segment) : List Char := g.lexeme.kept g.text

theorem kept_of_isComment {g : Segment} (h : g.isComment = true) : g.kept = [] := if_pos h

theorem kept_of_not_isComment {g : Segment} (h : g.isComment = false) : g.kept = g.text := by
  have hlexeme : g.lexeme.isComment = false := h
  rw [kept, Lexeme.kept, hlexeme, if_neg Bool.false_ne_true]

/-- The segment is one where `rest` follows it: a character at which nothing else begins, or a
lexeme up to its end. -/
inductive FollowedBy : Segment → List Char → Prop
  | code {c : Char} {rest : List Char} (h : ∀ l : Lexeme, l ≠ .code → ¬l.opening <+: c :: rest) :
    FollowedBy ⟨.code, [c]⟩ rest
  | opened {l : Lexeme} {t rest : List Char} (hl : l ≠ .code) (h : Tail l t rest) :
    FollowedBy ⟨l, l.opening ++ t⟩ rest

end Segment

/-- The text is made of these segments. -/
inductive Splits : List Char → List Segment → Prop
  | nil : Splits [] []
  | cons {g : Segment} {rest : List Char} {segments : List Segment} (hg : g.FollowedBy rest)
    (h : Splits rest segments) : Splits (g.text ++ rest) (g :: segments)

/-! ### The end of a lexeme -/

/-- What a lexeme has after its opening, and the text behind it. -/
def cut : Lexeme → List Char → List Char × List Char
  | .code, s => ([], s)
  | .string, '\\' :: c :: s => ('\\' :: c :: (cut .string s).1, (cut .string s).2)
  | .string, '"' :: s => (['"'], s)
  | .string, c :: s => (c :: (cut .string s).1, (cut .string s).2)
  | .lineComment, '\n' :: s => ([], '\n' :: s)
  | .lineComment, c :: s => (c :: (cut .lineComment s).1, (cut .lineComment s).2)
  | .blockComment, '*' :: '/' :: s => (blockEnd, s)
  | .blockComment, c :: s => (c :: (cut .blockComment s).1, (cut .blockComment s).2)
  | _, [] => ([], [])

theorem cut_append (l : Lexeme) (s : List Char) : (cut l s).1 ++ (cut l s).2 = s := by
  fun_induction cut l s with
  | case1 => rfl
  | case2 c s ih => rw [List.cons_append, List.cons_append, ih]
  | case3 => rfl
  | case4 c s _ _ ih => rw [List.cons_append, ih]
  | case5 => rfl
  | case6 c s _ ih => rw [List.cons_append, ih]
  | case7 => rfl
  | case8 c s _ ih => rw [List.cons_append, ih]
  | case9 => rfl

theorem stripFrom_eq (l : Lexeme) (s : List Char) :
    stripFrom l s = l.kept (cut l s).1 ++ stripFrom .code (cut l s).2 := by
  fun_induction cut l s with
  | case1 => rfl
  | case2 c s ih =>
    rw [stripFrom, ih]
    rfl
  | case3 => rfl
  | case4 c s hescape hquote ih =>
    rw [stripFrom, ih]
    · rfl
    · exact hescape
    · exact hquote
  | case5 => rfl
  | case6 c s hline ih =>
    rw [stripFrom, ih]
    · rfl
    · exact hline
  | case7 => rfl
  | case8 c s hend ih =>
    rw [stripFrom, ih]
    · rfl
    · exact hend
  | case9 l hl => cases l <;> rfl

namespace Tail

variable {c : Char} {t rest : List Char}

theorem escape (c : Char) (h : Tail .string t rest) : Tail .string ('\\' :: c :: t) rest := by
  cases h with
  | string h => exact .string (h.escape c) rest
  | openString h => exact .openString (h.escape c)
  | openEscape h => exact .openEscape (h.escape c)

theorem char (hquote : c ≠ '"') (hbackslash : c ≠ '\\') (h : Tail .string t rest) :
    Tail .string (c :: t) rest := by
  cases h with
  | string h => exact .string (h.char hquote hbackslash) rest
  | openString h => exact .openString (h.char hquote hbackslash)
  | openEscape h => exact .openEscape (h.char hquote hbackslash)

theorem line (hc : c ≠ '\n') (h : Tail .lineComment t rest) :
    Tail .lineComment (c :: t) rest := by
  have hmem {s : List Char} (hs : '\n' ∉ s) : '\n' ∉ c :: s :=
    List.not_mem_cons_of_ne_of_not_mem hc.symm hs
  cases h with
  | lineComment h rest => exact .lineComment (hmem h) rest
  | openLine h => exact .openLine (hmem h)

/-- The end of a block comment comes no sooner for a character with which it does not begin. -/
theorem block (hend : ¬blockEnd <+: c :: (t ++ rest)) (h : Tail .blockComment t rest) :
    Tail .blockComment (c :: t) rest := by
  cases h with
  | @blockComment s h rest =>
    refine Tail.blockComment (s := c :: s) (fun hinfix => ?_) rest
    rcases List.infix_cons_iff.1 hinfix with hstart | hlater
    · refine hend (hstart.trans ?_)
      exact ⟨'/' :: rest, by simp [blockEnd]⟩
    · exact h hlater
  | openBlock h =>
    refine .openBlock fun hinfix => ?_
    rcases List.infix_cons_iff.1 hinfix with hstart | hlater
    · rw [List.append_nil] at hend
      exact hend hstart
    · exact h hlater

end Tail

theorem tail_cut {l : Lexeme} (hl : l ≠ .code) (s : List Char) :
    Tail l (cut l s).1 (cut l s).2 := by
  fun_induction cut l s with
  | case1 => exact absurd rfl hl
  | case2 c s ih => exact (ih hl).escape c
  | case3 s => exact .string .nil s
  | case4 c s hescape hquote ih =>
    by_cases hbackslash : c = '\\'
    · subst hbackslash
      cases s with
      | nil => exact .openEscape .nil
      | cons d s => exact (hescape d s rfl rfl).elim
    · exact (ih hl).char hquote hbackslash
  | case5 s => exact .lineComment List.not_mem_nil s
  | case6 c s hline ih => exact (ih hl).line hline
  | case7 s => exact Tail.blockComment (s := []) (by decide) s
  | case8 c s hend ih =>
    refine (ih hl).block fun hstart => ?_
    rw [cut_append] at hstart
    obtain ⟨r, hr⟩ := hstart
    cases hr
    exact hend r rfl rfl
  | case9 l hl =>
    cases l with
    | code => exact absurd rfl hl
    | string => exact .openString .nil
    | lineComment => exact .openLine List.not_mem_nil
    | blockComment => exact .openBlock (by decide)

theorem cut_nil (l : Lexeme) : cut l [] = ([], []) := by cases l <;> rfl

theorem Content.cut_append {s : List Char} (h : Content s) (r : List Char) :
    cut .string (s ++ r) = (s ++ (cut .string r).1, (cut .string r).2) := by
  induction h with
  | nil => rfl
  | char hquote hbackslash _ ih =>
    rw [List.cons_append, cut, ih]
    · rfl
    · exact fun d u hd => absurd hd hbackslash
    · exact hquote
  | escape c _ ih =>
    rw [List.cons_append, List.cons_append, cut, ih]
    rfl

theorem cut_lineComment_append {s : List Char} (h : '\n' ∉ s) (r : List Char) :
    cut .lineComment (s ++ r) = (s ++ (cut .lineComment r).1, (cut .lineComment r).2) := by
  induction s with
  | nil => rfl
  | cons c s ih =>
    rw [List.cons_append, cut, ih (List.not_mem_of_not_mem_cons h)]
    · rfl
    · exact (List.ne_of_not_mem_cons h).symm

theorem cut_blockComment_append {s r : List Char} (h : ¬blockEnd <:+: s ++ r.take 1) :
    cut .blockComment (s ++ r) = (s ++ (cut .blockComment r).1, (cut .blockComment r).2) := by
  induction s with
  | nil => rfl
  | cons c s ih =>
    rw [List.cons_append, List.infix_cons_iff, not_or] at h
    rw [List.cons_append, cut, ih h.2]
    · rfl
    · -- A star before the rest would end the comment with the first character of it.
      rintro u rfl hu
      refine h.1 (List.prefix_cons_inj _ |>.2 ?_)
      cases s with
      | nil =>
        rw [List.nil_append] at hu ⊢
        rw [hu]
        exact List.prefix_rfl
      | cons d s =>
        cases hu
        exact List.prefix_cons_inj _ |>.2 List.nil_prefix

/-- A lexeme is taken off up to its end. -/
theorem Tail.cut_append {l : Lexeme} {t rest : List Char} (h : Tail l t rest) :
    cut l (t ++ rest) = (t, rest) := by
  cases h with
  | string h rest =>
    rw [List.append_assoc, h.cut_append]
    rfl
  | openString h =>
    rw [h.cut_append, cut_nil, List.append_nil]
  | openEscape h =>
    rw [List.append_assoc, h.cut_append]
    rfl
  | lineComment h rest =>
    rw [cut_lineComment_append h, cut, List.append_nil]
  | openLine h =>
    rw [cut_lineComment_append h, cut_nil, List.append_nil]
  | blockComment h rest =>
    rw [List.append_assoc, cut_blockComment_append h]
    rfl
  | openBlock h =>
    have hs : ¬blockEnd <:+: t ++ [].take 1 := by rwa [List.take_nil, List.append_nil]
    rw [cut_blockComment_append hs, cut_nil, List.append_nil]

/-! ### The start of a segment -/

namespace Lexeme

theorem kept_append (l : Lexeme) (s t : List Char) : l.kept (s ++ t) = l.kept s ++ l.kept t := by
  rw [kept, kept, kept]
  split <;> rfl

/-- No two lexemes begin at one place. -/
theorem eq_of_opening_prefix {l m : Lexeme} (hl : l ≠ .code) (hm : m ≠ .code) {s : List Char}
    (hls : l.opening <+: s) (hms : m.opening <+: s) : l = m := by
  obtain ⟨t, rfl⟩ := hls
  obtain ⟨u, hu⟩ := hms
  cases l <;> cases m <;> simp_all [opening]

theorem stripFrom_opening (l : Lexeme) (s : List Char) :
    stripFrom .code (l.opening ++ s) = l.kept l.opening ++ stripFrom l s := by
  cases l <;> rfl

end Lexeme

namespace Segment.FollowedBy

variable {g g' : Segment} {rest rest' : List Char}

theorem text_ne_nil (h : g.FollowedBy rest) : g.text ≠ [] := by
  cases h with
  | code => exact List.cons_ne_nil _ _
  | @opened l t _ hl =>
    cases l with
    | code => exact absurd rfl hl
    | _ => exact List.cons_ne_nil _ _

theorem stripFrom_append (h : g.FollowedBy rest) :
    stripFrom .code (g.text ++ rest) = g.kept ++ stripFrom .code rest := by
  cases h with
  | @code c _ h =>
    show stripFrom .code (c :: rest) = c :: stripFrom .code rest
    rw [stripFrom]
    · rintro rfl
      exact h .string (by decide) ⟨rest, rfl⟩
    · rintro u rfl rfl
      exact h .lineComment (by decide) ⟨u, rfl⟩
    · rintro u rfl rfl
      exact h .blockComment (by decide) ⟨u, rfl⟩
  | @opened l t _ hl h =>
    show stripFrom .code (l.opening ++ t ++ rest) = l.kept (l.opening ++ t) ++ _
    rw [List.append_assoc, l.stripFrom_opening, stripFrom_eq, h.cut_append, l.kept_append,
      List.append_assoc]

/-- A text begins with one segment only. -/
theorem unique (h : g.FollowedBy rest) (h' : g'.FollowedBy rest')
    (heq : g.text ++ rest = g'.text ++ rest') : g = g' ∧ rest = rest' := by
  cases h with
  | code h =>
    cases h' with
    | code =>
      obtain ⟨rfl, rfl⟩ := List.cons.inj heq
      exact ⟨rfl, rfl⟩
    | @opened l t _ hl =>
      refine absurd ?_ (h l hl)
      exact ⟨t ++ rest', (List.append_assoc _ _ _).symm.trans heq.symm⟩
  | @opened l t _ hl h =>
    rw [List.append_assoc] at heq
    cases h' with
    | code h' => exact absurd ⟨t ++ rest, heq⟩ (h' l hl)
    | @opened m u _ hm h' =>
      rw [List.append_assoc] at heq
      obtain rfl := Lexeme.eq_of_opening_prefix hl hm ⟨t ++ rest, heq⟩ ⟨u ++ rest', rfl⟩
      have hcut : (t, rest) = (u, rest') := by
        rw [← h.cut_append, ← h'.cut_append, List.append_cancel_left heq]
      cases hcut
      exact ⟨rfl, rfl⟩

end Segment.FollowedBy

theorem exists_followedBy {s : List Char} (hs : s ≠ []) :
    ∃ (g : Segment) (rest : List Char), s = g.text ++ rest ∧ g.FollowedBy rest := by
  by_cases h : ∃ l : Lexeme, l ≠ .code ∧ l.opening <+: s
  · obtain ⟨l, hl, t, rfl⟩ := h
    refine ⟨⟨l, l.opening ++ (cut l t).1⟩, (cut l t).2, ?_, .opened hl (tail_cut hl t)⟩
    rw [List.append_assoc, cut_append]
  · obtain ⟨c, rest, rfl⟩ := List.exists_cons_of_ne_nil hs
    exact ⟨⟨.code, [c]⟩, rest, rfl, .code fun l hl hopen => h ⟨l, hl, hopen⟩⟩

/-! ### All segments -/

theorem exists_splits (s : List Char) : ∃ segments, Splits s segments := by
  -- By the length of the text, since no segment is empty.
  induction hn : s.length using Nat.strongRecOn generalizing s with
  | ind n ih =>
    by_cases hs : s = []
    · exact ⟨[], hs ▸ .nil⟩
    · obtain ⟨g, rest, rfl, hg⟩ := exists_followedBy hs
      have hpos : 0 < g.text.length := List.length_pos_iff.2 hg.text_ne_nil
      rw [List.length_append] at hn
      obtain ⟨segments, hsegments⟩ := ih rest.length (by omega) rest rfl
      exact ⟨g :: segments, .cons hg hsegments⟩

namespace Splits

variable {s : List Char} {segments other : List Segment}

theorem flatMap_text (h : Splits s segments) : segments.flatMap Segment.text = s := by
  induction h with
  | nil => rfl
  | cons _ _ ih => rw [List.flatMap_cons, ih]

theorem exists_cons (h : Splits s segments) (hs : s ≠ []) :
    ∃ g rest after, s = g.text ++ rest ∧ segments = g :: after ∧ g.FollowedBy rest ∧
      Splits rest after := by
  cases h with
  | nil => exact absurd rfl hs
  | cons hg h => exact ⟨_, _, _, rfl, rfl, hg, h⟩

theorem unique (h : Splits s segments) (h' : Splits s other) : segments = other := by
  induction h generalizing other with
  | nil =>
    generalize hs : ([] : List Char) = s at h'
    cases h' with
    | nil => rfl
    | cons hg => exact absurd (List.append_eq_nil_iff.1 hs.symm).1 hg.text_ne_nil
  | @cons g rest segments hg _ ih =>
    have hne : g.text ++ rest ≠ [] := List.append_ne_nil_of_left_ne_nil hg.text_ne_nil rest
    obtain ⟨g', rest', after, hs, rfl, hg', hafter⟩ := h'.exists_cons hne
    obtain ⟨rfl, rfl⟩ := hg.unique hg' hs
    rw [ih hafter]

theorem stripComments_eq (h : Splits s segments) :
    stripComments s = segments.flatMap Segment.kept := by
  induction h with
  | nil => rfl
  | cons hg _ ih =>
    rw [List.flatMap_cons, ← ih]
    exact hg.stripFrom_append

end Splits

theorem flatMap_kept (segments : List Segment) : segments.flatMap Segment.kept =
    (segments.filter (!·.isComment)).flatMap Segment.text := by
  induction segments with
  | nil => rfl
  | cons g segments ih =>
    rw [List.flatMap_cons, ih, List.filter_cons, Segment.kept, Lexeme.kept]
    show (if g.isComment then [] else g.text) ++ _ = _
    cases g.isComment <;> rfl

/-- Each text splits in just one way, and the text without comments is made of the segments that are
none. -/
theorem existsUnique_splits (s : List Char) :
    (∃! segments, Splits s segments) ∧
      ∀ segments, Splits s segments →
        segments.flatMap Segment.text = s ∧
          stripComments s = (segments.filter (!·.isComment)).flatMap Segment.text := by
  refine ⟨?_, fun segments h => ⟨h.flatMap_text, ?_⟩⟩
  · obtain ⟨segments, h⟩ := exists_splits s
    exact ⟨segments, h, fun other h' => h'.unique h⟩
  · rw [h.stripComments_eq, flatMap_kept]

end Storefront.Json
