import Storefront.Json.Decode
import Storefront.Proofs.Json.Segment

/-!
Line feeds before the characters that are left of a text without comments. Those of block comments
are lost and no others, so a character keeps its line exactly where no block comment before it holds
a line feed, and so do the errors of decoding, which are told by the lines of what is left.
-/

namespace Storefront.Json

/-- The text of the comments among the segments. -/
def comments (segments : List Segment) : List Char :=
  (segments.filter (·.isComment)).flatMap Segment.text

/-- A character that is kept of a text, at its place in a segment. -/
structure KeptChar (s : List Char) where
  before : List Segment
  segment : Segment
  after : List Segment
  splits : Splits s (before ++ segment :: after)
  isKept : segment.isComment = false
  head : List Char
  char : Char
  tail : List Char
  text_eq : segment.text = head ++ char :: tail

theorem count_flatMap_text (c : Char) (segments : List Segment) :
    (segments.flatMap Segment.text).count c =
      (segments.flatMap Segment.kept).count c + (comments segments).count c := by
  rw [flatMap_kept]
  induction segments with
  | nil => rfl
  | cons g segments ih =>
    rw [comments] at ih ⊢
    rw [List.flatMap_cons, List.count_append, ih, List.filter_cons, List.filter_cons]
    cases g.isComment
    · simp only [Bool.not_false, if_true, Bool.false_eq_true, if_false, List.flatMap_cons,
        List.count_append]
      omega
    · simp only [Bool.not_true, if_true, Bool.false_eq_true, if_false, List.flatMap_cons,
        List.count_append]
      omega

namespace KeptChar

variable {s : List Char}

/-- What stands before the character in the text. -/
def authored (k : KeptChar s) : List Char := k.before.flatMap Segment.text ++ k.head

/-- What is left before the character without comments. -/
def left (k : KeptChar s) : List Char := k.before.flatMap Segment.kept ++ k.head

/-- The comments before the character. -/
def removed (k : KeptChar s) : List Char := comments k.before

theorem kept_segment (k : KeptChar s) : k.segment.kept = k.head ++ k.char :: k.tail := by
  rw [Segment.kept_of_not_isComment k.isKept, k.text_eq]

theorem exists_eq_authored (k : KeptChar s) : ∃ rest, s = k.authored ++ k.char :: rest := by
  refine ⟨k.tail ++ k.after.flatMap Segment.text, ?_⟩
  have hs := k.splits.flatMap_text
  rw [List.flatMap_append, List.flatMap_cons, k.text_eq] at hs
  refine hs.symm.trans ?_
  rw [authored]
  simp only [List.append_assoc, List.cons_append]

theorem exists_eq_left (k : KeptChar s) :
    ∃ rest, stripComments s = k.left ++ k.char :: rest := by
  refine ⟨k.tail ++ k.after.flatMap Segment.kept, ?_⟩
  rw [k.splits.stripComments_eq, List.flatMap_append, List.flatMap_cons, k.kept_segment, left]
  simp only [List.append_assoc, List.cons_append]

theorem count_authored (k : KeptChar s) (c : Char) :
    k.authored.count c = k.left.count c + k.removed.count c := by
  rw [authored, left, removed, List.count_append, List.count_append, count_flatMap_text]
  omega

end KeptChar

theorem Segment.kept_eq_cons {g : Segment} {u v : List Char} {c : Char}
    (h : g.kept = u ++ c :: v) : g.isComment = false ∧ g.text = u ++ c :: v := by
  cases hcomment : g.isComment with
  | false =>
    rw [Segment.kept_of_not_isComment hcomment] at h
    exact ⟨rfl, h⟩
  | true =>
    rw [Segment.kept_of_isComment hcomment] at h
    exact absurd h.symm (List.append_ne_nil_of_right_ne_nil _ (List.cons_ne_nil _ _))

/-- What is left of the segments falls into parts at a character of one of them. -/
theorem exists_segment_of_kept {segments : List Segment} {u v : List Char} {c : Char}
    (h : segments.flatMap Segment.kept = u ++ c :: v) :
    ∃ before g after head tail, segments = before ++ g :: after ∧ g.isComment = false ∧
      g.text = head ++ c :: tail ∧ before.flatMap Segment.kept ++ head = u := by
  induction segments generalizing u with
  | nil => exact absurd h.symm (List.append_ne_nil_of_right_ne_nil _ (List.cons_ne_nil _ _))
  | cons g segments ih =>
    have hlater {w : List Char} (hu : u = g.kept ++ w)
        (hw : segments.flatMap Segment.kept = w ++ c :: v) :
        ∃ before m after head tail, g :: segments = before ++ m :: after ∧ m.isComment = false ∧
          m.text = head ++ c :: tail ∧ before.flatMap Segment.kept ++ head = u := by
      obtain ⟨before, m, after, head, tail, rfl, hm, htext, rfl⟩ := ih hw
      exact ⟨g :: before, m, after, head, tail, rfl, hm, htext, hu ▸ List.append_assoc _ _ _⟩
    rw [List.flatMap_cons] at h
    -- The character is in the first segment, or in a later one with `w` left before it.
    rcases List.append_eq_append_iff.1 h with ⟨w, hu, hw⟩ | ⟨w, hkept, hw⟩
    · exact hlater hu hw
    · cases w with
      | nil => exact hlater (w := []) (by simp [hkept]) hw.symm
      | cons d w =>
        obtain ⟨rfl, rfl⟩ := List.cons.inj hw
        obtain ⟨hg, htext⟩ := Segment.kept_eq_cons hkept
        exact ⟨[], g, segments, u, w, rfl, hg, htext, rfl⟩

/-- Each character that is left is one that is kept. -/
theorem KeptChar.exists_of_eq_left {s u v : List Char} {c : Char}
    (h : stripComments s = u ++ c :: v) : ∃ k : KeptChar s, k.left = u ∧ k.char = c := by
  obtain ⟨segments, hs⟩ := exists_splits s
  rw [hs.stripComments_eq] at h
  obtain ⟨before, g, after, head, tail, rfl, hg, htext, hu⟩ := exists_segment_of_kept h
  exact ⟨⟨before, g, after, hs, hg, head, c, tail, htext⟩, hu, rfl⟩

/-! ### Lines -/

/-- Each character that is kept is still on its line. -/
def KeepsLines (s : List Char) : Prop :=
  ∀ k : KeptChar s, k.left.count '\n' = k.authored.count '\n'

/-- A line comment ends before its line feed. -/
theorem Segment.FollowedBy.eq_blockComment {g : Segment} {rest : List Char}
    (h : g.FollowedBy rest) (hg : g.isComment = true) (hmem : '\n' ∈ g.text) :
    g.lexeme = .blockComment := by
  cases h with
  | code => cases hg
  | @opened l t _ _ h =>
    cases h with
    | lineComment h => exact absurd hmem (by simpa [Lexeme.opening] using h)
    | openLine h => exact absurd hmem (by simpa [Lexeme.opening] using h)
    | blockComment | openBlock => rfl
    | string | openString | openEscape => cases hg

theorem Splits.exists_followedBy {s : List Char} {before after : List Segment} {g : Segment}
    (h : Splits s (before ++ g :: after)) : ∃ rest, g.FollowedBy rest := by
  induction before generalizing s with
  | nil =>
    cases h with
    | cons hg => exact ⟨_, hg⟩
  | cons m before ih =>
    cases h with
    | cons _ h => exact ih h

theorem KeptChar.count_left_eq_iff {s : List Char} (k : KeptChar s) :
    k.left.count '\n' = k.authored.count '\n' ↔ '\n' ∉ k.removed := by
  rw [k.count_authored, ← List.count_eq_zero]
  omega

/-- Lines are kept exactly where nothing but comments follows a block comment with a line feed. -/
theorem keepsLines_iff {s : List Char} : KeepsLines s ↔
    ∀ before g after, Splits s (before ++ g :: after) → g.lexeme = .blockComment →
      '\n' ∈ g.text → ∀ h ∈ after, h.isComment = true := by
  constructor
  · intro hkeeps before g after hs hg hmem h hafter
    by_contra hkept
    rw [Bool.not_eq_true] at hkept
    obtain ⟨between, rest, rfl⟩ := List.append_of_mem hafter
    have hs' : Splits s ((before ++ g :: between) ++ h :: rest) := by
      rwa [List.append_assoc, List.cons_append]
    obtain ⟨r, hfollowed⟩ := hs'.exists_followedBy
    obtain ⟨c, tail, htext⟩ := List.exists_cons_of_ne_nil hfollowed.text_ne_nil
    let k : KeptChar s := ⟨before ++ g :: between, h, rest, hs', hkept, [], c, tail, htext⟩
    refine k.count_left_eq_iff.1 (hkeeps k) (List.mem_flatMap.2 ⟨g, ?_, hmem⟩)
    refine List.mem_filter.2 ⟨List.mem_append_right _ List.mem_cons_self, ?_⟩
    rw [Segment.isComment, hg]
    rfl
  · intro hlast k
    rw [k.count_left_eq_iff]
    intro hmem
    obtain ⟨g, hg, htext⟩ := List.mem_flatMap.1 hmem
    obtain ⟨hbefore, hcomment⟩ := List.mem_filter.1 hg
    obtain ⟨first, between, hsplit⟩ := List.append_of_mem hbefore
    have hs := k.splits
    rw [hsplit, List.append_assoc, List.cons_append] at hs
    obtain ⟨r, hfollowed⟩ := hs.exists_followedBy
    have hkept := hlast _ _ _ hs (hfollowed.eq_blockComment hcomment htext) htext k.segment
      (List.mem_append_right _ List.mem_cons_self)
    rw [k.isKept] at hkept
    exact Bool.false_ne_true hkept

theorem exists_of_decode_eq_error {s : List Char} {e : Error} (h : decode s = .error e) :
    ∃ before rest, s = before ++ rest ∧ e.position = before.length ∧
      e.line = before.count '\n' + 1 := by
  rw [decode] at h
  split at h
  · cases h
  · cases h
    exact ⟨_, _, (List.take_append_drop _ s).symm, rfl, rfl⟩

/-- A character that is kept has before it in the text the line feeds that are left before it and
those of the block comments before it, so that all characters are still on their lines exactly where
nothing but comments follows a block comment with a line feed. An error of decoding stands at a
character that is kept, or at the end of what is left, and its line lacks the line feeds of the
block comments before. -/
theorem lineFeeds_before (s : List Char) :
    (∀ k : KeptChar s, (∃ rest, s = k.authored ++ k.char :: rest) ∧
      (∃ rest, stripComments s = k.left ++ k.char :: rest) ∧
      k.authored.count '\n' = k.left.count '\n' + k.removed.count '\n') ∧
    (KeepsLines s ↔ ∀ before g after, Splits s (before ++ g :: after) →
      g.lexeme = .blockComment → '\n' ∈ g.text → ∀ h ∈ after, h.isComment = true) ∧
    ∀ e, decodeCommented s = .error e →
      (∃ k : KeptChar s, k.left.length = e.position ∧
        e.line + k.removed.count '\n' = k.authored.count '\n' + 1) ∨
      (stripComments s).length = e.position ∧ ∀ segments, Splits s segments →
        e.line + (comments segments).count '\n' = s.count '\n' + 1 := by
  refine ⟨fun k => ⟨k.exists_eq_authored, k.exists_eq_left, k.count_authored '\n'⟩, keepsLines_iff,
    fun e he => ?_⟩
  obtain ⟨before, rest, hs, hposition, hline⟩ := exists_of_decode_eq_error he
  rw [hposition, hline]
  cases rest with
  | nil =>
    rw [List.append_nil] at hs
    refine .inr ⟨congrArg List.length hs, fun segments h => ?_⟩
    rw [← hs, h.stripComments_eq]
    have hcount := count_flatMap_text '\n' segments
    rw [h.flatMap_text] at hcount
    omega
  | cons c rest =>
    obtain ⟨k, rfl, -⟩ := KeptChar.exists_of_eq_left hs
    have hcount := k.count_authored '\n'
    exact .inl ⟨k, rfl, by omega⟩

/-- A character on the second line is left, and told of, as one on the first. -/
theorem not_keepsLines_blockComment :
    ¬KeepsLines "/*\n*/x".toList ∧
      decodeCommented "/*\n*/x".toList = .error ⟨.noValue, 1, 1, 0⟩ := by
  refine ⟨fun h => ?_, rfl⟩
  have hcomment : Tail .blockComment "\n*/".toList ['x'] :=
    Tail.blockComment (s := ['\n']) (by decide) ['x']
  have hchar : Segment.FollowedBy ⟨.code, ['x']⟩ [] := .code fun l hl => by
    cases l <;> simp [Lexeme.opening] at hl ⊢
  have hs : Splits "/*\n*/x".toList [⟨.blockComment, "/*\n*/".toList⟩, ⟨.code, ['x']⟩] :=
    .cons (.opened (l := .blockComment) (by decide) hcomment) (.cons hchar .nil)
  have hline := keepsLines_iff.1 h [] _ _ hs rfl (by decide) _ List.mem_cons_self
  exact Bool.false_ne_true hline

end Storefront.Json
