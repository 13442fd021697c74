import Storefront.Proofs.Condition.Lexing

/-!
The lexical forms of tokens. A token that is read has the form of its kind, and a text of that form
is read as the token where nothing or a blank follows (`HasForm.first?_append`). So an expression is
the texts of its tokens with blanks around them, and other blanks between the same texts give the
same tokens (`tokenize_stable`).
-/

namespace Storefront.Condition

open Text

namespace Token

/-! ### Forms -/

/-- Segments of word characters and dashes with a dot before each but the first one. Only the first
may be empty. -/
inductive IsDotted : List Char → Prop
  | intro {first : List Char} {segments : List (List Char)}
    (hfirst : ∀ c ∈ first, isSegmentChar c = true)
    (hsegments : ∀ s ∈ segments, s ≠ [] ∧ ∀ c ∈ s, isSegmentChar c = true) :
    IsDotted (first ++ segments.flatMap ('.' :: ·))

/-- A letter or an underscore, then dotted segments, and at the end a question mark as may be. -/
inductive IsName : List Char → Prop
  | plain {c : Char} {name : List Char} (hc : startsWord c = true) (hname : IsDotted name) :
    IsName (c :: name)
  | marked {c : Char} {name : List Char} (hc : startsWord c = true) (hname : IsDotted name) :
    IsName (c :: name ++ ['?'])

/-- The operators that are no words. -/
def symbols : List String := ["==", "!=", "<>", "<=", ">=", "<", ">"]

/-- The text of the token is of the form that its kind has. -/
inductive HasForm : Token → Prop
  | string {text : String} (h : IsQuoted text.toList) : HasForm ⟨.string, text⟩
  | number {text : String} (h : IsNumeral text.toList) : HasForm ⟨.number, text⟩
  | operator {text : String} (h : text ∈ symbols) : HasForm ⟨.operator, text⟩
  | word {text : String} (h : IsName text.toList) : HasForm ⟨.word, text⟩

/-! ### Dotted segments -/

theorem takeDotted_cons {c : Char} (hc : isSegmentChar c = true) (s : List Char) :
    takeDotted (c :: s) = (c :: (takeDotted s).1, (takeDotted s).2) := by
  cases s with
  | nil => exact if_pos hc
  | cons d s => rw [takeDotted, hc, Bool.true_or, if_pos rfl]

theorem takeDotted_append_segment {segment : List Char}
    (h : ∀ c ∈ segment, isSegmentChar c = true) (s : List Char) :
    takeDotted (segment ++ s) = (segment ++ (takeDotted s).1, (takeDotted s).2) := by
  induction segment with
  | nil => rfl
  | cons c segment ih =>
    obtain ⟨hc, hsegment⟩ := List.forall_mem_cons.1 h
    rw [List.cons_append, takeDotted_cons hc, ih hsegment]
    rfl

/-- A dot goes on with the name where a segment follows. -/
theorem takeDotted_dot_append {segment : List Char} (hne : segment ≠ [])
    (h : ∀ c ∈ segment, isSegmentChar c = true) (s : List Char) :
    takeDotted ('.' :: segment ++ s) =
      ('.' :: segment ++ (takeDotted s).1, (takeDotted s).2) := by
  obtain ⟨c, segment, rfl⟩ := List.exists_cons_of_ne_nil hne
  have hc : isSegmentChar c = true := h c List.mem_cons_self
  have hdot : takeDotted ('.' :: c :: (segment ++ s)) =
      ('.' :: (takeDotted (c :: segment ++ s)).1, (takeDotted (c :: segment ++ s)).2) := by
    simp [takeDotted, hc]
  rw [List.cons_append, List.cons_append, hdot, takeDotted_append_segment h]
  rfl

namespace IsDotted

variable {c : Char} {x r : List Char}

theorem nil : IsDotted [] :=
  @IsDotted.intro [] [] (List.forall_mem_nil _) (List.forall_mem_nil _)

theorem cons (hc : isSegmentChar c = true) (h : IsDotted x) : IsDotted (c :: x) := by
  obtain ⟨hfirst, hsegments⟩ := h
  exact IsDotted.intro (List.forall_mem_cons.2 ⟨hc, hfirst⟩) hsegments

/-- What follows a dot is a segment of its own. -/
theorem dot (hc : isSegmentChar c = true) (h : IsDotted (c :: x)) :
    IsDotted ('.' :: c :: x) := by
  generalize hs : c :: x = s at h
  obtain @⟨first, segments, hfirst, hsegments⟩ := h
  have hne : first ≠ [] := by
    rintro rfl
    cases segments with
    | nil => cases hs
    | cons segment segments =>
      obtain ⟨rfl, -⟩ := List.cons.inj hs
      exact absurd hc (by decide)
  exact @IsDotted.intro [] (first :: segments) (List.forall_mem_nil _)
    (List.forall_mem_cons.2 ⟨⟨hne, hfirst⟩, hsegments⟩)

theorem takeDotted (s : List Char) : IsDotted (Text.takeDotted s).1 := by
  fun_induction Text.takeDotted s with
  | case1 => exact nil
  | case2 c hc => exact nil.cons hc
  | case3 => exact nil
  | case4 c d s hcd name rest heq ih =>
    rw [heq] at ih
    by_cases hc : isSegmentChar c = true
    · exact ih.cons hc
    · obtain ⟨rfl, hd⟩ : c = '.' ∧ isSegmentChar d = true := by simpa [hc] using hcd
      rw [takeDotted_cons hd] at heq
      obtain ⟨rfl, -⟩ := Prod.mk.inj heq
      exact ih.dot hd
  | case5 => exact nil

/-- Dotted segments are taken up to their end. -/
theorem takeDotted_append (h : IsDotted x) (hr : Text.takeDotted r = ([], r)) :
    Text.takeDotted (x ++ r) = (x, r) := by
  obtain @⟨first, segments, hfirst, hsegments⟩ := h
  have hall : Text.takeDotted (segments.flatMap ('.' :: ·) ++ r) =
      (segments.flatMap ('.' :: ·), r) := by
    induction segments with
    | nil => exact hr
    | cons segment segments ih =>
      obtain ⟨⟨hne, hsegment⟩, hsegments⟩ := List.forall_mem_cons.1 hsegments
      rw [List.flatMap_cons, List.append_assoc, takeDotted_dot_append hne hsegment, ih hsegments]
  rw [List.append_assoc, takeDotted_append_segment hfirst, hall]

theorem forall_mem (h : IsDotted x) : ∀ c ∈ x, isSegmentChar c = true ∨ c = '.' := by
  obtain ⟨hfirst, hsegments⟩ := h
  intro c hc
  rcases List.mem_append.1 hc with hc | hc
  · exact .inl (hfirst c hc)
  · obtain ⟨segment, hsegment, hc⟩ := List.mem_flatMap.1 hc
    rcases List.mem_cons.1 hc with rfl | hc
    · exact .inr rfl
    · exact .inl ((hsegments segment hsegment).2 c hc)

end IsDotted

theorem isName_of_word? {s x r : List Char} (h : word? s = some (x, r)) : IsName x := by
  obtain ⟨c, u, name, rest, -, hc, hname, hx⟩ := word?_eq_some_iff.1 h
  have hdotted : IsDotted name := by
    have htaken := IsDotted.takeDotted u
    rwa [hname] at htaken
  rcases hx with ⟨-, rfl⟩ | ⟨-, -, rfl⟩
  · exact .marked hc hdotted
  · exact .plain hc hdotted

theorem IsName.word? {x : List Char} (h : IsName x) : word? x = some (x, []) := by
  cases h with
  | @plain c name hc hname =>
    have htaken := hname.takeDotted_append (r := []) rfl
    rw [List.append_nil] at htaken
    exact word?_eq_some_iff.2 ⟨c, name, name, [], rfl, hc, htaken,
      .inr ⟨rfl, (Option.some_ne_none '?').symm, rfl⟩⟩
  | @marked c name hc hname =>
    have htaken := hname.takeDotted_append (r := ['?']) rfl
    exact word?_eq_some_iff.2 ⟨c, name ++ ['?'], name, ['?'], rfl, hc, htaken, .inl ⟨rfl, rfl⟩⟩

/-! ### Forms and the first token -/

theorem hasForm_of_first? {s r : List Char} {t : Token} (h : first? s = some (t, r)) :
    t.HasForm := by
  obtain ⟨kind, text⟩ := t
  have htake := first?_eq_some_iff.1 h
  cases kind with
  | string => exact .string (string?_eq_some_iff.1 htake).2
  | number => exact .number (number?_eq_some_iff.1 htake).2.1
  | operator =>
    obtain ⟨o, ho, htext, -⟩ := exists_of_operator? htake
    rw [String.toList_inj] at htext
    subst htext
    apply HasForm.operator
    cases o with
    | contains => exact absurd rfl ho
    | _ => decide
  | word => exact .word (isName_of_word? htake)

namespace HasForm

variable {t : Token}

/-- The text of a token is read as the token to its end. -/
theorem take?_self (h : t.HasForm) : take? t.kind t.text.toList = some (t.text.toList, []) := by
  cases h with
  | string h => exact string?_eq_some_iff.2 ⟨(List.append_nil _).symm, h⟩
  | number h => exact number?_eq_some_iff.2 ⟨(List.append_nil _).symm, h, fun c hc => by cases hc⟩
  | @operator text h =>
    have hall : symbols.all fun text => operator? text.toList = some (text.toList, []) := by decide
    exact of_decide_eq_true (List.all_eq_true.1 hall text h)
  | word h => exact h.word?

theorem first?_append (h : t.HasForm) {u : List Char} (hu : Parted u) :
    first? (t.text.toList ++ u) = some (t, u) :=
  first?_eq_some_iff.2 (take?_append h.take?_self hu)

end HasForm

/-! ### The ends of tokens -/

theorem isBlank_eq_false_of_isDigit {c : Char} (h : isDigit c = true) : isBlank c = false := by
  rw [Bool.eq_false_iff]
  intro hblank
  exact ne_of_test h (isDigit_eq_false_of_isBlank hblank) rfl

theorem isBlank_eq_false_of_isSegmentChar {c : Char} (h : isSegmentChar c = true) :
    isBlank c = false := by
  rw [isSegmentChar, Bool.or_eq_true, decide_eq_true_eq] at h
  rcases h with h | rfl
  · exact isBlank_eq_false_of_isWord h
  · rfl

theorem isBlank_eq_false_of_startsWord {c : Char} (h : startsWord c = true) :
    isBlank c = false := by
  simpa using of_startsWord (p := fun c => !isBlank c) (by decide +kernel) h

theorem IsNumeral.isBlank_eq_false {x : List Char} (h : IsNumeral x) :
    ∀ c ∈ x, isBlank c = false := by
  have hsigned {sign digits : List Char} (hsign : sign = [] ∨ sign = ['-'])
      (hdigits : ∀ c ∈ digits, isDigit c = true) : ∀ c ∈ sign ++ digits, isBlank c = false := by
    refine List.forall_mem_append.2 ⟨?_, fun c hc => isBlank_eq_false_of_isDigit (hdigits c hc)⟩
    rcases hsign with rfl | rfl
    · exact List.forall_mem_nil _
    · exact List.forall_mem_singleton.2 rfl
  cases h with
  | whole hsign hne hdigits => exact hsigned hsign hdigits
  | pointed hsign hne hdigits hsome hfraction =>
    refine List.forall_mem_append.2 ⟨hsigned hsign hdigits, List.forall_mem_cons.2 ⟨rfl, ?_⟩⟩
    exact fun c hc => isBlank_eq_false_of_isDigit (hfraction c hc)

theorem IsName.isBlank_eq_false {x : List Char} (h : IsName x) : ∀ c ∈ x, isBlank c = false := by
  have hplain {c : Char} {name : List Char} (hc : startsWord c = true) (hname : IsDotted name) :
      ∀ d ∈ c :: name, isBlank d = false := by
    refine List.forall_mem_cons.2 ⟨isBlank_eq_false_of_startsWord hc, fun d hd => ?_⟩
    rcases hname.forall_mem d hd with hd | rfl
    · exact isBlank_eq_false_of_isSegmentChar hd
    · rfl
  cases h with
  | plain hc hname => exact hplain hc hname
  | marked hc hname =>
    exact List.forall_mem_append.2 ⟨hplain hc hname, List.forall_mem_singleton.2 rfl⟩

theorem kindOf?_of_isBlank {c : Char} (h : isBlank c = true) : kindOf? c = none := by
  have hne (d : Char) (hd : isBlank d = false) : c ≠ d := ne_of_test h hd
  have hstart : startsWord c = false := by
    rw [Bool.eq_false_iff]
    intro hstart
    exact ne_of_test h (isBlank_eq_false_of_startsWord hstart) rfl
  simp [kindOf?, hstart, isDigit_eq_false_of_isBlank h, hne '\'' rfl, hne '"' rfl, hne '=' rfl,
    hne '!' rfl, hne '<' rfl, hne '>' rfl, hne '-' rfl]

/-- No token begins with a blank. -/
theorem HasForm.dropBlanks_eq {t : Token} (h : t.HasForm) :
    dropBlanks t.text.toList = t.text.toList := by
  have htake := h.take?_self
  obtain ⟨c, s, hs⟩ := List.exists_cons_of_ne_nil (ne_nil_of_take? htake)
  rw [hs] at htake ⊢
  have hkind := kindOf?_of_take? htake
  apply dropBlanks_cons_of_not
  rw [Bool.eq_false_iff]
  intro hblank
  rw [kindOf?_of_isBlank hblank] at hkind
  cases hkind

theorem trimRight_concat {c : Char} (hc : isBlank c = false) (s : List Char) :
    trimRight (s ++ [c]) = s ++ [c] := by
  simp [trimRight, hc]

theorem trimRight_of_forall {s : List Char} (h : ∀ c ∈ s, isBlank c = false) :
    trimRight s = s := by
  rcases s.eq_nil_or_concat with rfl | ⟨s, c, rfl⟩
  · rfl
  · rw [List.concat_eq_append] at h ⊢
    exact trimRight_concat (h c (List.mem_append_right s List.mem_cons_self)) s

theorem IsQuoted.trimRight_eq {x : List Char} (h : IsQuoted x) : trimRight x = x := by
  obtain @⟨quote, body, hquote, -⟩ := h
  apply trimRight_concat
  rcases hquote with rfl | rfl
  · rfl
  · rfl

/-- No token ends with a blank. -/
theorem HasForm.trimRight_eq {t : Token} (h : t.HasForm) :
    trimRight t.text.toList = t.text.toList := by
  cases h with
  | string h => exact h.trimRight_eq
  | number h => exact trimRight_of_forall h.isBlank_eq_false
  | @operator text h =>
    have hall : symbols.all fun text => trimRight text.toList = text.toList := by decide
    exact of_decide_eq_true (List.all_eq_true.1 hall text h)
  | word h => exact trimRight_of_forall h.isBlank_eq_false

/-! ### All tokens of an expression -/

/-- The texts of the tokens in order, with only blanks before, between and behind them. -/
inductive Spells : List Token → List Char → Prop
  | blanks {s : List Char} (hs : ∀ c ∈ s, isBlank c = true) : Spells [] s
  | token {blanks s : List Char} {tokens : List Token} (hblanks : ∀ c ∈ blanks, isBlank c = true)
    (t : Token) (h : Spells tokens s) : Spells (t :: tokens) (blanks ++ (t.text.toList ++ s))

namespace Lexes

variable {s blanks : List Char} {tokens : List Token}

theorem spells (h : Lexes s tokens) (hblanks : ∀ c ∈ blanks, isBlank c = true) :
    Spells tokens (s ++ blanks) := by
  induction h with
  | nil => exact .blanks hblanks
  | @cons s r t tokens hfirst hr ih =>
    obtain ⟨before, hbefore, rfl⟩ := exists_blanks_of_first? hfirst
    rw [List.append_assoc, List.append_assoc]
    exact .token hbefore t ih

theorem hasForm (h : Lexes s tokens) : ∀ t ∈ tokens, t.HasForm := by
  intro t ht
  obtain ⟨u, r, -, hfirst⟩ := h.exists_of_mem ht
  exact hasForm_of_first? hfirst

end Lexes

/-- The texts of the tokens with a space between any two of them. -/
def spaced (tokens : List Token) : String := " ".intercalate (tokens.map (·.text))

section spaced

variable {t u : Token} {tokens : List Token}

theorem toList_spaced_single : (spaced [t]).toList = t.text.toList := by
  rw [spaced, List.map_singleton, String.intercalate_singleton]

theorem toList_spaced_cons :
    (spaced (t :: u :: tokens)).toList = t.text.toList ++ ([' '] ++ (spaced (u :: tokens)).toList) := by
  simp [spaced, String.intercalate_cons_cons]

theorem HasForm.lexes (h : t.HasForm) : Lexes t.text.toList [t] := by
  refine .cons ?_ .nil
  have hfirst := h.first?_append (u := []) (fun c hc => by cases hc)
  rw [List.append_nil] at hfirst
  rwa [h.dropBlanks_eq]

/-- Tokens with spaces between them are read as they are. -/
theorem lexes_spaced (h : ∀ t ∈ tokens, t.HasForm) : Lexes (spaced tokens).toList tokens := by
  induction tokens with
  | nil => exact .nil
  | cons t tokens ih =>
    obtain ⟨ht, htokens⟩ := List.forall_mem_cons.1 h
    cases tokens with
    | nil =>
      rw [toList_spaced_single]
      exact ht.lexes
    | cons u tokens =>
      have hspace : ∀ c ∈ [' '], isBlank c = true := List.forall_mem_singleton.2 rfl
      rw [toList_spaced_cons]
      exact ht.lexes.append_blanks (List.cons_ne_nil _ _) hspace (ih htokens)

/-- The text of the last token ends all. -/
theorem trimRight_spaced (h : ∀ t ∈ tokens, t.HasForm) :
    trimRight (spaced tokens).toList = (spaced tokens).toList := by
  induction tokens with
  | nil => rfl
  | cons t tokens ih =>
    obtain ⟨ht, htokens⟩ := List.forall_mem_cons.1 h
    cases tokens with
    | nil => rw [toList_spaced_single, ht.trimRight_eq]
    | cons u tokens =>
      have hne : (spaced (u :: tokens)).toList ≠ [] := by
        intro hnil
        have hlexes := lexes_spaced htokens
        rw [hnil] at hlexes
        cases hlexes with
        | cons hfirst _ => cases hfirst
      rw [toList_spaced_cons, ← List.append_assoc, trimRight_append (by rwa [ih htokens]),
        ih htokens]

end spaced

end Token

open Token

theorem tokenize_spaced {tokens : List Token} (h : ∀ t ∈ tokens, t.HasForm) :
    tokenize (spaced tokens) = .ok tokens := by
  rw [tokenize_eq_ok_iff, trimRight_spaced h]
  exact lexes_spaced h

/-- An expression that is read is the texts of its tokens with only blanks around them, each of them
of the form of its kind, and the same texts with single spaces between them are read as the same
tokens, as are the texts of any tokens of these forms. -/
theorem tokenize_stable :
    (∀ expression tokens, tokenize expression = .ok tokens →
      Spells tokens expression.toList ∧ (∀ t ∈ tokens, t.HasForm) ∧
        tokenize (spaced tokens) = .ok tokens) ∧
      ∀ tokens, (∀ t ∈ tokens, t.HasForm) → tokenize (spaced tokens) = .ok tokens := by
  refine ⟨fun expression tokens htokens => ?_, fun tokens => tokenize_spaced⟩
  have hlexes := tokenize_eq_ok_iff.1 htokens
  obtain ⟨blanks, hsplit, hblanks⟩ := exists_blanks_of_trimRight expression.toList
  have hspells : Spells tokens expression.toList := by
    rw [hsplit]
    exact hlexes.spells hblanks
  exact ⟨hspells, hlexes.hasForm, tokenize_spaced hlexes.hasForm⟩

/-- Tokens that stand side by side are the same as those with a space between them. -/
theorem tokenize_stable_unspaced :
    ∃ tokens, tokenize "a.b-1?<>-1.5\tand 'x  y' " = .ok tokens ∧
      tokens = [⟨.word, "a.b-1?"⟩, ⟨.operator, "<>"⟩, ⟨.number, "-1.5"⟩, ⟨.word, "and"⟩,
        ⟨.string, "'x  y'"⟩] ∧
      spaced tokens = "a.b-1? <> -1.5 and 'x  y'" ∧ tokenize (spaced tokens) = .ok tokens := by
  have htokens : tokenize "a.b-1?<>-1.5\tand 'x  y' " = .ok [⟨.word, "a.b-1?"⟩,
      ⟨.operator, "<>"⟩, ⟨.number, "-1.5"⟩, ⟨.word, "and"⟩, ⟨.string, "'x  y'"⟩] := by
    rfl
  obtain ⟨-, hforms, -⟩ := tokenize_stable.1 _ _ htokens
  exact ⟨_, htokens, rfl, by decide, tokenize_stable.2 _ hforms⟩

end Storefront.Condition
