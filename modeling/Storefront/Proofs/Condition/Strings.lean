import Storefront.Asset.Processing
import Storefront.Proofs.Condition.Lexing

/-!
The strings of a condition. Which string a place lies in is told by the quotes before it. In an
expression that can be read all strings are closed, and a brace stands in strings only.
-/

namespace Storefront.Condition

open Asset (isQuote)
open Text

/-- The quote of the string that goes on behind a character, where one of `quote` goes on before. -/
def quoteAfter (quote : Option Char) (c : Char) : Option Char :=
  if quote = some c then none
  else if quote.isNone && isQuote c then some c
  else quote

/-- The quote of the string that the text leaves open, when it begins in one of `quote`. -/
def openQuote (quote : Option Char) (s : List Char) : Option Char := s.foldl quoteAfter quote

/-- Each string that begins in the text ends in it. -/
def QuotesClosed (s : List Char) : Prop := openQuote none s = none

instance (s : List Char) : Decidable (QuotesClosed s) := inferInstanceAs (Decidable (_ = _))

section openQuote

variable {quote other : Option Char} {s t : List Char}

theorem openQuote_append (quote : Option Char) (s t : List Char) :
    openQuote quote (s ++ t) = openQuote (openQuote quote s) t :=
  List.foldl_append

/-- Without quotes no string begins or ends. -/
theorem openQuote_of_not_quotes (hquote : ∀ c ∈ quote, isQuote c = true)
    (hs : ∀ c ∈ s, isQuote c = false) : openQuote quote s = quote := by
  induction s with
  | nil => rfl
  | cons c s ih =>
    obtain ⟨hc, hs⟩ := List.forall_mem_cons.1 hs
    have hne : quote ≠ some c := by
      rintro rfl
      rw [hquote c rfl] at hc
      exact Bool.noConfusion hc
    have hafter : quoteAfter quote c = quote := by simp [quoteAfter, hne, hc]
    rw [openQuote, List.foldl_cons, hafter]
    exact ih hs

/-- A string goes on up to its own quote. -/
theorem openQuote_of_not_mem {c : Char} (hs : c ∉ s) : openQuote (some c) s = some c := by
  induction s with
  | nil => rfl
  | cons d s ih =>
    obtain ⟨hd, hs⟩ := not_or.1 (fun hmem => hs (List.mem_cons.2 hmem))
    have hafter : quoteAfter (some c) d = some c := by simp [quoteAfter, hd]
    rw [openQuote, List.foldl_cons, hafter]
    exact ih hs

theorem isQuote_of_mem_quoteAfter {c : Char} (hquote : ∀ c ∈ quote, isQuote c = true) :
    ∀ d ∈ quoteAfter quote c, isQuote d = true := by
  intro d hd
  unfold quoteAfter at hd
  split at hd
  · cases hd
  · split at hd
    · next hc =>
      cases hd
      exact (Bool.and_eq_true_iff.1 hc).2
    · exact hquote d hd

theorem isQuote_of_mem_openQuote (hquote : ∀ c ∈ quote, isQuote c = true) (s : List Char) :
    ∀ c ∈ openQuote quote s, isQuote c = true := by
  induction s generalizing quote with
  | nil => exact hquote
  | cons c s ih => exact ih (isQuote_of_mem_quoteAfter hquote)

theorem quoteAfter_inj {c : Char} (hquote : ∀ c ∈ quote, isQuote c = true)
    (hother : ∀ c ∈ other, isQuote c = true) (h : quoteAfter quote c = quoteAfter other c) :
    quote = other := by
  cases quote with
  | none =>
    cases other with
    | none => rfl
    | some d =>
      have hd := hother d rfl
      by_cases hdc : d = c
      · subst hdc
        simp [quoteAfter, hd] at h
      · by_cases hc : isQuote c = true <;> simp [quoteAfter, hdc, hc] at h
        exact absurd h.symm hdc
  | some q =>
    have hq := hquote q rfl
    cases other with
    | none =>
      by_cases hqc : q = c
      · subst hqc
        simp [quoteAfter, hq] at h
      · by_cases hc : isQuote c = true <;> simp [quoteAfter, hqc, hc] at h
    | some d => by_cases hqc : q = c <;> by_cases hdc : d = c <;> simp_all [quoteAfter]

/-- Texts that begin in different strings do not end in the same one. -/
theorem openQuote_inj (hquote : ∀ c ∈ quote, isQuote c = true)
    (hother : ∀ c ∈ other, isQuote c = true) (h : openQuote quote s = openQuote other s) :
    quote = other := by
  induction s generalizing quote other with
  | nil => exact h
  | cons c s ih =>
    exact quoteAfter_inj hquote hother
      (ih (isQuote_of_mem_quoteAfter hquote) (isQuote_of_mem_quoteAfter hother) h)

end openQuote

/-! ### Readable expressions -/

/-- All strings are closed, and an opening brace stands in strings only. -/
structure BracesQuoted (s : List Char) : Prop where
  closed : QuotesClosed s
  inString : ∀ p r, s = p ++ '\x7b' :: r → openQuote none p ≠ none

namespace BracesQuoted

variable {s t : List Char}

theorem append (hs : BracesQuoted s) (ht : BracesQuoted t) : BracesQuoted (s ++ t) := by
  refine ⟨?_, fun p r h => ?_⟩
  · rw [QuotesClosed, openQuote_append, hs.closed]
    exact ht.closed
  · rcases List.append_eq_append_iff.1 h with ⟨u, rfl, hu⟩ | ⟨u, rfl, hu⟩
    · rw [openQuote_append, hs.closed]
      exact ht.inString u r hu
    · cases u with
      | nil => exact absurd rfl (ht.inString [] r hu.symm)
      | cons d u =>
        obtain ⟨rfl, -⟩ := List.cons.inj hu
        exact hs.inString p u rfl

theorem of_not_mem (hs : ∀ d ∈ ['\'', '"', '\x7b'], d ∉ s) : BracesQuoted s := by
  refine ⟨openQuote_of_not_quotes (by simp) fun d hd => ?_, ?_⟩
  · rw [Bool.eq_false_iff]
    intro hquote
    rcases (by simpa [isQuote] using hquote : d = '\'' ∨ d = '"') with rfl | rfl
    · exact hs '\'' (by decide) hd
    · exact hs '"' (by decide) hd
  · rintro p r rfl
    exact absurd (List.mem_append_right p List.mem_cons_self) (hs '\x7b' (by decide))

theorem of_blanks (hs : ∀ d ∈ s, isBlank d = true) : BracesQuoted s := by
  refine .of_not_mem fun d hd hmem => ?_
  have hall : ['\'', '"', '\x7b'].all (!isBlank ·) = true := by decide
  have hnot := List.all_eq_true.1 hall d hd
  rw [hs d hmem] at hnot
  exact Bool.noConfusion hnot

theorem of_isQuoted (h : Token.IsQuoted s) : BracesQuoted s := by
  obtain @⟨quote, body, hquote, hbody⟩ := h
  have hopen : openQuote none [quote] = some quote := by
    rcases hquote with rfl | rfl
    · rfl
    · rfl
  have hclose : openQuote (some quote) [quote] = none := by simp [openQuote, quoteAfter]
  have hinside {p : List Char} (hp : p ⊆ body) : openQuote none (quote :: p) = some quote := by
    rw [← List.singleton_append, openQuote_append, hopen]
    exact openQuote_of_not_mem fun hmem => hbody (hp hmem)
  refine ⟨?_, fun p r h => ?_⟩
  · rw [QuotesClosed, openQuote_append, hinside (List.Subset.refl body), hclose]
  · cases p with
    | nil =>
      obtain ⟨rfl, -⟩ := List.cons.inj h
      exact absurd hquote (by decide)
    | cons d p =>
      obtain ⟨rfl, hsplit⟩ : quote = d ∧ body ++ [quote] = p ++ '\x7b' :: r := List.cons.inj h
      have hlength := congrArg List.length hsplit
      simp only [List.length_append, List.length_cons, List.length_nil] at hlength
      have hp : p <+: body := List.prefix_of_prefix_length_le (List.prefix_append p ('\x7b' :: r))
        ⟨[quote], hsplit⟩ (by omega)
      rw [hinside hp.subset]
      exact Option.some_ne_none _

end BracesQuoted

/-- Quotes and braces belong to strings. -/
theorem not_mem_of_take? {kind : Token.Kind} {s x r : List Char}
    (h : Token.take? kind s = some (x, r)) (hkind : kind ≠ .string) {d : Char}
    (hd : d ∈ ['\'', '"', '\x7b']) : d ∉ x := by
  have hall : ['\'', '"', '\x7b'].all fun d => !(isDigit d || Token.startsWord d ||
      isSegmentChar d || ['-', '.', '?', '=', '!', '<', '>'].contains d) := by decide
  have hnot := List.all_eq_true.1 hall d hd
  simp only [Bool.not_eq_true', Bool.or_eq_false_iff] at hnot
  obtain ⟨⟨⟨hdigit, hstart⟩, hsegment⟩, hother⟩ := hnot
  have hne {c : Char} (hc : c ∈ ['-', '.', '?', '=', '!', '<', '>']) : d ≠ c := by
    rintro rfl
    simp [hc] at hother
  have hdigits {digits : List Char} (hdigits : ∀ c ∈ digits, isDigit c = true) : d ∉ digits := by
    intro hmem
    rw [hdigits d hmem] at hdigit
    exact Bool.noConfusion hdigit
  have hsign {sign : List Char} (hsign : sign = [] ∨ sign = ['-']) : d ∉ sign := by
    rcases hsign with rfl | rfl
    · exact List.not_mem_nil
    · simpa using hne (c := '-') (by decide)
  cases kind with
  | string => exact absurd rfl hkind
  | number =>
    obtain ⟨-, hx, -⟩ := Token.number?_eq_some_iff.1 h
    cases hx with
    | whole hs hne hd =>
      exact List.not_mem_append (hsign hs) (hdigits hd)
    | pointed hs hnonempty hd hsome hf =>
      refine List.not_mem_append (List.not_mem_append (hsign hs) (hdigits hd)) ?_
      exact List.not_mem_cons_of_ne_of_not_mem (hne (by decide)) (hdigits hf)
  | operator =>
    obtain ⟨o, ho, rfl, -⟩ := Token.exists_of_operator? h
    have hchars : o.text.toList ⊆ ['=', '!', '<', '>'] := by
      cases o with
      | contains => exact absurd rfl ho
      | _ => decide
    exact fun hmem => hne (List.mem_append_right ['-', '.', '?'] (hchars hmem)) rfl
  | word =>
    obtain ⟨c, u, name, rest, rfl, hc, hname, hrest⟩ := Token.word?_eq_some_iff.1 h
    have hdc : d ≠ c := (ne_of_test hc hstart).symm
    have hmem : d ∉ name := by
      have hmem := not_mem_takeDotted hsegment (hne (by decide)) u
      rwa [hname] at hmem
    rcases hrest with ⟨-, rfl⟩ | ⟨-, -, rfl⟩
    · simp [hdc, hmem, hne (c := '?') (by decide)]
    · simp [hdc, hmem]

/-- In an expression that is read, an opening brace stands in strings only. -/
theorem bracesQuoted_of_lexes {s : List Char} {tokens : List Token} (h : Token.Lexes s tokens) :
    BracesQuoted s := by
  induction h with
  | nil => exact .of_not_mem fun d _ => List.not_mem_nil
  | @cons s r t tokens hfirst hr ih =>
    have htake := Token.first?_eq_some_iff.1 hfirst
    obtain ⟨blanks, hblanks, rfl⟩ := Token.exists_blanks_of_first? hfirst
    have htoken : BracesQuoted t.text.toList := by
      by_cases hkind : t.kind = .string
      · rw [hkind] at htake
        exact .of_isQuoted (Token.string?_eq_some_iff.1 htake).2
      · exact .of_not_mem fun d hd => not_mem_of_take? htake hkind hd
    exact BracesQuoted.append (.of_blanks hblanks) (htoken.append ih)

/-- An expression with a brace in front of a text that closes its own strings is not read: the brace
would stand in a string, and this string would not end. -/
theorem evaluate_ne_ok {settings : Dict Value} {condition mark : List Char}
    (hcondition : QuotesClosed condition) (hmark : ∀ c ∈ mark, isQuote c = false)
    (front : List Char) (b : Bool) :
    evaluate settings (.ofList (front ++ '\x7b' :: (mark ++ condition))) ≠ .ok b := by
  intro h
  obtain ⟨parsed, hparse, -⟩ := except_map_eq_ok.1 h
  obtain ⟨tokens, htokens, -⟩ := except_bind_eq_ok.1 hparse
  have hlexes := tokenize_eq_ok_iff.1 htokens
  rw [String.toList_ofList] at hlexes
  obtain ⟨blanks, hsplit, hblanks⟩ :=
    exists_blanks_of_trimRight (front ++ '\x7b' :: (mark ++ condition))
  have hquoted : BracesQuoted (front ++ '\x7b' :: (mark ++ condition)) := by
    rw [hsplit]
    exact (bracesQuoted_of_lexes hlexes).append (.of_blanks hblanks)
  have hfront := hquoted.inString front (mark ++ condition) rfl
  have hvalid : ∀ c ∈ openQuote none front, isQuote c = true :=
    isQuote_of_mem_openQuote (by simp) front
  have hall : ∀ c ∈ '\x7b' :: mark, isQuote c = false :=
    List.forall_mem_cons.2 ⟨by decide, hmark⟩
  have hend : openQuote (openQuote none front) condition = openQuote none condition := by
    have hclosed := hquoted.closed
    rw [QuotesClosed, ← List.cons_append, openQuote_append, openQuote_append,
      openQuote_of_not_quotes hvalid hall] at hclosed
    rw [hclosed, hcondition]
  exact hfront (openQuote_inj hvalid (by simp) hend)

end Storefront.Condition
