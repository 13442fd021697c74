import Mathlib.Data.Option.Basic
import Storefront.Condition
import Storefront.Proofs.Text.Boundary

/-!
Tokens of a text and of the texts that it is put together from. A token that is found at the start
of a text is found there too with a blank and anything else behind the text (`first?_append`), so a
text and another one behind a blank have the tokens of both (`Lexes.append`).
-/

namespace Storefront.Condition

namespace Token

open Text

/-- The text is empty or begins with a blank. -/
def Parted (u : List Char) : Prop := ∀ c ∈ u.head?, isBlank c = true

/-! ### Strings -/

/-- A text between quotes of one kind, with none of that kind inside. -/
inductive IsQuoted : List Char → Prop
  | intro {quote : Char} {body : List Char} (hquote : quote = '\'' ∨ quote = '"')
    (hbody : quote ∉ body) : IsQuoted (quote :: body ++ [quote])

theorem string?_eq_some_iff {s x r : List Char} :
    string? s = some (x, r) ↔ s = x ++ r ∧ IsQuoted x := by
  constructor
  · intro h
    cases s with
    | nil => cases h
    | cons quote s =>
      rw [string?] at h
      split at h
      · next hquote =>
        have hbody : quote ∉ s.takeWhile (· ≠ quote) := by
          intro hmem
          simpa using List.mem_takeWhile_imp hmem
        split at h
        · next c rest hrest =>
          cases h
          have hc := List.head?_dropWhile_not (· ≠ quote) s
          rw [hrest] at hc
          obtain rfl : c = quote := by simpa using hc
          have happend : s.takeWhile (· ≠ c) ++ s.dropWhile (· ≠ c) = s :=
            List.takeWhile_append_dropWhile
          rw [hrest] at happend
          refine ⟨?_, .intro (by simpa using hquote) hbody⟩
          rw [List.append_assoc]
          exact congrArg (c :: ·) happend.symm
        · cases h
      · cases h
  · rintro ⟨rfl, hx⟩
    cases hx with
    | @intro quote body hquote hbody =>
      have hkept : ∀ c ∈ body, decide (c ≠ quote) = true := by
        intro c hc
        simpa using fun heq : c = quote => hbody (heq ▸ hc)
      obtain ⟨htake, hdrop⟩ := takeWhile_append_of_head? (p := (· ≠ quote)) (r := quote :: r)
        (by simp) body
      rw [List.takeWhile_eq_self_iff.2 hkept] at htake
      rw [List.dropWhile_eq_nil_iff.2 hkept] at hdrop
      have hif : (quote = '\'' || quote = '"') = true := by simpa using hquote
      simp only [List.cons_append, List.append_assoc, List.nil_append, string?, htake, hdrop, hif,
        if_true]

/-! ### Numerals -/

theorem takeSign_append (s : List Char) : (takeSign s).1 ++ (takeSign s).2 = s := by
  unfold takeSign
  split <;> rfl

theorem takeSign_fst (s : List Char) : (takeSign s).1 = [] ∨ (takeSign s).1 = ['-'] := by
  unfold takeSign
  split
  · exact .inr rfl
  · exact .inl rfl

theorem not_isDigit_of_head?_dropWhile {s : List Char} :
    ∀ c ∈ (s.dropWhile isDigit).head?, isDigit c = false := by
  intro c hc
  have h := List.head?_dropWhile_not isDigit s
  rw [Option.mem_def.1 hc] at h
  simpa using h

/-- A text that goes on with no number in front of it. -/
def EndsNumber (r : List Char) : Prop := ∀ c ∈ r.head?, joinsNumber c = false ∧ isDigit c = false

/-- Digits with a sign and a fraction as may be. -/
inductive IsNumeral : List Char → Prop
  | whole {sign digits : List Char} (hsign : sign = [] ∨ sign = ['-']) (hne : digits ≠ [])
    (hdigits : ∀ c ∈ digits, isDigit c = true) : IsNumeral (sign ++ digits)
  | pointed {sign digits fraction : List Char} (hsign : sign = [] ∨ sign = ['-'])
    (hne : digits ≠ []) (hdigits : ∀ c ∈ digits, isDigit c = true) (hsome : fraction ≠ [])
    (hfraction : ∀ c ∈ fraction, isDigit c = true) :
    IsNumeral (sign ++ digits ++ '.' :: fraction)

theorem digits_append {digits r : List Char} (hdigits : ∀ c ∈ digits, isDigit c = true)
    (hr : ∀ c ∈ r.head?, isDigit c = false) :
    (digits ++ r).takeWhile isDigit = digits ∧ (digits ++ r).dropWhile isDigit = r := by
  obtain ⟨htake, hdrop⟩ := takeWhile_append_of_head? hr digits
  rw [htake, hdrop, List.takeWhile_eq_self_iff.2 hdigits, List.dropWhile_eq_nil_iff.2 hdigits]
  exact ⟨rfl, rfl⟩

theorem takeSign_append_digits {sign digits : List Char} (hsign : sign = [] ∨ sign = ['-'])
    (hne : digits ≠ []) (hdigits : ∀ c ∈ digits, isDigit c = true) (r : List Char) :
    takeSign (sign ++ digits ++ r) = (sign, digits ++ r) := by
  rcases hsign with rfl | rfl
  · cases digits with
    | nil => exact absurd rfl hne
    | cons d digits =>
      have hd : d ≠ '-' := ne_of_test (hdigits d List.mem_cons_self) (by decide)
      simp only [List.nil_append, List.cons_append]
      unfold takeSign
      split
      · next heq => exact absurd (List.cons.inj heq).1 hd
      · rfl
  · rfl

theorem number?_append {x r : List Char} (hx : IsNumeral x) (hr : EndsNumber r) :
    number? (x ++ r) = some (x, r) := by
  have hjoins : ((r.head?.map joinsNumber).getD false) = false := by
    cases r with
    | nil => rfl
    | cons c r => exact (hr c rfl).1
  cases hx with
  | @whole sign digits hsign hne hdigits =>
    obtain ⟨htake, hdrop⟩ := digits_append hdigits fun c hc => (hr c hc).2
    have hfraction : takeFraction r = ([], r) := by
      unfold takeFraction
      split
      · exact absurd (hr '.' rfl).1 (by decide)
      · rfl
    rw [number?, takeSign_append_digits hsign hne hdigits]
    simp only [htake, hdrop, hfraction, hjoins, List.append_nil]
    cases digits with
    | nil => exact absurd rfl hne
    | cons d digits => rfl
  | @pointed sign digits fraction hsign hne hdigits hsome hfraction =>
    have hpoint : ∀ c ∈ ('.' :: (fraction ++ r)).head?, isDigit c = false := by
      rintro c ⟨⟩
      decide
    obtain ⟨htake, hdrop⟩ := digits_append hdigits hpoint
    obtain ⟨htakes, hdrops⟩ := digits_append hfraction fun c hc => (hr c hc).2
    have hfraction : takeFraction ('.' :: (fraction ++ r)) = ('.' :: fraction, r) := by
      rw [takeFraction, htakes, hdrops]
      cases fraction with
      | nil => exact absurd rfl hsome
      | cons d fraction => rfl
    rw [List.append_assoc, List.cons_append, number?, takeSign_append_digits hsign hne hdigits]
    simp only [htake, hdrop, hfraction, hjoins]
    cases digits with
    | nil => exact absurd rfl hne
    | cons d digits => rfl

/-- A fraction is a point with all digits that follow it. -/
theorem takeFraction_cases (s : List Char) :
    takeFraction s = ([], s) ∨ ∃ fraction, fraction ≠ [] ∧ (∀ c ∈ fraction, isDigit c = true) ∧
      ∃ r, (∀ c ∈ r.head?, isDigit c = false) ∧ s = '.' :: fraction ++ r ∧
        takeFraction s = ('.' :: fraction, r) := by
  unfold takeFraction
  split
  · next s =>
    split
    · exact .inl rfl
    · next fraction hsome =>
      refine .inr ⟨s.takeWhile isDigit, hsome, fun c hc => List.mem_takeWhile_imp hc,
        s.dropWhile isDigit, not_isDigit_of_head?_dropWhile, ?_, rfl⟩
      rw [List.cons_append, List.takeWhile_append_dropWhile]
  · exact .inl rfl

theorem number?_eq_some_iff {s x r : List Char} :
    number? s = some (x, r) ↔ s = x ++ r ∧ IsNumeral x ∧ EndsNumber r := by
  constructor
  · intro h
    obtain ⟨sign, u, hsplit⟩ : ∃ sign u, takeSign s = (sign, u) := ⟨_, _, rfl⟩
    have hs := takeSign_append s
    have hsign := takeSign_fst s
    have hdigits : ∀ c ∈ u.takeWhile isDigit, isDigit c = true :=
      fun c hc => List.mem_takeWhile_imp hc
    have hu : u.takeWhile isDigit ++ u.dropWhile isDigit = u := List.takeWhile_append_dropWhile
    rw [hsplit] at hs hsign
    simp only [number?, hsplit] at h
    split at h
    · cases h
    · next hne =>
      rcases takeFraction_cases (u.dropWhile isDigit) with
        hnone | ⟨fraction, hsome, hfraction, rest, hrest, happend, hcut⟩
      · simp only [hnone] at h
        split at h
        · cases h
        · next hjoins =>
          cases h
          refine ⟨by rw [List.append_nil, List.append_assoc, hu, hs], ?_, ?_⟩
          · rw [List.append_nil]
            exact .whole hsign hne hdigits
          · intro c hc
            refine ⟨?_, not_isDigit_of_head?_dropWhile c hc⟩
            simpa [Option.mem_def.1 hc] using hjoins
      · simp only [hcut] at h
        split at h
        · cases h
        · next hjoins =>
          cases h
          refine ⟨?_, .pointed hsign hne hdigits hsome hfraction, ?_⟩
          · rw [List.append_assoc, List.append_assoc, ← happend, hu, hs]
          · intro c hc
            refine ⟨?_, hrest c hc⟩
            simpa [Option.mem_def.1 hc] using hjoins
  · rintro ⟨rfl, hx, hr⟩
    exact number?_append hx hr

/-! ### Operators and words -/

/-- What is read is an operator as it is spelled, and not `contains`, which is a word. -/
theorem exists_of_operator? {s x r : List Char} (h : operator? s = some (x, r)) :
    ∃ o : Operator, o ≠ .contains ∧ x = o.text.toList ∧ s = x ++ r := by
  unfold operator? at h
  split at h <;> cases h
  · exact ⟨.equal, by decide, rfl, rfl⟩
  · exact ⟨.notEqual, by decide, rfl, rfl⟩
  · exact ⟨.unequal, by decide, rfl, rfl⟩
  · exact ⟨.lessOrEqual, by decide, rfl, rfl⟩
  · exact ⟨.greaterOrEqual, by decide, rfl, rfl⟩
  · exact ⟨.less, by decide, rfl, rfl⟩
  · exact ⟨.greater, by decide, rfl, rfl⟩

theorem operator?_less {r : List Char} (hr : ∀ c ∈ r.head?, c ≠ '>' ∧ c ≠ '=') :
    operator? ('<' :: r) = some (['<'], r) := by
  unfold operator?
  split <;> simp_all

theorem operator?_greater {r : List Char} (hr : ∀ c ∈ r.head?, c ≠ '=') :
    operator? ('>' :: r) = some (['>'], r) := by
  unfold operator?
  split <;> simp_all

theorem operator?_append {s x r u : List Char} (h : operator? s = some (x, r)) (hu : Parted u) :
    operator? (s ++ u) = some (x, r ++ u) := by
  have hunequal : ∀ c ∈ u.head?, c ≠ '>' := fun c hc => ne_of_test (hu c hc) (by decide)
  have hequal : ∀ c ∈ u.head?, c ≠ '=' := fun c hc => ne_of_test (hu c hc) (by decide)
  unfold operator? at h
  split at h
  case h_6 hnotunequal hnotequal =>
    cases h
    refine operator?_less fun c hc => ?_
    cases r with
    | nil => exact ⟨hunequal c hc, hequal c hc⟩
    | cons d r =>
      cases hc
      exact ⟨fun h => hnotunequal r (by rw [h]), fun h => hnotequal r (by rw [h])⟩
  case h_7 hnotequal =>
    cases h
    refine operator?_greater fun c hc => ?_
    cases r with
    | nil => exact hequal c hc
    | cons d r =>
      cases hc
      exact fun h => hnotequal r (by rw [h])
  case h_8 => cases h
  all_goals
    cases h
    rfl

/-- A word is the longest dotted name, and takes a question mark behind it. -/
theorem word?_eq_some_iff {s x r : List Char} : word? s = some (x, r) ↔
    ∃ c u name rest, s = c :: u ∧ startsWord c = true ∧ takeDotted u = (name, rest) ∧
      (rest = '?' :: r ∧ x = c :: name ++ ['?'] ∨
        rest = r ∧ r.head? ≠ some '?' ∧ x = c :: name) := by
  constructor
  · intro h
    cases s with
    | nil => cases h
    | cons c u =>
      obtain ⟨name, rest, hname⟩ : ∃ name rest, takeDotted u = (name, rest) := ⟨_, _, rfl⟩
      rw [word?, hname] at h
      split at h
      · next hstart =>
        refine ⟨c, u, name, rest, rfl, hstart, hname, ?_⟩
        dsimp only at h
        split at h
        · cases h
          exact .inl ⟨rfl, rfl⟩
        · next hmark =>
          cases h
          refine .inr ⟨rfl, fun hhead => ?_, rfl⟩
          obtain ⟨rest, rfl⟩ := List.head?_eq_some_iff.1 hhead
          exact hmark rest rfl
      · cases h
  · rintro ⟨c, u, name, rest, rfl, hstart, hname, ⟨rfl, rfl⟩ | ⟨rfl, hhead, rfl⟩⟩
    · rw [word?, if_pos hstart, hname]
      rfl
    · rw [word?, if_pos hstart, hname]
      cases rest with
      | nil => rfl
      | cons d rest =>
        have hd : d ≠ '?' := fun heq => hhead (congrArg some heq)
        dsimp only
        split
        · next heq => exact absurd (List.cons.inj heq).1 hd
        · rfl

theorem append_of_word? {s x r : List Char} (h : word? s = some (x, r)) :
    s = x ++ r ∧ '\ue000' ∉ x := by
  obtain ⟨c, u, name, rest, rfl, hstart, hname, hrest⟩ := word?_eq_some_iff.1 h
  have happend := takeDotted_append u
  have hmark : '\ue000' ∉ (takeDotted u).1 := not_mem_takeDotted (by decide) (by decide) u
  have hc : '\ue000' ≠ c := (ne_of_test hstart (by decide)).symm
  rw [hname] at happend hmark
  rcases hrest with ⟨rfl, rfl⟩ | ⟨rfl, -, rfl⟩
  · refine ⟨?_, by simp [hc, hmark]⟩
    rw [List.append_assoc]
    exact congrArg (c :: ·) happend.symm
  · refine ⟨?_, by simp [hc, hmark]⟩
    exact congrArg (c :: ·) happend.symm

/-- Dotted names end where a blank stands. -/
theorem takeDotted_append_parted {u : List Char} (hu : Parted u) (s : List Char) :
    takeDotted (s ++ u) = ((takeDotted s).1, (takeDotted s).2 ++ u) := by
  cases u with
  | nil => rw [List.append_nil, List.append_nil]
  | cons c u =>
    have hc : isBlank c = true := hu c rfl
    have hsegment : isSegmentChar c = false := by
      rw [isSegmentChar, isWord_eq_false_of_isBlank hc, Bool.false_or, decide_eq_false_iff_not]
      exact ne_of_test hc (by decide)
    exact takeDotted_append_of_not hsegment (ne_of_test hc (by decide)) s u

theorem word?_append {s x r u : List Char} (h : word? s = some (x, r)) (hu : Parted u) :
    word? (s ++ u) = some (x, r ++ u) := by
  obtain ⟨c, v, name, rest, rfl, hstart, hname, hrest⟩ := word?_eq_some_iff.1 h
  have hnames : takeDotted (v ++ u) = (name, rest ++ u) := by
    rw [takeDotted_append_parted hu, hname]
  refine word?_eq_some_iff.2 ⟨c, v ++ u, name, rest ++ u, rfl, hstart, hnames, ?_⟩
  rcases hrest with ⟨rfl, hx⟩ | ⟨rfl, hhead, hx⟩
  · exact .inl ⟨rfl, hx⟩
  · refine .inr ⟨rfl, ?_, hx⟩
    cases rest with
    | nil => exact fun hmark => ne_of_test (hu '?' hmark) (by decide) rfl
    | cons d rest => exact hhead

/-! ### The first token -/

/-- The text of a token of one kind at the start of a text, and what follows it. -/
def take? : Kind → List Char → Option Cut
  | .string => string?
  | .number => number?
  | .operator => operator?
  | .word => word?

theorem first?_eq (s : List Char) :
    first? s = ((take? .string s).map (ofCut .string) <|> (take? .number s).map (ofCut .number) <|>
      (take? .operator s).map (ofCut .operator) <|> (take? .word s).map (ofCut .word)) := rfl

theorem take?_nil (kind : Kind) : take? kind [] = none := by
  cases kind <;> rfl

/-- The kind of the tokens that begin with a character. -/
def kindOf? (c : Char) : Option Kind :=
  if c = '\'' || c = '"' then some .string
  else if c = '=' || c = '!' || c = '<' || c = '>' then some .operator
  else if startsWord c then some .word
  else if c = '-' || isDigit c then some .number
  else none

theorem toNat_lt_of_startsWord {c : Char} (h : startsWord c = true) : c.toNat < 128 := by
  have hcases : (decide ('A'.val ≤ c.val ∧ c.val ≤ 'Z'.val) ||
      'a'.val ≤ c.val && c.val ≤ 'z'.val || c = '_') = true := h
  simp only [Bool.or_eq_true, Bool.and_eq_true, decide_eq_true_eq] at hcases
  rcases hcases with (⟨-, hle⟩ | ⟨-, hle⟩) | rfl
  · exact Nat.lt_of_le_of_lt hle (by decide)
  · exact Nat.lt_of_le_of_lt hle (by decide)
  · decide

/-- What holds of all characters that begin words can be checked one by one. -/
theorem of_startsWord {p : Char → Bool}
    (hp : ∀ n < 128, startsWord (Char.ofNat n) = true → p (Char.ofNat n) = true) {c : Char}
    (h : startsWord c = true) : p c = true := by
  simpa using hp c.toNat (toNat_lt_of_startsWord h) (by simpa using h)

theorem isDigit_eq_false_of_startsWord {c : Char} (h : startsWord c = true) :
    isDigit c = false := by
  simpa using of_startsWord (p := fun c => !isDigit c) (by decide +kernel) h

theorem kindOf?_of_isDigit {c : Char} (h : isDigit c = true) : kindOf? c = some .number := by
  have hne (d : Char) (hd : isDigit d = false) : c ≠ d := ne_of_test h hd
  have hstart : startsWord c = false := by
    rw [Bool.eq_false_iff]
    intro hstart
    exact ne_of_test h (isDigit_eq_false_of_startsWord hstart) rfl
  simp [kindOf?, h, hstart, hne '\'' (by decide), hne '"' (by decide), hne '=' (by decide),
    hne '!' (by decide), hne '<' (by decide), hne '>' (by decide)]

theorem kindOf?_of_startsWord {c : Char} (h : startsWord c = true) : kindOf? c = some .word := by
  have hne (d : Char) (hd : startsWord d = false) : c ≠ d := ne_of_test h hd
  simp [kindOf?, h, hne '\'' (by decide), hne '"' (by decide), hne '=' (by decide),
    hne '!' (by decide), hne '<' (by decide), hne '>' (by decide)]

theorem kindOf?_of_take? {kind : Kind} {c : Char} {s x r : List Char}
    (h : take? kind (c :: s) = some (x, r)) : kindOf? c = some kind := by
  cases kind with
  | string =>
    rw [take?, string?] at h
    split at h
    · next hc => rw [kindOf?, if_pos hc]
    · cases h
  | number =>
    rw [take?, number?] at h
    by_cases hsign : c = '-'
    · subst hsign
      rfl
    · have hsplit : takeSign (c :: s) = ([], c :: s) := by
        unfold takeSign
        split <;> simp_all
      cases hdigit : isDigit c with
      | true => exact kindOf?_of_isDigit hdigit
      | false => simp [hsplit, hdigit] at h
  | operator =>
    obtain ⟨o, ho, hx, hs⟩ := exists_of_operator? h
    cases o with
    | contains => exact absurd rfl ho
    | _ =>
      rw [hx] at hs
      cases hs
      rfl
  | word =>
    have hword : word? (c :: s) = some (x, r) := h
    obtain ⟨d, u, name, rest, heq, hstart, -⟩ := word?_eq_some_iff.1 hword
    cases heq
    exact kindOf?_of_startsWord hstart

/-- At the start of a text there are tokens of one kind only. -/
theorem take?_unique {k₁ k₂ : Kind} {s : List Char} {cut₁ cut₂ : Cut}
    (h₁ : take? k₁ s = some cut₁) (h₂ : take? k₂ s = some cut₂) : k₁ = k₂ := by
  cases s with
  | nil => rw [take?_nil] at h₁; cases h₁
  | cons c s => exact Option.some.inj ((kindOf?_of_take? h₁).symm.trans (kindOf?_of_take? h₂))

theorem first?_of_take? {kind : Kind} {s : List Char} {cut : Cut} (h : take? kind s = some cut) :
    first? s = some (ofCut kind cut) := by
  have hnone (other : Kind) (hne : other ≠ kind) : take? other s = none := by
    rw [Option.eq_none_iff_forall_ne_some]
    intro cut' h'
    exact hne (take?_unique h' h)
  rw [first?_eq]
  cases kind with
  | string => rw [h]; rfl
  | number => rw [hnone .string (by decide), h]; rfl
  | operator => rw [hnone .string (by decide), hnone .number (by decide), h]; rfl
  | word =>
    rw [hnone .string (by decide), hnone .number (by decide), hnone .operator (by decide), h]
    rfl

theorem first?_eq_some_iff {s r : List Char} {t : Token} :
    first? s = some (t, r) ↔ take? t.kind s = some (t.text.toList, r) := by
  constructor
  · intro h
    by_cases hsome : ∃ kind cut, take? kind s = some cut
    · obtain ⟨kind, cut, hcut⟩ := hsome
      rw [first?_of_take? hcut] at h
      cases h
      simpa [ofCut] using hcut
    · have hnone (kind : Kind) : take? kind s = none := by
        rw [Option.eq_none_iff_forall_ne_some]
        intro cut hcut
        exact hsome ⟨kind, cut, hcut⟩
      have hfirst : first? s = none := by
        rw [first?_eq, hnone, hnone, hnone, hnone]
        rfl
      rw [hfirst] at h
      cases h
  · intro h
    rw [first?_of_take? h, ofCut, String.ofList_toList]

theorem take?_append {kind : Kind} {s x r u : List Char} (h : take? kind s = some (x, r))
    (hu : Parted u) : take? kind (s ++ u) = some (x, r ++ u) := by
  cases kind with
  | string =>
    obtain ⟨rfl, hx⟩ := string?_eq_some_iff.1 h
    exact string?_eq_some_iff.2 ⟨List.append_assoc x r u, hx⟩
  | number =>
    obtain ⟨rfl, hx, hr⟩ := number?_eq_some_iff.1 h
    refine number?_eq_some_iff.2 ⟨List.append_assoc x r u, hx, fun c hc => ?_⟩
    cases r with
    | nil =>
      have hblank : isBlank c = true := hu c hc
      refine ⟨?_, isDigit_eq_false_of_isBlank hblank⟩
      rw [joinsNumber, isWord_eq_false_of_isBlank hblank, Bool.false_or, decide_eq_false_iff_not]
      exact ne_of_test hblank (by decide)
    | cons d r => exact hr c hc
  | operator => exact operator?_append h hu
  | word => exact word?_append h hu

/-- The first token of a text is that of the text with a blank and more behind it. -/
theorem first?_append {s r u : List Char} {t : Token} (h : first? s = some (t, r))
    (hu : Parted u) : first? (s ++ u) = some (t, r ++ u) :=
  first?_eq_some_iff.2 (take?_append (first?_eq_some_iff.1 h) hu)

theorem append_of_take? {kind : Kind} {s x r : List Char} (h : take? kind s = some (x, r)) :
    s = x ++ r := by
  cases kind with
  | string => exact (string?_eq_some_iff.1 h).1
  | number => exact (number?_eq_some_iff.1 h).1
  | operator =>
    obtain ⟨o, -, -, hs⟩ := exists_of_operator? h
    exact hs
  | word => exact (append_of_word? h).1

/-- A token is a part of the text, and operators and words hold no private marks. -/
theorem append_of_first? {s r : List Char} {t : Token} (h : first? s = some (t, r)) :
    s = t.text.toList ++ r ∧
      (t.kind = .operator ∨ t.kind = .word → '\ue000' ∉ t.text.toList) := by
  have htake := first?_eq_some_iff.1 h
  refine ⟨append_of_take? htake, ?_⟩
  rintro (hkind | hkind)
  · rw [hkind] at htake
    obtain ⟨o, -, ho, -⟩ := exists_of_operator? htake
    rw [ho]
    cases o <;> decide
  · rw [hkind] at htake
    exact (append_of_word? htake).2

/-- The first token stands behind blanks alone. -/
theorem exists_blanks_of_first? {s r : List Char} {t : Token}
    (h : first? (dropBlanks s) = some (t, r)) :
    ∃ blanks, (∀ c ∈ blanks, isBlank c = true) ∧ s = blanks ++ (t.text.toList ++ r) := by
  refine ⟨s.takeWhile isBlank, fun c hc => List.mem_takeWhile_imp hc, ?_⟩
  rw [← (append_of_first? h).1]
  exact List.takeWhile_append_dropWhile.symm

theorem IsNumeral.ne_nil {x : List Char} (h : IsNumeral x) : x ≠ [] := by
  cases h <;> simp_all

theorem ne_nil_of_take? {kind : Kind} {s x r : List Char} (h : take? kind s = some (x, r)) :
    x ≠ [] := by
  cases kind with
  | string =>
    cases (string?_eq_some_iff.1 h).2
    exact List.cons_ne_nil _ _
  | number => exact (number?_eq_some_iff.1 h).2.1.ne_nil
  | operator =>
    obtain ⟨o, -, rfl, -⟩ := exists_of_operator? h
    cases o <;> exact List.cons_ne_nil _ _
  | word =>
    obtain ⟨c, u, name, rest, -, -, -, ⟨-, rfl⟩ | ⟨-, -, rfl⟩⟩ := word?_eq_some_iff.1 h
    · exact List.cons_ne_nil _ _
    · exact List.cons_ne_nil _ _

theorem dropBlanks_length_le (s : List Char) : (dropBlanks s).length ≤ s.length :=
  (List.dropWhile_suffix isBlank).length_le

/-- A token takes at least one character. -/
theorem length_lt_of_first? {s r : List Char} {t : Token}
    (h : first? (dropBlanks s) = some (t, r)) : r.length < s.length := by
  have htake := first?_eq_some_iff.1 h
  have hlength := congrArg List.length (append_of_take? htake)
  have hpos : 0 < t.text.toList.length := List.length_pos_iff.2 (ne_nil_of_take? htake)
  rw [List.length_append] at hlength
  have hle := dropBlanks_length_le s
  omega

/-! ### All tokens -/

/-- A text is read as tokens with any blanks before each of them. -/
inductive Lexes : List Char → List Token → Prop
  | nil : Lexes [] []
  | cons {s r : List Char} {t : Token} {tokens : List Token}
    (h : first? (dropBlanks s) = some (t, r)) (hr : Lexes r tokens) : Lexes s (t :: tokens)

/-- The fuel is enough for the characters that there are. -/
theorem scan_eq_ok_iff {fuel : Nat} {s : List Char} {tokens : List Token}
    (hfuel : s.length ≤ fuel) : scan fuel s = .ok tokens ↔ Lexes s tokens := by
  induction fuel generalizing s tokens with
  | zero =>
    obtain rfl := List.length_eq_zero_iff.1 (Nat.le_zero.1 hfuel)
    constructor
    · intro h
      cases h
      exact .nil
    · intro h
      cases h with
      | nil => rfl
      | cons h hr => cases h
  | succ fuel ih =>
    cases s with
    | nil =>
      constructor
      · intro h
        cases h
        exact .nil
      · intro h
        cases h with
        | nil => rfl
        | cons h hr => cases h
    | cons c s =>
      rw [scan]
      case x_2 => exact List.cons_ne_nil c s
      constructor
      · intro h
        split at h
        · cases h
        · next t r hfirst =>
          have hlt := length_lt_of_first? hfirst
          cases hscan : scan fuel r with
          | error rest =>
            rw [hscan] at h
            cases h
          | ok more =>
            rw [hscan] at h
            cases h
            exact .cons hfirst ((ih (by omega)).1 hscan)
      · intro h
        cases h with
        | @cons _ r t more hfirst hr =>
          have hlt := length_lt_of_first? hfirst
          rw [hfirst]
          dsimp only
          rw [(ih (by omega)).2 hr]
          rfl

/-- Each token is the first one of a part of the text. -/
theorem Lexes.exists_of_mem {s : List Char} {tokens : List Token} (h : Lexes s tokens) {t : Token}
    (ht : t ∈ tokens) : ∃ u r, u <:+ s ∧ first? u = some (t, r) := by
  induction h with
  | nil => cases ht
  | @cons s r first tokens hfirst hr ih =>
    have hsuffix : dropBlanks s <:+ s := List.dropWhile_suffix isBlank
    rcases List.mem_cons.1 ht with rfl | ht
    · exact ⟨_, r, hsuffix, hfirst⟩
    · obtain ⟨u, rest, hu, hrest⟩ := ih ht
      refine ⟨u, rest, hu.trans (List.IsSuffix.trans ?_ hsuffix), hrest⟩
      exact ⟨_, (append_of_first? hfirst).1.symm⟩

/-- A text and another one behind a blank have the tokens of both. -/
theorem Lexes.append {s u : List Char} {tokens more : List Token} (h : Lexes s tokens)
    (hu : Parted u) (hmore : Lexes u more) : Lexes (s ++ u) (tokens ++ more) := by
  induction h with
  | nil => exact hmore
  | @cons s r t tokens hfirst hr ih =>
    refine .cons ?_ ih
    have hne : dropBlanks s ≠ [] := by
      intro hnil
      rw [hnil] at hfirst
      cases hfirst
    have hdrop : dropBlanks (s ++ u) = dropBlanks s ++ u := by
      rw [dropBlanks, List.dropWhile_append, if_neg (by simpa [dropBlanks] using hne)]
      rfl
    rw [hdrop]
    exact first?_append hfirst hu

/-- Blanks before a token do not count. -/
theorem Lexes.blanks_append {blanks s : List Char} {t : Token} {tokens : List Token}
    (hblanks : ∀ c ∈ blanks, isBlank c = true) (h : Lexes s (t :: tokens)) :
    Lexes (blanks ++ s) (t :: tokens) := by
  cases h with
  | cons hfirst hr =>
    refine .cons ?_ hr
    rwa [dropBlanks, List.dropWhile_append_of_pos hblanks]

theorem Lexes.append_blanks {s blanks u : List Char} {t : Token} {tokens more : List Token}
    (h : Lexes s tokens) (hne : blanks ≠ []) (hblanks : ∀ c ∈ blanks, isBlank c = true)
    (hmore : Lexes u (t :: more)) : Lexes (s ++ (blanks ++ u)) (tokens ++ t :: more) := by
  refine h.append ?_ (hmore.blanks_append hblanks)
  obtain ⟨c, blanks, rfl⟩ := List.exists_cons_of_ne_nil hne
  intro d hd
  cases hd
  exact hblanks c List.mem_cons_self

end Token

open Text in
theorem tokenize_eq_ok_iff {expression : String} {tokens : List Token} :
    tokenize expression = .ok tokens ↔ Token.Lexes (trimRight expression.toList) tokens := by
  rw [← Token.scan_eq_ok_iff (Nat.le_refl _), tokenize]
  cases Token.scan (trimRight expression.toList).length (trimRight expression.toList) with
  | error rest => simp [Except.mapError]
  | ok found => simp [Except.mapError]

end Storefront.Condition
