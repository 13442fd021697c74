import Mathlib.Data.List.TakeWhile
import Storefront.Json.Decode
import Storefront.Json.Encode
import Storefront.Proofs.Text.Boundary

/-!
Numbers in JSON text. An integer is read back as what it was written from. A floating-point number
is assumed to be when it stands alone, and then it is also read back before whatever may follow a
value.
-/

namespace Storefront.Json

/-! ### What follows a value -/

/-- The text may follow a value: it is empty, or it goes on with a comma, a closing bracket or the
line that this bracket stands on. -/
def Follows (r : List Char) : Prop :=
  r = [] ∨ ∃ t, r = ',' :: t ∨ r = ']' :: t ∨ r = '\x7d' :: t ∨ r = '\n' :: t

section follows

variable {r : List Char}

theorem Follows.takeWhile_append (hr : Follows r) (s : List Char) :
    (s ++ r).takeWhile isDecimal = s.takeWhile isDecimal ∧
      (s ++ r).dropWhile isDecimal = s.dropWhile isDecimal ++ r := by
  refine Text.takeWhile_append_of_head? ?_ s
  intro c hc
  rcases hr with rfl | ⟨t, rfl | rfl | rfl | rfl⟩ <;> cases hc <;> rfl

/-! ### Numbers before what follows them -/

theorem wholeDigits?_append (hr : Follows r) (s : List Char) :
    wholeDigits? (s ++ r) = (wholeDigits? s).map fun (digits, t) => (digits, t ++ r) := by
  cases s with
  | nil => rcases hr with rfl | ⟨t, rfl | rfl | rfl | rfl⟩ <;> rfl
  | cons c s =>
    obtain ⟨htake, hdrop⟩ := hr.takeWhile_append s
    by_cases hzero : c = '0'
    · subst hzero
      rfl
    · rw [List.cons_append, wholeDigits?, wholeDigits?]
      · cases hc : isDecimal c with
        | true => simp [hc, htake, hdrop]
        | false => rfl
      · exact hzero
      · exact hzero

theorem fractionDigits_cons_of_ne {c : Char} {s : List Char} (h : c ≠ '.') :
    fractionDigits (c :: s) = ([], c :: s) := by
  rw [fractionDigits]
  rintro d t hcons
  exact h (List.cons.inj hcons).1

theorem fractionDigits_append (hr : Follows r) (s : List Char) :
    fractionDigits (s ++ r) = ((fractionDigits s).1, (fractionDigits s).2 ++ r) := by
  cases s with
  | nil => rcases hr with rfl | ⟨t, rfl | rfl | rfl | rfl⟩ <;> rfl
  | cons c s =>
    by_cases hpoint : c = '.'
    · subst hpoint
      cases s with
      | nil => rcases hr with rfl | ⟨t, rfl | rfl | rfl | rfl⟩ <;> rfl
      | cons d s =>
        obtain ⟨htake, hdrop⟩ := hr.takeWhile_append s
        rw [List.cons_append, List.cons_append, fractionDigits, fractionDigits]
        cases hd : isDecimal d with
        | true => simp [hd, htake, hdrop]
        | false => rfl
    · rw [fractionDigits_cons_of_ne hpoint]
      exact fractionDigits_cons_of_ne hpoint

theorem exponentDigits?_append (hr : Follows r) (negative : Bool) (s : List Char) :
    exponentDigits? negative (s ++ r) =
      (exponentDigits? negative s).map fun (power, t) => (power, t ++ r) := by
  obtain ⟨htake, hdrop⟩ := hr.takeWhile_append s
  rw [exponentDigits?, exponentDigits?, htake, hdrop]
  cases s.takeWhile isDecimal with
  | nil => rfl
  | cons d digits => rfl

/-- The digits of an exponent with its sign. -/
def signedDigits? : List Char → Option (Int × List Char)
  | '-' :: s => exponentDigits? true s
  | '+' :: s => exponentDigits? false s
  | s => exponentDigits? false s

theorem signedDigits?_append (hr : Follows r) (s : List Char) :
    signedDigits? (s ++ r) = (signedDigits? s).map fun (power, t) => (power, t ++ r) := by
  cases s with
  | nil => rcases hr with rfl | ⟨t, rfl | rfl | rfl | rfl⟩ <;> rfl
  | cons c s =>
    by_cases hminus : c = '-'
    · subst hminus
      exact exponentDigits?_append hr true s
    by_cases hplus : c = '+'
    · subst hplus
      exact exponentDigits?_append hr false s
    have hdigits (t : List Char) : signedDigits? (c :: t) = exponentDigits? false (c :: t) := by
      rw [signedDigits?]
      · exact fun u hu => hminus (List.cons.inj hu).1
      · exact fun u hu => hplus (List.cons.inj hu).1
    rw [hdigits s]
    exact (hdigits (s ++ r)).trans (exponentDigits?_append hr false (c :: s))

theorem exponent?_append (hr : Follows r) (s : List Char) :
    exponent? (s ++ r) = (exponent? s).map fun (power, t) => (power, t ++ r) := by
  cases s with
  | nil => rcases hr with rfl | ⟨t, rfl | rfl | rfl | rfl⟩ <;> rfl
  | cons e s =>
    have hsigned (t : List Char) : exponent? (e :: t) =
        if e = 'e' || e = 'E' then signedDigits? t else none := rfl
    rw [List.cons_append, hsigned, hsigned, signedDigits?_append hr]
    split <;> rfl

theorem unsigned?_append (hr : Follows r) (negative : Bool) (s : List Char) :
    unsigned? negative (s ++ r) = (unsigned? negative s).map fun (n, t) => (n, t ++ r) := by
  rw [unsigned?, unsigned?, wholeDigits?_append hr]
  cases wholeDigits? s with
  | none => rfl
  | some whole =>
    obtain ⟨whole, s⟩ := whole
    simp only [Option.map_some, Option.bind_eq_bind, Option.bind_some, fractionDigits_append hr,
      exponent?_append hr]
    cases exponent? (fractionDigits s).2 with
    | none =>
      dsimp only [Option.map_none]
      split <;> rfl
    | some power =>
      dsimp only [Option.map_some]
      split <;> rfl

/-- What may follow a number does not change it. -/
theorem number?_append (hr : Follows r) (s : List Char) :
    number? (s ++ r) = (number? s).map fun (n, t) => (n, t ++ r) := by
  cases s with
  | nil => rcases hr with rfl | ⟨t, rfl | rfl | rfl | rfl⟩ <;> rfl
  | cons c s =>
    by_cases hminus : c = '-'
    · subst hminus
      exact unsigned?_append hr true s
    · have hunsigned (t : List Char) : number? (c :: t) = unsigned? false (c :: t) := by
        rw [number?]
        exact fun u hu => hminus (List.cons.inj hu).1
      rw [hunsigned s]
      exact (hunsigned (s ++ r)).trans (unsigned?_append hr false (c :: s))

end follows

/-! ### What a number leaves -/

section rest

variable {s t : List Char}

theorem wholeDigits?_suffix {digits : List Char} (h : wholeDigits? s = some (digits, t)) :
    t <:+ s := by
  unfold wholeDigits? at h
  split at h
  · cases h
    exact List.suffix_cons _ _
  · split at h
    · cases h
      exact (List.dropWhile_suffix _).trans (List.suffix_cons _ _)
    · cases h
  · cases h

theorem fractionDigits_suffix (s : List Char) : (fractionDigits s).2 <:+ s := by
  unfold fractionDigits
  split
  · next c s =>
    split
    · exact (List.dropWhile_suffix _).trans ((List.suffix_cons c s).trans (List.suffix_cons _ _))
    · exact List.suffix_refl _
  · exact List.suffix_refl _

theorem exponentDigits?_suffix {negative : Bool} {power : Int}
    (h : exponentDigits? negative s = some (power, t)) : t <:+ s := by
  rw [exponentDigits?] at h
  split at h
  · cases h
  · cases h
    exact List.dropWhile_suffix _

theorem exponent?_suffix {power : Int} (h : exponent? s = some (power, t)) : t <:+ s := by
  unfold exponent? at h
  split at h
  · next e s =>
    split at h
    · have hsigned : t <:+ s := by
        split at h
        · exact (exponentDigits?_suffix h).trans (List.suffix_cons _ _)
        · exact (exponentDigits?_suffix h).trans (List.suffix_cons _ _)
        · exact exponentDigits?_suffix h
      exact hsigned.trans (List.suffix_cons e s)
    · cases h
  · cases h

theorem unsigned?_suffix {negative : Bool} {n : Number}
    (h : unsigned? negative s = some (n, t)) : t <:+ s := by
  obtain ⟨⟨whole, u⟩, hwhole, h⟩ := Option.bind_eq_some_iff.1 h
  have hfraction : (fractionDigits u).2 <:+ s :=
    (fractionDigits_suffix u).trans (wholeDigits?_suffix hwhole)
  dsimp only at h
  cases hexponent : exponent? (fractionDigits u).2 with
  | none =>
    rw [hexponent] at h
    dsimp only at h
    split at h <;> cases h <;> exact hfraction
  | some power =>
    rw [hexponent] at h
    dsimp only at h
    split at h <;> cases h <;> exact (exponent?_suffix hexponent).trans hfraction

theorem number?_suffix {n : Number} (h : number? s = some (n, t)) : t <:+ s := by
  unfold number? at h
  split at h
  · exact (unsigned?_suffix h).trans (List.suffix_cons _ _)
  · exact unsigned?_suffix h

end rest

/-! ### Integers -/

section digits

variable (n : Nat)

theorem isDecimal_of_isDigit {c : Char} (h : c.isDigit = true) : isDecimal c = true := by
  simpa [isDecimal, Char.isDigit, Char.le_def] using h

theorem isDecimal_of_mem_toDigits : ∀ c ∈ Nat.toDigits 10 n, isDecimal c = true :=
  fun _ hc => isDecimal_of_isDigit (Nat.isDigit_of_mem_toDigits (by decide) (by decide) hc)

theorem decimal_toDigits : decimal (Nat.toDigits 10 n) = n := by
  have h := Nat.ofDigitChars_ten_toDigits (n := n)
  rwa [Nat.ofDigitChars_eq_foldl] at h

/-- A positive number is not written with a zero in front. -/
theorem toDigits_eq_cons_of_pos {n : Nat} (h : 0 < n) :
    ∃ c t, Nat.toDigits 10 n = c :: t ∧ c ≠ '0' := by
  induction n using Nat.strongRecOn with
  | ind n ih =>
    rcases Nat.lt_or_ge n 10 with hlt | hge
    · have hdigit : ∀ k < 10, 0 < k → Nat.digitChar k ≠ '0' := by decide
      exact ⟨Nat.digitChar n, [], Nat.toDigits_of_lt_base hlt, hdigit n hlt h⟩
    · obtain ⟨c, t, ht, hc⟩ := ih (n / 10) (by omega) (by omega)
      refine ⟨c, t ++ [Nat.digitChar (n % 10)], ?_, hc⟩
      rw [Nat.toDigits_of_base_le (by decide) hge, ht]
      rfl

theorem toDigits_eq_cons : ∃ c t, Nat.toDigits 10 n = c :: t ∧ isDecimal c = true := by
  cases hdigits : Nat.toDigits 10 n with
  | nil => exact absurd hdigits Nat.toDigits_ne_nil
  | cons c t =>
    exact ⟨c, t, rfl, isDecimal_of_mem_toDigits n c (hdigits ▸ List.mem_cons_self)⟩

theorem wholeDigits?_toDigits :
    wholeDigits? (Nat.toDigits 10 n) = some (Nat.toDigits 10 n, []) := by
  rcases Nat.eq_zero_or_pos n with rfl | hpos
  · rfl
  · obtain ⟨c, t, hdigits, hc⟩ := toDigits_eq_cons_of_pos hpos
    have hall : ∀ d ∈ c :: t, isDecimal d = true := hdigits ▸ isDecimal_of_mem_toDigits n
    obtain ⟨hdecimal, htail⟩ := List.forall_mem_cons.1 hall
    rw [hdigits, wholeDigits?, if_pos hdecimal]
    · rw [List.takeWhile_eq_self_iff.2 hall, List.dropWhile_eq_nil_iff.2 htail]
    · exact hc

theorem unsigned?_toDigits (negative : Bool) :
    unsigned? negative (Nat.toDigits 10 n) =
      some (.int (if negative then -(n : Int) else n), []) := by
  rw [unsigned?, wholeDigits?_toDigits]
  show some (Number.int (if negative then -(decimal (Nat.toDigits 10 n) : Int)
    else decimal (Nat.toDigits 10 n)), ([] : List Char)) = _
  rw [decimal_toDigits]

theorem number?_cons_of_isDecimal {c : Char} (h : isDecimal c = true) (s : List Char) :
    number? (c :: s) = unsigned? false (c :: s) := by
  rw [number?]
  intro t ht
  rw [(List.cons.inj ht).1] at h
  exact absurd h (by decide)

theorem encodeNumber_int_ofNat : encodeNumber (.int (.ofNat n)) = Nat.toDigits 10 n :=
  Nat.toList_repr

theorem encodeNumber_int_negSucc :
    encodeNumber (.int (.negSucc n)) = '-' :: Nat.toDigits 10 (n + 1) := by
  show ("-" ++ Nat.repr (n + 1)).toList = _
  rw [String.toList_append, Nat.toList_repr]
  rfl

/-- An integer is read back. -/
theorem number?_encodeNumber_int (n : Int) :
    number? (encodeNumber (.int n)) = some (.int n, []) := by
  cases n with
  | ofNat n =>
    obtain ⟨c, t, hdigits, hc⟩ := toDigits_eq_cons n
    rw [encodeNumber_int_ofNat, hdigits, number?_cons_of_isDecimal hc, ← hdigits]
    exact unsigned?_toDigits n false
  | negSucc n =>
    rw [encodeNumber_int_negSucc]
    exact unsigned?_toDigits (n + 1) true

end digits

/-! ### Texts of numbers -/

/-- A character of the text of an integer or of a finite floating-point number. -/
def isNumeral (c : Char) : Bool := isDecimal c || ['.', 'e', '+', '-'].contains c

/-- The text of an integer or of a finite floating-point number: it starts with a digit, perhaps
after a minus sign. -/
structure Numeral (s : List Char) : Prop where
  isNumeral : ∀ c ∈ s, isNumeral c = true
  start : ∃ c t, isDecimal c = true ∧ (s = c :: t ∨ s = '-' :: c :: t)

theorem isNumeral_of_isDecimal {c : Char} (h : isDecimal c = true) : isNumeral c = true := by
  rw [isNumeral, h, Bool.true_or]

/-- Digits that start with one of ten make up numerals with and without a sign. -/
theorem Numeral.of_isDecimal {c : Char} {t : List Char} (hc : isDecimal c = true)
    (h : ∀ d ∈ c :: t, Json.isNumeral d = true) (negative : Bool) :
    Numeral (if negative then '-' :: c :: t else c :: t) := by
  cases negative with
  | false => exact ⟨h, c, t, hc, .inl rfl⟩
  | true => exact ⟨List.forall_mem_cons.2 ⟨rfl, h⟩, c, t, hc, .inr rfl⟩

section texts

variable {digits : List Char} (hdigits : ∀ c ∈ digits, isNumeral c = true)

include hdigits in
theorem isNumeral_of_mem_positional (point : Int) :
    ∀ c ∈ Binary64.positional digits point, isNumeral c = true := by
  have hzeros (n : Nat) : ∀ c ∈ List.replicate n '0', isNumeral c = true :=
    fun c hc => List.eq_of_mem_replicate hc ▸ rfl
  rw [Binary64.positional]
  split
  · exact List.forall_mem_append.2
      ⟨List.forall_mem_cons.2 ⟨rfl, List.forall_mem_cons.2 ⟨rfl, hzeros _⟩⟩, hdigits⟩
  · dsimp only
    split
    · refine List.forall_mem_append.2 ⟨List.forall_mem_append.2 ⟨hdigits, hzeros _⟩, ?_⟩
      exact List.forall_mem_cons.2 ⟨rfl, List.forall_mem_singleton.2 rfl⟩
    · refine List.forall_mem_append.2 ⟨fun c hc => hdigits c (List.mem_of_mem_take hc), ?_⟩
      exact List.forall_mem_cons.2 ⟨rfl, fun c hc => hdigits c (List.mem_of_mem_drop hc)⟩

include hdigits in
theorem isNumeral_of_mem_scientific (exponent : Int) :
    ∀ c ∈ Binary64.scientific digits exponent, isNumeral c = true := by
  have hpower : ∀ c ∈ Nat.toDigits 10 exponent.natAbs, isNumeral c = true :=
    fun c hc => isNumeral_of_isDecimal (isDecimal_of_mem_toDigits _ c hc)
  rw [Binary64.scientific]
  refine List.forall_mem_append.2 ⟨List.forall_mem_append.2
    ⟨fun c hc => hdigits c (List.mem_of_mem_take hc), ?_⟩, ?_⟩
  · split
    · exact fun c hc => absurd hc List.not_mem_nil
    · exact List.forall_mem_cons.2 ⟨rfl, fun c hc => hdigits c (List.mem_of_mem_drop hc)⟩
  · refine List.forall_mem_cons.2 ⟨rfl, List.forall_mem_cons.2 ⟨by split <;> rfl, ?_⟩⟩
    split
    · exact List.forall_mem_cons.2 ⟨rfl, hpower⟩
    · exact hpower

end texts

theorem isNumeral_of_mem_finiteText (m : Nat) (e : Int) :
    ∀ c ∈ Binary64.finiteText m e, isNumeral c = true := by
  have hdigits (n : Nat) : ∀ c ∈ Nat.toDigits 10 n, isNumeral c = true :=
    fun c hc => isNumeral_of_isDecimal (isDecimal_of_mem_toDigits n c hc)
  rw [Binary64.finiteText]
  split
  · exact List.all_eq_true.1 (by decide)
  · dsimp only
    split
    · exact isNumeral_of_mem_positional (hdigits _) _
    · exact isNumeral_of_mem_scientific (hdigits _) _

/-- At least one digit stands before the point. -/
theorem positional_eq_cons {c : Char} (hc : isDecimal c = true) (t : List Char) (point : Int) :
    ∃ d u, Binary64.positional (c :: t) point = d :: u ∧ isDecimal d = true := by
  rw [Binary64.positional]
  split
  · exact ⟨'0', _, rfl, rfl⟩
  · next hpoint =>
    obtain ⟨n, hn⟩ : ∃ n, point.toNat = n + 1 := ⟨point.toNat - 1, by omega⟩
    rw [hn]
    dsimp only
    split
    · exact ⟨c, _, rfl, hc⟩
    · exact ⟨c, _, rfl, hc⟩

theorem finiteText_eq_cons (m : Nat) (e : Int) :
    ∃ c t, Binary64.finiteText m e = c :: t ∧ isDecimal c = true := by
  rw [Binary64.finiteText]
  split
  · exact ⟨'0', ['.', '0'], rfl, rfl⟩
  · obtain ⟨c, t, hdigits, hc⟩ := toDigits_eq_cons (Binary64.shortest m e).1
    dsimp only
    rw [hdigits]
    split
    · exact positional_eq_cons hc t _
    · exact ⟨c, _, rfl, hc⟩

theorem numeral_encodeNumber_int (n : Int) : Numeral (encodeNumber (.int n)) := by
  have hdigits (n : Nat) (negative : Bool) :
      Numeral (if negative then '-' :: Nat.toDigits 10 n else Nat.toDigits 10 n) := by
    obtain ⟨c, t, htext, hc⟩ := toDigits_eq_cons n
    rw [htext]
    refine Numeral.of_isDecimal hc (fun d hd => isNumeral_of_isDecimal ?_) negative
    exact isDecimal_of_mem_toDigits n d (htext ▸ hd)
  cases n with
  | ofNat n =>
    rw [encodeNumber_int_ofNat]
    exact hdigits n false
  | negSucc n =>
    rw [encodeNumber_int_negSucc]
    exact hdigits (n + 1) true

theorem numeral_encodeNumber_finite (negative : Bool) (m : Nat) (e : Int) :
    Numeral (encodeNumber (.float (.finite negative m e))) := by
  obtain ⟨c, t, htext, hc⟩ := finiteText_eq_cons m e
  have h := Numeral.of_isDecimal hc (htext ▸ isNumeral_of_mem_finiteText m e) negative
  show Numeral (String.ofList (if negative then '-' :: Binary64.finiteText m e
    else Binary64.finiteText m e)).toList
  rwa [String.toList_ofList, htext]

/-! ### Values that are numbers -/

/-- A value that starts as a number does is read as one. -/
theorem value_of_numeral {s : List Char} (h : Numeral s) (fuel : Nat) (r : List Char) :
    value (fuel + 1) (s ++ r) = (number? (s ++ r)).elim (.error ⟨.noValue, s ++ r⟩)
      fun found => .ok (.number found.1, found.2) := by
  obtain ⟨c, t, hc, rfl | rfl⟩ := h.start
  · rw [List.cons_append, value]
    · cases number? (c :: (t ++ r)) <;> rfl
    all_goals
      intro u hu
      rw [(List.cons.inj hu).1] at hc
      exact absurd hc (by decide)
  · rw [List.cons_append, List.cons_append, value]
    · cases number? ('-' :: c :: (t ++ r)) <;> rfl
    case x_10 =>
      intro u hu
      rw [(List.cons.inj (List.cons.inj hu).2).1] at hc
      exact absurd hc (by decide)
    all_goals
      intro u hu
      exact absurd (List.cons.inj hu).1 (by decide)

theorem isSpace_eq_false_of_isNumeral {c : Char} (h : isNumeral c = true) : isSpace c = false := by
  rw [Bool.eq_false_iff]
  intro hspace
  simp only [isSpace, Bool.or_eq_true, decide_eq_true_eq] at hspace
  rcases hspace with ((rfl | rfl) | rfl) | rfl <;> exact absurd h (by decide)

/-- A text that holds just a number is read to its end. -/
theorem number?_of_decode {s : List Char} {n : Number} (hs : Numeral s)
    (h : decode s = .ok (.number n)) : number? s = some (n, []) := by
  have hspace : ∀ c ∈ s, isSpace c = false :=
    fun c hc => isSpace_eq_false_of_isNumeral (hs.isNumeral c hc)
  have hskip : ∀ t ⊆ s, skipSpace t = t := by
    intro t ht
    cases t with
    | nil => rfl
    | cons c t => simp [skipSpace, hspace c (ht List.mem_cons_self)]
  have hvalue := value_of_numeral hs (2 * s.length + 1) []
  rw [List.append_nil] at hvalue
  rw [decode] at h
  split at h
  · next v hdocument =>
    cases h
    rw [document, hskip s (List.Subset.refl s), hvalue] at hdocument
    · cases hnumber : number? s with
      | none =>
        rw [hnumber] at hdocument
        cases hdocument
      | some found =>
        obtain ⟨m, t⟩ := found
        have hrest : skipSpace t = t := hskip t (number?_suffix hnumber).subset
        cases t with
        | nil =>
          rw [hnumber] at hdocument
          cases hdocument
          rfl
        | cons c t =>
          simp [hnumber, bind, Except.bind, hrest] at hdocument
    · rintro t rfl
      exact absurd (hs.isNumeral _ List.mem_cons_self) (by decide)
  · cases h

/-- The number is read back where it stands alone. -/
def Survives (n : Number) : Prop := decode (encodeNumber n) = .ok (.number n)

/-- A number is read back before whatever may follow a value. -/
theorem value_encodeNumber {n : Number} (hn : ∀ x, n = .float x → Survives n) (fuel : Nat)
    {r : List Char} (hr : Follows r) :
    value (fuel + 1) (encodeNumber n ++ r) = .ok (.number n, r) := by
  have hread (hs : Numeral (encodeNumber n)) (h : number? (encodeNumber n) = some (n, [])) :
      value (fuel + 1) (encodeNumber n ++ r) = .ok (.number n, r) := by
    rw [value_of_numeral hs, number?_append hr, h]
    rfl
  match n with
  | .int n => exact hread (numeral_encodeNumber_int n) (number?_encodeNumber_int n)
  | .float .nan => rfl
  | .float (.infinite true) => rfl
  | .float (.infinite false) => rfl
  | .float (.finite negative m e) =>
    have hs := numeral_encodeNumber_finite negative m e
    exact hread hs (number?_of_decode hs (hn _ rfl))

end Storefront.Json
