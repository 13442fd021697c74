import Storefront.Proofs.Schema.Admission
import Storefront.Proofs.Schema.Untouched
import Storefront.Proofs.Schema.Wrapping
import Storefront.Settings.Render

/-!
Colours as assets print them. Integral channels are printed with all their digits, of whichever kind
the numbers are, and a colour setting that holds such a text has no issue.
-/

namespace Storefront

/-! ### Integral numbers -/

namespace Number

/-- A value at some exponent equals an integer as one of the two is the other one, shifted. -/
theorem Quantity.eq_shifted_of_order? {m e k : ℤ}
    (h : (Quantity.scaled m e).order? (.scaled k 0) = some .eq) :
    (0 ≤ e → m * 2 ^ e.toNat = k) ∧ (e ≤ 0 → m = k * 2 ^ (-e).toNat) := by
  simp only [order?, Option.some_inj, compare_eq_iff_eq, Nat.one_shiftLeft, Nat.cast_pow,
    Nat.cast_ofNat] at h
  constructor
  · intro he
    rw [min_eq_right he, sub_zero] at h
    simpa using h
  · intro he
    rw [min_eq_left he, sub_self, zero_sub] at h
    simpa using h

/-- A floating-point number that equals an integer is integral, and the integer is what is left of
it without a fraction. -/
theorem truncate_of_equals {x : Binary64} {k : ℤ} (h : equals (.float x) (.int k)) :
    x.isIntegral ∧ x.truncate = k := by
  have horder := of_decide_eq_true h
  cases x with
  | nan => cases horder
  | infinite negative => cases negative <;> cases horder
  | finite negative m e =>
    obtain ⟨hup, hdown⟩ := Quantity.eq_shifted_of_order? horder
    by_cases he : 0 ≤ e
    · refine ⟨by simp [Binary64.isIntegral, he], ?_⟩
      rw [Binary64.truncate, if_pos he, ← hup he, Nat.shiftLeft_eq]
      cases negative <;> simp
    · have hm := hdown (le_of_not_ge he)
      have hmantissa : m = k.natAbs * 2 ^ (-e).toNat := by
        have habs := congrArg Int.natAbs hm
        rw [Int.natAbs_mul, Int.natAbs_pow] at habs
        cases negative <;> simpa using habs
      have hshift : m >>> (-e).toNat = k.natAbs := by
        rw [Nat.shiftRight_eq_div_pow, hmantissa, Nat.mul_div_cancel _ (Nat.two_pow_pos _)]
      constructor
      · simp [Binary64.isIntegral, hshift, Nat.shiftLeft_eq, ← hmantissa]
      · rw [Binary64.truncate, if_neg he, hshift]
        refine Int.eq_of_mul_eq_mul_right (pow_ne_zero (-e).toNat two_ne_zero) ?_
        rw [← hm, hmantissa]
        cases negative <;> simp

/-- A number equals no more than one integer. -/
theorem eq_of_equals {n : Number} {k l : ℤ} (hk : n.equals (.int k)) (hl : n.equals (.int l)) :
    k = l := by
  cases n with
  | int j =>
    have hj := (Quantity.eq_shifted_of_order? (of_decide_eq_true hk)).1 le_rfl
    exact hj.symm.trans ((Quantity.eq_shifted_of_order? (of_decide_eq_true hl)).1 le_rfl)
  | float x => exact (truncate_of_equals hk).2.symm.trans (truncate_of_equals hl).2

theorem plainText_of_equals {n : Number} {k : ℤ} (h : n.equals (.int k)) :
    n.plainText = toString k := by
  cases n with
  | int j =>
    have hj := (Quantity.eq_shifted_of_order? (of_decide_eq_true h)).1 le_rfl
    rw [plainText, ← hj, Int.toNat_zero, pow_zero, mul_one]
  | float x =>
    obtain ⟨hintegral, htruncate⟩ := truncate_of_equals h
    rw [plainText, if_pos hintegral, htruncate]

end Number

/-! ### Functions of integers -/

theorem forall_mem_intercalate {p : Char → Prop} {separator : String}
    (h : ∀ c ∈ separator.toList, p c) (texts : List String) :
    (∀ c ∈ (separator.intercalate texts).toList, p c) ↔ ∀ s ∈ texts, ∀ c ∈ s.toList, p c := by
  induction texts with
  | nil => simp
  | cons s texts ih =>
    cases texts with
    | nil => simp
    | cons s' texts =>
      rw [String.intercalate_cons_cons, String.toList_append, String.toList_append,
        List.forall_mem_append, List.forall_mem_append, ih, List.forall_mem_cons (a := s),
        and_iff_left h]

namespace Schema

/-- The digits of a number may stand in a colour, the sign of a negative one may not. -/
theorem isChannelChar_toString_iff (k : ℤ) :
    (∀ c ∈ (toString k).toList, isChannelChar c) ↔ 0 ≤ k := by
  cases k with
  | ofNat n =>
    refine iff_of_true (fun c hc => ?_) (Int.natCast_nonneg n)
    have hdigit : c.isDigit = true :=
      Nat.isDigit_of_mem_toDigits (by decide) (by decide) (Nat.toList_repr ▸ hc)
    rw [isChannelChar, hdigit]
    rfl
  | negSucc n =>
    refine iff_of_false (fun h => ?_) (Int.negSucc_not_nonneg n).1
    have hsign : '-' ∈ (toString (Int.negSucc n)).toList := by
      show '-' ∈ ("-" ++ Nat.repr (n + 1)).toList
      simp
    exact absurd (h '-' hsign) (by decide)

/-- Integers as the channels of a colour. -/
def channelText (numbers : List ℤ) : String := ", ".intercalate (numbers.map toString)

theorem isChannels_channelText_iff {k l : ℤ} {numbers : List ℤ} :
    isChannels ((channelText (k :: l :: numbers)).toList ++ [')']) ↔
      ∀ n ∈ k :: l :: numbers, 0 ≤ n := by
  have hne : (channelText (k :: l :: numbers)).toList ≠ [] := by
    simp [channelText, String.intercalate_cons_cons]
  have hcomma : ", ".toList.all isChannelChar = true := by decide
  have hchars : (∀ c ∈ (channelText (k :: l :: numbers)).toList, isChannelChar c) ↔
      ∀ n ∈ k :: l :: numbers, 0 ≤ n := by
    rw [channelText, forall_mem_intercalate (List.all_eq_true.1 hcomma), List.forall_mem_map]
    exact forall₂_congr fun n _ => isChannelChar_toString_iff n
  rw [isChannels_iff, ← hchars]
  constructor
  · rintro ⟨channels, heq, -, h⟩
    rwa [List.append_cancel_right heq]
  · exact fun h => ⟨_, rfl, hne, h⟩

/-- A colour of integers without a fraction, opaque unless there is an alpha. -/
def colorText (red green blue : ℤ) : Option ℤ → String
  | none => "rgb(" ++ channelText [red, green, blue] ++ ")"
  | some alpha => "rgba(" ++ channelText [red, green, blue, alpha] ++ ")"

theorem channelText_append (red green blue alpha : ℤ) :
    channelText [red, green, blue] ++ ", " ++ toString alpha =
      channelText [red, green, blue, alpha] := rfl

theorem mem_colorText (red green blue : ℤ) (alpha : Option ℤ) :
    'r' ∈ (colorText red green blue alpha).toList := by
  cases alpha <;> simp [colorText]

/-- A colour of integers is one where none of them is negative. -/
theorem isColor_colorText_iff {red green blue : ℤ} {alpha : Option ℤ} {text : String}
    {left right : List Char} (hleft : ∀ c ∈ left, Text.isBlank c)
    (hright : ∀ c ∈ right, Text.isBlank c)
    (htext : text.toList = left ++ (colorText red green blue alpha).toList ++ right) :
    isColor text ↔ ∀ n ∈ [red, green, blue] ++ alpha.toList, 0 ≤ n := by
  have htrim {s : List Char} (hs : (colorText red green blue alpha).toList = 'r' :: (s ++ [')'])) :
      Text.trim text.toList = 'r' :: (s ++ [')']) := by
    rw [htext, hs, List.append_assoc, Text.trim_append hleft hright (by decide) (by decide)]
  cases alpha with
  | none =>
    rw [isColor, htrim (s := "gb(".toList ++ (channelText [red, green, blue]).toList) ?text]
    case text =>
      rw [colorText, String.toList_append, String.toList_append]
      rfl
    exact isChannels_channelText_iff
  | some alpha =>
    rw [isColor, htrim (s := "gba(".toList ++ (channelText [red, green, blue, alpha]).toList) ?text]
    case text =>
      rw [colorText, String.toList_append, String.toList_append]
      rfl
    exact isChannels_channelText_iff

end Schema

/-! ### Printed colours -/

/-- The value is a number that equals the integer. -/
def Value.IsInteger (v : Value) (k : ℤ) : Prop := ∃ n : Number, v = .number n ∧ n.equals (.int k)

/-- The fields are those of a colour with these integers for channels. -/
structure IsIntegerColor (fields : Dict Value) (red green blue : ℤ) (alpha : Option ℤ) : Prop where
  red : (Value.field fields "red").IsInteger red
  green : (Value.field fields "green").IsInteger green
  blue : (Value.field fields "blue").IsInteger blue
  alpha : alpha.elim (Value.field fields "alpha" = .null) (Value.field fields "alpha").IsInteger

variable {fields values : Dict Value} {red green blue : ℤ} {alpha : Option ℤ} {s : Setting}
  {id text : String} {left right : List Char}

theorem channel?_of_isInteger {name : String} {k : ℤ} (h : (Value.field fields name).IsInteger k) :
    ∃ n, channel? fields name = some n ∧ n.plainText = toString k := by
  obtain ⟨n, hfield, hn⟩ := h
  exact ⟨n, by rw [channel?, hfield], Number.plainText_of_equals hn⟩

/-- A colour with integers for channels is printed as they are, without an alpha of 1. -/
theorem IsIntegerColor.render_eq (h : IsIntegerColor fields red green blue alpha) :
    (Value.map fields).render = Schema.colorText red green blue (alpha.filter (· ≠ 1)) := by
  obtain ⟨r, hr, hred⟩ := channel?_of_isInteger h.red
  obtain ⟨g, hg, hgreen⟩ := channel?_of_isInteger h.green
  obtain ⟨b, hb, hblue⟩ := channel?_of_isInteger h.blue
  have halpha := h.alpha
  have hchannels : s!"{r.plainText}, {g.plainText}, {b.plainText}" =
      Schema.channelText [red, green, blue] := by
    rw [hred, hgreen, hblue]
    rfl
  simp only [Value.render, renderColor?, hr, hg, hb, Option.bind_eq_bind, Option.bind_some,
    hchannels]
  cases alpha with
  | none =>
    rw [Option.elim_none] at halpha
    rw [halpha]
    rfl
  | some a =>
    obtain ⟨n, hfield, hn⟩ := halpha
    rw [hfield, Option.filter_some]
    by_cases ha : a = 1
    · subst ha
      simp only [Value.equals, hn]
      rfl
    · have hne : ¬n.equals (.int 1) := fun h => ha (Number.eq_of_equals hn h)
      rw [if_pos (by simpa using ha), Schema.colorText, ← Schema.channelText_append]
      simp only [Value.equals, hne, Value.plainText, Number.plainText_of_equals hn,
        ← String.append_assoc]
      rfl

/-- What is printed of a colour with integers for channels is a colour where none of them is
negative. -/
theorem IsIntegerColor.isColor_iff (h : IsIntegerColor fields red green blue alpha)
    (hleft : ∀ c ∈ left, Text.isBlank c) (hright : ∀ c ∈ right, Text.isBlank c)
    (htext : text.toList = left ++ (Value.map fields).render.toList ++ right) :
    Schema.isColor text ↔ 0 ≤ red ∧ 0 ≤ green ∧ 0 ≤ blue ∧ ∀ a ∈ alpha, 0 ≤ a := by
  rw [h.render_eq] at htext
  rw [Schema.isColor_colorText_iff hleft hright htext]
  cases alpha with
  | none => simp
  | some a =>
    by_cases ha : a = 1
    · simp [ha]
    · simp [ha]

namespace Setting

theorem issues_append_cons (values : Dict Value) (first : List Setting) (s : Setting)
    (rest : List Setting) : issues values (first ++ s :: rest) =
      issues values first ++ (s.issue? values).toList ++ issues values rest := by
  rw [issues, List.filterMap_append, List.filterMap_cons]
  cases s.issue? values <;> simp [issues]

/-- A colour setting that holds what is printed of a colour with integers for channels, of either
kind of numbers and of any size, has no issue unless one of them is negative. Blanks around the text
make no difference. -/
theorem issues_printed_color (h : IsIntegerColor fields red green blue alpha)
    (hkind : s.kind = .color) (hid : s.id? = some id) (hvalue : values.get? id = some (.str text))
    (hleft : ∀ c ∈ left, Text.isBlank c) (hright : ∀ c ∈ right, Text.isBlank c)
    (htext : text.toList = left ++ (Value.map fields).render.toList ++ right)
    (first rest : List Setting) :
    issues values (first ++ s :: rest) = issues values first ++
      (if 0 ≤ red ∧ 0 ≤ green ∧ 0 ≤ blue ∧ ∀ a ∈ alpha, 0 ≤ a then []
        else [⟨id, .notAColor text⟩]) ++ issues values rest := by
  have hne : text ≠ "" := by
    rintro rfl
    rw [h.render_eq, eq_comm, String.toList_empty, List.append_eq_nil_iff,
      List.append_eq_nil_iff] at htext
    have hmem := Schema.mem_colorText red green blue (alpha.filter (· ≠ 1))
    rw [htext.1.2] at hmem
    cases hmem
  have hissue : s.issue? values = if Schema.isColor text then none
      else some ⟨id, .notAColor text⟩ := by
    rw [issue?_of_ne_null hid hvalue (by simp), hkind, Kind.complaint?]
    cases Schema.isColor text <;> simp [hne]
  rw [issues_append_cons, hissue]
  simp only [h.isColor_iff hleft hright htext]
  split <;> rfl

/-- Channels of both kinds, one of them beyond what a floating-point number holds digit by digit and
one a negative zero, and an alpha of 1 that is not printed. -/
theorem issues_printed_color_floats :
    let fields : Dict Value := [("red", .number (.float (.finite false 4768371582031250 21))),
      ("green", .int 255), ("blue", .number (.float (.zero true))),
      ("alpha", .number (.float (.finite false (1 <<< 52) (-52))))]
    let text := "\n\trgb(10000000000000000000000, 255, 0) "
    let s : Setting :=
      { type := "color", id := some "accent", label := "", info := none, declared := none
        kind := .color }
    (Value.map fields).render = "rgb(10000000000000000000000, 255, 0)" ∧
      issues [("accent", .str text)] [s] = [] := by
  intro fields text s
  have hrender : (Value.map fields).render = "rgb(10000000000000000000000, 255, 0)" := by
    decide +kernel
  have hcolor : IsIntegerColor fields 10000000000000000000000 255 0 (some 1) :=
    ⟨⟨_, rfl, by decide +kernel⟩, ⟨_, rfl, by decide⟩, ⟨_, rfl, by decide +kernel⟩,
      ⟨_, rfl, by decide +kernel⟩⟩
  have htext : text.toList =
      ['\n', '\t'] ++ (Value.map fields).render.toList ++ [' '] := by
    rw [hrender]
    decide
  have hleft : ['\n', '\t'].all Text.isBlank = true := by decide
  have hright : [' '].all Text.isBlank = true := by decide
  have hissues : issues [("accent", .str text)] ([] ++ s :: []) = _ :=
    issues_printed_color hcolor rfl rfl rfl (List.all_eq_true.1 hleft) (List.all_eq_true.1 hright)
      htext [] []
  refine ⟨hrender, hissues.trans ?_⟩
  rw [if_pos (by simp)]
  rfl

end Setting

end Storefront
