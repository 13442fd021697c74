import Storefront.Proofs.Json.Numeral

/-!
What holds of the strings in JSON text, of whatever stands outside of them and of texts that are put
together of both holds of the whole text, by induction over the value. So all of it is ASCII: in
strings every other character is escaped by hexadecimal digits.
-/

namespace Storefront.Json

/-! ### Outside of strings -/

/-- A character that can stand outside of strings. -/
def isOuter (c : Char) : Bool := c ≠ '"' && c ≠ '/' && c.toNat < 0x80

theorem isOuter_iff {c : Char} : isOuter c = true ↔ c ≠ '"' ∧ c ≠ '/' ∧ c.toNat < 0x80 := by
  simp [isOuter, and_assoc]

theorem isOuter_of_isNumeral {c : Char} (h : isNumeral c = true) : isOuter c = true := by
  rw [isNumeral, Bool.or_eq_true, List.contains_iff_mem] at h
  rcases h with hdigit | hmark
  · simp only [isDecimal, Bool.and_eq_true, decide_eq_true_eq] at hdigit
    refine isOuter_iff.2 ⟨?_, ?_, Nat.lt_of_le_of_lt hdigit.2 (by decide)⟩
    · rintro rfl
      exact absurd hdigit.1 (by decide)
    · rintro rfl
      exact absurd hdigit.1 (by decide)
  · simp only [List.mem_cons, List.not_mem_nil, or_false] at hmark
    rcases hmark with rfl | rfl | rfl | rfl <;> rfl

theorem all_isOuter_encodeNumber (n : Number) : (encodeNumber n).all isOuter = true := by
  have hnumeral {s : List Char} (h : Numeral s) : s.all isOuter = true :=
    List.all_eq_true.2 fun c hc => isOuter_of_isNumeral (h.isNumeral c hc)
  match n with
  | .int n => exact hnumeral (numeral_encodeNumber_int n)
  | .float .nan => rfl
  | .float (.infinite true) => rfl
  | .float (.infinite false) => rfl
  | .float (.finite negative m e) => exact hnumeral (numeral_encodeNumber_finite negative m e)

section style

variable (style : Style) (depth : Nat)

theorem all_isOuter_newline : (Style.newline depth).all isOuter = true := by
  rw [Style.newline, List.all_cons, List.all_replicate]
  split <;> rfl

theorem all_isOuter_opening : (style.opening depth).all isOuter = true := by
  cases style with
  | compact => rfl
  | indented => exact all_isOuter_newline depth

theorem all_isOuter_separator : (style.separator depth).all isOuter = true := by
  cases style with
  | compact => rfl
  | indented =>
    rw [Style.separator, List.all_cons, all_isOuter_newline]
    rfl

theorem all_isOuter_closing : (style.closing depth).all isOuter = true := by
  cases style with
  | compact => rfl
  | indented => exact all_isOuter_newline (depth - 1)

end style

/-! ### Whole texts -/

/-- The property holds of strings, of what stands outside of them, and of what is put together. -/
structure Composes (P : List Char → Prop) : Prop where
  outer {s : List Char} (h : s.all isOuter = true) : P s
  string (s : String) : P (encodeString s)
  append {s t : List Char} (hs : P s) (ht : P t) : P (s ++ t)

namespace Composes

variable {P : List Char → Prop} (h : Composes P) {s : List Char}

include h

/-- Members between brackets, each bracket and what sets the members apart from it. -/
theorem enclosed (style : Style) (depth : Nat) (hs : P s) {left right : Char}
    (hleft : isOuter left = true) (hright : isOuter right = true) :
    P ([left] ++ style.opening depth ++ s ++ style.closing depth ++ [right]) := by
  have hopening : ([left] ++ style.opening depth).all isOuter = true := by
    rw [List.all_append, all_isOuter_opening, List.all_cons, hleft]
    rfl
  have hclosing : (style.closing depth ++ [right]).all isOuter = true := by
    rw [List.all_append, all_isOuter_closing, List.all_cons, hright]
    rfl
  rw [List.append_assoc _ _ [right]]
  exact h.append (h.append (h.outer hopening) hs) (h.outer hclosing)

theorem field (key : String) (hs : P s) : P (encodeString key ++ ':' :: ' ' :: s) :=
  h.append (h.string key) (h.append (h.outer (show [':', ' '].all isOuter = true from rfl)) hs)

end Composes

mutual

theorem Composes.encodeAt {P : List Char → Prop} (h : Composes P) (style : Style) (depth : Nat) :
    (v : Value) → P (encodeAt style depth v)
  | .null => h.outer rfl
  | .bool true => h.outer rfl
  | .bool false => h.outer rfl
  | .number n => h.outer (all_isOuter_encodeNumber n)
  | .str s => h.string s
  | .list [] => h.outer rfl
  | .list (v :: vs) => by
    have hitems := h.append (h.encodeAt style (depth + 1) v) (h.encodeItems style (depth + 1) vs)
    have htext := h.enclosed style (depth + 1) hitems (show isOuter '[' = true from rfl)
      (show isOuter ']' = true from rfl)
    simpa [Json.encodeAt] using htext
  | .map [] => h.outer rfl
  | .map ((k, v) :: fields) => by
    have hfields := h.append (h.field k (h.encodeAt style (depth + 1) v))
      (h.encodeFields style (depth + 1) fields)
    have htext := h.enclosed style (depth + 1) hfields (show isOuter '\x7b' = true from rfl)
      (show isOuter '\x7d' = true from rfl)
    simpa [Json.encodeAt] using htext

theorem Composes.encodeItems {P : List Char → Prop} (h : Composes P) (style : Style)
    (depth : Nat) : (vs : List Value) → P (encodeItems style depth vs)
  | [] => h.outer rfl
  | v :: vs => by
    have hvalue := h.append (h.outer (all_isOuter_separator style depth))
      (h.encodeAt style depth v)
    simpa [Json.encodeItems] using h.append hvalue (h.encodeItems style depth vs)

theorem Composes.encodeFields {P : List Char → Prop} (h : Composes P) (style : Style)
    (depth : Nat) : (fields : List (String × Value)) → P (encodeFields style depth fields)
  | [] => h.outer rfl
  | (k, v) :: fields => by
    have hfield := h.append (h.outer (all_isOuter_separator style depth))
      (h.field k (h.encodeAt style depth v))
    simpa [Json.encodeFields] using h.append hfield (h.encodeFields style depth fields)

end

/-! ### Texts in ASCII -/

def Ascii (s : List Char) : Prop := ∀ c ∈ s, c.toNat < 0x80

section ascii

variable {s t : List Char}

theorem Ascii.append (hs : Ascii s) (ht : Ascii t) : Ascii (s ++ t) :=
  List.forall_mem_append.2 ⟨hs, ht⟩

theorem Ascii.cons {c : Char} (hc : c.toNat < 0x80) (hs : Ascii s) : Ascii (c :: s) :=
  List.forall_mem_cons.2 ⟨hc, hs⟩

theorem ascii_nil : Ascii [] := List.forall_mem_nil _

theorem toNat_digitChar_lt {n : Nat} (h : n < 16) : (Nat.digitChar n).toNat < 0x80 := by
  have hall : ∀ n < 16, (Nat.digitChar n).toNat < 0x80 := by decide
  exact hall n h

theorem ascii_hex (width u : Nat) : Ascii (Text.hex width u) := by
  induction width generalizing u with
  | zero => exact ascii_nil
  | succ width ih =>
    have hdigit := toNat_digitChar_lt (Nat.mod_lt u (by decide : 0 < 16))
    exact (ih (u / 16)).append (ascii_nil.cons hdigit)

theorem ascii_unitEscape (u : Nat) : Ascii (unitEscape u) :=
  ((ascii_hex 4 u).cons (by decide)).cons (by decide)

theorem ascii_charEscape (c : Char) : Ascii (charEscape c) := by
  have hletter {a : Char} (ha : a.toNat < 0x80) : Ascii ['\\', a] :=
    (ascii_nil.cons ha).cons (by decide)
  rw [charEscape]
  iterate 7
    split
    · exact hletter (by decide)
  split
  · next h =>
    simp only [Bool.and_eq_true, decide_eq_true_eq] at h
    exact ascii_nil.cons (by omega)
  split
  · exact ascii_unitEscape _
  · exact (ascii_unitEscape _).append (ascii_unitEscape _)

theorem ascii_encodeString (s : String) : Ascii (encodeString s) := by
  have hchars : Ascii (s.toList.flatMap charEscape) := by
    intro c hc
    obtain ⟨d, -, hd⟩ := List.mem_flatMap.1 hc
    exact ascii_charEscape d c hd
  exact (hchars.cons (by decide)).append (ascii_nil.cons (by decide))

end ascii

theorem composes_ascii : Composes Ascii where
  outer h c hc := (isOuter_iff.1 (List.all_eq_true.1 h c hc)).2.2
  string := ascii_encodeString
  append := .append

/-- Whatever is encoded, its text is ASCII. -/
theorem ascii_encode (style : Style) (v : Value) : Ascii (encode style v).toList := by
  rw [encode, String.toList_ofList]
  exact composes_ascii.encodeAt style 0 v

end Storefront.Json
