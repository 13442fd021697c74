import Storefront.Proofs.Json.Encoding
import Storefront.Proofs.Json.Quoting

/-!
JSON text reads back as the value it was written from, on one line or on many. No part of it is taken
for a comment, the gaps between members are passed over, a value ends where the text around it goes
on, and the fuel of a reader, two for each character, lasts to the end of the value.
-/

namespace Storefront.Json

variable {style : Style}

/-! ### Gaps between members -/

theorem isSpace_newline (depth : Nat) : ∀ c ∈ Style.newline depth, isSpace c = true := by
  intro c hc
  rcases List.mem_cons.1 hc with rfl | hc
  · rfl
  · rw [List.eq_of_mem_replicate hc]
    rfl

theorem isSpace_opening (depth : Nat) : ∀ c ∈ style.opening depth, isSpace c = true := by
  cases style with
  | compact => exact List.forall_mem_nil _
  | indented => exact isSpace_newline depth

theorem isSpace_closing (depth : Nat) : ∀ c ∈ style.closing depth, isSpace c = true := by
  cases style with
  | compact => exact List.forall_mem_nil _
  | indented => exact isSpace_newline (depth - 1)

theorem separator_eq_cons (style : Style) (depth : Nat) :
    ∃ gap, style.separator depth = ',' :: gap ∧ ∀ c ∈ gap, isSpace c = true := by
  cases style with
  | compact => exact ⟨[' '], rfl, List.forall_mem_singleton.2 rfl⟩
  | indented => exact ⟨Style.newline depth, rfl, isSpace_newline depth⟩

/-- A gap is passed over. -/
theorem skipSpace_append {gap : List Char} (h : ∀ c ∈ gap, isSpace c = true) (s : List Char) :
    skipSpace (gap ++ s) = skipSpace s :=
  List.dropWhile_append_of_pos h

theorem Follows.closing (depth : Nat) {r : List Char} (h : Follows r) :
    Follows (style.closing depth ++ r) := by
  cases style with
  | compact => exact h
  | indented => exact .inr ⟨_, .inr (.inr (.inr rfl))⟩

/-! ### No comments -/

/-- Stripping leaves the text as it is, whatever follows it. -/
def Kept (s : List Char) : Prop := ∀ r, stripFrom .code (s ++ r) = s ++ stripFrom .code r

section kept

variable {s t : List Char}

theorem Kept.append (hs : Kept s) (ht : Kept t) : Kept (s ++ t) := by
  intro r
  rw [List.append_assoc, hs, ht, List.append_assoc]

theorem Kept.cons {c : Char} (hquote : c ≠ '"') (hslash : c ≠ '/') (hs : Kept s) :
    Kept (c :: s) := by
  intro r
  rw [List.cons_append, stripFrom, hs]
  · rfl
  · exact hquote
  · exact fun u hu => absurd hu hslash
  · exact fun u hu => absurd hu hslash

theorem kept_nil : Kept [] := fun _ => rfl

theorem kept_of_forall (h : ∀ c ∈ s, c ≠ '"' ∧ c ≠ '/') : Kept s := by
  induction s with
  | nil => exact kept_nil
  | cons c s ih =>
    obtain ⟨⟨hquote, hslash⟩, hs⟩ := List.forall_mem_cons.1 h
    exact (ih hs).cons hquote hslash

theorem kept_of_isSpace (h : ∀ c ∈ s, isSpace c = true) : Kept s := by
  refine kept_of_forall fun c hc => ⟨?_, ?_⟩
  · rintro rfl
    exact absurd (h _ hc) (by decide)
  · rintro rfl
    exact absurd (h _ hc) (by decide)

theorem stripFrom_string_append (h : ∀ c ∈ s, c ≠ '"' ∧ c ≠ '\\') (r : List Char) :
    stripFrom .string (s ++ r) = s ++ stripFrom .string r := by
  induction s with
  | nil => rfl
  | cons c s ih =>
    obtain ⟨⟨hquote, hbackslash⟩, hs⟩ := List.forall_mem_cons.1 h
    rw [List.cons_append, stripFrom, ih hs]
    · rfl
    · exact fun d u hd => absurd hd hbackslash
    · exact hquote

theorem hex_of_mem {width u : Nat} : ∀ c ∈ Text.hex width u, c ≠ '"' ∧ c ≠ '\\' := by
  have hdigit : ∀ n < 16, Nat.digitChar n ≠ '"' ∧ Nat.digitChar n ≠ '\\' := by decide
  induction width generalizing u with
  | zero => exact fun c hc => absurd hc List.not_mem_nil
  | succ width ih =>
    refine List.forall_mem_append.2 ⟨ih, List.forall_mem_singleton.2 ?_⟩
    exact hdigit (u % 16) (Nat.mod_lt u (by decide))

theorem stripFrom_string_unitEscape (u : Nat) (r : List Char) :
    stripFrom .string (unitEscape u ++ r) = unitEscape u ++ stripFrom .string r := by
  show '\\' :: 'u' :: stripFrom .string (Text.hex 4 u ++ r) = _
  rw [stripFrom_string_append hex_of_mem]
  rfl

/-- The escape of a character does not end the string. -/
theorem Escapes.stripFrom_string {c : Char} {e : List Char} (h : Escapes c e) (r : List Char) :
    stripFrom .string (e ++ r) = e ++ stripFrom .string r := by
  cases h with
  | letter => rfl
  | plain hquote hbackslash =>
    exact stripFrom_string_append (List.forall_mem_singleton.2 ⟨hquote, hbackslash⟩) r
  | unit => exact stripFrom_string_unitEscape _ r
  | pair =>
    rw [List.append_assoc, stripFrom_string_unitEscape, stripFrom_string_unitEscape,
      List.append_assoc]

theorem stripFrom_string_flatMap_charEscape (cs r : List Char) :
    stripFrom .string (cs.flatMap charEscape ++ '"' :: r) =
      cs.flatMap charEscape ++ '"' :: stripFrom .code r := by
  induction cs with
  | nil => rfl
  | cons c cs ih =>
    rw [List.flatMap_cons, List.append_assoc, (escapes_charEscape c).stripFrom_string, ih,
      List.append_assoc]

theorem kept_encodeString (s : String) : Kept (encodeString s) := by
  intro r
  have h := stripFrom_string_flatMap_charEscape s.toList r
  simpa [encodeString, stripFrom] using h

theorem composes_kept : Composes Kept where
  outer h := kept_of_forall fun c hc => by
    obtain ⟨hquote, hslash, -⟩ := isOuter_iff.1 (List.all_eq_true.1 h c hc)
    exact ⟨hquote, hslash⟩
  string := kept_encodeString
  append := .append

end kept

/-- Nothing is stripped from the text of a value and the blanks behind it. -/
theorem stripComments_encodeAt (style : Style) (depth : Nat) (v : Value) {blanks : List Char}
    (h : ∀ c ∈ blanks, isSpace c = true) :
    stripComments (encodeAt style depth v ++ blanks) = encodeAt style depth v ++ blanks := by
  have hkept := (composes_kept.encodeAt style depth v).append (kept_of_isSpace h) []
  rwa [List.append_nil, stripFrom, List.append_nil] at hkept

/-! ### The start of a value -/

/-- No value starts with a blank, a closing bracket or a byte order mark. -/
theorem encodeAt_eq_cons (style : Style) (depth : Nat) (v : Value) :
    ∃ c t, encodeAt style depth v = c :: t ∧ isSpace c = false ∧ c ≠ ']' ∧ c ≠ '\ufeff' := by
  have hnumeral {s : List Char} (h : Numeral s) :
      ∃ c t, s = c :: t ∧ isSpace c = false ∧ c ≠ ']' ∧ c ≠ '\ufeff' := by
    have hstart : ∃ c t, s = c :: t := by
      obtain ⟨c, t, -, rfl | rfl⟩ := h.start
      · exact ⟨c, t, rfl⟩
      · exact ⟨'-', c :: t, rfl⟩
    obtain ⟨c, t, rfl⟩ := hstart
    have hc : isNumeral c = true := h.isNumeral c List.mem_cons_self
    refine ⟨c, t, rfl, isSpace_eq_false_of_isNumeral hc, ?_, ?_⟩
    · rintro rfl
      exact absurd hc (by decide)
    · rintro rfl
      exact absurd hc (by decide)
  match v with
  | .null => exact ⟨'n', _, rfl, by decide⟩
  | .bool true => exact ⟨'t', _, rfl, by decide⟩
  | .bool false => exact ⟨'f', _, rfl, by decide⟩
  | .number (.int n) => exact hnumeral (numeral_encodeNumber_int n)
  | .number (.float .nan) => exact ⟨'N', _, rfl, by decide⟩
  | .number (.float (.infinite true)) => exact ⟨'-', _, rfl, by decide⟩
  | .number (.float (.infinite false)) => exact ⟨'I', _, rfl, by decide⟩
  | .number (.float (.finite negative m e)) =>
    exact hnumeral (numeral_encodeNumber_finite negative m e)
  | .str s => exact ⟨'"', _, rfl, by decide⟩
  | .list [] => exact ⟨'[', _, rfl, by decide⟩
  | .list (v :: vs) => exact ⟨'[', _, rfl, by decide⟩
  | .map [] => exact ⟨'\x7b', _, rfl, by decide⟩
  | .map ((k, v) :: fields) => exact ⟨'\x7b', _, rfl, by decide⟩

theorem skipSpace_encodeAt (style : Style) (depth : Nat) (v : Value) (r : List Char) :
    skipSpace (encodeAt style depth v ++ r) = encodeAt style depth v ++ r := by
  obtain ⟨c, t, htext, hspace, -⟩ := encodeAt_eq_cons style depth v
  rw [htext, List.cons_append]
  simp [skipSpace, hspace]

/-! ### Values read back -/

/-- Data as JSON has it: the keys of each map are distinct, and each floating-point number survives
printing and reading. -/
inductive Data : Value → Prop
  | null : Data .null
  | bool (b : Bool) : Data (.bool b)
  | number {n : Number} (h : ∀ x, n = .float x → Survives n) : Data (.number n)
  | str (s : String) : Data (.str s)
  | list {items : List Value} (h : ∀ v ∈ items, Data v) : Data (.list items)
  | map {fields : List (String × Value)} (hkeys : (Dict.keys fields).Nodup)
    (h : ∀ p ∈ fields, Data p.2) : Data (.map fields)

/-- The text of the value is read as the value, whatever may follow it. -/
def Reads (v : Value) : Prop :=
  ∀ style depth fuel r, 2 * (encodeAt style depth v).length ≤ fuel → Follows r →
    value fuel (encodeAt style depth v ++ r) = .ok (v, r)

section steps

variable {fuel : Nat} {s t r : List Char} {v : Value}

theorem elements_last (hv : value fuel s = .ok (v, t)) (ht : skipSpace t = ']' :: r) :
    elements (fuel + 1) s = .ok ([v], r) := by
  rw [elements, hv]
  simp only [bind, Except.bind, ht]
  rfl

theorem elements_cons {vs : List Value} {u : List Char} (hv : value fuel s = .ok (v, t))
    (ht : skipSpace t = ',' :: u) (hvs : elements fuel (skipSpace u) = .ok (vs, r)) :
    elements (fuel + 1) s = .ok (v :: vs, r) := by
  rw [elements, hv]
  simp only [bind, Except.bind, ht, hvs]
  rfl

/-- A list is read if what follows its bracket does not close it. -/
theorem value_list {vs : List Value} {c : Char} (hs : skipSpace s = c :: t) (hc : c ≠ ']')
    (hvs : elements fuel (c :: t) = .ok (vs, r)) :
    value (fuel + 1) ('[' :: s) = .ok (.list vs, r) := by
  rw [value, hs]
  split
  · next heq => exact absurd (List.cons.inj heq).1 hc
  · rw [hvs]
    rfl

variable {k : String} {u w : List Char}

theorem members_last (hk : string s = .ok (k, t)) (ht : skipSpace t = ':' :: u)
    (hv : value fuel (skipSpace u) = .ok (v, w)) (hw : skipSpace w = '\x7d' :: r) :
    members (fuel + 1) ('"' :: s) = .ok ([(k, v)], r) := by
  rw [members, hk]
  simp only [bind, Except.bind, ht, hv, hw]
  rfl

theorem members_cons {fields : List (String × Value)} {x : List Char}
    (hk : string s = .ok (k, t)) (ht : skipSpace t = ':' :: u)
    (hv : value fuel (skipSpace u) = .ok (v, w)) (hw : skipSpace w = ',' :: x)
    (hfields : members fuel (skipSpace x) = .ok (fields, r)) :
    members (fuel + 1) ('"' :: s) = .ok ((k, v) :: fields, r) := by
  rw [members, hk]
  simp only [bind, Except.bind, ht, hv, hw, hfields]
  rfl

/-- A map is read if what follows its brace does not close it. -/
theorem value_map {fields : List (String × Value)} {c : Char} (hs : skipSpace s = c :: t)
    (hc : c ≠ '\x7d') (hfields : members fuel (c :: t) = .ok (fields, r)) :
    value (fuel + 1) ('\x7b' :: s) = .ok (.map (Dict.ofList fields), r) := by
  rw [value, hs]
  split
  · next heq => exact absurd (List.cons.inj heq).1 hc
  · rw [hfields]
    rfl

end steps

section reads

variable {depth fuel : Nat} {tail r : List Char}

/-- The blank that a colon ends with is passed over, and no more. -/
theorem skipSpace_blank_encodeAt (v : Value) (r : List Char) :
    skipSpace (' ' :: (encodeAt style depth v ++ r)) = encodeAt style depth v ++ r :=
  skipSpace_encodeAt style depth v r

theorem elements_of_reads {v : Value} {vs : List Value} (hv : Reads v) (hvs : ∀ w ∈ vs, Reads w)
    (hfuel : 2 * ((encodeAt style depth v).length + (encodeItems style depth vs).length) < fuel)
    (htail : Follows tail) (hclosing : skipSpace tail = ']' :: r) :
    elements fuel (encodeAt style depth v ++ (encodeItems style depth vs ++ tail)) =
      .ok (v :: vs, r) := by
  induction vs generalizing v fuel with
  | nil =>
    obtain ⟨fuel, rfl⟩ := Nat.exists_eq_succ_of_ne_zero (Nat.ne_zero_of_lt hfuel)
    exact elements_last (hv style depth fuel tail (by omega) htail) hclosing
  | cons w vs ih =>
    obtain ⟨fuel, rfl⟩ := Nat.exists_eq_succ_of_ne_zero (Nat.ne_zero_of_lt hfuel)
    obtain ⟨gap, hseparator, hgap⟩ := separator_eq_cons style depth
    obtain ⟨rest, hrest⟩ : ∃ rest, rest = encodeAt style depth w ++
      (encodeItems style depth vs ++ tail) := ⟨_, rfl⟩
    have hitems : encodeItems style depth (w :: vs) ++ tail = ',' :: (gap ++ rest) := by
      simp [hrest, encodeItems, hseparator]
    have hlength : (encodeAt style depth w).length + (encodeItems style depth vs).length <
        (encodeItems style depth (w :: vs)).length := by
      simp only [encodeItems, hseparator, List.length_append, List.length_cons]
      omega
    obtain ⟨hw, hvs⟩ := List.forall_mem_cons.1 hvs
    have hread := hv style depth fuel (',' :: (gap ++ rest)) (by omega) (.inr ⟨_, .inl rfl⟩)
    have hitem : elements fuel (skipSpace (gap ++ rest)) = .ok (w :: vs, r) := by
      rw [skipSpace_append hgap, hrest, skipSpace_encodeAt]
      exact ih hw hvs (by omega)
    rw [hitems]
    exact elements_cons hread rfl hitem

theorem members_of_reads {k : String} {v : Value} {fields : List (String × Value)} (hv : Reads v)
    (hfields : ∀ p ∈ fields, Reads p.2)
    (hfuel : 2 * ((encodeAt style depth v).length + (encodeFields style depth fields).length) <
      fuel)
    (htail : Follows tail) (hclosing : skipSpace tail = '\x7d' :: r) :
    members fuel (encodeString k ++ ':' :: ' ' :: (encodeAt style depth v ++
      (encodeFields style depth fields ++ tail))) = .ok ((k, v) :: fields, r) := by
  induction fields generalizing k v fuel with
  | nil =>
    obtain ⟨fuel, rfl⟩ := Nat.exists_eq_succ_of_ne_zero (Nat.ne_zero_of_lt hfuel)
    have hread := hv style depth fuel tail (by omega) htail
    obtain ⟨s, hs, hkey⟩ := string_encodeString k (':' :: ' ' :: (encodeAt style depth v ++ tail))
    rw [← skipSpace_blank_encodeAt] at hread
    rw [encodeFields, List.nil_append, hs]
    exact members_last hkey rfl hread hclosing
  | cons p fields ih =>
    obtain ⟨fuel, rfl⟩ := Nat.exists_eq_succ_of_ne_zero (Nat.ne_zero_of_lt hfuel)
    obtain ⟨j, w⟩ := p
    obtain ⟨gap, hseparator, hgap⟩ := separator_eq_cons style depth
    obtain ⟨rest, hrest⟩ : ∃ rest, rest = encodeString j ++ ':' :: ' ' ::
      (encodeAt style depth w ++ (encodeFields style depth fields ++ tail)) := ⟨_, rfl⟩
    have htext : encodeFields style depth ((j, w) :: fields) ++ tail = ',' :: (gap ++ rest) := by
      simp [hrest, encodeFields, hseparator]
    have hlength : (encodeAt style depth w).length + (encodeFields style depth fields).length <
        (encodeFields style depth ((j, w) :: fields)).length := by
      simp only [encodeFields, hseparator, List.length_append, List.length_cons]
      omega
    have hw : Reads w := hfields (j, w) List.mem_cons_self
    have hread := hv style depth fuel (',' :: (gap ++ rest)) (by omega) (.inr ⟨_, .inl rfl⟩)
    have hfield : members fuel (skipSpace (gap ++ rest)) = .ok ((j, w) :: fields, r) := by
      rw [skipSpace_append hgap, hrest]
      exact ih hw (fun p hp => hfields p (List.mem_cons_of_mem _ hp)) (by omega)
    obtain ⟨s, hs, hkey⟩ := string_encodeString k (':' :: ' ' :: (encodeAt style depth v ++
      ',' :: (gap ++ rest)))
    rw [← skipSpace_blank_encodeAt] at hread
    rw [htext, hs]
    exact members_cons hkey rfl hread rfl hfield

end reads

/-- The text of a value has a character, so there is fuel. -/
theorem Reads.of_succ {v : Value} (h : ∀ style depth fuel r,
    2 * (encodeAt style depth v).length ≤ fuel + 1 → Follows r →
      value (fuel + 1) (encodeAt style depth v ++ r) = .ok (v, r)) : Reads v := by
  intro style depth fuel r hfuel hr
  obtain ⟨c, t, htext, -⟩ := encodeAt_eq_cons style depth v
  have hpos : 0 < (encodeAt style depth v).length := by
    rw [htext]
    exact Nat.succ_pos _
  obtain ⟨fuel, rfl⟩ : ∃ n, fuel = n + 1 := ⟨fuel - 1, by omega⟩
  exact h style depth fuel r hfuel hr

theorem reads_list_cons {v : Value} {vs : List Value} (hv : Reads v) (hvs : ∀ w ∈ vs, Reads w) :
    Reads (.list (v :: vs)) := by
  refine Reads.of_succ fun style depth fuel r hfuel _ => ?_
  obtain ⟨c, t, htext, -, hbracket, -⟩ := encodeAt_eq_cons style (depth + 1) v
  obtain ⟨tail, htail⟩ : ∃ tail, tail = style.closing (depth + 1) ++ ']' :: r := ⟨_, rfl⟩
  have hfollows : Follows tail := htail ▸ Follows.closing _ (.inr ⟨r, .inr (.inl rfl)⟩)
  have hclosing : skipSpace tail = ']' :: r := by
    rw [htail, skipSpace_append (isSpace_closing _)]
    rfl
  obtain ⟨rest, hrest⟩ : ∃ rest, rest = encodeItems style (depth + 1) vs ++ tail := ⟨_, rfl⟩
  have hlength : (encodeAt style (depth + 1) v).length +
      (encodeItems style (depth + 1) vs).length + 2 ≤
        (encodeAt style depth (.list (v :: vs))).length := by
    simp [encodeAt]
    omega
  have hlist : encodeAt style depth (.list (v :: vs)) ++ r =
      '[' :: (style.opening (depth + 1) ++ (encodeAt style (depth + 1) v ++ rest)) := by
    simp [hrest, htail, encodeAt]
  have hskip : skipSpace (style.opening (depth + 1) ++ (encodeAt style (depth + 1) v ++ rest)) =
      c :: (t ++ rest) := by
    rw [skipSpace_append (isSpace_opening _), skipSpace_encodeAt, htext]
    rfl
  have helements : elements fuel (c :: (t ++ rest)) = .ok (v :: vs, r) := by
    rw [← List.cons_append, ← htext, hrest]
    exact elements_of_reads hv hvs (by omega) hfollows hclosing
  rw [hlist]
  exact value_list hskip hbracket helements

theorem reads_map_cons {k : String} {v : Value} {fields : List (String × Value)} (hv : Reads v)
    (hfields : ∀ p ∈ fields, Reads p.2) (hkeys : (Dict.keys ((k, v) :: fields)).Nodup) :
    Reads (.map ((k, v) :: fields)) := by
  refine Reads.of_succ fun style depth fuel r hfuel _ => ?_
  obtain ⟨tail, htail⟩ : ∃ tail, tail = style.closing (depth + 1) ++ '\x7d' :: r := ⟨_, rfl⟩
  have hfollows : Follows tail := htail ▸ Follows.closing _ (.inr ⟨r, .inr (.inr (.inl rfl))⟩)
  have hclosing : skipSpace tail = '\x7d' :: r := by
    rw [htail, skipSpace_append (isSpace_closing _)]
    rfl
  obtain ⟨rest, hrest⟩ : ∃ rest, rest = ':' :: ' ' :: (encodeAt style (depth + 1) v ++
    (encodeFields style (depth + 1) fields ++ tail)) := ⟨_, rfl⟩
  have hlength : (encodeAt style (depth + 1) v).length +
      (encodeFields style (depth + 1) fields).length + 2 ≤
        (encodeAt style depth (.map ((k, v) :: fields))).length := by
    simp [encodeAt]
    omega
  have hmap : encodeAt style depth (.map ((k, v) :: fields)) ++ r =
      '\x7b' :: (style.opening (depth + 1) ++ (encodeString k ++ rest)) := by
    simp [hrest, htail, encodeAt]
  obtain ⟨t, ht, -⟩ := string_encodeString k rest
  have hskip : skipSpace (style.opening (depth + 1) ++ (encodeString k ++ rest)) = '"' :: t := by
    rw [skipSpace_append (isSpace_opening _), ht]
    rfl
  have hmembers : members fuel ('"' :: t) = .ok ((k, v) :: fields, r) := by
    rw [← ht, hrest]
    exact members_of_reads hv hfields (by omega) hfollows hclosing
  have hread := value_map hskip (by decide) hmembers
  rwa [Dict.ofList_of_nodup hkeys, ← hmap] at hread

/-- Data is read back from its text. -/
theorem Data.reads {v : Value} (h : Data v) : Reads v := by
  induction h with
  | null => exact Reads.of_succ fun style depth fuel r _ _ => rfl
  | bool b => exact Reads.of_succ fun style depth fuel r _ _ => by cases b <;> rfl
  | number hn => exact Reads.of_succ fun style depth fuel r _ hr => value_encodeNumber hn fuel hr
  | str s =>
    refine Reads.of_succ fun style depth fuel r _ _ => ?_
    obtain ⟨t, ht, hstring⟩ := string_encodeString s r
    rw [encodeAt, ht, value, hstring]
    rfl
  | @list items _ ih =>
    cases items with
    | nil => exact Reads.of_succ fun style depth fuel r _ _ => rfl
    | cons v vs =>
      obtain ⟨hv, hvs⟩ := List.forall_mem_cons.1 ih
      exact reads_list_cons hv hvs
  | @map fields hkeys _ ih =>
    cases fields with
    | nil => exact Reads.of_succ fun style depth fuel r _ _ => rfl
    | cons p fields =>
      obtain ⟨k, v⟩ := p
      obtain ⟨hv, hfields⟩ := List.forall_mem_cons.1 ih
      exact reads_map_cons hv hfields hkeys

/-- Decoding inverts encoding, also where comments are removed first and where the line ends behind
the text. -/
theorem decodeCommented_encodeAt {v : Value} (h : Data v) (style : Style) {blanks : List Char}
    (hblanks : ∀ c ∈ blanks, isSpace c = true) (hfollows : Follows blanks) :
    decodeCommented (encodeAt style 0 v ++ blanks) = .ok v := by
  obtain ⟨c, t, htext, -, -, hmark⟩ := encodeAt_eq_cons style 0 v
  have hread := h.reads style 0 (2 * (encodeAt style 0 v ++ blanks).length + 2) blanks
    (by rw [List.length_append]; omega) hfollows
  have hrest : skipSpace blanks = [] := List.dropWhile_eq_nil_iff.2 hblanks
  have hdocument : document (encodeAt style 0 v ++ blanks) = .ok v := by
    rw [document, skipSpace_encodeAt, hread]
    · simp only [bind, Except.bind, hrest]
      rfl
    · intro s hs
      rw [htext] at hs
      exact hmark (List.cons.inj hs).1
  rw [decodeCommented, stripComments_encodeAt style 0 v hblanks, decode, hdocument]

end Storefront.Json
