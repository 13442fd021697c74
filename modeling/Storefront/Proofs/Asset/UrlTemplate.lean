import Mathlib.Data.List.Infix
import Storefront.Asset.Url
import Storefront.Outcome

/-!
Templates of URLs. A template can be read if it is made of characters, braces that are written twice
and fields, one after the other, and it gives a URL where each of its fields gives a text. One that
gives all file names a URL with the name in it has a field.
-/

namespace Storefront.Asset

namespace Url

/-! ### Fields -/

/-- A name, of which the part before stands in square brackets or not: outside of them nothing ends
it, and all of them are closed. -/
inductive IsName : Bool → List Char → Prop
  | nil : IsName false []
  | char {c : Char} {s : List Char} (h : endsName c = false) (hopens : c ≠ '\x7b' ∧ c ≠ '[')
      (hs : IsName false s) : IsName false (c :: s)
  | opening {s : List Char} (hs : IsName true s) : IsName false ('[' :: s)
  | inside {c : Char} {s : List Char} (h : c ≠ ']') (hs : IsName true s) : IsName true (c :: s)
  | closing {s : List Char} (hs : IsName false s) : IsName true (']' :: s)

/-- A format that closes as many braces as are open before it, and all that it opens itself. -/
inductive IsFormat : Nat → List Char → Prop
  | nil : IsFormat 0 []
  | char {depth : Nat} {c : Char} {s : List Char} (h : isBrace c = false)
      (hs : IsFormat depth s) : IsFormat depth (c :: s)
  | opening {depth : Nat} {s : List Char} (hs : IsFormat (depth + 1) s) :
      IsFormat depth ('\x7b' :: s)
  | closing {depth : Nat} {s : List Char} (hs : IsFormat depth s) :
      IsFormat (depth + 1) ('\x7d' :: s)

namespace Field

/-- The text of a field between its braces. -/
def source (f : Field) : List Char :=
  f.name ++ f.conversion.elim [] (fun c => ['!', c]) ++ f.format.elim [] (':' :: ·)

structure WellFormed (f : Field) : Prop where
  name : IsName false f.name
  format : ∀ s ∈ f.format, IsFormat 0 s

end Field

variable {c stop : Char} {s r name format : List Char} {f : Field} {p : Part} {ps : List Part}
  {bracketed : Bool} {depth : Nat}

theorem isBrace_eq_false_iff : isBrace c = false ↔ c ≠ '\x7b' ∧ c ≠ '\x7d' := by
  simp [isBrace]

theorem readName_append (h : IsName bracketed name) (hstop : endsName stop = true) (r : List Char) :
    readName bracketed (name ++ stop :: r) = some (name, stop, r) := by
  induction h with
  | nil =>
    have hopen : stop ≠ '\x7b' := by
      rintro rfl
      cases hstop
    rw [List.nil_append, readName, if_neg hopen, if_pos hstop]
  | char h hopens _ ih =>
    rw [List.cons_append, readName, if_neg hopens.1, if_neg (by simp [h]), decide_eq_false hopens.2,
      ih]
    rfl
  | opening _ ih =>
    rw [List.cons_append, readName, if_neg (by decide), if_neg (by decide), decide_eq_true rfl, ih]
    rfl
  | inside h _ ih =>
    rw [List.cons_append, readName, decide_eq_true h, ih]
    rfl
  | closing _ ih =>
    rw [List.cons_append, readName, decide_eq_false (not_not_intro rfl), ih]
    rfl

theorem eq_append_of_readName (h : readName bracketed s = some (name, stop, r)) :
    s = name ++ stop :: r ∧ endsName stop = true ∧ IsName bracketed name := by
  induction s generalizing bracketed name with
  | nil => cases bracketed <;> cases h
  | cons c s ih =>
    cases bracketed with
    | true =>
      rw [readName] at h
      obtain ⟨⟨u, found⟩, hu, heq⟩ := Option.map_eq_some_iff.1 h
      cases heq
      obtain ⟨rfl, hstop, hname⟩ := ih hu
      refine ⟨rfl, hstop, ?_⟩
      by_cases hc : c = ']'
      · subst hc
        exact .closing (by simpa using hname)
      · exact .inside hc (by simpa [hc] using hname)
    | false =>
      rw [readName] at h
      split at h
      · cases h
      next hopen =>
        split at h
        · next hstop =>
          cases h
          exact ⟨rfl, hstop, .nil⟩
        · next hstop =>
          obtain ⟨⟨u, found⟩, hu, heq⟩ := Option.map_eq_some_iff.1 h
          cases heq
          obtain ⟨rfl, hfound, hname⟩ := ih hu
          refine ⟨rfl, hfound, ?_⟩
          by_cases hc : c = '['
          · subst hc
            exact .opening (by simpa using hname)
          · exact .char (Bool.eq_false_iff.2 hstop) ⟨hopen, hc⟩ (by simpa [hc] using hname)

theorem readFormat_cons (h : c ≠ '\x7d' ∨ depth ≠ 0) : readFormat depth (c :: s) =
    (readFormat (openAfter c depth) s).map fun (format, rest) => (c :: format, rest) := by
  rw [readFormat, if_neg]
  simpa [imp_iff_not_or] using h

theorem isFormat_cons_iff (h : c ≠ '\x7d' ∨ depth ≠ 0) :
    IsFormat depth (c :: s) ↔ IsFormat (openAfter c depth) s := by
  constructor
  · intro hformat
    cases hformat with
    | char hc hs =>
      obtain ⟨hopen, hclose⟩ := isBrace_eq_false_iff.1 hc
      rwa [openAfter, if_neg hopen, if_neg hclose]
    | opening hs => exact hs
    | closing hs => exact hs
  · intro hs
    by_cases hopen : c = '\x7b'
    · subst hopen
      exact .opening hs
    · by_cases hclose : c = '\x7d'
      · subst hclose
        obtain ⟨depth, rfl⟩ := Nat.exists_eq_succ_of_ne_zero (h.resolve_left (not_not_intro rfl))
        exact .closing hs
      · rw [openAfter, if_neg hopen, if_neg hclose] at hs
        exact .char (isBrace_eq_false_iff.2 ⟨hopen, hclose⟩) hs

/-- A closing brace ends the format where none is open in it. -/
theorem not_isFormat_closing : ¬IsFormat 0 ('\x7d' :: s) := by
  intro h
  cases h with
  | char h => cases h

theorem readFormat_append (h : IsFormat depth format) (r : List Char) :
    readFormat depth (format ++ '\x7d' :: r) = some (format, r) := by
  induction format generalizing depth with
  | nil =>
    cases h
    rfl
  | cons c format ih =>
    have hc : c ≠ '\x7d' ∨ depth ≠ 0 := by
      by_contra hends
      obtain ⟨rfl, rfl⟩ := not_or.1 hends |>.imp not_not.1 not_not.1
      exact not_isFormat_closing h
    rw [List.cons_append, readFormat_cons hc, ih ((isFormat_cons_iff hc).1 h)]
    rfl

theorem eq_append_of_readFormat (h : readFormat depth s = some (format, r)) :
    s = format ++ '\x7d' :: r ∧ IsFormat depth format := by
  induction s generalizing depth format with
  | nil => cases h
  | cons c s ih =>
    by_cases hc : c ≠ '\x7d' ∨ depth ≠ 0
    · rw [readFormat_cons hc] at h
      obtain ⟨⟨u, rest⟩, hu, heq⟩ := Option.map_eq_some_iff.1 h
      cases heq
      obtain ⟨rfl, hformat⟩ := ih hu
      exact ⟨rfl, (isFormat_cons_iff hc).2 hformat⟩
    · obtain ⟨rfl, rfl⟩ := not_or.1 hc |>.imp not_not.1 not_not.1
      cases h
      exact ⟨rfl, .nil⟩

/-- A field is read up to its closing brace. -/
theorem readField_append (h : f.WellFormed) (r : List Char) :
    readField (f.source ++ '\x7d' :: r) = some (f, r) := by
  obtain ⟨name, conversion, format⟩ := f
  obtain ⟨hname, hformat⟩ := h
  have hend {stop : Char} (hstop : endsName stop = true) (s : List Char) :
      readName false (name ++ stop :: s) = some (name, stop, s) := readName_append hname hstop s
  have hclosing := hend (show endsName '\x7d' = true from rfl)
  have hcolon := hend (show endsName ':' = true from rfl)
  have hmark := hend (show endsName '!' = true from rfl)
  cases conversion with
  | none =>
    cases format with
    | none => simp [readField, Field.source, hclosing]
    | some format =>
      have hread := readFormat_append (hformat _ rfl) r
      simp [readField, Field.source, hcolon, hread]
  | some c =>
    cases format with
    | none => simp [readField, Field.source, hmark]
    | some format =>
      have hread := readFormat_append (hformat _ rfl) r
      simp [readField, Field.source, hmark, hread]

theorem eq_append_of_readField (hfield : readField s = some (f, r)) :
    s = f.source ++ '\x7d' :: r ∧ f.WellFormed := by
  obtain ⟨⟨name, stop, rest⟩, hread, h⟩ := Option.bind_eq_some_iff.1 hfield
  obtain ⟨rfl, hstop, hname⟩ := eq_append_of_readName hread
  clear hfield hread
  dsimp only at h
  split at h
  · next hclose =>
    cases h
    exact ⟨by simp [Field.source, hclose], hname, by simp⟩
  · next hclose =>
    split at h
    · next hcolon =>
      obtain ⟨⟨format, rest⟩, hread, heq⟩ := Option.bind_eq_some_iff.1 h
      obtain ⟨rfl, hformat⟩ := eq_append_of_readFormat hread
      cases heq
      exact ⟨by simp [Field.source, hcolon], hname, by simpa using hformat⟩
    · next hcolon =>
      obtain rfl : stop = '!' := by simpa [endsName, hclose, hcolon] using hstop
      split at h
      · cases h
        exact ⟨by simp [Field.source], hname, by simp⟩
      · obtain ⟨⟨format, rest⟩, hread, heq⟩ := Option.bind_eq_some_iff.1 h
        obtain ⟨rfl, hformat⟩ := eq_append_of_readFormat hread
        cases heq
        exact ⟨by simp [Field.source], hname, by simpa using hformat⟩
      · cases h

/-! ### Parts -/

namespace Part

def source : Part → List Char
  | char c => [c]
  | brace c => [c, c]
  | field f => '\x7b' :: (f.source ++ ['\x7d'])
  | fault _ => []

/-- Braces stand where they have to. -/
inductive WellFormed : Part → Prop
  | char {c : Char} (h : isBrace c = false) : WellFormed (char c)
  | brace {c : Char} (h : isBrace c = true) : WellFormed (brace c)
  | field {f : Field} (h : f.WellFormed) : WellFormed (field f)

end Part

/-- The text is made of these parts. -/
structure Reads (s : List Char) (ps : List Part) : Prop where
  source : s = ps.flatMap Part.source
  wellFormed : ∀ p ∈ ps, p.WellFormed

theorem Reads.nil : Reads [] [] := ⟨rfl, List.forall_mem_nil _⟩

theorem Reads.cons (hp : p.WellFormed) (h : Reads s ps) : Reads (p.source ++ s) (p :: ps) where
  source := by rw [h.source, List.flatMap_cons]
  wellFormed := List.forall_mem_cons.2 ⟨hp, h.wellFormed⟩

/-- What is passed belongs to the part before. -/
theorem partsAfter_append (s r : List Char) : partsAfter s.length (s ++ r) = parts r := by
  induction s with
  | nil => rfl
  | cons c s ih => exact ih

theorem parts_append_of_field (h : f.WellFormed) (r : List Char) :
    parts ((Part.field f).source ++ r) = .field f :: parts r := by
  have hread := readField_append h r
  have hsource : (Part.field f).source ++ r = '\x7b' :: (f.source ++ '\x7d' :: r) := by
    simp [Part.source]
  have hhead : (f.source ++ '\x7d' :: r).head? ≠ some '\x7b' := by
    intro hhead
    obtain ⟨t, ht⟩ := List.head?_eq_some_iff.1 hhead
    rw [ht] at hread
    cases hread
  have hlength : (f.source ++ '\x7d' :: r).length - r.length = (f.source ++ ['\x7d']).length := by
    simp only [List.length_append, List.length_cons, List.length_nil]
    omega
  rw [hsource, parts, partsAfter, if_neg (by decide), if_neg hhead, if_neg (by decide), hread]
  dsimp only
  rw [hlength, List.append_cons f.source _ r, partsAfter_append]

/-- A part is read first, and what follows it after that. -/
theorem parts_source_append (hp : p.WellFormed) (r : List Char) :
    parts (p.source ++ r) = p :: parts r := by
  cases hp with
  | @char c h =>
    show partsAfter 0 (c :: r) = _
    rw [partsAfter, h]
    rfl
  | @brace c h =>
    show partsAfter 0 (c :: c :: r) = _
    rw [partsAfter, h]
    simp only [Bool.not_true, Bool.false_eq_true, if_false, List.head?_cons, if_true]
    rfl
  | field h => exact parts_append_of_field h r

/-- A text starts with a part, or it cannot be read at its start. -/
theorem parts_cases (s : List Char) : s = [] ∨
    (∃ (p : Part) (r : List Char), p.WellFormed ∧ s = p.source ++ r) ∨
      ∃ e, parts s = [.fault e] := by
  cases s with
  | nil => exact .inl rfl
  | cons c s =>
    refine .inr ?_
    cases hc : isBrace c with
    | false => exact .inl ⟨.char c, s, .char hc, rfl⟩
    | true =>
      by_cases hhead : s.head? = some c
      · obtain ⟨r, rfl⟩ := List.head?_eq_some_iff.1 hhead
        exact .inl ⟨.brace c, r, .brace hc, rfl⟩
      by_cases hclose : c = '\x7d'
      · subst hclose
        have hparts : parts ('\x7d' :: s) = [.fault .strayBrace] := by
          simp [parts, partsAfter, hc, hhead]
        exact .inr ⟨_, hparts⟩
      obtain rfl : c = '\x7b' := by simpa [isBrace, hclose] using hc
      cases hread : readField s with
      | none =>
        have hparts : parts ('\x7b' :: s) = [.fault .malformedField] := by
          simp [parts, partsAfter, hc, hhead, hread]
        exact .inr ⟨_, hparts⟩
      | some found =>
        obtain ⟨rfl, hfield⟩ := eq_append_of_readField (f := found.1) (r := found.2) hread
        exact .inl ⟨.field found.1, found.2, .field hfield, by simp [Part.source]⟩

theorem Part.source_ne_nil (hp : p.WellFormed) : p.source ≠ [] := by
  cases hp with
  | char => exact List.cons_ne_nil _ _
  | brace => exact List.cons_ne_nil _ _
  | field => exact List.cons_ne_nil _ _

/-- Where no part is a fault, the text is made of its parts. -/
theorem reads_parts (h : ∀ e, .fault e ∉ parts s) : Reads s (parts s) := by
  induction hlength : s.length using Nat.strong_induction_on generalizing s with
  | _ n ih =>
    obtain rfl | ⟨p, r, hp, rfl⟩ | ⟨e, hfault⟩ := parts_cases s
    · exact .nil
    · rw [parts_source_append hp] at h ⊢
      have hr : r.length < n := by
        rw [← hlength, List.length_append]
        exact Nat.lt_add_of_pos_left (List.length_pos_iff.2 (Part.source_ne_nil hp))
      exact .cons hp (ih _ hr (fun e he => h e (List.mem_cons_of_mem _ he)) rfl)
    · exact absurd (hfault ▸ List.mem_singleton_self _) (h e)

theorem Reads.parts_eq (h : Reads s ps) : parts s = ps := by
  obtain ⟨rfl, hps⟩ := h
  induction ps with
  | nil => rfl
  | cons p ps ih =>
    obtain ⟨hp, hps⟩ := List.forall_mem_cons.1 hps
    rw [List.flatMap_cons, parts_source_append hp, ih hps]

/-- Only fields and braces that are written twice bring braces into the text. -/
theorem Reads.exists_of_isBrace (h : Reads s ps) (hc : c ∈ s) (hbrace : isBrace c = true) :
    (∃ f, .field f ∈ ps) ∨ ∃ d, .brace d ∈ ps := by
  rw [h.source] at hc
  obtain ⟨p, hp, hmem⟩ := List.mem_flatMap.1 hc
  cases h.wellFormed p hp with
  | char hd =>
    cases List.mem_singleton.1 hmem
    simp [hd] at hbrace
  | brace => exact .inr ⟨_, hp⟩
  | field => exact .inl ⟨_, hp⟩

/-! ### Quoted names -/

theorem length_toList_loop (bytes : ByteArray) (i : Nat) (r : List UInt8) :
    (ByteArray.toList.loop bytes i r).length = r.length + (bytes.size - i) := by
  fun_induction ByteArray.toList.loop bytes i r with
  | case1 i r h ih =>
    rw [ih, List.length_cons]
    omega
  | case2 i r h =>
    rw [List.length_reverse]
    omega

theorem length_quoteByte_pos (b : UInt8) : 0 < (quoteByte b).length := by
  rw [quoteByte]
  split <;> exact Nat.succ_pos _

theorem size_le_length_quote (s : String) : s.toUTF8.size ≤ (quote s).length := by
  have hbytes : s.toUTF8.toList.length = s.toUTF8.size :=
    (length_toList_loop _ 0 []).trans (Nat.zero_add _)
  rw [quote, ← hbytes]
  induction s.toUTF8.toList with
  | nil => exact Nat.zero_le _
  | cons b bytes ih =>
    have hb := length_quoteByte_pos b
    rw [List.flatMap_cons, List.length_append, List.length_cons]
    omega

theorem size_toUTF8_replicate (n : Nat) : (String.ofList (List.replicate n 'a')).toUTF8.size = n := by
  rw [String.toUTF8, String.toByteArray_ofList]
  induction n with
  | zero => rfl
  | succ n ih =>
    rw [List.replicate_succ, List.utf8Encode_cons, ByteArray.size_append, ih, Nat.add_comm]
    rfl

/-! ### URLs -/

section urls

variable (objects : Objects)

/-- What a field gives for a file name. -/
def Field.textFor (filename : String) (f : Field) : Except UrlError (List Char) :=
  f.value objects (quote filename) (expand objects (quote filename) (maxDepth - 1))

/-- What a part gives for a file name. -/
def Part.textFor (filename : String) : Part → Except UrlError (List Char) :=
  Part.value (Field.textFor objects filename)

/-- Whatever the file is called, the field gives a text with the quoted name in it. -/
def Field.Shows (f : Field) : Prop :=
  ∀ filename, ∃ s, f.textFor objects filename = .ok s ∧ quote filename <:+: s

/-- The field of the file name, as it is. -/
def Field.filename : Field := ⟨"filename".toList, none, none⟩

end urls

end Url

/-- The template gives each file name a URL, and the URL has the quoted name in it. -/
def Locates (objects : Url.Objects) (template : String) : Prop :=
  ∀ filename, ∃ url, urlFor objects template filename = .ok url ∧
    Url.quote filename <:+: url.toList

namespace Url

variable {objects : Objects} {template filename url : String} {c : Char} {f : Field} {p : Part}
  {ps : List Part} {s : List Char}

theorem Field.shows_filename (objects : Objects) : Field.filename.Shows objects :=
  fun filename => ⟨quote filename, rfl, List.infix_refl _⟩

theorem IsName.of_all (h : s.all (fun c => !endsName c && c ≠ '\x7b' && c ≠ '[') = true) :
    IsName false s := by
  induction s with
  | nil => exact .nil
  | cons c s ih =>
    rw [List.all_cons, Bool.and_eq_true] at h
    have hc : endsName c = false ∧ c ≠ '\x7b' ∧ c ≠ '[' := by simpa [and_assoc] using h.1
    exact .char hc.1 hc.2 (ih h.2)

theorem Field.wellFormed_filename : Field.filename.WellFormed where
  name := .of_all (by decide)
  format _ := nofun

/-- A template that can be read gives a URL where each of its parts gives a text, and no other
template gives one. -/
theorem urlFor_eq_ok_iff : urlFor objects template filename = .ok url ↔
    ∃ (ps : List Part) (texts : List (List Char)), Reads template.toList ps ∧
      ps.map (Part.textFor objects filename) = texts.map .ok ∧ url = .ofList texts.flatten := by
  have hurl : urlFor objects template filename = .ok url ↔ ∃ texts : List (List Char),
      (parts template.toList).map (Part.textFor objects filename) = texts.map .ok ∧
        url = .ofList texts.flatten := by
    rw [urlFor, except_map_eq_ok]
    show (∃ s, expand objects (quote filename) (1 + 1) template.toList = .ok s ∧ _) ↔ _
    simp only [expand, except_bind_eq_ok, except_mapM_eq_ok_iff]
    constructor
    · rintro ⟨s, ⟨texts, htexts, hs⟩, rfl⟩
      cases hs
      exact ⟨texts, htexts, rfl⟩
    · rintro ⟨texts, htexts, rfl⟩
      exact ⟨_, ⟨texts, htexts, rfl⟩, rfl⟩
  rw [hurl]
  constructor
  · rintro ⟨texts, htexts, rfl⟩
    refine ⟨_, texts, reads_parts fun e he => ?_, htexts, rfl⟩
    have hmem := List.mem_map_of_mem (f := Part.textFor objects filename) he
    rw [htexts] at hmem
    obtain ⟨s, -, hs⟩ := List.mem_map.1 hmem
    cases hs
  · rintro ⟨ps, texts, hreads, htexts, rfl⟩
    exact ⟨texts, hreads.parts_eq ▸ htexts, rfl⟩

/-- Parts that all give a text give their texts one after the other. -/
theorem exists_texts (h : ∀ p ∈ ps, ∃ s, p.textFor objects filename = .ok s) :
    ∃ texts : List (List Char), ps.map (Part.textFor objects filename) = texts.map .ok := by
  induction ps with
  | nil => exact ⟨[], rfl⟩
  | cons p ps ih =>
    obtain ⟨⟨s, hs⟩, hps⟩ := List.forall_mem_cons.1 h
    obtain ⟨texts, htexts⟩ := ih hps
    exact ⟨s :: texts, by rw [List.map_cons, List.map_cons, hs, htexts]⟩

theorem mem_texts {texts : List (List Char)}
    (h : ps.map (Part.textFor objects filename) = texts.map .ok) (hp : p ∈ ps) :
    ∃ s ∈ texts, p.textFor objects filename = .ok s := by
  have hmem := List.mem_map_of_mem (f := Part.textFor objects filename) hp
  rw [h] at hmem
  obtain ⟨s, hs, heq⟩ := List.mem_map.1 hmem
  exact ⟨s, hs, heq.symm⟩

/-- A template gives a URL if each of its fields gives a text. -/
theorem Reads.exists_url (h : Reads template.toList ps)
    (hfields : ∀ f, .field f ∈ ps → ∃ s, f.textFor objects filename = .ok s) :
    ∃ url, urlFor objects template filename = .ok url := by
  have htexts : ∀ p ∈ ps, ∃ s, p.textFor objects filename = .ok s := by
    intro p hp
    cases h.wellFormed p hp with
    | char => exact ⟨_, rfl⟩
    | brace => exact ⟨_, rfl⟩
    | field => exact hfields _ hp
  obtain ⟨texts, htexts⟩ := exists_texts htexts
  exact ⟨_, urlFor_eq_ok_iff.2 ⟨ps, texts, h, htexts, rfl⟩⟩

/-- Beside fields that give texts, one that shows the name makes a template locate all files. -/
theorem Reads.locates (h : Reads template.toList ps)
    (hfields : ∀ f, .field f ∈ ps → ∀ filename, ∃ s, f.textFor objects filename = .ok s)
    (hf : .field f ∈ ps) (hshows : f.Shows objects) : Locates objects template := by
  intro filename
  obtain ⟨url, hurl⟩ := h.exists_url fun f hf => hfields f hf filename
  obtain ⟨ps', texts, h', htexts, rfl⟩ := urlFor_eq_ok_iff.1 hurl
  obtain rfl := h.parts_eq.symm.trans h'.parts_eq
  obtain ⟨s, hs, htext⟩ := mem_texts htexts hf
  obtain ⟨shown, hshown, hinfix⟩ := hshows filename
  cases hshown.symm.trans htext
  refine ⟨_, hurl, ?_⟩
  rw [String.toList_ofList]
  exact hinfix.trans (List.infix_of_mem_flatten hs)

/-- Without a field the URL is the same for all names, and too short for some of them. -/
theorem Reads.exists_field (h : Reads template.toList ps) (hlocates : Locates objects template) :
    ∃ f, .field f ∈ ps := by
  by_contra hnone
  have hconst (filename : String) : ps.map (Part.textFor objects filename) =
      ps.map (Part.textFor objects "") := by
    refine List.map_congr_left fun p hp => ?_
    cases h.wellFormed p hp with
    | char => rfl
    | brace => rfl
    | field => exact absurd ⟨_, hp⟩ hnone
  obtain ⟨url, hurl, -⟩ := hlocates ""
  let long : String := .ofList (List.replicate (url.toList.length + 1) 'a')
  obtain ⟨other, hother, hinfix⟩ := hlocates long
  obtain ⟨ps', texts, h', htexts, rfl⟩ := urlFor_eq_ok_iff.1 hother
  obtain rfl := h.parts_eq.symm.trans h'.parts_eq
  have hsame : urlFor objects template "" = .ok (.ofList texts.flatten) :=
    urlFor_eq_ok_iff.2 ⟨_, texts, h, hconst long ▸ htexts, rfl⟩
  cases hurl.symm.trans hsame
  have hlong : (String.ofList texts.flatten).toList.length + 1 ≤ (quote long).length :=
    (size_toUTF8_replicate _).ge.trans (size_le_length_quote long)
  have := hinfix.length_le
  omega

/-- A template that locates all files can be read, and each of its fields gives a text for all
names. -/
theorem exists_reads_of_locates (h : Locates objects template) :
    ∃ ps, Reads template.toList ps ∧
      ∀ f, .field f ∈ ps → ∀ filename, ∃ s, f.textFor objects filename = .ok s := by
  obtain ⟨url, hurl, -⟩ := h ""
  obtain ⟨ps, -, hreads, -⟩ := urlFor_eq_ok_iff.1 hurl
  refine ⟨ps, hreads, fun f hf filename => ?_⟩
  obtain ⟨url, hurl, -⟩ := h filename
  obtain ⟨ps', texts, h', htexts, -⟩ := urlFor_eq_ok_iff.1 hurl
  obtain rfl := hreads.parts_eq.symm.trans h'.parts_eq
  exact (mem_texts htexts hf).imp fun _ => And.right

end Url

end Storefront.Asset
