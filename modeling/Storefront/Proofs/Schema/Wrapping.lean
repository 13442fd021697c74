import Mathlib.Data.List.Forall2
import Storefront.Proofs.Json.RoundTrip
import Storefront.Schema.Extraction
import Storefront.Text.Search

/-!
A schema that is wrapped in tags is loaded as it was. A tag has braces only at its two ends, so
none reaches from one part of a section file into the next.
-/

namespace Storefront

namespace Schema

/-- The letters of the word in either case. -/
def Spells (word spelled : List Char) : Prop :=
  List.Forall₂ (fun w c => sameLetter w c = true) word spelled

/-- A tag of the word, in letters of either case and with any dashes and blanks around it. -/
def IsTag (word t : List Char) : Prop :=
  ∃ before spelled after, (∀ c ∈ before, isFiller c = true) ∧ Spells word spelled ∧
    (∀ c ∈ after, isFiller c = true) ∧
    t = '\x7b' :: '%' :: (before ++ (spelled ++ (after ++ ['%', '\x7d'])))

/-! ### Characters of a tag -/

theorem isAlpha_of_sameLetter {w c : Char} (hw : w.isLower = true)
    (h : sameLetter w c = true) : c.isAlpha = true ∨ c = 'ſ' := by
  simp only [sameLetter, Bool.or_eq_true, Bool.and_eq_true, decide_eq_true_eq] at h
  rcases h with rfl | ⟨-, rfl⟩
  · by_cases hupper : c.val ≥ 'A'.val ∧ c.val ≤ 'Z'.val
    · exact .inl (Bool.or_eq_true_iff.2 (.inl (decide_eq_true hupper)))
    · have hsame : c.toLower = c := dif_neg hupper
      rw [hsame] at hw
      exact .inl (Bool.or_eq_true_iff.2 (.inr hw))
  · exact .inr rfl

theorem not_isBlank_of_isAlpha {c : Char} (h : c.isAlpha = true) : Text.isBlank c = false := by
  have hrange : 65 ≤ c.toNat ∧ c.toNat ≤ 122 := by
    rcases Bool.or_eq_true_iff.1 h with hupper | hlower
    · obtain ⟨hge, hle⟩ := of_decide_eq_true hupper
      exact ⟨UInt32.le_iff_toNat_le.1 hge,
        Nat.le_trans (UInt32.le_iff_toNat_le.1 hle) (by decide)⟩
    · obtain ⟨hge, hle⟩ := Bool.and_eq_true_iff.1 hlower
      exact ⟨Nat.le_trans (by decide) (UInt32.le_iff_toNat_le.1 (of_decide_eq_true hge)),
        UInt32.le_iff_toNat_le.1 (of_decide_eq_true hle)⟩
  rw [Bool.eq_false_iff]
  intro hblank
  simp only [Text.isBlank, Bool.or_eq_true, Bool.and_eq_true, decide_eq_true_eq] at hblank
  omega

/-- A letter in either case is no dash, no blank and no part of a mark. -/
theorem not_isFiller_of_sameLetter {w c : Char} (hw : w.isLower = true)
    (h : sameLetter w c = true) : isFiller c = false ∧ c ∉ ['\x7b', '%', '\x7d'] := by
  rcases isAlpha_of_sameLetter hw h with halpha | rfl
  · refine ⟨?_, ?_⟩
    · rw [isFiller, not_isBlank_of_isAlpha halpha, Bool.or_false, decide_eq_false_iff_not]
      rintro rfl
      exact absurd halpha (by decide)
    · intro hc
      simp only [List.mem_cons, List.not_mem_nil, or_false] at hc
      rcases hc with rfl | rfl | rfl <;> exact absurd halpha (by decide)
  · decide

/-! ### Finding a tag -/

theorem afterWord?_append {word spelled : List Char} (h : Spells word spelled) (r : List Char) :
    afterWord? word (spelled ++ r) = some r := by
  induction h with
  | nil => exact afterWord?.eq_1 r
  | cons hc _ ih =>
    rw [List.cons_append, afterWord?, if_pos hc]
    exact ih

theorem exists_of_afterWord? {word s r : List Char} (h : afterWord? word s = some r) :
    ∃ spelled, Spells word spelled ∧ s = spelled ++ r := by
  induction word generalizing s with
  | nil =>
    cases h
    exact ⟨[], .nil, rfl⟩
  | cons w word ih =>
    cases s with
    | nil => cases h
    | cons c s =>
      rw [afterWord?] at h
      split at h
      · next hc =>
        obtain ⟨spelled, hspelled, rfl⟩ := ih h
        exact ⟨c :: spelled, .cons hc hspelled, rfl⟩
      · cases h

theorem dropWhile_isFiller_append {before : List Char} (h : ∀ c ∈ before, isFiller c = true)
    {a : Char} (ha : isFiller a = false) (t : List Char) :
    (before ++ a :: t).dropWhile isFiller = a :: t := by
  rw [List.dropWhile_append_of_pos h, List.dropWhile_cons, ha]
  rfl

theorem exists_filler (s : List Char) :
    ∃ before, (∀ c ∈ before, isFiller c = true) ∧ s = before ++ s.dropWhile isFiller :=
  ⟨s.takeWhile isFiller, fun _ hc => List.mem_takeWhile_imp hc,
    List.takeWhile_append_dropWhile.symm⟩

/-- What is found is a tag. -/
theorem exists_of_afterTag? {word s r : List Char} (h : afterTag? word s = some r) :
    ∃ t, IsTag word t ∧ s = t ++ r := by
  unfold afterTag? at h
  split at h
  · next s =>
    obtain ⟨u, hword, h⟩ := Option.bind_eq_some_iff.1 h
    obtain ⟨spelled, hspelled, hs⟩ := exists_of_afterWord? hword
    obtain ⟨before, hbefore, hsplit⟩ := exists_filler s
    obtain ⟨after, hafter, husplit⟩ := exists_filler u
    split at h
    · next v hv =>
      cases h
      refine ⟨_, ⟨before, spelled, after, hbefore, hspelled, hafter, rfl⟩, ?_⟩
      rw [hsplit, hs, husplit, hv]
      simp
    · cases h
  · cases h

section tags

variable {word : List Char} (hword : ∀ w ∈ word, w.isLower = true)

include hword in
theorem not_isFiller_of_spells {spelled : List Char} (h : Spells word spelled) :
    ∀ c ∈ spelled, isFiller c = false ∧ c ∉ ['\x7b', '%', '\x7d'] := by
  induction h with
  | nil => exact fun c hc => absurd hc List.not_mem_nil
  | cons hc _ ih =>
    obtain ⟨hw, hword⟩ := List.forall_mem_cons.1 hword
    exact List.forall_mem_cons.2 ⟨not_isFiller_of_sameLetter hw hc, ih hword⟩

include hword in
/-- A tag is found whatever follows it. -/
theorem afterTag?_append (hne : word ≠ []) {t : List Char} (ht : IsTag word t) (r : List Char) :
    afterTag? word (t ++ r) = some r := by
  obtain ⟨before, spelled, after, hbefore, hspelled, hafter, rfl⟩ := ht
  have hletters := not_isFiller_of_spells hword hspelled
  cases spelled with
  | nil =>
    cases hspelled
    exact absurd rfl hne
  | cons c spelled =>
    have hdrop : (before ++ c :: (spelled ++ (after ++ '%' :: '\x7d' :: r))).dropWhile isFiller =
        c :: spelled ++ (after ++ '%' :: '\x7d' :: r) :=
      dropWhile_isFiller_append hbefore (hletters c List.mem_cons_self).1 _
    have hclose := dropWhile_isFiller_append hafter (show isFiller '%' = false by decide)
      ('\x7d' :: r)
    have htext : '\x7b' :: '%' :: (before ++ (c :: spelled ++ (after ++ ['%', '\x7d']))) ++ r =
        '\x7b' :: '%' :: (before ++ c :: (spelled ++ (after ++ '%' :: '\x7d' :: r))) := by simp
    rw [htext, afterTag?, hdrop, afterWord?_append hspelled]
    simp only [Option.bind_eq_bind, Option.bind_some, hclose]

include hword in
/-- A tag has one brace at each end and none between them. -/
theorem IsTag.exists_between {t : List Char} (ht : IsTag word t) :
    ∃ u, t = '\x7b' :: (u ++ ['\x7d']) ∧ '\x7b' ∉ u ∧ '\x7d' ∉ u := by
  obtain ⟨before, spelled, after, hbefore, hspelled, hafter, rfl⟩ := ht
  have hnot {c : Char} (hpercent : c ≠ '%') (hc : isFiller c = false)
      (hmark : c ∈ ['\x7b', '%', '\x7d']) :
      c ∉ '%' :: (before ++ (spelled ++ (after ++ ['%']))) := by
    have hfiller {s : List Char} (hs : ∀ d ∈ s, isFiller d = true) : c ∉ s := by
      intro hmem
      rw [hs c hmem] at hc
      exact Bool.noConfusion hc
    have hspelled : c ∉ spelled :=
      fun hmem => (not_isFiller_of_spells hword hspelled c hmem).2 hmark
    simp [hpercent, hfiller hbefore, hspelled, hfiller hafter]
  exact ⟨'%' :: (before ++ (spelled ++ (after ++ ['%']))), by simp,
    hnot (by decide) (by decide) (by decide), hnot (by decide) (by decide) (by decide)⟩

theorem IsTag.exists_eq_cons {t : List Char} (ht : IsTag word t) : ∃ u, t = '\x7b' :: u := by
  obtain ⟨before, spelled, after, -, -, -, rfl⟩ := ht
  exact ⟨_, rfl⟩

/-- No tag of the word occurs in the text. -/
def Untagged (word s : List Char) : Prop := ∀ t, IsTag word t → ¬t <:+: s

theorem Untagged.of_cons {c : Char} {s : List Char} (h : Untagged word (c :: s)) :
    Untagged word s :=
  fun t ht hmem => h t ht (hmem.trans (List.suffix_cons c s).isInfix)

/-- Every tag has a percent sign in it. -/
theorem untagged_of_not_mem {s : List Char} (h : '%' ∉ s) : Untagged word s := by
  rintro t ⟨before, spelled, after, -, -, -, rfl⟩ hmem
  exact h (hmem.subset (List.mem_cons_of_mem _ List.mem_cons_self))

include hword in
/-- No tag reaches over an opening brace that is not its own. -/
theorem IsTag.exists_rest {t : List Char} (ht : IsTag word t) {c : Char} {s next rest : List Char}
    (h : c :: (s ++ '\x7b' :: next) = t ++ rest) :
    ∃ v, c :: s = t ++ v ∧ rest = v ++ '\x7b' :: next := by
  obtain ⟨u, rfl, hopen, -⟩ := ht.exists_between hword
  obtain ⟨rfl, htail⟩ := List.cons.inj h
  rcases List.append_eq_append_iff.1 htail with ⟨v, hv, hr⟩ | ⟨v, rfl, hr⟩
  · cases v with
    | nil =>
      rw [List.append_nil] at hv
      exact ⟨[], by rw [hv, List.append_nil], hr.symm⟩
    | cons d v =>
      obtain ⟨rfl, -⟩ := List.cons.inj hr
      have hmem : '\x7b' ∈ u ++ ['\x7d'] := hv ▸ List.mem_append_right s List.mem_cons_self
      rcases List.mem_append.1 hmem with hmem | hmem
      · exact absurd hmem hopen
      · exact absurd hmem (by decide)
  · exact ⟨v, rfl, hr⟩

include hword in
/-- No tag reaches from a text without one over the brace after it. -/
theorem Untagged.afterTag?_eq_none {c : Char} {s next : List Char} (h : Untagged word (c :: s))
    (hnext : ∃ u, next = '\x7b' :: u) (r : List Char) :
    afterTag? word (c :: s ++ (next ++ r)) = none := by
  obtain ⟨v, rfl⟩ := hnext
  rw [Option.eq_none_iff_forall_ne_some]
  intro rest hrest
  obtain ⟨t, ht, heq⟩ := exists_of_afterTag? hrest
  obtain ⟨v, hs, -⟩ := ht.exists_rest hword heq
  exact h t ht ⟨[], v, hs.symm⟩

include hword in
/-- A text between blanks has no tag if it has none without them. -/
theorem Untagged.between {s left right : List Char} (h : Untagged word s)
    (hleft : ∀ c ∈ left, Text.isBlank c = true) (hright : ∀ c ∈ right, Text.isBlank c = true) :
    Untagged word (left ++ (s ++ right)) := by
  intro t ht hmem
  obtain ⟨u, rfl, -, -⟩ := ht.exists_between hword
  have hopen : '\x7b' ∉ left := fun hc => absurd (hleft _ hc) (by decide)
  have hclose : '\x7d' ∉ right.reverse :=
    fun hc => absurd (hright _ (List.mem_reverse.1 hc)) (by decide)
  have hreverse : '\x7d' :: (u.reverse ++ ['\x7b']) <:+: right.reverse ++ s.reverse := by
    have hmem := List.reverse_infix.2 (Text.infix_of_infix_append hopen hmem)
    simpa using hmem
  have hmem := List.reverse_infix.2 (Text.infix_of_infix_append hclose hreverse)
  exact h _ ht (by simpa using hmem)

end tags

/-! ### Finding the body -/

theorem isLower_openingWord : ∀ w ∈ openingWord, w.isLower = true :=
  List.all_eq_true.1 (by decide)

theorem isLower_closingWord : ∀ w ∈ closingWord, w.isLower = true :=
  List.all_eq_true.1 (by decide)

theorem beforeClosing?_append {body closing : List Char} (hbody : Untagged closingWord body)
    (hclosing : IsTag closingWord closing) (r : List Char) :
    beforeClosing? (body ++ (closing ++ r)) = some body := by
  obtain ⟨u, hbrace⟩ := hclosing.exists_eq_cons
  have hfound := afterTag?_append isLower_closingWord (by decide) hclosing r
  induction body with
  | nil =>
    rw [List.nil_append]
    rw [hbrace] at hfound ⊢
    rw [List.cons_append] at hfound ⊢
    rw [beforeClosing?, hfound]
    rfl
  | cons c body ih =>
    have hnone := hbody.afterTag?_eq_none isLower_closingWord ⟨u, hbrace⟩ r
    rw [List.cons_append] at hnone ⊢
    rw [beforeClosing?, hnone, ih hbody.of_cons]
    rfl

/-- The body of the schema stands behind the first opening tag. -/
theorem findBody?_eq_beforeClosing? {before opening : List Char}
    (hbefore : Untagged openingWord before) (hopening : IsTag openingWord opening)
    (rest : List Char) : findBody? (before ++ (opening ++ rest)) = beforeClosing? rest := by
  obtain ⟨u, hbrace⟩ := hopening.exists_eq_cons
  have hfound := afterTag?_append isLower_openingWord (by decide) hopening rest
  induction before with
  | nil =>
    rw [List.nil_append]
    rw [hbrace] at hfound ⊢
    rw [List.cons_append] at hfound ⊢
    rw [findBody?, hfound]
  | cons c before ih =>
    have hnone := hbefore.afterTag?_eq_none isLower_openingWord ⟨u, hbrace⟩ rest
    rw [List.cons_append] at hnone ⊢
    rw [findBody?, hnone]
    exact ih hbefore.of_cons

/-- The body is all that stands between the first opening tag and the closing tag after it. -/
theorem findBody?_append {before opening body closing : List Char}
    (hbefore : Untagged openingWord before) (hopening : IsTag openingWord opening)
    (hbody : Untagged closingWord body) (hclosing : IsTag closingWord closing) (r : List Char) :
    findBody? (before ++ (opening ++ (body ++ (closing ++ r)))) = some body := by
  rw [findBody?_eq_beforeClosing? hbefore hopening, beforeClosing?_append hbody hclosing]

end Schema

namespace Text

/-- Blanks around a text that neither starts nor ends with one are all that is trimmed. -/
theorem trim_append {left right s : List Char} {a b : Char}
    (hleft : ∀ c ∈ left, isBlank c = true) (hright : ∀ c ∈ right, isBlank c = true)
    (ha : isBlank a = false) (hb : isBlank b = false) :
    trim (left ++ (a :: (s ++ [b]) ++ right)) = a :: (s ++ [b]) := by
  have hdrop {blanks : List Char} (h : ∀ c ∈ blanks, isBlank c = true) {c : Char}
      (hc : isBlank c = false) (t : List Char) : dropBlanks (blanks ++ c :: t) = c :: t := by
    rw [dropBlanks_append hc, dropBlanks, List.dropWhile_eq_nil_iff.2 h]
    rfl
  have hreverse : (a :: (s ++ [b]) ++ right).reverse =
      right.reverse ++ b :: (a :: s).reverse := by simp
  rw [trim, List.cons_append, hdrop hleft ha, ← List.cons_append, trimRight, hreverse]
  show (dropBlanks _).reverse = _
  rw [hdrop (fun c hc => hright c (List.mem_reverse.1 hc)) hb]
  simp

end Text

namespace SectionSchema

/-- The text of a map reaches from its opening to its closing brace. -/
theorem exists_encodeAt_map (fields : Dict Value) :
    ∃ s, Json.encodeAt .compact 0 (.map fields) = '\x7b' :: (s ++ ['\x7d']) := by
  cases fields with
  | nil => exact ⟨[], rfl⟩
  | cons p fields =>
    obtain ⟨k, v⟩ := p
    rw [Json.encodeAt]
    exact ⟨_, rfl⟩

/-- The text of a map between blanks is read as the map. -/
theorem ofBody_encodeAt_map {fields : Dict Value} (h : Json.Data (.map fields))
    {left right : List Char} (hleft : ∀ c ∈ left, Text.isBlank c = true)
    (hright : ∀ c ∈ right, Text.isBlank c = true) :
    ofBody (left ++ (Json.encodeAt .compact 0 (.map fields) ++ right)) = ofValue (.map fields) := by
  obtain ⟨s, hs⟩ := exists_encodeAt_map fields
  have htrim : Text.trim (left ++ (Json.encodeAt .compact 0 (.map fields) ++ right)) =
      Json.encodeAt .compact 0 (.map fields) := by
    rw [hs]
    exact Text.trim_append hleft hright (by decide) (by decide)
  have hread := Json.decodeCommented_encodeAt h .compact (List.forall_mem_nil _) (.inl rfl)
  rw [List.append_nil] at hread
  rw [ofBody, htrim, hread]

/-- A schema keeps the payload it was read from. -/
theorem raw_of_ofValue {fields : Dict Value} {schema : SectionSchema}
    (h : ofValue (.map fields) = .ok schema) : schema.raw = fields := by
  rw [ofValue] at h
  repeat obtain ⟨_, -, h⟩ := except_bind_eq_ok.1 h
  cases h
  rfl

section wrapping

variable {fields : Dict Value} {before opening left right closing after : String}

/-- A payload between schema tags is loaded as the payload itself would be read, with the same
fault if it has one. -/
theorem load_wrapped (hfields : Json.Data (.map fields))
    (hbefore : Schema.Untagged Schema.openingWord before.toList)
    (hopening : Schema.IsTag Schema.openingWord opening.toList)
    (hleft : ∀ c ∈ left.toList, Text.isBlank c = true)
    (htext : Schema.Untagged Schema.closingWord (Json.encode .compact (.map fields)).toList)
    (hright : ∀ c ∈ right.toList, Text.isBlank c = true)
    (hclosing : Schema.IsTag Schema.closingWord closing.toList) :
    load (before ++ opening ++ left ++ Json.encode .compact (.map fields) ++ right ++ closing ++
        after) = (ofValue (.map fields)).map some ∧
      ∀ schema, ofValue (.map fields) = .ok schema → schema.raw = fields := by
  refine ⟨?_, fun schema h => raw_of_ofValue h⟩
  rw [Json.encode, String.toList_ofList] at htext
  have hbody := htext.between Schema.isLower_closingWord hleft hright
  have hfind := Schema.findBody?_append hbefore hopening hbody hclosing after.toList
  have hsource : (before ++ opening ++ left ++ Json.encode .compact (.map fields) ++ right ++
      closing ++ after).toList = before.toList ++ (opening.toList ++ ((left.toList ++
        (Json.encodeAt .compact 0 (.map fields) ++ right.toList)) ++
          (closing.toList ++ after.toList))) := by
    simp [Json.encode]
  rw [load, hsource, hfind]
  exact congrArg (Except.map some) (ofBody_encodeAt_map hfields hleft hright)

/-- Marks of comments, quotes and a number with a fraction come back out of a wrapped payload. -/
theorem load_wrapped_banner :
    let fields : Dict Value :=
      [("name", .str "//\"é/*"),
        ("class", .list [.number (.float (.finite false 4503599627370496 (-53)))])]
    load ("<p>" ++ "\x7b%- SCHEMA\t%\x7d" ++ "\n" ++ Json.encode .compact (.map fields) ++ " " ++
        "\x7b%endſchema-%\x7d" ++ "</p>") = (ofValue (.map fields)).map some ∧
      ∀ schema, ofValue (.map fields) = .ok schema → schema.raw = fields := by
  intro fields
  have hfields : Json.Data (.map fields) := by
    refine .map (by decide) (List.forall_mem_cons.2 ⟨.str _, List.forall_mem_singleton.2 ?_⟩)
    refine .list (List.forall_mem_singleton.2 (.number fun x hx => ?_))
    cases hx
    rfl
  have hspelled : Schema.Spells Schema.openingWord "SCHEMA".toList := by
    unfold Schema.Spells
    decide
  have hendSpelled : Schema.Spells Schema.closingWord "endſchema".toList := by
    unfold Schema.Spells
    decide
  have hopening : Schema.IsTag Schema.openingWord "\x7b%- SCHEMA\t%\x7d".toList :=
    ⟨['-', ' '], "SCHEMA".toList, ['\t'], List.all_eq_true.1 (by decide), hspelled,
      List.all_eq_true.1 (by decide), rfl⟩
  have hclosing : Schema.IsTag Schema.closingWord "\x7b%endſchema-%\x7d".toList :=
    ⟨[], "endſchema".toList, ['-'], List.all_eq_true.1 (by decide), hendSpelled,
      List.all_eq_true.1 (by decide), rfl⟩
  have htext : '%' ∉ (Json.encode .compact (.map fields)).toList := by
    rw [Json.encode, String.toList_ofList]
    decide
  exact load_wrapped hfields (Schema.untagged_of_not_mem (by decide)) hopening
    (List.all_eq_true.1 (by decide)) (Schema.untagged_of_not_mem htext)
    (List.all_eq_true.1 (by decide)) hclosing

end wrapping

end SectionSchema

end Storefront
