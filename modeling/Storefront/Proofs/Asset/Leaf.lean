import Storefront.Proofs.Asset.Recogniser

/-!
What the recognisers of directives find in the written form of a single part, whatever follows it.
-/

namespace Storefront

namespace Text

theorem cutAt?_append {a : Char} {s : List Char} (h : a ∉ s) (mark r : List Char) :
    cutAt? (a :: mark) (s ++ (a :: mark) ++ r) = some (s, r) := by
  induction s with
  | nil =>
    have hp : (a :: mark).isPrefixOf (a :: (mark ++ r)) = true :=
      List.isPrefixOf_iff_prefix.2 (List.prefix_append (a :: mark) r)
    simp only [List.nil_append, List.cons_append, cutAt?, hp, if_true, Option.some.injEq,
      Prod.mk.injEq, true_and]
    exact List.drop_left
  | cons c s ih =>
    have hc : ¬(a :: mark).isPrefixOf (c :: (s ++ (a :: mark) ++ r)) = true := by
      rw [List.isPrefixOf_iff_prefix]
      rintro ⟨t, ht⟩
      exact h ((List.cons.inj ht).1 ▸ List.mem_cons_self)
    rw [List.cons_append, List.cons_append, cutAt?, if_neg hc,
      ih fun hs => h (List.mem_cons_of_mem _ hs)]
    rfl

theorem digitValue?_of_isDigit {c : Char} (h : c.isDigit = true) :
    digitValue? c = some (c.toNat - '0'.toNat) := by
  have hcodes : ∀ n ∈ [48, 49, 50, 51, 52, 53, 54, 55, 56, 57],
      digitValue? (Char.ofNat n) = some (n - '0'.toNat) := by decide
  have hc : c.toNat ∈ [48, 49, 50, 51, 52, 53, 54, 55, 56, 57] := by
    have hzero : '0'.toNat = 48 := rfl
    have hnine : '9'.toNat = 57 := rfl
    simp only [Char.isDigit_iff_toNat] at h
    simp only [List.mem_cons, List.not_mem_nil, or_false]
    omega
  simpa using hcodes c.toNat hc

theorem natOfDigits_eq_ofDigitChars {digits : List Char}
    (h : ∀ c ∈ digits, c.isDigit = true) : natOfDigits digits = Nat.ofDigitChars 10 digits 0 := by
  have hf : digits.filterMap digitValue? = digits.map fun c => c.toNat - '0'.toNat := by
    induction digits with
    | nil => rfl
    | cons c digits ih =>
      rw [List.filterMap_cons_some (digitValue?_of_isDigit (h c List.mem_cons_self)),
        ih fun d hd => h d (List.mem_cons_of_mem _ hd), List.map_cons]
  rw [natOfDigits, hf, List.foldl_map, Nat.ofDigitChars_eq_foldl]

theorem natOfDigits_toDigits (n : Nat) : natOfDigits (Nat.toDigits 10 n) = n := by
  rw [natOfDigits_eq_ofDigitChars
    fun c hc => Nat.isDigit_of_mem_toDigits (by decide) (by decide) hc]
  exact Nat.ofDigitChars_ten_toDigits

/-- A character of a text is a separator or stands in one of the parts. -/
theorem mem_of_splitOn (separator : Char) {c : Char} {s : List Char} (h : c ∈ s) :
    c = separator ∨ ∃ part ∈ splitOn separator s, c ∈ part := by
  induction s with
  | nil => cases h
  | cons d s ih =>
    cases hs : splitOn separator s with
    | nil => exact absurd hs (splitOn_ne_nil separator s)
    | cons part parts =>
      by_cases hd : d = separator
      · rcases List.mem_cons.1 h with rfl | h
        · exact .inl hd
        · rcases ih h with hc | ⟨p, hp, hc⟩
          · exact .inl hc
          · exact .inr ⟨p, by rw [splitOn, if_pos hd]; exact List.mem_cons_of_mem _ hp, hc⟩
      · have hsplit : splitOn separator (d :: s) = (d :: part) :: parts := by
          rw [splitOn, if_neg hd, hs]
        rcases List.mem_cons.1 h with rfl | h
        · exact .inr ⟨c :: part, by simp [hsplit], List.mem_cons_self⟩
        · rcases ih h with hc | ⟨p, hp, hc⟩
          · exact .inl hc
          · rw [hs] at hp
            rcases List.mem_cons.1 hp with rfl | hp
            · exact .inr ⟨d :: p, by simp [hsplit], List.mem_cons_of_mem _ hc⟩
            · exact .inr ⟨p, by simp [hsplit, hp], hc⟩

end Text

namespace Asset

open Text

/-! ### Parts in which no mark begins -/

section marks

variable {x : List Char}

theorem silent_outputOpen_tagSource (h : '\x7b' ∉ x) :
    Silent (after? outputOpen) (tagSource x) := by
  refine Silent.cons_iff.2 ⟨fun r => rfl, silent_after?_of_not_mem ?_⟩
  simp [tagClose, h]

/-- The second brace of an output opens no output. -/
theorem silent_outputOpen_tail (h : '\x7b' ∉ x) :
    Silent (after? outputOpen) ('\x7b' :: ' ' :: (x ++ ' ' :: outputClose)) := by
  refine Silent.cons_iff.2 ⟨fun r => rfl, silent_after?_of_not_mem ?_⟩
  simp [outputClose, h]

theorem silent_tagOpen_outputSource (h : '\x7b' ∉ x) :
    Silent (after? tagOpen) (outputSource x) := by
  refine Silent.cons_iff.2 ⟨fun r => rfl, Silent.cons_iff.2 ⟨fun r => rfl, ?_⟩⟩
  refine silent_after?_of_not_mem ?_
  simp [outputClose, h]

theorem silent_tagOpen_tail (h : '\x7b' ∉ x) :
    Silent (after? tagOpen) ('%' :: ' ' :: (x ++ ' ' :: tagClose)) := by
  refine silent_after?_of_not_mem ?_
  simp [tagClose, h]

end marks

/-! ### Tags and outputs of any kind -/

/-- A closing mark is found after the words and the blanks around them. -/
theorem cutAt?_blanks_append {a : Char} {x : List Char} (ha : a ≠ ' ') (h : a ∉ x)
    (mark r : List Char) :
    cutAt? (a :: mark) (' ' :: (x ++ ' ' :: a :: mark) ++ r) = some (' ' :: (x ++ [' ']), r) := by
  have hx : a ∉ ' ' :: (x ++ [' ']) := by simp [h, ha]
  simpa using cutAt?_append hx mark r

theorem anyTag?_tagSource {x : List Char} (h : '%' ∉ x) (r : List Char) :
    anyTag? (tagSource x ++ r) = some ((), r) := by
  have hcut : cutAt? tagClose (' ' :: (x ++ ' ' :: tagClose) ++ r) =
      some (' ' :: (x ++ [' ']), r) :=
    cutAt?_blanks_append (by decide) h ['\x7d'] r
  rw [anyTag?, tagSource, List.append_assoc, after?_append]
  show Option.bind (cutAt? tagClose (' ' :: (x ++ ' ' :: tagClose) ++ r)) _ = _
  rw [hcut]
  rfl

theorem anyOutput?_outputSource {x : List Char} (h : '\x7d' ∉ x) (r : List Char) :
    anyOutput? (outputSource x ++ r) = some ((), r) := by
  have hcut : cutAt? outputClose (' ' :: (x ++ ' ' :: outputClose) ++ r) =
      some (' ' :: (x ++ [' ']), r) :=
    cutAt?_blanks_append (by decide) h ['\x7d'] r
  rw [anyOutput?, outputSource, List.append_assoc, after?_append]
  show Option.bind (cutAt? outputClose (' ' :: (x ++ ' ' :: outputClose) ++ r)) _ = _
  rw [hcut]
  rfl

/-- The tag of a word. -/
theorem tag?_tagSource {word : List Char} (hne : word ≠ []) (hw : ∀ c ∈ word, isWord c = true)
    (r : List Char) : tag? word (tagSource word ++ r) = some r := by
  have hx : word.takeWhile isWord ≠ [] := by
    rwa [← List.append_nil word, List.takeWhile_append_of_pos hw, List.takeWhile_nil,
      List.append_nil]
  rw [tag?, tagSource, List.append_assoc, List.cons_append, List.append_assoc, List.cons_append,
    opened?_word hx]
  show (after? word (word ++ ' ' :: (tagClose ++ r))).bind (closed? tagClose) = some r
  rw [after?_append]
  exact closed?_tagClose r

/-- The tag of another word. -/
theorem silent_tag?_tagSource {word x : List Char} (hw : ∀ c ∈ word, isWord c = true)
    (hx : x.takeWhile isWord ≠ []) (hne : x.takeWhile isWord ≠ word) (hb : '\x7b' ∉ x) :
    Silent (tag? word) (tagSource x) := by
  refine Silent.cons_iff.2 ⟨fun r => ?_, (silent_tagOpen_tail hb).of_le fun _ => tag?_eq_none⟩
  rw [← List.cons_append]
  have h := tag?_eq_none_of_takeWhile_ne (s := tagClose ++ r) hw hx hne
  simpa [tagOpen] using h

/-! ### Held marks -/

theorem held?_heldMark (slot : Nat) (r : List Char) :
    held? (heldMark slot ++ r) = some (slot, r) := by
  have hdigits : ∀ c ∈ Nat.toDigits 10 slot, isDigit c = true := fun c hc => by
    rw [isDigit, digitValue?_of_isDigit (Nat.isDigit_of_mem_toDigits (by decide) (by decide) hc)]
    rfl
  have hclose : isDigit '\ue001' = false := by decide
  have happ : heldMark slot ++ r = '\ue000' :: (Nat.toDigits 10 slot ++ '\ue001' :: r) := by
    simp [heldMark]
  simp only [happ, held?, List.takeWhile_append_of_pos hdigits,
    List.dropWhile_append_of_pos hdigits, List.takeWhile_cons, List.dropWhile_cons, hclose,
    Bool.false_eq_true, if_false, List.append_nil, natOfDigits_toDigits,
    List.isEmpty_eq_false_iff.2 Nat.toDigits_ne_nil]

theorem not_mem_heldMark {a : Char} (h : a.isDigit = false) (hopen : a ≠ '\ue000')
    (hclose : a ≠ '\ue001') (slot : Nat) : a ∉ heldMark slot := by
  have hdigits : a ∉ Nat.toDigits 10 slot := fun ha => by
    rw [Nat.isDigit_of_mem_toDigits (by decide) (by decide) ha] at h
    exact Bool.noConfusion h
  simp [heldMark, hdigits, hopen, hclose]

/-! ### Outputs of settings -/

theorem after?_append_of_not_mem {a : Char} {mark : List Char} (ha : a ∉ mark) (u t : List Char) :
    after? mark (u ++ a :: t) = (after? mark u).map (· ++ a :: t) := by
  cases hu : after? mark u with
  | some v => exact after?_eq_some_iff.2 (by simp [after?_eq_some_iff.1 hu])
  | none =>
    rw [Option.map_none, Option.eq_none_iff_forall_ne_some]
    intro v hv
    rcases List.append_eq_append_iff.1 (after?_eq_some_iff.1 hv) with ⟨z, hz, hzv⟩ | ⟨z, hz, -⟩
    · cases z with
      | nil =>
        rw [List.append_nil] at hz
        rw [hz, after?_eq_some_iff.2 (List.append_nil u).symm] at hu
        cases hu
      | cons b z =>
        obtain ⟨rfl, -⟩ := List.cons.inj hzv
        exact ha (hz ▸ List.mem_append_right _ List.mem_cons_self)
    · rw [after?_eq_some_iff.2 hz] at hu
      cases hu

theorem path?_append {a : Char} (ha : isSegmentChar a = false) (hdot : a ≠ '.') (u t : List Char) :
    path? (u ++ a :: t) = (path? u).map fun (path, rest) => (path, rest ++ a :: t) := by
  cases u with
  | nil => simp [path?, ha]
  | cons c u =>
    cases hc : isSegmentChar c with
    | true => simp [path?, hc, takeDotted_append_of_not ha hdot]
    | false => simp [path?, hc]

/-- An output closes where its braces are, if only blanks and a dash stand before them. -/
theorem closed?_outputClose_append {u : List Char} (hu : '\x7d' ∉ u) (r : List Char) :
    closed? outputClose (u ++ (outputClose ++ r)) =
      if skipDash (dropBlanks u) = [] then some r else none := by
  have hblank : isBlank '\x7d' = false := by decide
  have hmem : '\x7d' ∉ skipDash (dropBlanks u) := fun h =>
    hu (dropBlanks_subset u ((skipDash_suffix _).subset h))
  rw [closed?, show outputClose ++ r = '\x7d' :: '\x7d' :: r from rfl, dropBlanks_append hblank,
    skipDash_append (by decide)]
  cases hv : skipDash (dropBlanks u) with
  | nil => exact after?_append outputClose r
  | cons c v =>
    rw [if_neg (List.cons_ne_nil c v)]
    exact after?_cons_of_ne fun hc => hmem (by simp [hv, hc])

/-- The path that an output names and what follows it up to the closing braces. -/
def settingStart? (s : List Char) : Option (List Char × List Char) :=
  (after? "settings.".toList (dropBlanks s)).bind path?

/-- Whether an output is that of a setting is told by what stands inside its braces. -/
theorem settingOutput?_outputSource {x : List Char} (hx : '\x7d' ∉ x) (r : List Char) :
    settingOutput? (outputSource x ++ r) = (settingStart? (x ++ [' '])).bind fun (path, rest) =>
      if skipDash (dropBlanks rest) = [] then some (path, r) else none := by
  have hsegment : isSegmentChar '\x7d' = false := by decide
  have hsource : outputSource x ++ r =
      outputOpen ++ ' ' :: (x ++ [' '] ++ '\x7d' :: '\x7d' :: r) := by
    simp [outputSource, outputClose]
  have hmark : after? "settings.".toList (dropBlanks (x ++ [' ']) ++ '\x7d' :: '\x7d' :: r) =
      (after? "settings.".toList (dropBlanks (x ++ [' ']))).map (· ++ '\x7d' :: '\x7d' :: r) :=
    after?_append_of_not_mem (by decide) _ _
  rw [settingOutput?, hsource, opened?_blank, dropBlanks_append (by decide)]
  show ((after? "settings.".toList (dropBlanks (x ++ [' ']) ++ '\x7d' :: '\x7d' :: r)).bind fun s =>
    (path? s).bind fun (path, s) => (closed? outputClose s).bind fun s => some (path, s)) = _
  rw [hmark, settingStart?]
  cases hs : after? "settings.".toList (dropBlanks (x ++ [' '])) with
  | none => rfl
  | some s =>
    have hs : s ⊆ x ++ [' '] := fun c hc =>
      dropBlanks_subset _ (after?_eq_some_iff.1 hs ▸ List.mem_append_right _ hc)
    rw [Option.map_some, Option.bind_some, Option.bind_some, path?_append hsegment (by decide)]
    cases hp : path? s with
    | none => rfl
    | some cut =>
      obtain ⟨path, rest⟩ := cut
      have hrest : '\x7d' ∉ rest := fun h => by
        have hmem := hs (eq_append_of_path? hp ▸ List.mem_append_right path h)
        simp [hx] at hmem
      have hclosed := closed?_outputClose_append hrest r
      rw [show outputClose ++ r = '\x7d' :: '\x7d' :: r from rfl] at hclosed
      simp only [Option.map_some, Option.bind_some, hclosed]
      split <;> rfl

/-- What follows an output does not make it one of a setting. -/
theorem settingOutput?_append_eq_none {x : List Char} (hx : '\x7d' ∉ x)
    (h : settingOutput? (outputSource x) = none) (r : List Char) :
    settingOutput? (outputSource x ++ r) = none := by
  have hnil := settingOutput?_outputSource hx []
  rw [List.append_nil, h, eq_comm, Option.bind_eq_none_iff] at hnil
  rw [settingOutput?_outputSource hx, Option.bind_eq_none_iff]
  intro ⟨path, rest⟩ hcut
  have hcut := hnil (path, rest) hcut
  by_cases hrest : skipDash (dropBlanks rest) = []
  · simp [hrest] at hcut
  · exact if_neg hrest

/-! ### Paths -/

namespace IsPath

variable {a c : Char} {s : List Char}

theorem dot_not_segment : isSegmentChar '.' = false := by decide

theorem ne_dot (ha : isSegmentChar a = true) : a ≠ '.' := by
  rintro rfl
  rw [dot_not_segment] at ha
  exact Bool.noConfusion ha

/-- A path starts with a character of its first segment. -/
theorem exists_cons (h : IsPath s) : ∃ c t, s = c :: t ∧ isSegmentChar c = true := by
  cases s with
  | nil => exact absurd rfl (h [] List.mem_cons_self).1
  | cons c s =>
    refine ⟨c, s, rfl, ?_⟩
    by_cases hc : c = '.'
    · exact absurd rfl (h [] (by simp [splitOn, hc])).1
    · cases hs : splitOn '.' s with
      | nil => exact absurd hs (splitOn_ne_nil '.' s)
      | cons part parts =>
        exact (h (c :: part) (by simp [splitOn, hc, hs])).2 c List.mem_cons_self

theorem of_cons_dot (ha : isSegmentChar a = true) (h : IsPath (a :: '.' :: s)) : IsPath s :=
  fun segment hm => h segment (by simp [splitOn, ne_dot ha, hm])

theorem of_cons_cons (ha : isSegmentChar a = true) (hc : c ≠ '.') (h : IsPath (a :: c :: s)) :
    IsPath (c :: s) := by
  intro segment hm
  cases hs : splitOn '.' s with
  | nil => exact absurd hs (splitOn_ne_nil '.' s)
  | cons part parts =>
    rw [splitOn, hs, if_neg hc] at hm
    rcases List.mem_cons.1 hm with rfl | hm
    · have hfirst := h (a :: c :: part) (by simp [splitOn, ne_dot ha, hc, hs])
      exact ⟨List.cons_ne_nil _ _, fun d hd => hfirst.2 d (List.mem_cons_of_mem _ hd)⟩
    · exact h segment (by simp [splitOn, ne_dot ha, hc, hs, hm])

theorem cons (ha : isSegmentChar a = true) (h : IsPath s) : IsPath (a :: s) := by
  intro segment hm
  cases hs : splitOn '.' s with
  | nil => exact absurd hs (splitOn_ne_nil '.' s)
  | cons part parts =>
    rw [splitOn, hs, if_neg (ne_dot ha)] at hm
    rcases List.mem_cons.1 hm with rfl | hm
    · have hfirst := h part (by simp [hs])
      exact ⟨List.cons_ne_nil _ _, fun d hd => by
        rcases List.mem_cons.1 hd with rfl | hd
        · exact ha
        · exact hfirst.2 d hd⟩
    · exact h segment (by simp [hs, hm])

theorem takeDotted_append_blank (ha : isSegmentChar a = true) (h : IsPath (a :: s))
    (r : List Char) : takeDotted (s ++ ' ' :: r) = (s, ' ' :: r) := by
  induction s generalizing a with
  | nil => exact takeDotted_append_of_not (by decide) (by decide) [] r
  | cons c s ih =>
    by_cases hc : c = '.'
    · subst hc
      have hs := of_cons_dot ha h
      obtain ⟨d, t, rfl, hd⟩ := hs.exists_cons
      have ih := ih ha (hs.cons ha)
      rw [List.cons_append] at ih ⊢
      rw [List.cons_append, takeDotted, if_pos (by simp [hd]), ih]
    · have hs := of_cons_cons ha hc h
      obtain ⟨d, t, heq, hd⟩ := hs.exists_cons
      obtain ⟨rfl, -⟩ := List.cons.inj heq
      have ih := ih hd hs
      cases hs' : s ++ ' ' :: r with
      | nil => simp at hs'
      | cons e t => rw [List.cons_append, hs', takeDotted, if_pos (by simp [hd]), ← hs', ih]

theorem path?_append_blank (h : IsPath s) (r : List Char) :
    path? (s ++ ' ' :: r) = some (s, ' ' :: r) := by
  obtain ⟨c, t, rfl, hc⟩ := h.exists_cons
  rw [List.cons_append, path?, if_pos hc, takeDotted_append_blank hc h]

theorem not_mem (h : IsPath s) {b : Char} (hb : isSegmentChar b = false) (hdot : b ≠ '.') :
    b ∉ s := by
  intro hs
  rcases mem_of_splitOn '.' hs with rfl | ⟨segment, hm, hbs⟩
  · exact hdot rfl
  · rw [(h segment hm).2 b hbs] at hb
    exact Bool.noConfusion hb

end IsPath

theorem not_mem_settingExpression {path : List Char} (h : IsPath path) {c : Char}
    (hc : c = '\x7b' ∨ c = '\x7d') : c ∉ "settings.".toList ++ path := by
  rw [List.mem_append, not_or]
  rcases hc with rfl | rfl
  · exact ⟨by decide, h.not_mem (by decide) (by decide)⟩
  · exact ⟨by decide, h.not_mem (by decide) (by decide)⟩

theorem settingOutput?_setting {path : List Char} (h : IsPath path) (r : List Char) :
    settingOutput? (Leaf.source (.setting path) ++ r) = some (path, r) := by
  have hmem := not_mem_settingExpression h (.inr rfl)
  have hstart : settingStart? ("settings.".toList ++ path ++ [' ']) = some (path, [' ']) := by
    rw [settingStart?, List.append_assoc]
    show (after? "settings.".toList ("settings.".toList ++ (path ++ [' ']))).bind path? = _
    rw [after?_append]
    exact h.path?_append_blank []
  rw [Leaf.source, settingOutput?_outputSource hmem, hstart]
  rfl

theorem assetUrl?_setting (path r : List Char) :
    assetUrl? (Leaf.source (.setting path) ++ r) = none := by
  have hfile (s : List Char) : filename? ('s' :: s) = none := by
    rw [filename?]
    split <;> rfl
  rw [assetUrl?, Leaf.source, outputSource, List.append_assoc, List.cons_append, opened?_blank]
  exact congrArg (Option.bind · _) (hfile _)

theorem assetUrl?_url {name : List Char} (hne : name ≠ []) (hq : ∀ c ∈ name, isQuote c = false)
    (r : List Char) : assetUrl? (Leaf.source (.url name) ++ r) = some (name, r) := by
  have hname : ∀ c ∈ name, (!isQuote c) = true := fun c hc => by rw [hq c hc]; rfl
  have hfile :
      filename? ('\'' :: (name ++ '\'' :: (" | asset_url ".toList ++ (outputClose ++ r)))) =
        some (name, " | asset_url ".toList ++ (outputClose ++ r)) := by
    have hquote : (!isQuote '\'') = false := by decide
    simp [filename?, List.takeWhile_append_of_pos hname, List.dropWhile_append_of_pos hname, hquote,
      hne]
    decide
  have hsource : Leaf.source (.url name) ++ r = outputOpen ++
      ' ' :: ('\'' :: (name ++ '\'' :: (" | asset_url ".toList ++ (outputClose ++ r)))) := by
    simp [Leaf.source, outputSource]
  rw [assetUrl?, hsource, opened?_blank, dropBlanks_cons_of_not (by decide)]
  show (filename? _).bind _ = _
  rw [hfile]
  rfl

end Asset

end Storefront
