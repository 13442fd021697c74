import Storefront.Proofs.Asset.Spelling

/-!
Tags of conditionals in any spelling: where they end, which words they are tags of, and that no other
tag begins in one.
-/

namespace Storefront.Asset

open Text

namespace Tag

variable {t : Tag} {sp : Spelling}

theorem word_mem_reservedWords (t : Tag) : t.word ∈ reservedWords := by
  cases t with
  | opening negated condition => exact openWord_mem_reservedWords negated
  | otherwise => exact elseWord_mem_reservedWords
  | closing negated => exact endWord_mem_reservedWords negated

theorem word_ne_nil (t : Tag) : t.word ≠ [] := by
  have hall : reservedWords.all (!·.isEmpty) = true := by decide
  simpa using List.all_eq_true.1 hall _ t.word_mem_reservedWords

/-- The opening mark, and blanks, a dash and the word behind it. -/
theorem exists_lead_eq (h : sp.Fits (.tag t)) : ∃ s, t.lead sp = '\x7b' :: '%' :: s ∧ s ≠ [] ∧
    ∀ c ∈ s, isBlank c = true ∨ c = '-' ∨ isWord c = true := by
  have hword := isWord_of_mem_reservedWords t.word_mem_reservedWords
  have hgap : ∀ c ∈ t.gap sp, isBlank c = true := by
    cases t with
    | opening negated condition => exact h.first
    | _ => exact List.forall_mem_nil _
  refine ⟨dash sp.openingDash ++ sp.before ++ (t.word ++ t.gap sp), rfl, ?_, fun c hc => ?_⟩
  · simp [t.word_ne_nil]
  rcases List.mem_append.1 hc with hc | hc
  · rcases List.mem_append.1 hc with hc | hc
    · exact .inr (.inl (mem_dash hc))
    · exact .inl (h.before c hc)
  · rcases List.mem_append.1 hc with hc | hc
    · exact .inr (.inr (hword c hc))
    · exact .inl (hgap c hc)

/-- No mark and no quote stands between the opening mark and the condition. -/
theorem not_mem_of_lead {c : Char} (hc : c ∈ ['\x7b', '%', '\x7d', '\'', '"'])
    (h : isBlank c = true ∨ c = '-' ∨ isWord c = true) : False := by
  have hall : ['\x7b', '%', '\x7d', '\'', '"'].all
      (fun c => !(isBlank c || decide (c = '-') || isWord c)) = true := by decide
  have hnot := List.all_eq_true.1 hall c hc
  rcases h with h | h | h <;> simp [h] at hnot

end Tag

/-! ### Closing marks -/

section closing

variable {sp : Spelling}

/-- The closing mark is preceded by blanks and a dash. -/
theorem exists_closing_eq (hafter : IsBlanks sp.after) (mark : List Char) :
    ∃ s, sp.closing mark = s ++ mark ∧ ∀ c ∈ s, isBlank c = true ∨ c = '-' := by
  refine ⟨sp.after ++ dash sp.closingDash, (List.append_assoc _ _ _).symm, fun c hc => ?_⟩
  exact (List.mem_append.1 hc).imp (hafter c) mem_dash

/-- What closes a tag begins with no closing brace, and with its mark only if there is neither a
blank nor a dash. -/
theorem closing_eq_cons {c : Char} {r s : List Char} (hafter : IsBlanks sp.after)
    (h : sp.closing tagClose ++ r = c :: s) :
    c ≠ '\x7d' ∧ (c = '%' → sp.after = [] ∧ sp.closingDash = false ∧ s = '\x7d' :: r) := by
  rw [Spelling.closing] at h
  cases hblanks : sp.after with
  | cons d after =>
    have hblank : isBlank d = true := hafter d (hblanks ▸ List.mem_cons_self)
    rw [hblanks] at h
    obtain ⟨rfl, -⟩ := List.cons.inj h
    exact ⟨ne_of_test hblank (by decide), fun hd => absurd hd (ne_of_test hblank (by decide))⟩
  | nil =>
    rw [hblanks] at h
    cases hdash : sp.closingDash with
    | true =>
      rw [hdash] at h
      obtain ⟨rfl, -⟩ := List.cons.inj h
      exact ⟨by decide, fun hd => absurd hd (by decide)⟩
    | false =>
      rw [hdash] at h
      obtain ⟨rfl, rfl⟩ := List.cons.inj h
      exact ⟨by decide, fun _ => ⟨rfl, rfl, rfl⟩⟩

theorem leftBrace_not_mem_closing (hafter : IsBlanks sp.after) :
    '\x7b' ∉ sp.closing tagClose := by
  obtain ⟨s, hs, hchars⟩ := exists_closing_eq hafter tagClose
  rw [hs]
  exact List.not_mem_append (fun hmem => absurd (hchars _ hmem) (by decide)) (by decide)

/-- A closing mark does not begin in a text without one, where none goes on behind it. -/
theorem not_tagClose_prefix {t x y : List Char} {l : Char} (hclose : ¬tagClose <:+: t ++ [l])
    (hx : l = '%' → ∀ u, x ≠ '\x7d' :: u) : t ++ l :: x ≠ '%' :: '\x7d' :: y := by
  intro h
  cases t with
  | nil =>
    obtain ⟨rfl, rfl⟩ := List.cons.inj h
    exact hx rfl y rfl
  | cons a t =>
    obtain ⟨rfl, htail⟩ := List.cons.inj h
    cases t with
    | nil =>
      obtain ⟨rfl, -⟩ := List.cons.inj htail
      exact hclose List.infix_rfl
    | cons b t =>
      obtain ⟨rfl, -⟩ := List.cons.inj htail
      exact hclose (List.prefix_append tagClose (t ++ [l])).isInfix

/-- A text that holds no closing mark and ends with no blank does not close in front of what closes
it. -/
theorem closed?_eq_none_of_suffix {m v : List Char} {l : Char} (hafter : IsBlanks sp.after)
    (hl : isBlank l = false) (hclose : ¬tagClose <:+: m ++ [l])
    (hdash : l = '-' → sp.after ≠ [] ∨ sp.closingDash = true) (hv : v <:+ m ++ [l]) (hne : v ≠ [])
    (r : List Char) : closed? tagClose (v ++ (sp.closing tagClose ++ r)) = none := by
  rw [Option.eq_none_iff_forall_ne_some]
  intro rest hrest
  obtain ⟨blanks, b, hblanks, hsplit⟩ := closed?_tagClose_iff.1 hrest
  obtain ⟨x, hx⟩ : ∃ x, x = sp.closing tagClose ++ r := ⟨_, rfl⟩
  have hbrace {c : Char} {s : List Char} (h : x = c :: s) := closing_eq_cons hafter (hx ▸ h)
  obtain ⟨n, rfl, -⟩ := (List.suffix_concat_iff.1 hv).resolve_left hne
  rw [← hx] at hsplit
  -- The blanks end in front of the last character, which is none of them.
  obtain ⟨t, rfl, ht⟩ : ∃ t, n = blanks ++ t ∧ t ++ l :: x = dash b ++ (tagClose ++ rest) := by
    have hsplit : n ++ l :: x = blanks ++ (dash b ++ (tagClose ++ rest)) := by simpa using hsplit
    rcases List.append_eq_append_iff.1 hsplit with ⟨t, rfl, ht⟩ | ⟨t, ht, heq⟩
    · cases t with
      | nil => exact ⟨[], by simp, ht⟩
      | cons a t =>
        obtain ⟨rfl, -⟩ := List.cons.inj ht
        rw [hblanks l (List.mem_append_right n List.mem_cons_self)] at hl
        cases hl
    · exact ⟨t, ht, heq.symm⟩
  have hclose : ¬tagClose <:+: t ++ [l] := fun h => hclose
    ((h.trans (List.suffix_append blanks _).isInfix).trans (by simpa using hv.isInfix))
  have hplain {t : List Char} (hclose : ¬tagClose <:+: t ++ [l]) :
      t ++ l :: x ≠ '%' :: '\x7d' :: rest :=
    not_tagClose_prefix hclose fun _ u hu => (hbrace hu).1 rfl
  cases b with
  | false => exact hplain hclose ht
  | true =>
    cases t with
    | nil =>
      obtain ⟨rfl, htail⟩ := List.cons.inj ht
      obtain ⟨hnil, hfalse, -⟩ := (hbrace htail).2 rfl
      rcases hdash rfl with h | h
      · exact h hnil
      · rw [hfalse] at h
        cases h
    | cons a t =>
      obtain ⟨rfl, htail⟩ := List.cons.inj ht
      exact hplain (fun h => hclose (h.trans (List.suffix_cons _ _).isInfix)) htail

end closing

/-! ### What begins and ends in a tag -/

theorem after?_cons (a : Char) (mark s : List Char) :
    after? (a :: mark) (a :: s) = after? mark s := by
  simp [after?]

/-- An end of two parts is one of the second, or begins in the first. -/
theorem suffix_append_cases {v a b : List Char} (h : v <:+ a ++ b) :
    v <:+ b ∨ ∃ u, u <:+ a ∧ u ≠ [] ∧ v = u ++ b := by
  rcases List.suffix_or_suffix_of_suffix h (List.suffix_append a b) with hv | ⟨u, rfl⟩
  · exact .inl hv
  · cases u with
    | nil => exact .inl (List.suffix_refl b)
    | cons c u => exact .inr ⟨c :: u, List.suffix_append_self_iff.1 h, List.cons_ne_nil c u, rfl⟩

theorem after?_eq_none_of_closed? {s : List Char} (h : closed? tagClose s = none) :
    after? tagClose s = none := by
  rw [Option.eq_none_iff_forall_ne_some] at h ⊢
  intro r hr
  have hs : s = tagClose ++ r := after?_eq_some_iff.1 hr
  exact h r (closed?_tagClose_iff.2 ⟨[], false, List.forall_mem_nil _, hs⟩)

/-- No word of a conditional begins another one. -/
theorem after?_eq_none_of_ne {word other : List Char} (hword : word ∈ reservedWords)
    (hother : other ∈ reservedWords) (hne : word ≠ other) (r : List Char) :
    after? word (other ++ r) = none := by
  have hall : reservedWords.all (fun v => reservedWords.all fun w =>
      v == w || !(v.isPrefixOf w)) = true := by decide
  have hnot {v w : List Char} (hv : v ∈ reservedWords) (hw : w ∈ reservedWords) (hne : v ≠ w) :
      ¬v <+: w := by
    have h := List.all_eq_true.1 (List.all_eq_true.1 hall v hv) w hw
    simpa [hne, ← List.isPrefixOf_iff_prefix] using h
  rw [Option.eq_none_iff_forall_ne_some]
  intro s hs
  have heq := after?_eq_some_iff.1 hs
  rcases List.append_eq_append_iff.1 heq with ⟨t, rfl, -⟩ | ⟨t, rfl, -⟩
  · exact hnot hother hword hne.symm (List.prefix_append other t)
  · exact hnot hword hother hne (List.prefix_append word t)

section written

variable {t : Tag} {sp : Spelling} (ht : t.WellFormed) (hfits : sp.Fits (.tag t))

include hfits in
theorem Tag.exists_written_eq (r : List Char) : ∃ s, t.written sp ++ r = '\x7b' :: '%' :: s := by
  obtain ⟨s, hs, -, -⟩ := t.exists_lead_eq hfits
  exact ⟨s ++ (t.condition ++ (sp.closing tagClose ++ r)), by simp [Tag.written, hs]⟩

include ht in
theorem Tag.not_infix_condition : ¬tagOpen <:+: t.condition ∧ ¬tagClose <:+: t.condition := by
  have hnil {mark : List Char} (hne : mark ≠ []) : ¬mark <:+: [] :=
    fun h => hne (List.infix_nil.1 h)
  cases t with
  | opening negated condition => exact ⟨ht.noTag, ht.noClose⟩
  | _ => exact ⟨hnil (List.cons_ne_nil _ _), hnil (List.cons_ne_nil _ _)⟩

include hfits in
/-- No output begins in front of the condition. -/
theorem Tag.silent_lead : Silent (after? outputOpen) (t.lead sp) := by
  obtain ⟨s, hs, -, hlead⟩ := t.exists_lead_eq hfits
  have hbrace : '\x7b' ∉ '%' :: s := by
    refine List.not_mem_cons_of_ne_of_not_mem (by decide) fun hmem => ?_
    exact not_mem_of_lead (by decide) (hlead _ hmem)
  rw [hs]
  refine Silent.cons_iff.2 ⟨fun r => ?_, silent_after?_of_not_mem hbrace⟩
  exact (after?_cons _ _ _).trans (after?_cons_of_ne (by decide))

include hfits in
/-- No output begins behind the condition. -/
theorem Tag.silent_closing : Silent (after? outputOpen) (sp.closing tagClose) :=
  silent_after?_of_not_mem (leftBrace_not_mem_closing hfits.after)

include hfits ht in
/-- What stands in front of the closing mark and its blanks is not blank at its end. -/
theorem Tag.exists_front_eq : ∃ m l, t.lead sp ++ t.condition = m ++ [l] ∧ isBlank l = false ∧
    (l = '-' → sp.after ≠ [] ∨ sp.closingDash = true) := by
  -- A word ends with a letter.
  have hplain (h : t.gap sp = [] ∧ t.condition = []) : ∃ m l, t.lead sp ++ t.condition = m ++ [l] ∧
      isBlank l = false ∧ (l = '-' → sp.after ≠ [] ∨ sp.closingDash = true) := by
    have hlast := isWord_of_mem_reservedWords t.word_mem_reservedWords _
      (List.getLast_mem t.word_ne_nil)
    refine ⟨sp.opening tagOpen ++ t.word.dropLast, t.word.getLast t.word_ne_nil, ?_,
      isBlank_eq_false_of_isWord hlast, fun hdash => absurd hdash (ne_of_test hlast (by decide))⟩
    rw [List.append_assoc, List.dropLast_concat_getLast, Tag.lead, h.1, h.2]
    simp
  cases t with
  | opening negated condition =>
    obtain ⟨n, l, rfl⟩ := (List.eq_nil_or_concat' condition).resolve_left ht.nonempty
    exact ⟨_, l, (List.append_assoc _ _ _).symm, isBlank_last_trim ht.trimmed,
      fun hdash => hfits.parted.2 (by simp [hdash])⟩
  | otherwise => exact hplain ⟨rfl, rfl⟩
  | closing negated => exact hplain ⟨rfl, rfl⟩

include hfits ht in
theorem Tag.not_tagClose_infix : ¬tagClose <:+: t.lead sp ++ t.condition := by
  obtain ⟨s, hs, hne, hlead⟩ := t.exists_lead_eq hfits
  have hpercent : '%' ∉ s := fun hmem => not_mem_of_lead (by decide) (hlead _ hmem)
  have hbrace : '\x7d' ∉ s := fun hmem => not_mem_of_lead (by decide) (hlead _ hmem)
  intro h
  rw [hs] at h
  have htail : tagClose <:+: '%' :: (s ++ t.condition) :=
    infix_of_infix_append (s := ['\x7b']) (by decide) h
  rcases List.infix_cons_iff.1 htail with hstart | htail
  · obtain ⟨c, s, rfl⟩ := List.exists_cons_of_ne_nil hne
    obtain ⟨-, hstart⟩ := List.cons_prefix_cons.1 hstart
    obtain ⟨rfl, -⟩ := List.cons_prefix_cons.1 hstart
    exact hbrace List.mem_cons_self
  · exact (t.not_infix_condition ht).2 (infix_of_infix_append hpercent htail)

include hfits ht in
/-- No tag closes in front of what closes it. -/
theorem Tag.closed?_eq_none {v : List Char} (hv : v <:+ t.lead sp ++ t.condition) (hne : v ≠ [])
    (r : List Char) : closed? tagClose (v ++ (sp.closing tagClose ++ r)) = none := by
  obtain ⟨m, l, hfront, hl, hdash⟩ := Tag.exists_front_eq ht hfits
  have hclose := Tag.not_tagClose_infix ht hfits
  rw [hfront] at hv hclose
  exact closed?_eq_none_of_suffix hfits.after hl hclose hdash hv hne r

include hfits ht in
/-- A tag, or what is left of one in front of its closing mark, ends there. -/
theorem Tag.cutBy?_closed?_closing {v : List Char} (hv : v <:+ t.lead sp ++ t.condition)
    (r : List Char) :
    cutBy? (closed? tagClose) (v ++ (sp.closing tagClose ++ r)) = some (v, r) :=
  cutBy?_append (fun _ hu hne => Tag.closed?_eq_none ht hfits (hu.trans hv) hne r)
    (closed?_tagClose_closing hfits.after r)

include hfits ht in
/-- The first closing mark in a tag is its own. -/
theorem Tag.cutAt?_closing {v : List Char} (hv : v <:+ t.lead sp ++ t.condition) (r : List Char) :
    ∃ before, cutAt? tagClose (v ++ (sp.closing tagClose ++ r)) = some (before, r) := by
  obtain ⟨b, hb, hchars⟩ := exists_closing_eq hfits.after tagClose
  have hpercent : '%' ∉ b := fun hmem => absurd (hchars _ hmem) (by decide)
  have hcut : cutBy? (after? tagClose) (sp.closing tagClose ++ r) = some (b, r) := by
    rw [hb, List.append_assoc]
    exact (silent_after?_of_not_mem hpercent).cutBy?_append (after?_append tagClose r)
  refine ⟨v ++ b, ?_⟩
  rw [cutAt?_eq_cutBy?, cutBy?_append_of_none, hcut]
  · rfl
  · exact fun u hu hne =>
      after?_eq_none_of_closed? (Tag.closed?_eq_none ht hfits (hu.trans hv) hne r)

include hfits ht in
theorem Tag.anyTag?_written (r : List Char) : anyTag? (t.written sp ++ r) = some ((), r) := by
  obtain ⟨s, hs, -, -⟩ := t.exists_lead_eq hfits
  have hsuffix : s ++ t.condition <:+ t.lead sp ++ t.condition := by
    rw [hs]
    exact ⟨['\x7b', '%'], rfl⟩
  obtain ⟨before, hcut⟩ := Tag.cutAt?_closing ht hfits hsuffix r
  have hwritten : t.written sp ++ r =
      tagOpen ++ (s ++ t.condition ++ (sp.closing tagClose ++ r)) := by
    simp [Tag.written, hs, tagOpen]
  rw [hwritten, anyTag?, after?_append]
  exact Option.bind_eq_some_iff.2 ⟨_, rfl, Option.bind_eq_some_iff.2 ⟨_, hcut, rfl⟩⟩

include hfits ht in
/-- Only the opening mark of a tag opens one. -/
theorem Tag.after?_tagOpen_of_suffix {v r s : List Char} (hv : v <:+ (t.written sp).tail)
    (hne : v ≠ []) (h : after? tagOpen (v ++ r) = some s) : s = '\x7d' :: r := by
  obtain ⟨u, hu, -, hlead⟩ := t.exists_lead_eq hfits
  have hbrace : '\x7b' ∉ '%' :: u := by
    refine List.not_mem_cons_of_ne_of_not_mem (by decide) fun hmem => ?_
    exact not_mem_of_lead (by decide) (hlead _ hmem)
  have hclosing := leftBrace_not_mem_closing hfits.after
  have htail : (t.written sp).tail = ('%' :: u) ++ (t.condition ++ sp.closing tagClose) := by
    simp [Tag.written, hu]
  obtain ⟨c, v, rfl⟩ := List.exists_cons_of_ne_nil hne
  obtain ⟨rfl, hrest⟩ := List.cons.inj (after?_eq_some_iff.1 h)
  have hnot {a w : List Char} (ha : '\x7b' ∉ a) (hw : '\x7b' :: w <:+ a) : False :=
    ha (hw.subset List.mem_cons_self)
  rw [htail] at hv
  rcases suffix_append_cases hv with hv | ⟨w, hw, hwne, heq⟩
  · rcases suffix_append_cases hv with hv | ⟨w, hw, hwne, heq⟩
    · exact (hnot hclosing hv).elim
    · obtain ⟨d, w, rfl⟩ := List.exists_cons_of_ne_nil hwne
      obtain ⟨rfl, rfl⟩ := List.cons.inj heq
      cases w with
      | nil => exact ((closing_eq_cons hfits.after hrest).2 rfl).2.2
      | cons e w =>
        obtain ⟨rfl, -⟩ := List.cons.inj hrest
        have hopen : tagOpen <:+: t.condition :=
          (List.prefix_append tagOpen w).isInfix.trans hw.isInfix
        exact absurd hopen (Tag.not_infix_condition ht).1
  · obtain ⟨d, w, rfl⟩ := List.exists_cons_of_ne_nil hwne
    obtain ⟨rfl, -⟩ := List.cons.inj heq
    exact (hnot hbrace hw).elim

include hfits ht in
/-- Behind the opening mark of a tag no word follows another opening mark. -/
theorem Tag.silent_tail {β : Type} {find : List Char → Option β}
    (hfind : ∀ s, after? tagOpen s = none → find s = none)
    (hbrace : ∀ r, find (tagOpen ++ '\x7d' :: r) = none) : Silent find (t.written sp).tail := by
  intro v r hv hne
  cases hafter : after? tagOpen (v ++ r) with
  | none => exact hfind _ hafter
  | some s =>
    rw [after?_eq_some_iff.1 hafter, Tag.after?_tagOpen_of_suffix ht hfits hv hne hafter]
    exact hbrace r

include hfits in
/-- The word of a tag and what stands behind it. -/
theorem Tag.opened?_written (r : List Char) : opened? tagOpen (t.written sp ++ r) =
    some (t.word ++ (t.gap sp ++ (t.condition ++ (sp.closing tagClose ++ r)))) := by
  obtain ⟨c, word, hword⟩ := List.exists_cons_of_ne_nil t.word_ne_nil
  have hc : isWord c = true := isWord_of_mem_reservedWords t.word_mem_reservedWords c
    (hword ▸ List.mem_cons_self)
  have hopen := opened?_opening tagOpen hfits.before (isBlank_eq_false_of_isWord hc)
    (ne_of_test hc (by decide))
    (word ++ (t.gap sp ++ (t.condition ++ (sp.closing tagClose ++ r))))
  simpa [Tag.written, Tag.lead, hword] using hopen

include hfits in
/-- A tag that has no condition is a tag of its word and of no other. -/
theorem Tag.tag?_written {word : List Char} (hword : word ∈ reservedWords)
    (hopen : ∀ negated, word ≠ Conditional.openWord negated) (r : List Char) :
    tag? word (t.written sp ++ r) = if word = t.word then some r else none := by
  rw [tag?, Tag.opened?_written hfits]
  show (after? word _).bind (closed? tagClose) = _
  split
  · next heq =>
    subst heq
    rw [after?_append]
    cases t with
    | opening negated condition => exact absurd rfl (hopen negated)
    | _ => exact closed?_tagClose_closing hfits.after r
  · next hne =>
    rw [after?_eq_none_of_ne hword t.word_mem_reservedWords hne]
    rfl

end written

/-! ### Conditionals -/

namespace Conditional

variable {negated : Bool} {s : List Char}

/-- The blanks behind an opening word, and what stands behind them. -/
def start? (negated : Bool) (s : List Char) : Option (List Char × List Char) :=
  (after? (openWord negated) s).bind fun s =>
    if (s.takeWhile isBlank).isEmpty then none
    else some (s.takeWhile isBlank, s.dropWhile isBlank)

/-- The conditional of a condition behind whose tag the text goes on. -/
def ended (negated : Bool) (condition s : List Char) : Option (Conditional × List Char) :=
  (cutBy? (tag? (endWord negated)) s).map fun (body, rest) => ({ negated, condition, body }, rest)

theorem start?_append {blanks : List Char} {c : Char} (hblanks : IsBlanks blanks)
    (hne : blanks ≠ []) (hc : isBlank c = false) (s : List Char) :
    start? negated (openWord negated ++ (blanks ++ c :: s)) = some (blanks, c :: s) := by
  rw [start?, after?_append, Option.bind_some, List.takeWhile_append_of_pos hblanks,
    List.dropWhile_append_of_pos hblanks]
  simp [hc, hne]

theorem ofKind?_eq (negated : Bool) (s : List Char) : ofKind? negated s =
    (start? negated s).bind fun start =>
      ofCondition? negated start.2 <|> ofBlanks? negated start.1 start.2 := by
  rw [ofKind?, start?, Option.bind_assoc]
  refine congrArg (Option.bind _) (funext fun s => ?_)
  by_cases hblanks : (s.takeWhile isBlank).isEmpty = true
  · simp only [hblanks, if_true, Option.bind_none]
  · simp only [if_neg hblanks, Option.bind_some]

theorem ofCondition?_cons (negated : Bool) (c : Char) (s : List Char) :
    ofCondition? negated (c :: s) = (cutBy? (closed? tagClose) s).bind fun (condition, s) =>
      ended negated (c :: condition) s := by
  simp only [ofCondition?, ended]
  refine congrArg (Option.bind _) (funext fun cut => ?_)
  cases cutBy? (tag? (endWord negated)) cut.2 <;> rfl

theorem ofBlanks?_eq (negated : Bool) (blanks s : List Char) : ofBlanks? negated blanks s =
    (closed? tagClose s).bind fun s =>
      if 2 ≤ blanks.length then ended negated (blanks.drop (blanks.length - 1)) s else none := by
  rw [ofBlanks?]
  refine congrArg (Option.bind _) (funext fun s => ?_)
  rw [ended]
  cases cutBy? (tag? (endWord negated)) s with
  | none => exact (ite_self _).symm
  | some cut => rfl

end Conditional

/-- The conditional that a tag begins. -/
def Tag.begun (s : List Char) : Tag → Option (Conditional × List Char)
  | .opening negated condition => Conditional.ended negated condition s
  | _ => none

section written

variable {t : Tag} {sp : Spelling} (ht : t.WellFormed) (hfits : sp.Fits (.tag t))

open Conditional

include hfits ht in
theorem Tag.conditional?_written (r : List Char) :
    conditional? (t.written sp ++ r) = t.begun r := by
  have hother {negated : Bool} (hne : openWord negated ≠ t.word) (s : List Char) :
      ofKind? negated (t.word ++ s) = none := by
    rw [ofKind?_eq, start?, after?_eq_none_of_ne (openWord_mem_reservedWords negated)
      t.word_mem_reservedWords hne]
    rfl
  have hkinds : conditional? (t.written sp ++ r) =
      (ofKind? false (t.word ++ (t.gap sp ++ (t.condition ++ (sp.closing tagClose ++ r)))) <|>
        ofKind? true (t.word ++ (t.gap sp ++ (t.condition ++ (sp.closing tagClose ++ r))))) := by
    rw [conditional?, Tag.opened?_written hfits]
    rfl
  rw [hkinds]
  cases t with
  | otherwise => rw [hother (by decide), hother (by decide)]; rfl
  | closing b => rw [hother (by cases b <;> decide), hother (by cases b <;> decide)]; rfl
  | opening b condition =>
    obtain ⟨c, s, rfl⟩ := List.exists_cons_of_ne_nil ht.nonempty
    have hc : isBlank c = false := isBlank_head_trim ht.trimmed
    have hstart : start? b (openWord b ++ (sp.first ++ c :: (s ++ (sp.closing tagClose ++ r)))) =
        some (sp.first, c :: (s ++ (sp.closing tagClose ++ r))) :=
      start?_append hfits.first hfits.parted.1 hc _
    have hsuffix : c :: s <:+ (Tag.opening b (c :: s)).lead sp ++ (c :: s) :=
      List.suffix_append _ _
    have hcut := Tag.cutBy?_closed?_closing ht hfits ((List.suffix_cons c s).trans hsuffix) r
    have hblanks := Tag.closed?_eq_none ht hfits hsuffix (List.cons_ne_nil c s) r
    have hkind : ofKind? b (openWord b ++ (sp.first ++ c :: (s ++ (sp.closing tagClose ++ r)))) =
        ended b (c :: s) r := by
      rw [ofKind?_eq, hstart, Option.bind_some, ofCondition?_cons, hcut, ofBlanks?_eq]
      rw [List.cons_append] at hblanks
      simp [hblanks]
    cases b with
    | false =>
      rw [hother (show openWord true ≠ openWord false by decide), Option.orElse_eq_orElse,
        Option.orElse_eq_or, Option.or_none]
      exact hkind
    | true =>
      rw [hother (show openWord false ≠ openWord true by decide)]
      exact hkind

end written

end Storefront.Asset
