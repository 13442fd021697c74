import Storefront.Proofs.Asset.Recogniser

/-!
Where directives end: at a closing brace, and no recogniser asks what stands behind it. So a text
without closing braces neither completes a directive in front of it nor changes what is found there
(`Ends`). The recognisers are put together from steps that take some characters and go on with
what is left; each step passes the property on from what comes after it.
-/

namespace Storefront.Asset

open Text

/-- Something found, with what is left of the text. -/
class HasRest (β : Type) where
  /-- The rest goes on with `b`. -/
  extend : List Char → β → β

instance : HasRest (List Char) where
  extend b rest := rest ++ b

instance {α : Type} : HasRest (α × List Char) where
  extend b found := (found.1, found.2 ++ b)

/-- To cut at a mark is to cut where it ends. -/
theorem cutAt?_eq_cutBy? (mark : List Char) : cutAt? mark = cutBy? (after? mark) := by
  funext s
  induction s with
  | nil => cases mark <;> rfl
  | cons c s ih =>
    rw [cutAt?, cutBy?, after?, ih]
    by_cases hmark : mark.isPrefixOf (c :: s) = true
    · rw [if_pos hmark, if_pos hmark]
    · rw [if_neg hmark, if_neg hmark]

/-! ### Marks over the end of a text -/

section after

variable {mark s b r : List Char}

theorem after?_append_of_some (h : after? mark s = some r) :
    after? mark (s ++ b) = some (r ++ b) := by
  rw [after?_eq_some_iff.1 h, List.append_assoc, after?_append]

/-- A mark that is not all in `s` reaches into what stands behind `s`. -/
theorem exists_of_after?_append (hs : after? mark s = none) (h : after? mark (s ++ b) = some r) :
    ∃ t, t ≠ [] ∧ mark = s ++ t ∧ b = t ++ r := by
  rcases List.append_eq_append_iff.1 (after?_eq_some_iff.1 h) with ⟨t, ht, hb⟩ | ⟨t, rfl, -⟩
  · refine ⟨t, ?_, ht, hb⟩
    rintro rfl
    rw [ht, List.append_nil, after?_eq_some_iff.2 (List.append_nil s).symm] at hs
    cases hs
  · rw [after?_append] at hs
    cases hs

end after

section ends

variable {α β : Type} [HasRest β]

/-- A text without closing braces, put behind another one, is only passed on. -/
def Passes (find : List Char → Option β) : Prop :=
  ∀ s b, '\x7d' ∉ b → find (s ++ b) = (find s).map (HasRest.extend b)

/-- All that is found ends with a closing brace. -/
structure Ends (find : List Char → Option β) : Prop where
  nil : find [] = none
  passes : Passes find

/-- What follows a mark is passed on if nothing is found where the mark is not all in the text. -/
theorem passes_after?_bind {mark : List Char} {next : List Char → Option β} (h : Passes next)
    (hover : ∀ s b r, '\x7d' ∉ b → after? mark s = none → after? mark (s ++ b) = some r →
      next r = none) : Passes fun s => (after? mark s).bind next := by
  intro s b hb
  dsimp only
  cases hs : after? mark s with
  | some r =>
    rw [after?_append_of_some hs]
    exact h r b hb
  | none =>
    rw [Option.bind_none, Option.map_none, Option.bind_eq_none_iff]
    exact fun r => hover s b r hb hs

namespace Ends

theorem eq_none {find : List Char → Option β} (h : Ends find) {s : List Char} (hs : '\x7d' ∉ s) :
    find s = none := by
  have hfind := h.passes [] s hs
  rwa [h.nil] at hfind

/-! ### Choices -/

theorem none : Ends fun _ => (Option.none : Option β) := ⟨rfl, fun _ _ _ => rfl⟩

theorem orElse {first second : List Char → Option β} (h₁ : Ends first) (h₂ : Ends second) :
    Ends fun s => first s <|> second s := by
  refine ⟨by rw [h₁.nil, h₂.nil]; rfl, fun s b hb => ?_⟩
  rw [h₁.passes s b hb, h₂.passes s b hb]
  cases first s with
  | none => rfl
  | some found => rfl

/-! ### Steps -/

theorem of_cons {find : List Char → Option β} (hnil : find [] = Option.none)
    (hcons : ∀ c, Ends fun s => find (c :: s)) : Ends find := by
  refine ⟨hnil, fun s b hb => ?_⟩
  cases s with
  | cons c s => exact (hcons c).passes s b hb
  | nil =>
    rw [hnil, List.nil_append]
    cases b with
    | nil => exact hnil
    | cons c b => exact (hcons c).eq_none (List.not_mem_of_not_mem_cons hb)

/-- Where a run of characters reaches the end of a text, all that is left of it is in what stands
behind the text, where nothing can be found. -/
theorem span (next : List Char → List Char → Option β) (h : ∀ run, Ends (next run))
    (p : Char → Bool) : Ends fun s => next (s.takeWhile p) (s.dropWhile p) := by
  refine ⟨(h []).nil, fun s b hb => ?_⟩
  cases hs : s.dropWhile p with
  | nil =>
    have hrest : '\x7d' ∉ (s ++ b).dropWhile p := by
      rw [List.dropWhile_append, hs]
      exact fun hmem => hb ((List.dropWhile_sublist p).subset hmem)
    rw [(h _).eq_none hrest, (h _).nil]
    rfl
  | cons c t =>
    have htake : (s ++ b).takeWhile p = s.takeWhile p := by
      rw [List.takeWhile_append, if_neg]
      intro hlength
      have hsplit := congrArg List.length (List.takeWhile_append_dropWhile (p := p) (l := s))
      rw [List.length_append, hlength, hs, List.length_cons] at hsplit
      omega
    rw [htake, List.dropWhile_append, hs]
    exact (h _).passes (c :: t) b hb

theorem dropBlanks {next : List Char → Option β} (h : Ends next) :
    Ends fun s => next (Text.dropBlanks s) :=
  span (fun _ => next) (fun _ => h) isBlank

theorem skipDash {next : List Char → Option β} (h : Ends next) :
    Ends fun s => next (Asset.skipDash s) := by
  refine ⟨h.nil, fun s b hb => ?_⟩
  cases s with
  | nil =>
    have hrest : '\x7d' ∉ Asset.skipDash b := fun hmem => hb ((skipDash_suffix b).subset hmem)
    rw [List.nil_append, h.eq_none hrest]
    exact (congrArg (Option.map _) h.nil).symm
  | cons c s =>
    by_cases hc : c = '-'
    · subst hc
      exact h.passes s b hb
    · rw [List.cons_append, skipDash_cons_of_ne hc, skipDash_cons_of_ne hc]
      exact h.passes (c :: s) b hb

theorem after?_bind {next : List Char → Option β} (h : Ends next) (mark : List Char) :
    Ends fun s => (after? mark s).bind next := by
  constructor
  · rw [Option.bind_eq_none_iff]
    intro r hr
    obtain ⟨-, rfl⟩ := List.append_eq_nil_iff.1 (after?_eq_some_iff.1 hr).symm
    exact h.nil
  · refine passes_after?_bind h.passes fun s b r hb hs hr => ?_
    obtain ⟨t, -, -, rfl⟩ := exists_of_after?_append hs hr
    exact h.eq_none fun hmem => hb (List.mem_append_right t hmem)

theorem opened?_bind {next : List Char → Option β} (h : Ends next) (mark : List Char) :
    Ends fun s => (opened? mark s).bind next := by
  have hopened : (fun s => (opened? mark s).bind next) =
      fun s => (after? mark s).bind fun s => next (Text.dropBlanks (Asset.skipDash s)) := by
    funext s
    rw [opened?, Option.bind_map]
    rfl
  rw [hopened]
  exact after?_bind (skipDash (dropBlanks h)) mark

/-- Nothing needs to be found behind a mark that is itself a closing one. -/
theorem after?_closing {next : List Char → Option β} (h : Passes next) (mark : List Char) :
    Ends fun s => (after? (mark ++ ['\x7d']) s).bind next := by
  constructor
  · cases mark <;> rfl
  · refine passes_after?_bind h fun s b r hb hs hr => ?_
    obtain ⟨t, hne, hmark, rfl⟩ := exists_of_after?_append hs hr
    have hlast : '\x7d' ∈ t := by
      have hget := congrArg List.getLast? hmark
      rw [List.getLast?_concat, List.getLast?_append, List.getLast?_eq_some_getLast hne,
        Option.some_or, Option.some_inj] at hget
      rw [hget]
      exact List.getLast_mem hne
    exact absurd (List.mem_append_left r hlast) hb

theorem closed?_bind {next : List Char → Option β} (h : Passes next) (mark : List Char) :
    Ends fun s => (closed? (mark ++ ['\x7d']) s).bind next :=
  dropBlanks (skipDash (after?_closing h mark))

theorem closed?_tagClose_bind {next : List Char → Option β} (h : Passes next) :
    Ends fun s => (closed? tagClose s).bind next :=
  closed?_bind h ['%']

theorem closed?_outputClose_bind {next : List Char → Option β} (h : Passes next) :
    Ends fun s => (closed? outputClose s).bind next :=
  closed?_bind h ['\x7d']

/-- What ends is found, and what comes next starts behind it. -/
theorem bind {find : List Char → Option (α × List Char)} (hfind : Ends find)
    {next : α × List Char → Option β} (hnext : ∀ a, Passes fun s => next (a, s)) :
    Ends fun s => (find s).bind next := by
  refine ⟨by rw [hfind.nil]; rfl, fun s b hb => ?_⟩
  rw [hfind.passes s b hb]
  cases find s with
  | none => rfl
  | some found => exact hnext found.1 found.2 b hb

/-! ### Ends of bodies -/

theorem cutBy? {ends : List Char → Option (List Char)} (h : Ends ends) : Ends (cutBy? ends) := by
  refine ⟨by rw [Asset.cutBy?, h.nil]; rfl, fun s b hb => ?_⟩
  induction s with
  | nil =>
    rw [List.nil_append, Asset.cutBy?, h.nil]
    induction b with
    | nil => rw [Asset.cutBy?, h.nil]; rfl
    | cons c b ih =>
      rw [Asset.cutBy?, h.eq_none hb, ih (List.not_mem_of_not_mem_cons hb)]
      rfl
  | cons c s ih =>
    have hends := h.passes (c :: s) b hb
    rw [List.cons_append] at hends ⊢
    rw [Asset.cutBy?, Asset.cutBy?, hends, ih]
    cases ends (c :: s) with
    | some rest => rfl
    | none => cases Asset.cutBy? ends s <;> rfl

theorem cutAt? (mark : List Char) : Ends (cutAt? (mark ++ ['\x7d'])) := by
  have hmark : Ends fun s => (after? (mark ++ ['\x7d']) s).bind some :=
    after?_closing (fun _ _ _ => rfl) mark
  simp only [Option.bind_fun_some] at hmark
  exact cutAt?_eq_cutBy? (mark ++ ['\x7d']) ▸ cutBy? hmark

end Ends

end ends

theorem ends_closed?_tagClose : Ends (closed? tagClose) := by
  have hclosed : Ends fun s => (closed? tagClose s).bind some :=
    Ends.closed?_tagClose_bind fun _ _ _ => rfl
  simpa only [Option.bind_fun_some] using hclosed

theorem ends_tag? (word : List Char) : Ends (tag? word) :=
  Ends.opened?_bind (Ends.after?_bind ends_closed?_tagClose word) tagOpen

/-! ### Directives -/

/-- A file name goes up to the quote that it began with. -/
theorem filename?_cons (quote : Char) (s : List Char) :
    filename? (quote :: s) = (after? [quote] (s.dropWhile (!isQuote ·))).bind fun rest =>
      if isQuote quote && !(s.takeWhile (!isQuote ·)).isEmpty then
        some (s.takeWhile (!isQuote ·), rest)
      else none := by
  rw [filename?]
  cases s.dropWhile (!isQuote ·) with
  | nil => rfl
  | cons c rest =>
    by_cases hc : c = quote
    · subst hc
      simp [after?]
    · rw [after?_cons_of_ne hc]
      simp [hc]

section directives

variable {β : Type} [HasRest β] {next : List Char × List Char → Option β}

theorem ends_filename?_bind (h : ∀ name, Ends fun s => next (name, s)) :
    Ends fun s => (filename? s).bind next := by
  refine Ends.of_cons rfl fun quote => ?_
  simp only [filename?_cons, Option.bind_assoc]
  refine Ends.span (fun name rest => (after? [quote] rest).bind fun rest => Option.bind
    (if isQuote quote && !name.isEmpty then some (name, rest) else none) next)
    (fun name => Ends.after?_bind ?_ [quote]) (!isQuote ·)
  split
  · exact h name
  · exact Ends.none

/-- A dotted name either ends inside the text or takes in all of it but for a dot, and then what
is left is in what stands behind the text. -/
theorem takeDotted_append_cases (s b : List Char) :
    takeDotted (s ++ b) = ((takeDotted s).1, (takeDotted s).2 ++ b) ∨
      '\x7d' ∉ (takeDotted s).2 ∧ (takeDotted (s ++ b)).2 <:+ b := by
  have hrest (b : List Char) : (takeDotted b).2 <:+ b := ⟨(takeDotted b).1, takeDotted_append b⟩
  fun_induction takeDotted s with
  | case1 => exact .inr ⟨List.not_mem_nil, hrest b⟩
  | case2 c hc =>
    cases b with
    | nil => exact .inl (by simp [takeDotted, hc])
    | cons d b =>
      refine .inr ⟨List.not_mem_nil, ?_⟩
      simpa [takeDotted, hc] using hrest (d :: b)
  | case3 c hc =>
    cases b with
    | nil => exact .inl (by simp [takeDotted, hc])
    | cons d b =>
      by_cases hdot : c = '.' ∧ isSegmentChar d = true
      · obtain ⟨rfl, hd⟩ := hdot
        refine .inr ⟨by decide, ?_⟩
        simpa [takeDotted, hd] using hrest (d :: b)
      · refine .inl ?_
        simpa [takeDotted, hc] using hdot
  | case4 c d s hcd name rest heq ih =>
    rw [heq] at ih
    simp only [List.cons_append] at ih ⊢
    rw [takeDotted, if_pos hcd]
    refine ih.imp (fun ih => ?_) id
    rw [ih]
  | case5 c d s hcd =>
    simp only [List.cons_append]
    rw [takeDotted, if_neg hcd]
    exact .inl rfl

theorem ends_path?_bind (h : ∀ path, Ends fun s => next (path, s)) :
    Ends fun s => (path? s).bind next := by
  refine Ends.of_cons rfl fun c => ?_
  simp only [path?]
  split
  · refine ⟨(h _).nil, fun s b hb => ?_⟩
    rcases takeDotted_append_cases s b with heq | ⟨hs, hsb⟩
    · rw [heq]
      exact (h _).passes _ b hb
    · show next (_, _) = Option.map _ (next (_, _))
      rw [(h _).eq_none hs, (h _).eq_none fun hmem => hb (hsb.subset hmem)]
      rfl
  · exact Ends.none

end directives

theorem ends_assetUrl? : Ends assetUrl? := by
  refine Ends.opened?_bind (ends_filename?_bind fun name => ?_) outputOpen
  refine Ends.dropBlanks (Ends.after?_bind ?_ ['|'])
  refine Ends.dropBlanks (Ends.after?_bind ?_ "asset_url".toList)
  exact Ends.closed?_outputClose_bind fun s b _ => rfl

theorem ends_settingOutput? : Ends settingOutput? := by
  refine Ends.opened?_bind (Ends.after?_bind ?_ "settings.".toList) outputOpen
  exact ends_path?_bind fun path => Ends.closed?_outputClose_bind fun s b _ => rfl

namespace Conditional

theorem ends_ofCondition? (negated : Bool) : Ends (ofCondition? negated) := by
  refine Ends.of_cons rfl fun c => ?_
  refine Ends.bind (Ends.cutBy? ends_closed?_tagClose) fun condition => Ends.passes ?_
  exact Ends.bind (Ends.cutBy? (ends_tag? (endWord negated))) fun body s b _ => rfl

theorem ends_ofBlanks? (negated : Bool) (blanks : List Char) :
    Ends (ofBlanks? negated blanks) := by
  refine Ends.closed?_tagClose_bind (Ends.passes ?_)
  refine Ends.bind (Ends.cutBy? (ends_tag? (endWord negated))) fun body s b _ => ?_
  dsimp only
  split <;> rfl

theorem ends_ofKind? (negated : Bool) : Ends (ofKind? negated) := by
  refine Ends.after?_bind ?_ (openWord negated)
  refine Ends.span (fun blanks s => if blanks.isEmpty then none
    else ofCondition? negated s <|> ofBlanks? negated blanks s) (fun blanks => ?_) isBlank
  split
  · exact Ends.none
  · exact Ends.orElse (ends_ofCondition? negated) (ends_ofBlanks? negated blanks)

end Conditional

theorem ends_conditional? : Ends conditional? :=
  Ends.opened?_bind
    (Ends.orElse (Conditional.ends_ofKind? false) (Conditional.ends_ofKind? true)) tagOpen

theorem ends_anyTag? : Ends anyTag? :=
  Ends.after?_bind (Ends.bind (Ends.cutAt? ['%']) fun _ _ _ _ => rfl) tagOpen

theorem ends_anyOutput? : Ends anyOutput? :=
  Ends.after?_bind (Ends.bind (Ends.cutAt? ['\x7d']) fun _ _ _ _ => rfl) outputOpen

end Storefront.Asset
