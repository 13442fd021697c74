import Storefront.Proofs.Asset.Span

/-!
What is left of directives. Each pass reads its text once, so a tag or an output that only comes
about when something between its braces is taken away stays. That is the only way in which one can
stay: what a pass leaves has no directive of its kind but where two characters come together.
-/

namespace Storefront

namespace Asset

namespace Piece

variable {α : Type} {recognise : List Char → Option (α × List Char)} {s : List Char}

/-! ### What is scanned behind a character -/

theorem exists_of_scan_eq {skip : Nat} {c : Char} {before after : List (Piece α)}
    (h : scan recognise skip s = before ++ .char c :: after) :
    ∃ r, c :: r <:+ s ∧ recognise (c :: r) = none ∧ after = all recognise r := by
  induction s generalizing skip before with
  | nil => cases skip <;> cases before <;> cases h
  | cons b s ih =>
    have hlater {skip : Nat} {before : List (Piece α)}
        (h : scan recognise skip s = before ++ .char c :: after) :
        ∃ r, c :: r <:+ b :: s ∧ recognise (c :: r) = none ∧ after = all recognise r := by
      obtain ⟨r, hr, hfound⟩ := ih h
      exact ⟨r, hr.trans (List.suffix_cons b s), hfound⟩
    cases skip with
    | succ skip => exact hlater h
    | zero =>
      rw [scan] at h
      split at h
      · cases before with
        | nil => cases h
        | cons p before => exact hlater (List.cons.inj h).2
      · next hnone =>
        cases before with
        | nil =>
          obtain ⟨hc, rfl⟩ := List.cons.inj h
          cases hc
          exact ⟨s, List.suffix_refl _, hnone, rfl⟩
        | cons p before => exact hlater (List.cons.inj h).2

/-- A character that is kept is where no directive is found, and the scan goes on behind it. -/
theorem exists_of_all_eq {c : Char} {before after : List (Piece α)}
    (h : all recognise s = before ++ .char c :: after) :
    ∃ r, c :: r <:+ s ∧ recognise (c :: r) = none ∧ after = all recognise r :=
  exists_of_scan_eq h

theorem exists_of_all_eq₂ {c d : Char} {before after : List (Piece α)}
    (h : all recognise s = before ++ .char c :: .char d :: after) :
    ∃ r, recognise (c :: d :: r) = none ∧ after = all recognise r := by
  obtain ⟨r, -, hnone, hr⟩ := exists_of_all_eq h
  have hnext : all recognise r = [] ++ .char d :: after := hr.symm
  obtain ⟨t, -, -, rfl⟩ := exists_of_all_eq hnext
  have hr : d :: t = r := by
    rw [← @flatMap_source_all α recognise r, hnext, List.nil_append, List.flatMap_cons,
      flatMap_source_all]
    rfl
  exact ⟨t, hr ▸ hnone, rfl⟩

theorem exists_of_all_eq_directive {a : α} {d : List Char} {ps : List (Piece α)}
    (h : all recognise s = .directive a d :: ps) : ∃ r, recognise s = some (a, r) := by
  cases s with
  | nil => cases h
  | cons c s =>
    rw [all, scan] at h
    split at h
    · next b r hsome =>
      cases h
      exact ⟨r, hsome⟩
    · cases h

theorem exists_of_mem_scan {a : α} {d : List Char} {skip : Nat}
    (h : .directive a d ∈ scan recognise skip s) :
    ∃ c u r, recognise (c :: u) = some (a, r) ∧ d = c :: u.take (u.length - r.length) := by
  induction s generalizing skip with
  | nil => cases skip <;> cases h
  | cons c s ih =>
    cases skip with
    | succ skip => exact ih h
    | zero =>
      rw [scan] at h
      split at h
      · next b r hsome =>
        rcases List.mem_cons.1 h with heq | h
        · cases heq
          exact ⟨c, s, r, hsome, rfl⟩
        · exact ih h
      · next hnone =>
        rcases List.mem_cons.1 h with heq | h
        · cases heq
        · exact ih h

/-- A directive is found at its first character, and its text is what is taken there. -/
theorem exists_of_mem_all {a : α} {d : List Char} (h : .directive a d ∈ all recognise s) :
    ∃ c u r, recognise (c :: u) = some (a, r) ∧ d = c :: u.take (u.length - r.length) :=
  exists_of_mem_scan h

/-! ### Characters that come together -/

/-- The two characters come together when the directives between them are replaced. -/
def Joins (replace : α → List Char → List Char) (c d : Char) (ps : List (Piece α)) : Prop :=
  ∃ before gap after, ps = before ++ .char c :: (gap ++ .char d :: after) ∧ gap ≠ [] ∧
    text replace gap = []

section joins

variable {replace : α → List Char → List Char} {ps : List (Piece α)} {a b c d : Char}

theorem Joins.prepend (h : Joins replace c d ps) (qs : List (Piece α)) :
    Joins replace c d (qs ++ ps) := by
  obtain ⟨before, gap, after, rfl, hgap⟩ := h
  exact ⟨qs ++ before, gap, after, (List.append_assoc _ _ _).symm, hgap⟩

/-- The gap begins with a directive. -/
theorem Joins.exists_directive (h : Joins replace c d ps) :
    ∃ before a s after, ps = before ++ .char c :: .directive a s :: after := by
  obtain ⟨before, gap, after, rfl, hne, hgap⟩ := h
  cases gap with
  | nil => exact absurd rfl hne
  | cons p gap =>
    cases p with
    | char e => cases hgap
    | directive a s => exact ⟨before, a, s, _, rfl⟩

/-- The character comes from no directive. -/
def Keeps (replace : α → List Char → List Char) (ps : List (Piece α)) (c : Char) : Prop :=
  ∀ a s, .directive a s ∈ ps → c ∉ replace a s

theorem exists_char_of_text (hc : Keeps replace ps c) {x y : List Char}
    (h : text replace ps = x ++ c :: y) :
    ∃ before after, ps = before ++ .char c :: after ∧ text replace before = x ∧
      text replace after = y := by
  induction ps generalizing x with
  | nil => cases x <;> cases h
  | cons p ps ih =>
    have hps : Keeps replace ps c := fun a s hmem => hc a s (List.mem_cons_of_mem p hmem)
    have hsplit : text replace [p] ++ text replace ps = x ++ c :: y := by
      rw [← text_append, List.singleton_append, h]
    rcases List.append_eq_append_iff.1 hsplit with ⟨t, rfl, ht⟩ | ⟨t, hp, ht⟩
    · obtain ⟨before, after, rfl, rfl, hafter⟩ := ih hps ht
      exact ⟨p :: before, after, rfl, text_append [p] before replace, hafter⟩
    cases t with
    | nil =>
      obtain ⟨before, after, rfl, hbefore, hafter⟩ := ih (x := []) hps ht.symm
      refine ⟨p :: before, after, rfl, ?_, hafter⟩
      rw [← List.singleton_append, text_append, hbefore, hp, List.append_nil, List.append_nil]
    | cons e t =>
      obtain ⟨rfl, rfl⟩ := List.cons.inj ht
      cases p with
      | char e =>
        obtain ⟨rfl, he⟩ | ⟨-, hnil⟩ := List.append_eq_singleton_iff.1 hp.symm
        · obtain ⟨rfl, rfl⟩ := List.cons.inj he
          exact ⟨[], ps, rfl, rfl, rfl⟩
        · cases hnil
      | directive a s =>
        have hreplace : replace a s = x ++ c :: t := by
          rw [← hp]
          exact (List.append_nil _).symm
        refine absurd ?_ (hc a s List.mem_cons_self)
        rw [hreplace]
        exact List.mem_append_right x List.mem_cons_self

theorem joins_or_adjacent (hc : Keeps replace ps c) (hd : Keeps replace ps d) {x y : List Char}
    (h : text replace ps = x ++ c :: d :: y) :
    Joins replace c d ps ∨
      ∃ before after, ps = before ++ .char c :: .char d :: after ∧ text replace after = y := by
  obtain ⟨before, rest, rfl, -, hrest⟩ := exists_char_of_text hc h
  have hd : Keeps replace rest d := fun a s hmem =>
    hd a s (List.mem_append_right before (List.mem_cons_of_mem _ hmem))
  obtain ⟨gap, after, rfl, hgap, hafter⟩ := exists_char_of_text (x := []) hd hrest
  by_cases hnil : gap = []
  · subst hnil
    exact .inr ⟨before, after, rfl, hafter⟩
  · exact .inl ⟨before, gap, after, rfl, hnil, hgap⟩

/-- A directive that shows in the text of pieces has its marks in the text that the pieces stand
for, or else in one of them two characters come together. -/
theorem joins_of_spans (hkeeps : ∀ e ∈ [a, b, c, d], Keeps replace ps e)
    (h : Spans [a, b] [c, d] (text replace ps)) :
    Joins replace a b ps ∨ ∃ before rest, ps = before ++ .char a :: .char b :: rest ∧
      (Joins replace c d rest ∨
        ∃ inside behind, rest = inside ++ .char c :: .char d :: behind) := by
  obtain ⟨x, y, z, htext⟩ := h
  rcases joins_or_adjacent (hkeeps a (by simp)) (hkeeps b (by simp)) htext with
    hjoins | ⟨before, rest, rfl, hrest⟩
  · exact .inl hjoins
  have hkeeps : ∀ e ∈ [c, d], Keeps replace rest e := fun e he k s hmem =>
    hkeeps e (List.mem_cons_of_mem _ (List.mem_cons_of_mem _ he)) k s
      (List.mem_append_right before (List.mem_cons_of_mem _ (List.mem_cons_of_mem _ hmem)))
  refine .inr ⟨before, rest, rfl, ?_⟩
  rcases joins_or_adjacent (hkeeps c (by simp)) (hkeeps d (by simp)) hrest with
    hjoins | ⟨inside, behind, rfl, -⟩
  · exact .inl hjoins
  · exact .inr ⟨inside, behind, rfl⟩

/-- What shows in the text of pieces and did not show before has come together. -/
theorem spans_of_spans_text (hkeeps : ∀ e ∈ [a, b, c, d], Keeps replace ps e)
    (h : Spans [a, b] [c, d] (text replace ps)) :
    Joins replace a b ps ∨ Joins replace c d ps ∨ Spans [a, b] [c, d] (ps.flatMap source) := by
  rcases joins_of_spans hkeeps h with hjoins | ⟨before, rest, rfl, hjoins | ⟨inside, behind, rfl⟩⟩
  · exact .inl hjoins
  · exact .inr (.inl ((hjoins.prepend [.char a, .char b]).prepend before))
  · refine .inr (.inr ⟨before.flatMap source, inside.flatMap source, behind.flatMap source, ?_⟩)
    simp [source]

/-! ### Removal of directives -/

/-- The directives of a recogniser are all that its marks enclose. -/
def Encloses (recognise : List Char → Option (α × List Char)) (opening closing : List Char) :
    Prop :=
  ∀ s, recognise s = none ↔ ¬∃ inside behind, s = opening ++ (inside ++ (closing ++ behind))

theorem Encloses.exists_of_eq_some {opening closing : List Char}
    (h : Encloses recognise opening closing) {found : α × List Char}
    (hsome : recognise s = some found) :
    ∃ inside behind, s = opening ++ (inside ++ (closing ++ behind)) := by
  by_contra hnothing
  rw [(h s).2 hnothing] at hsome
  cases hsome

/-- When all that two marks enclose is removed, what they enclose then has come together. -/
theorem joins_of_spans_removal (h : Encloses recognise [a, b] [c, d])
    (hspans : Spans [a, b] [c, d] (text (fun _ _ => []) (all recognise s))) :
    Joins (fun _ _ => []) a b (all recognise s) := by
  rcases joins_of_spans (fun _ _ _ _ _ => List.not_mem_nil) hspans with
    hjoins | ⟨before, rest, hps, hclose⟩
  · exact hjoins
  -- Nothing is found at the opening mark, so no closing one comes later in the text.
  obtain ⟨r, hnone, rfl⟩ := exists_of_all_eq₂ hps
  refine absurd ?_ ((h (a :: b :: r)).1 hnone)
  rcases hclose with hjoins | ⟨inside, behind, hrest⟩
  · obtain ⟨before, k, t, after, hall⟩ := hjoins.exists_directive
    have hmem : k ∈ directives (all recognise r) := by
      rw [hall, directives_append]
      exact List.mem_append_right _ List.mem_cons_self
    obtain ⟨u, rest, ⟨v, rfl⟩, hsome⟩ := exists_of_mem_directives hmem
    obtain ⟨inside, behind, rfl⟩ := h.exists_of_eq_some hsome
    exact ⟨v ++ ([a, b] ++ inside), behind, by simp⟩
  · refine ⟨inside.flatMap source, behind.flatMap source, ?_⟩
    rw [← @flatMap_source_all α recognise r, hrest]
    simp [source]

end joins

end Piece

open Piece

theorem encloses_cut (opening closing : List Char) :
    Encloses (fun s => do
      let s ← after? opening s
      let (_, s) ← Text.cutAt? closing s
      return ((), s)) opening closing := by
  intro s
  show ((after? opening s).bind fun s => (Text.cutAt? closing s).bind fun (_, s) => some ((), s)) =
    none ↔ _
  cases hs : after? opening s with
  | none =>
    refine iff_of_true rfl ?_
    rintro ⟨inside, behind, rfl⟩
    rw [after?_append] at hs
    cases hs
  | some t =>
    have hcut : ((Text.cutAt? closing t).bind fun (_, s) => some ((), s)) = none ↔
        Text.cutAt? closing t = none := by
      cases Text.cutAt? closing t <;> simp
    rw [after?_eq_some_iff.1 hs]
    simp only [List.append_cancel_left_eq]
    exact hcut.trans Text.cutAt?_eq_none_iff

theorem encloses_anyTag? : Encloses anyTag? tagOpen tagClose := encloses_cut tagOpen tagClose

theorem encloses_anyOutput? : Encloses anyOutput? outputOpen outputClose :=
  encloses_cut outputOpen outputClose

/-- The characters come together when tags are removed. -/
def JoinedByTags (c d : Char) (s : List Char) : Prop :=
  Joins (fun _ _ => []) c d (all anyTag? s)

/-- The characters come together when outputs are removed. -/
def JoinedByOutputs (c d : Char) (s : List Char) : Prop :=
  Joins (fun _ _ => []) c d (all anyOutput? s)

/-- The characters come together when the marks between them are replaced by empty values. -/
def JoinedByValues (values : List (List Char)) (c d : Char) (s : List Char) : Prop :=
  Joins (fun slot source => values[slot]?.getD source) c d (all held? s)

section removal

variable {s : List Char}

theorem joinedByTags_of_hasTag (h : HasTag (removeTags s)) : JoinedByTags '\x7b' '%' s :=
  joins_of_spans_removal encloses_anyTag? h

/-- An output does not stand behind a brace that is kept, since that brace opens one as well. -/
theorem not_joinedByOutputs_leftBrace (c : Char) : ¬JoinedByOutputs '\x7b' c s := by
  intro h
  obtain ⟨before, k, t, after, hall⟩ := h.exists_directive
  obtain ⟨r, -, hnone, hr⟩ := exists_of_all_eq hall
  obtain ⟨rest, hsome⟩ := exists_of_all_eq_directive hr.symm
  obtain ⟨inside, behind, rfl⟩ := encloses_anyOutput?.exists_of_eq_some hsome
  exact (encloses_anyOutput? _).1 hnone ⟨'\x7b' :: inside, behind, rfl⟩

theorem not_hasOutput_removeOutputs : ¬HasOutput (removeOutputs s) := fun h =>
  not_joinedByOutputs_leftBrace '\x7b' (joins_of_spans_removal encloses_anyOutput? h)

/-- A tag that comes about when outputs are removed was closed by that. -/
theorem hasTag_of_hasTag_removeOutputs (h : HasTag (removeOutputs s)) :
    JoinedByOutputs '%' '\x7d' s ∨ HasTag s := by
  have hspans := spans_of_spans_text (fun _ _ _ _ _ => List.not_mem_nil) h
  rw [flatMap_source_all] at hspans
  exact hspans.resolve_left (not_joinedByOutputs_leftBrace '%')

end removal

section release

variable {values : List (List Char)} {s : List Char}

/-- A mark is made of its two ends and the digits of its slot. -/
theorem heldSource_eq {k : Nat} {d : List Char} (h : .directive k d ∈ all held? s) :
    ∃ digits, digits ≠ [] ∧ (∀ c ∈ digits, Text.isDigit c = true) ∧
      d = '\ue000' :: (digits ++ ['\ue001']) ∧ k = Text.natOfDigits digits := by
  obtain ⟨c, u, r, hsome, rfl⟩ := exists_of_mem_all h
  obtain ⟨digits, hne, hdigits, hcu, hk⟩ := held?_eq_some_iff.1 hsome
  obtain ⟨rfl, rfl⟩ := List.cons.inj hcu
  refine ⟨digits, hne, hdigits, ?_, hk⟩
  rw [List.append_cons digits _ r, List.length_append, Nat.add_sub_cancel, List.take_left]

theorem of_mem_heldSource {k : Nat} {d : List Char} (h : .directive k d ∈ all held? s) {e : Char}
    (he : e ∈ d) : e = '\ue000' ∨ e = '\ue001' ∨ Text.isDigit e = true := by
  obtain ⟨digits, -, hdigits, rfl, -⟩ := heldSource_eq h
  rcases List.mem_cons.1 he with rfl | he
  · exact .inl rfl
  rcases List.mem_append.1 he with he | he
  · exact .inr (.inr (hdigits e he))
  · exact .inr (.inl (List.mem_singleton.1 he))

/-- Where a mark is released, only its value brings in characters that are in no mark. -/
theorem keeps_held? {e : Char} (hvalues : ∀ v ∈ values, e ∉ v) (hopen : e ≠ '\ue000')
    (hclose : e ≠ '\ue001') (hdigit : Text.isDigit e = false) :
    Keeps (fun slot source => values[slot]?.getD source) (all held? s) e := by
  intro k d hmem
  dsimp only
  cases hvalue : values[k]? with
  | some v => exact hvalues v (List.mem_of_getElem? hvalue)
  | none =>
    intro he
    rcases of_mem_heldSource hmem he with heq | heq | he
    · exact hopen heq
    · exact hclose heq
    · exact Bool.noConfusion (hdigit.symm.trans he)

/-- Values without braces and percent signs leave no directive but where they are empty. -/
theorem spans_of_spans_releaseSettings {a b c d : Char}
    (hmarks : ∀ e ∈ [a, b, c, d], e ∈ ['\x7b', '\x7d', '%'])
    (hvalues : ∀ v ∈ values, ∀ e ∈ ['\x7b', '\x7d', '%'], e ∉ v)
    (h : Spans [a, b] [c, d] (releaseSettings values s)) :
    JoinedByValues values a b s ∨ JoinedByValues values c d s ∨ Spans [a, b] [c, d] s := by
  have hother : ∀ e ∈ ['\x7b', '\x7d', '%'], e ≠ '\ue000' ∧ e ≠ '\ue001' ∧
      Text.isDigit e = false := by
    simp only [List.forall_mem_cons]
    exact ⟨by decide, by decide, by decide, List.forall_mem_nil _⟩
  have hspans := spans_of_spans_text (fun e he => ?_) h
  · rwa [flatMap_source_all] at hspans
  · have he := hmarks e he
    obtain ⟨hopen, hclose, hdigit⟩ := hother e he
    exact keeps_held? (fun v hv => hvalues v hv e he) hopen hclose hdigit

end release

section process

variable {context : Context} {text out : String}

theorem exists_of_process (h : (process context text).result = .ok out) :
    ∃ u s, (resolveUrls context text.toList).result = .ok u ∧
      (resolveConditionals (ε := UrlError) context (holdSettings u)).result = .ok s ∧
      out.toList =
        releaseSettings (settingValues context.settings u) (removeOutputs (removeTags s)) := by
  obtain ⟨chars, hchars, hout⟩ := Outcome.bind_eq_ok.1 h
  obtain ⟨u, hu, hchars⟩ := Outcome.bind_eq_ok.1 hchars
  obtain ⟨s, hs, hchars⟩ := Outcome.bind_eq_ok.1 hchars
  cases hchars
  cases hout
  exact ⟨u, s, hu, hs, String.toList_ofList⟩

/-- Tags and outputs show in a result, made of the text `s` with conditionals resolved, only where
two of their characters have come together: those that open a tag when tags are removed, those that
close one when outputs are, and any when a setting between them is empty. -/
structure OnlyJoined (values : List (List Char)) (s out : List Char) : Prop where
  tag : HasTag out → JoinedByTags '\x7b' '%' s ∨ JoinedByOutputs '%' '\x7d' (removeTags s) ∨
    JoinedByValues values '\x7b' '%' (removeOutputs (removeTags s)) ∨
    JoinedByValues values '%' '\x7d' (removeOutputs (removeTags s))
  output : HasOutput out → JoinedByValues values '\x7b' '\x7b' (removeOutputs (removeTags s)) ∨
    JoinedByValues values '\x7d' '\x7d' (removeOutputs (removeTags s))

theorem onlyJoined_releaseSettings {values : List (List Char)}
    (hvalues : ∀ v ∈ values, ∀ c ∈ ['\x7b', '\x7d', '%'], c ∉ v) (s : List Char) :
    OnlyJoined values s (releaseSettings values (removeOutputs (removeTags s))) := by
  refine ⟨fun htag => ?_, fun houtput => ?_⟩
  · rcases spans_of_spans_releaseSettings (by simp) hvalues htag with hjoined | hjoined | htag
    · exact .inr (.inr (.inl hjoined))
    · exact .inr (.inr (.inr hjoined))
    rcases hasTag_of_hasTag_removeOutputs htag with hjoined | htag
    · exact .inr (.inl hjoined)
    · exact .inl (joinedByTags_of_hasTag htag)
  · rcases spans_of_spans_releaseSettings (by simp) hvalues houtput with
      hjoined | hjoined | houtput
    · exact .inl hjoined
    · exact .inr hjoined
    · exact absurd houtput not_hasOutput_removeOutputs

/-- With values free of braces and percent signs all directives are resolved or removed but those
that come about by that. -/
theorem process_leftover
    (hvalues : ∀ u, (resolveUrls context text.toList).result = .ok u →
      ∀ v ∈ settingValues context.settings u, ∀ c ∈ ['\x7b', '\x7d', '%'], c ∉ v)
    (h : (process context text).result = .ok out) :
    ∃ u s, (resolveUrls context text.toList).result = .ok u ∧
      (resolveConditionals (ε := UrlError) context (holdSettings u)).result = .ok s ∧
      OnlyJoined (settingValues context.settings u) s out.toList := by
  obtain ⟨u, s, hu, hs, hout⟩ := exists_of_process h
  refine ⟨u, s, hu, hs, ?_⟩
  rw [hout]
  exact onlyJoined_releaseSettings (hvalues u hu) s

/-- An empty setting between a brace and a percent sign leaves a tag. -/
theorem process_leftover_empty :
    ∃ out : String,
      (process
        { settings := [("e", .str "")], resolveUrl := fun _ => .ok "", keepBodies := false }
        "\x7b\x7b\x7bsettings.e\x7d\x7d% y %\x7d").result = .ok out ∧
      out.toList = "\x7b% y %\x7d".toList ∧
      OnlyJoined [[]] ('\x7b' :: (heldMark 0 ++ "% y %\x7d".toList)) out.toList := by
  let context : Context :=
    { settings := [("e", .str "")], resolveUrl := fun _ => .ok "", keepBodies := false }
  have hresolve : (resolveUrls context
      "\x7b\x7b\x7bsettings.e\x7d\x7d% y %\x7d".toList).result =
        .ok "\x7b\x7b\x7bsettings.e\x7d\x7d% y %\x7d".toList := rfl
  have hconditionals : (resolveConditionals (ε := UrlError) context
      (holdSettings "\x7b\x7b\x7bsettings.e\x7d\x7d% y %\x7d".toList)).result =
        .ok ('\x7b' :: (heldMark 0 ++ "% y %\x7d".toList)) := rfl
  have hvalues : settingValues context.settings
      "\x7b\x7b\x7bsettings.e\x7d\x7d% y %\x7d".toList = ["".toList] :=
    settingValues_of_output rfl (v := "") rfl
  have hfree : ∀ u, (resolveUrls context
      "\x7b\x7b\x7bsettings.e\x7d\x7d% y %\x7d".toList).result = .ok u →
        ∀ v ∈ settingValues context.settings u, ∀ c ∈ ['\x7b', '\x7d', '%'], c ∉ v := by
    intro u hu v hv c _
    cases hresolve.symm.trans hu
    rw [hvalues] at hv
    rw [List.mem_singleton.1 hv]
    exact List.not_mem_nil
  have hprocess := result_process_of_ok hresolve hconditionals
  obtain ⟨u, s, hu, hs, honly⟩ := process_leftover hfree hprocess
  cases hresolve.symm.trans hu
  cases hconditionals.symm.trans hs
  rw [hvalues] at hprocess honly
  refine ⟨_, hprocess, ?_, honly⟩
  rw [String.toList_ofList]
  rfl

/-- Where there are no settings all outputs are empty. -/
theorem render_lookupPath_nil (path : List Char) : (lookupPath [] path).render = "" := by
  rw [lookupPath]
  cases pathKeys path with
  | nil => rfl
  | cons key keys => rfl

/-- The removal of a tag brings a brace and a percent sign together, and the tag that they open
stays. -/
theorem process_leftover_joined :
    ¬∀ (context : Context) (text out : String),
      (∀ path, ∀ c ∈ ['\x7b', '\x7d', '%'],
        c ∉ (lookupPath context.settings path).render.toList) →
      (∀ name url, context.resolveUrl name = .ok url →
        ∀ c ∈ ['\x7b', '\x7d', '%'], c ∉ url.toList) →
      (process context text).result = .ok out →
        ¬HasTag out.toList ∧ ¬HasOutput out.toList := by
  intro h
  let context : Context := { settings := [], resolveUrl := fun _ => .ok "", keepBodies := false }
  have hvalues : ∀ path, ∀ c ∈ ['\x7b', '\x7d', '%'],
      c ∉ (lookupPath context.settings path).render.toList := by
    intro path c _
    rw [render_lookupPath_nil]
    exact List.not_mem_nil
  have hurl : ∀ name url, context.resolveUrl name = .ok url →
      ∀ c ∈ ['\x7b', '\x7d', '%'], c ∉ url.toList := by
    intro name url hurl c _
    cases hurl
    exact List.not_mem_nil
  have hresolve : (resolveUrls context "\x7b\x7b% x %\x7d% y %\x7d".toList).result =
      .ok "\x7b\x7b% x %\x7d% y %\x7d".toList := rfl
  have hprocess := result_process_of_ok hresolve (s := "\x7b\x7b% x %\x7d% y %\x7d".toList) rfl
  have hleft := (h context _ _ hvalues hurl hprocess).1
  rw [String.toList_ofList] at hleft
  exact hleft ⟨[], " y ".toList, [], rfl⟩

end process

end Asset

end Storefront
