import Storefront.Proofs.Asset.Ending
import Storefront.Proofs.Asset.Slots

/-!
Text outside of directives is left as it is. In front of a text no directive opens without an
opening brace, and behind it none ends without a closing one, so each pass over the whole changes
what stands between as it would without them. Only the release of values asks for more: it takes
every mark for its own, so a mark that the author has written must not be one of those in use.
-/

namespace Storefront.Asset

/-! ### Pieces of two parts -/

namespace Piece

variable {α ε : Type} {recognise : List Char → Option (α × List Char)} {a s b : List Char}

theorem scan_append {skip : Nat} (hskip : skip ≤ s.length)
    (h : ∀ u, u <:+ s → u ≠ [] →
      recognise (u ++ b) = (recognise u).map (HasRest.extend b)) :
    scan recognise skip (s ++ b) = scan recognise skip s ++ all recognise b := by
  induction s generalizing skip with
  | nil =>
    obtain rfl := Nat.le_zero.1 hskip
    rfl
  | cons c s ih =>
    have hs : ∀ u, u <:+ s → u ≠ [] →
        recognise (u ++ b) = (recognise u).map (HasRest.extend b) :=
      fun u hu => h u (hu.trans (List.suffix_cons c s))
    cases skip with
    | succ skip => exact ih (Nat.le_of_succ_le_succ hskip) hs
    | zero =>
      have hfirst := h (c :: s) (List.suffix_refl _) (List.cons_ne_nil c s)
      rw [List.cons_append] at hfirst ⊢
      rw [scan, scan, hfirst]
      cases recognise (c :: s) with
      | none => exact congrArg (char c :: ·) (ih (Nat.zero_le _) hs)
      | some found =>
        obtain ⟨d, rest⟩ := found
        have hlength : (s ++ b).length - (rest ++ b).length = s.length - rest.length := by
          rw [List.length_append, List.length_append]
          omega
        simp only [Option.map_some, HasRest.extend, hlength]
        rw [List.take_append_of_le_length (Nat.sub_le _ _), ih (Nat.sub_le _ _) hs]
        rfl

/-- Where nothing that begins in the first part depends on the second, the pieces are those of
both. -/
theorem all_append (h : ∀ u, u <:+ s → u ≠ [] →
    recognise (u ++ b) = (recognise u).map (HasRest.extend b)) :
    all recognise (s ++ b) = all recognise s ++ all recognise b :=
  scan_append (Nat.zero_le _) h

theorem all_of_none (h : ∀ u a r, u <:+ s → recognise u ≠ some (a, r)) :
    all recognise s = s.map .char := by
  induction s with
  | nil => rfl
  | cons c s ih =>
    have hnone : recognise (c :: s) = none :=
      Option.eq_none_iff_forall_ne_some.2 fun (a, r) => h _ a r (List.suffix_refl _)
    rw [all_cons_of_none hnone, ih fun u a r hu => h u a r (hu.trans (List.suffix_cons c s))]
    rfl

theorem all_of_ends (h : Ends recognise) (hb : '\x7d' ∉ b) : all recognise b = b.map .char := by
  refine all_of_none fun u a r hu hsome => ?_
  rw [h.eq_none fun hmem => hb (hu.subset hmem)] at hsome
  cases hsome

theorem all_between (hs : Silent recognise a) (h : Ends recognise) (hb : '\x7d' ∉ b)
    (s : List Char) :
    all recognise (a ++ (s ++ b)) = a.map .char ++ (all recognise s ++ b.map .char) := by
  rw [all_append_of_silent hs, all_append fun u _ _ => h.passes u b hb, all_of_ends h hb]

@[simp] theorem hold_append_chars (slot : Nat) (ps : List (Piece α)) (b : List Char) :
    hold slot (ps ++ b.map .char) = hold slot ps ++ b := by
  induction ps generalizing slot with
  | nil => simpa [hold] using hold_chars_append [] b slot
  | cons p ps ih =>
    cases p with
    | char c => exact congrArg (c :: ·) (ih slot)
    | directive a s =>
      rw [List.cons_append, hold, hold, ih, List.append_assoc]

theorem textM_append_chars (replace : α → Outcome ε (List Char)) (ps : List (Piece α))
    (b : List Char) : textM replace (ps ++ b.map .char) = (· ++ b) <$> textM replace ps := by
  induction ps with
  | nil => simpa [textM] using textM_chars_append [] b replace
  | cons p ps ih =>
    cases p with
    | char c => simp [textM, ih]
    | directive a s => simp [textM, ih]

/-- A pass that takes no part of the texts around for a directive leaves them as they are. -/
theorem textM_between (hs : Silent recognise a) (h : Ends recognise) (hb : '\x7d' ∉ b)
    (replace : α → Outcome ε (List Char)) (s : List Char) :
    textM replace (all recognise (a ++ (s ++ b))) =
      (fun u => a ++ (u ++ b)) <$> textM replace (all recognise s) := by
  rw [all_between hs h hb, textM_chars_append, textM_append_chars]
  exact (comp_map _ _ _).symm

theorem text_between (hs : Silent recognise a) (h : Ends recognise) (hb : '\x7d' ∉ b)
    (replace : α → List Char → List Char) (s : List Char) :
    text replace (all recognise (a ++ (s ++ b))) = a ++ (text replace (all recognise s) ++ b) := by
  rw [all_between hs h hb, text_append, text_append, text_chars, text_chars]

end Piece

/-! ### Passes around a text -/

section between

variable {context : Context} {ε : Type} {a b : List Char}

theorem resolveUrls_between (ha : '\x7b' ∉ a) (hb : '\x7d' ∉ b) (s : List Char) :
    resolveUrls context (a ++ (s ++ b)) = (fun u => a ++ (u ++ b)) <$> resolveUrls context s :=
  Piece.textM_between ((silent_after?_of_not_mem ha).of_le fun _ => assetUrl?_eq_none)
    ends_assetUrl? hb _ s

theorem all_settingOutput?_between (ha : '\x7b' ∉ a) (hb : '\x7d' ∉ b) (s : List Char) :
    Piece.all settingOutput? (a ++ (s ++ b)) =
      a.map .char ++ (Piece.all settingOutput? s ++ b.map .char) :=
  Piece.all_between ((silent_after?_of_not_mem ha).of_le fun _ => settingOutput?_eq_none)
    ends_settingOutput? hb s

theorem settingValues_between (ha : '\x7b' ∉ a) (hb : '\x7d' ∉ b) (settings : Dict Value)
    (s : List Char) : settingValues settings (a ++ (s ++ b)) = settingValues settings s := by
  rw [settingValues, all_settingOutput?_between ha hb]
  simp [settingValues]

theorem holdSettings_between (ha : '\x7b' ∉ a) (hb : '\x7d' ∉ b) (s : List Char) :
    holdSettings (a ++ (s ++ b)) = a ++ (holdSettings s ++ b) := by
  rw [holdSettings, all_settingOutput?_between ha hb]
  simp [holdSettings]

theorem resolveConditionals_between (ha : '\x7b' ∉ a) (hb : '\x7d' ∉ b) (s : List Char) :
    resolveConditionals (ε := ε) context (a ++ (s ++ b)) =
      (fun u => a ++ (u ++ b)) <$> resolveConditionals context s :=
  Piece.textM_between ((silent_after?_of_not_mem ha).of_le fun _ => conditional?_eq_none)
    ends_conditional? hb _ s

theorem removeTags_between (ha : '\x7b' ∉ a) (hb : '\x7d' ∉ b) (s : List Char) :
    removeTags (a ++ (s ++ b)) = a ++ (removeTags s ++ b) :=
  Piece.text_between ((silent_after?_of_not_mem ha).of_le fun _ => anyTag?_eq_none)
    ends_anyTag? hb _ s

theorem removeOutputs_between (ha : '\x7b' ∉ a) (hb : '\x7d' ∉ b) (s : List Char) :
    removeOutputs (a ++ (s ++ b)) = a ++ (removeOutputs s ++ b) :=
  Piece.text_between ((silent_after?_of_not_mem ha).of_le fun _ => anyOutput?_eq_none)
    ends_anyOutput? hb _ s

end between

/-! ### Marks in the text itself -/

/-- The text ends with what a mark opens with, digits behind it or not. -/
def EndsInMark (s : List Char) : Prop := (s.reverse.dropWhile Text.isDigit).head? = some '\ue000'

/-- The text begins with what a mark closes with, digits in front of it or not. -/
def BeginsInMark (s : List Char) : Prop := (s.dropWhile Text.isDigit).head? = some '\ue001'

instance (s : List Char) : Decidable (EndsInMark s) := inferInstanceAs (Decidable (_ = _))

instance (s : List Char) : Decidable (BeginsInMark s) := inferInstanceAs (Decidable (_ = _))

/-- The slots of the marks that stand in the text. -/
def slots (s : List Char) : List Nat := Piece.directives (Piece.all held? s)

theorem held?_eq_some_iff {s r : List Char} {k : Nat} : held? s = some (k, r) ↔
    ∃ digits, digits ≠ [] ∧ (∀ c ∈ digits, Text.isDigit c = true) ∧
      s = '\ue000' :: (digits ++ '\ue001' :: r) ∧ k = Text.natOfDigits digits := by
  have hclose : Text.isDigit '\ue001' = false := by decide
  constructor
  · intro h
    unfold held? at h
    split at h
    · next s =>
      dsimp only at h
      split at h
      · next rest hrest =>
        split at h
        · cases h
        · next hne =>
          cases h
          refine ⟨s.takeWhile Text.isDigit, by simpa using hne, ?_, ?_, rfl⟩
          · exact List.all_eq_true.1 List.all_takeWhile
          · rw [← hrest, List.takeWhile_append_dropWhile]
      · cases h
    · cases h
  · rintro ⟨digits, hne, hdigits, rfl, rfl⟩
    simp [held?, List.takeWhile_append_of_pos hdigits, List.dropWhile_append_of_pos hdigits, hclose,
      hne]

theorem endsInMark_cons {digits : List Char} (h : ∀ c ∈ digits, Text.isDigit c = true) :
    EndsInMark ('\ue000' :: digits) := by
  have hopen : Text.isDigit '\ue000' = false := by decide
  rw [EndsInMark, List.reverse_cons, List.dropWhile_append_of_pos (by simpa using h)]
  simp [hopen]

theorem EndsInMark.of_suffix {u s : List Char} (h : EndsInMark u) (hu : u <:+ s) :
    EndsInMark s := by
  obtain ⟨t, rfl⟩ := hu
  rw [EndsInMark] at h ⊢
  rw [List.reverse_append, List.dropWhile_append]
  cases hrest : u.reverse.dropWhile Text.isDigit with
  | nil =>
    rw [hrest] at h
    cases h
  | cons c rest => rwa [hrest] at h

theorem beginsInMark_append {digits : List Char} (h : ∀ c ∈ digits, Text.isDigit c = true)
    (r : List Char) : BeginsInMark (digits ++ '\ue001' :: r) := by
  have hclose : Text.isDigit '\ue001' = false := by decide
  rw [BeginsInMark, List.dropWhile_append_of_pos h]
  simp [hclose]

/-- A mark stands in one of two parts unless the first ends in it and the second begins in it. -/
theorem held?_append {u b : List Char} (hne : u ≠ [])
    (h : ¬(EndsInMark u ∧ BeginsInMark b)) :
    held? (u ++ b) = (held? u).map (HasRest.extend b) := by
  cases hu : held? u with
  | some found =>
    obtain ⟨k, r⟩ := found
    obtain ⟨digits, hdigits, hall, rfl, hk⟩ := held?_eq_some_iff.1 hu
    exact held?_eq_some_iff.2 ⟨digits, hdigits, hall, by simp, hk⟩
  | none =>
    rw [Option.map_none, Option.eq_none_iff_forall_ne_some]
    rintro ⟨k, r⟩ hub
    obtain ⟨digits, hdigits, hall, heq, hk⟩ := held?_eq_some_iff.1 hub
    obtain ⟨c, v, rfl⟩ := List.exists_cons_of_ne_nil hne
    rw [List.cons_append] at heq
    obtain ⟨rfl, htail⟩ := List.cons.inj heq
    rcases List.append_eq_append_iff.1 htail with ⟨t, rfl, rfl⟩ | ⟨t, rfl, ht⟩
    · refine h ⟨endsInMark_cons fun c hc => ?_, beginsInMark_append (fun c hc => ?_) r⟩
      · exact hall c (List.mem_append_left t hc)
      · exact hall c (List.mem_append_right v hc)
    · cases t with
      | nil =>
        refine h ⟨endsInMark_cons (by simpa using hall), ?_⟩
        obtain rfl : '\ue001' :: r = b := ht
        exact beginsInMark_append (List.forall_mem_nil _) r
      | cons d t =>
        obtain ⟨rfl, rfl⟩ := List.cons.inj ht
        rw [held?_eq_some_iff.2 ⟨digits, hdigits, hall, rfl, rfl⟩] at hu
        cases hu

section release

variable {values : List (List Char)} {s b : List Char}

theorem releaseSettings_append (h : ¬(EndsInMark s ∧ BeginsInMark b)) :
    releaseSettings values (s ++ b) = releaseSettings values s ++ releaseSettings values b := by
  have hall : Piece.all held? (s ++ b) = Piece.all held? s ++ Piece.all held? b :=
    Piece.all_append fun u hu hne =>
      held?_append hne fun hmark => h ⟨hmark.1.of_suffix hu, hmark.2⟩
  rw [releaseSettings, hall, Piece.text_append]
  rfl

/-- A text stays as it is if its directives are replaced by themselves. -/
theorem Piece.text_eq_source {α : Type} {replace : α → List Char → List Char}
    {ps : List (Piece α)} (h : ∀ a ∈ directives ps, ∀ s, replace a s = s) :
    text replace ps = ps.flatMap source := by
  induction ps with
  | nil => rfl
  | cons p ps ih =>
    cases p with
    | char c => exact congrArg (c :: ·) (ih h)
    | directive a s =>
      obtain ⟨ha, hps⟩ := List.forall_mem_cons.1 h
      exact congrArg₂ (· ++ ·) (ha s) (ih hps)

/-- Marks of slots that have no value stay. -/
theorem releaseSettings_of_le (h : ∀ k ∈ slots s, values.length ≤ k) :
    releaseSettings values s = s := by
  rw [releaseSettings, Piece.text_eq_source, Piece.flatMap_source_all]
  intro k hk t
  rw [List.getElem?_eq_none (h k hk)]
  rfl

/-- The first `count` slots are in use, and neither text has a part in a mark of one of them,
whatever stands between the two. -/
structure MarksApart (count : Nat) (a b : List Char) : Prop where
  notOpened : ¬EndsInMark a
  notClosed : ¬BeginsInMark b
  unused : ∀ k ∈ slots a ++ slots b, count ≤ k

theorem releaseSettings_between {a : List Char}
    (h : values ≠ [] → MarksApart values.length a b) :
    releaseSettings values (a ++ (s ++ b)) = a ++ (releaseSettings values s ++ b) := by
  by_cases hvalues : values = []
  · subst hvalues
    have hnothing (s : List Char) : releaseSettings [] s = s :=
      releaseSettings_of_le fun k _ => Nat.zero_le k
    rw [hnothing, hnothing]
  · have h := h hvalues
    obtain ⟨ha, hb⟩ := List.forall_mem_append.1 h.unused
    rw [releaseSettings_append fun hmark => h.notOpened hmark.1,
      releaseSettings_append fun hmark => h.notClosed hmark.2, releaseSettings_of_le ha,
      releaseSettings_of_le hb]

end release

/-! ### The whole run -/

/-- The paths of the settings that the text puts out. -/
def outputs (s : List Char) : List (List Char) := Piece.directives (Piece.all settingOutput? s)

section process

variable {context : Context}

theorem processChars_between {a s b : List Char} (ha : '\x7b' ∉ a) (hb : '\x7d' ∉ b)
    (h : ∀ u, (resolveUrls context s).result = .ok u →
      outputs u ≠ [] → MarksApart (outputs u).length a b) :
    processChars context (a ++ (s ++ b)) = (fun u => a ++ (u ++ b)) <$> processChars context s := by
  rw [processChars, resolveUrls_between ha hb, processChars, map_eq_pure_bind, map_eq_pure_bind,
    bind_assoc, bind_assoc]
  refine Outcome.bind_congr_of_ok fun u hu => ?_
  have hmarks : settingValues context.settings u ≠ [] →
      MarksApart (settingValues context.settings u).length a b := by
    intro hne
    rw [settingValues, List.length_map]
    exact h u hu fun hnil => hne (by rw [settingValues, ← outputs, hnil]; rfl)
  have hrelease (s : List Char) := releaseSettings_between (s := s) hmarks
  simp only [pure_bind, settingValues_between ha hb, holdSettings_between ha hb,
    resolveConditionals_between ha hb, map_eq_pure_bind, bind_assoc, removeTags_between ha hb,
    removeOutputs_between ha hb, hrelease]

/-- A text without opening braces in front of another one and a text without closing braces behind
it stay as they are and change nothing in between, warnings and failures included. -/
theorem process_between {a t b : String} (ha : '\x7b' ∉ a.toList) (hb : '\x7d' ∉ b.toList)
    (h : ∀ u, (resolveUrls context t.toList).result = .ok u →
      outputs u ≠ [] → MarksApart (outputs u).length a.toList b.toList) :
    process context (a ++ t ++ b) = (a ++ · ++ b) <$> process context t := by
  have hsource : (a ++ t ++ b).toList = a.toList ++ (t.toList ++ b.toList) := by
    rw [String.toList_append, String.toList_append, List.append_assoc]
  rw [process, hsource, processChars_between ha hb h, process]
  simp only [map_eq_pure_bind, bind_assoc, pure_bind, String.ofList_append, String.ofList_toList,
    String.append_assoc]

theorem settingValues_of_output {settings : Dict Value} {u path : List Char} {v : String}
    (hpath : outputs u = [path]) (hv : lookupPath settings path = .str v) :
    settingValues settings u = [v.toList] := by
  rw [settingValues, ← outputs, hpath, List.map_singleton, hv]
  rfl

/-- The result of a text with one output of a setting that is a text. -/
theorem result_process_of_output {text v : String} {u s path : List Char}
    (hu : (resolveUrls context text.toList).result = .ok u)
    (hs : (resolveConditionals (ε := UrlError) context (holdSettings u)).result = .ok s)
    (hpath : outputs u = [path]) (hv : lookupPath context.settings path = .str v) :
    (process context text).result =
      .ok (.ofList (releaseSettings [v.toList] (removeOutputs (removeTags s)))) := by
  rw [result_process_of_ok hu hs, settingValues_of_output hpath hv]

/-- Braces that face the other way, and a mark of a slot that is not in use. -/
theorem process_between_unused :
    (process
        { settings := [("x", .str "v")], resolveUrl := fun _ => .ok "", keepBodies := false }
        ("\x7d\ue0001\ue001" ++ "\x7b\x7bsettings.x\x7d\x7d" ++ "\ue000\x7b\x7b")).result =
      .ok ("\x7d\ue0001\ue001" ++ "v" ++ "\ue000\x7b\x7b") := by
  let context : Context :=
    { settings := [("x", .str "v")], resolveUrl := fun _ => .ok "", keepBodies := false }
  have hresolve : (resolveUrls context "\x7b\x7bsettings.x\x7d\x7d".toList).result =
      .ok "\x7b\x7bsettings.x\x7d\x7d".toList := rfl
  have hpath : outputs "\x7b\x7bsettings.x\x7d\x7d".toList = ["x".toList] := rfl
  have hprocess := result_process_of_output hresolve (s := heldMark 0) rfl hpath rfl
  rw [process_between (by decide) (by decide), map_eq_pure_bind]
  · exact Outcome.bind_eq_ok.2 ⟨_, hprocess, rfl⟩
  · intro u hu _
    cases hresolve.symm.trans hu
    rw [hpath]
    exact ⟨by decide, by decide, by decide⟩

/-- A mark in the text gives way to a value of a setting that is put out elsewhere. -/
theorem process_between_mark :
    ¬∀ (context : Context) (a t b : String), '\x7b' ∉ a.toList → '\x7d' ∉ b.toList →
      process context (a ++ t ++ b) = (a ++ · ++ b) <$> process context t := by
  intro h
  let context : Context :=
    { settings := [("x", .str "v")], resolveUrl := fun _ => .ok "", keepBodies := false }
  have hlookup : lookupPath context.settings "x".toList = .str "v" := rfl
  have hresolve : (resolveUrls context "\x7b\x7bsettings.x\x7d\x7d".toList).result =
      .ok "\x7b\x7bsettings.x\x7d\x7d".toList := rfl
  have hprocess := result_process_of_output hresolve (s := heldMark 0) rfl rfl hlookup
  have hmarked : (resolveUrls context "\ue0000\ue001\x7b\x7bsettings.x\x7d\x7d".toList).result =
      .ok "\ue0000\ue001\x7b\x7bsettings.x\x7d\x7d".toList := rfl
  have hmark := result_process_of_output hmarked (s := heldMark 0 ++ heldMark 0) rfl rfl hlookup
  have heq := h context "\ue0000\ue001" "\x7b\x7bsettings.x\x7d\x7d" "" (by decide) (by decide)
  have hresult := congrArg Outcome.result heq
  rw [map_eq_pure_bind, Outcome.bind_eq_ok.2 ⟨_, hprocess, rfl⟩] at hresult
  have htext := congrArg String.toList (Except.ok.inj (hmark.symm.trans hresult))
  rw [String.toList_append, String.toList_append, String.toList_ofList, String.toList_ofList]
    at htext
  exact absurd htext (by decide)

end process

end Storefront.Asset
