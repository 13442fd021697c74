import Storefront.Proofs.Asset.Frame
import Storefront.Proofs.Asset.Passes

/-!
Tags and outputs as they show in a text: an opening mark and, later on, a closing one of its kind.
Where a text has none, the passes after the first leave it as it is. A URL that an asset gets is
such a text, or else it is read once more, by the passes that come after the one that put it in.
-/

namespace Storefront.Asset

/-- Somewhere the opening mark stands, and later on the closing one. -/
def Spans (opening closing s : List Char) : Prop :=
  ∃ before inside behind, s = before ++ (opening ++ (inside ++ (closing ++ behind)))

def HasTag (s : List Char) : Prop := Spans tagOpen tagClose s

def HasOutput (s : List Char) : Prop := Spans outputOpen outputClose s

theorem Spans.of_suffix {opening closing s u : List Char} (h : Spans opening closing u)
    (hu : u <:+ s) : Spans opening closing s := by
  obtain ⟨before, inside, behind, rfl⟩ := h
  obtain ⟨t, rfl⟩ := hu
  exact ⟨t ++ before, inside, behind, (List.append_assoc _ _ _).symm⟩

theorem Spans.subset {opening closing s : List Char} (h : Spans opening closing s) :
    opening ++ closing ⊆ s := by
  obtain ⟨before, inside, behind, rfl⟩ := h
  intro c hc
  rcases List.mem_append.1 hc with hc | hc
  · simp [hc]
  · simp [hc]

/-! ### What is recognised shows -/

theorem hasOutput_of_settingOutput? {s path r : List Char}
    (h : settingOutput? s = some (path, r)) : HasOutput s := by
  obtain ⟨t, ht, h⟩ := Option.bind_eq_some_iff.1 h
  obtain ⟨v, hv, h⟩ := Option.bind_eq_some_iff.1 h
  obtain ⟨⟨p, w⟩, hp, h⟩ := Option.bind_eq_some_iff.1 h
  obtain ⟨x, hx, -⟩ := Option.bind_eq_some_iff.1 h
  obtain ⟨u, rfl⟩ := exists_of_opened? ht
  obtain ⟨z, rfl⟩ := exists_of_closed? hx
  rw [after?_eq_some_iff.1 hv, eq_append_of_path? hp]
  exact ⟨[], u ++ ("settings.".toList ++ (p ++ z)), x, by simp⟩

theorem hasOutput_of_anyOutput? {s r : List Char} {a : Unit} (h : anyOutput? s = some (a, r)) :
    HasOutput s := by
  obtain ⟨t, ht, h⟩ := Option.bind_eq_some_iff.1 h
  obtain ⟨⟨before, rest⟩, hcut, -⟩ := Option.bind_eq_some_iff.1 h
  rw [after?_eq_some_iff.1 ht, Text.eq_append_of_cutAt? hcut]
  exact ⟨[], before, rest, by simp⟩

theorem hasTag_of_conditional? {s r : List Char} {c : Conditional}
    (h : conditional? s = some (c, r)) : HasTag s := by
  obtain ⟨t, ht, hkind⟩ := Option.bind_eq_some_iff.1 h
  obtain ⟨before, u, tail, -, rfl⟩ : c.Extends t r := by
    rcases (Option.orElse_eq_some _ _ _).1 hkind with hkind | ⟨-, hkind⟩
    · exact Conditional.extends_of_ofKind? hkind
    · exact Conditional.extends_of_ofKind? hkind
  obtain ⟨v, rfl⟩ := exists_of_opened? ht
  exact ⟨[], v ++ (before ++ (c.condition ++ u)), c.body ++ (tail ++ r), by simp⟩

theorem hasTag_of_anyTag? {s r : List Char} {a : Unit} (h : anyTag? s = some (a, r)) :
    HasTag s := by
  obtain ⟨t, ht, h⟩ := Option.bind_eq_some_iff.1 h
  obtain ⟨⟨before, rest⟩, hcut, -⟩ := Option.bind_eq_some_iff.1 h
  rw [after?_eq_some_iff.1 ht, Text.eq_append_of_cutAt? hcut]
  exact ⟨[], before, rest, by simp⟩

/-! ### Passes over texts without tags or outputs -/

theorem Piece.all_of_not_spans {α : Type} {recognise : List Char → Option (α × List Char)}
    {opening closing s : List Char}
    (hfind : ∀ u a r, recognise u = some (a, r) → Spans opening closing u)
    (h : ¬Spans opening closing s) : all recognise s = s.map .char :=
  all_of_none fun u a r hu hsome => h ((hfind u a r hsome).of_suffix hu)

section untouched

variable {context : Context} {ε : Type} {s : List Char}

theorem all_settingOutput?_of_not_hasOutput (h : ¬HasOutput s) :
    Piece.all settingOutput? s = s.map .char :=
  Piece.all_of_not_spans (fun _ _ _ => hasOutput_of_settingOutput?) h

theorem outputs_of_not_hasOutput (h : ¬HasOutput s) : outputs s = [] := by
  rw [outputs, all_settingOutput?_of_not_hasOutput h, Piece.directives_chars]

theorem holdSettings_of_not_hasOutput (h : ¬HasOutput s) : holdSettings s = s := by
  rw [holdSettings, all_settingOutput?_of_not_hasOutput h]
  simpa [Piece.hold] using Piece.hold_chars_append ([] : List (Piece (List Char))) s 0

theorem resolveConditionals_of_not_hasTag (h : ¬HasTag s) :
    resolveConditionals (ε := ε) context s = pure s := by
  rw [resolveConditionals, Piece.all_of_not_spans (fun _ _ _ => hasTag_of_conditional?) h]
  simpa [Piece.textM] using Piece.textM_chars_append [] s (Conditional.resolve (ε := ε) context)

theorem removeTags_of_not_hasTag (h : ¬HasTag s) : removeTags s = s := by
  rw [removeTags, Piece.all_of_not_spans (fun _ _ _ => hasTag_of_anyTag?) h, Piece.text_chars]

theorem removeOutputs_of_not_hasOutput (h : ¬HasOutput s) : removeOutputs s = s := by
  rw [removeOutputs, Piece.all_of_not_spans (fun _ _ _ => hasOutput_of_anyOutput?) h,
    Piece.text_chars]

end untouched

/-! ### URLs -/

theorem Unmarked.marksApart {a b : List Char} (ha : Unmarked a) (hb : Unmarked b) (count : Nat) :
    MarksApart count a b where
  notOpened h := by
    have hmem : '\ue000' ∈ a.reverse.dropWhile Text.isDigit := List.mem_of_head? h
    exact ha.1 (List.mem_reverse.1 ((List.dropWhile_sublist _).subset hmem))
  notClosed h := hb.2 ((List.dropWhile_sublist _).subset (List.mem_of_head? h))
  unused := by
    have hslots {s : List Char} (hs : Unmarked s) : slots s = [] := by
      have hall := Piece.all_append_of_silent (silent_held? hs.1) []
      rw [List.append_nil] at hall
      rw [slots, hall]
      simp [Piece.all, Piece.scan]
    rw [hslots ha, hslots hb]
    exact List.forall_mem_nil _

section url

variable {context : Context} {name : List Char}

theorem resolveUrls_url (hne : name ≠ []) (hq : ∀ c ∈ name, isQuote c = false) :
    resolveUrls context (Leaf.source (.url name)) =
      .ofExcept ((context.resolveUrl (.ofList name)).map String.toList) := by
  have hsource : Leaf.source (.url name) ≠ [] := List.cons_ne_nil _ _
  have hall := Piece.all_append_of_some hsource (assetUrl?_url hne hq [])
  rw [List.append_nil] at hall
  rw [resolveUrls, hall, Piece.textM]
  simp [Piece.all, Piece.scan, Piece.textM]

/-- A URL without tags and outputs is what is left of the output that asks for it. -/
theorem processChars_url (hne : name ≠ []) (hq : ∀ c ∈ name, isQuote c = false)
    (hurl : ∀ url, context.resolveUrl (.ofList name) = .ok url →
      ¬HasTag url.toList ∧ ¬HasOutput url.toList) :
    processChars context (Leaf.source (.url name)) =
      .ofExcept ((context.resolveUrl (.ofList name)).map String.toList) := by
  rw [processChars, resolveUrls_url hne hq]
  cases hresolve : context.resolveUrl (.ofList name) with
  | error e => rfl
  | ok url =>
    obtain ⟨htag, houtput⟩ := hurl url hresolve
    have hvalues : settingValues context.settings url.toList = [] := by
      rw [settingValues, ← outputs, outputs_of_not_hasOutput houtput]
      rfl
    show (do
      let s ← resolveConditionals context (holdSettings url.toList)
      return releaseSettings (settingValues context.settings url.toList)
        (removeOutputs (removeTags s))) = pure url.toList
    rw [holdSettings_of_not_hasOutput houtput, resolveConditionals_of_not_hasTag htag, pure_bind,
      removeTags_of_not_hasTag htag, removeOutputs_of_not_hasOutput houtput, hvalues]
    exact congrArg pure (releaseSettings_of_le fun k _ => Nat.zero_le k)

/-- The output of a URL gives way to the URL as it is, if the URL has no tag and no output in it,
and fails as the URL does. -/
theorem process_url {a b f : String} (hf : f ≠ "") (hq : ∀ c ∈ f.toList, isQuote c = false)
    (ha : '\x7b' ∉ a.toList) (hb : '\x7d' ∉ b.toList)
    (hmarks : Unmarked a.toList ∧ Unmarked b.toList)
    (hurl : ∀ url, context.resolveUrl f = .ok url → ¬HasTag url.toList ∧ ¬HasOutput url.toList) :
    process context (a ++ "\x7b\x7b '" ++ f ++ "' | asset_url \x7d\x7d" ++ b) =
      (a ++ · ++ b) <$> Outcome.ofExcept (context.resolveUrl f) := by
  have hsource : (a ++ "\x7b\x7b '" ++ f ++ "' | asset_url \x7d\x7d" ++ b).toList =
      a.toList ++ (Leaf.source (.url f.toList) ++ b.toList) := by
    simp [Leaf.source, outputSource, outputOpen, outputClose]
  have hne : f.toList ≠ [] := fun h => hf (String.toList_eq_nil_iff.1 h)
  rw [← String.ofList_toList (s := f)] at hurl
  have hbetween : processChars context (a.toList ++ (Leaf.source (.url f.toList) ++ b.toList)) =
      (fun u => a.toList ++ (u ++ b.toList)) <$>
        processChars context (Leaf.source (.url f.toList)) :=
    processChars_between ha hb fun u _ _ => hmarks.1.marksApart hmarks.2 _
  rw [process, hsource, hbetween, processChars_url hne hq hurl, String.ofList_toList]
  cases context.resolveUrl f with
  | error e => rfl
  | ok url =>
    show (pure (.ofList (a.toList ++ (url.toList ++ b.toList))) : Outcome UrlError String) =
      pure (a ++ url ++ b)
    rw [String.ofList_append, String.ofList_append, String.ofList_toList, String.ofList_toList,
      String.ofList_toList, String.append_assoc]

/-- An output that a URL opens stays open. -/
theorem process_url_openMark :
    process
        { settings := [("x", .str "1")]
          resolveUrl := urlFor .texts "/\x7b\x7b\x7b\x7bsettings.x%"
          keepBodies := false }
        ("%\x7d\x7d" ++ "\x7b\x7b '" ++ "a b" ++ "' | asset_url \x7d\x7d" ++ "\x7b%") =
      pure ("%\x7d\x7d" ++ "/\x7b\x7bsettings.x%" ++ "\x7b%") := by
  let context : Context :=
    { settings := [("x", .str "1")]
      resolveUrl := urlFor .texts "/\x7b\x7b\x7b\x7bsettings.x%"
      keepBodies := false }
  have hresolve : context.resolveUrl "a b" = .ok "/\x7b\x7bsettings.x%" := rfl
  have hclose : '\x7d' ∉ "/\x7b\x7bsettings.x%".toList := by decide
  have hspans : ¬HasTag "/\x7b\x7bsettings.x%".toList ∧ ¬HasOutput "/\x7b\x7bsettings.x%".toList :=
    ⟨fun h => hclose (h.subset (by decide)), fun h => hclose (h.subset (by decide))⟩
  have hurl : ∀ url, context.resolveUrl "a b" = .ok url →
      ¬HasTag url.toList ∧ ¬HasOutput url.toList := by
    intro url hurl
    cases hresolve.symm.trans hurl
    exact hspans
  have hquotes : ∀ c ∈ "a b".toList, isQuote c = false := by
    have hall : "a b".toList.all (!isQuote ·) = true := by decide
    simpa using List.all_eq_true.1 hall
  refine (process_url (by decide) hquotes (by decide) (by decide)
    ⟨by decide, by decide⟩ hurl).trans ?_
  rw [hresolve]
  rfl

/-- A URL that is an output of a setting is read as one. -/
theorem process_url_setting :
    ¬∀ (context : Context) (a b f : String), f ≠ "" → (∀ c ∈ f.toList, isQuote c = false) →
      '\x7b' ∉ a.toList → '\x7d' ∉ b.toList → Unmarked a.toList ∧ Unmarked b.toList →
        process context (a ++ "\x7b\x7b '" ++ f ++ "' | asset_url \x7d\x7d" ++ b) =
          (a ++ · ++ b) <$> Outcome.ofExcept (context.resolveUrl f) := by
  intro h
  let context : Context :=
    { settings := [("x", .str "1")]
      resolveUrl := urlFor .texts "\x7b\x7b\x7b\x7bsettings.x\x7d\x7d\x7d\x7d"
      keepBodies := false }
  have hurl : context.resolveUrl "f" = .ok "\x7b\x7bsettings.x\x7d\x7d" := rfl
  have hresolve : (resolveUrls context "\x7b\x7b 'f' | asset_url \x7d\x7d".toList).result =
      .ok "\x7b\x7bsettings.x\x7d\x7d".toList := rfl
  have hprocess := result_process_of_output hresolve (s := heldMark 0) (v := "1") rfl rfl rfl
  have hquotes : ∀ c ∈ "f".toList, isQuote c = false := by
    have hall : "f".toList.all (!isQuote ·) = true := by decide
    simpa using List.all_eq_true.1 hall
  have heq := h context "" "" "f" (by decide) hquotes (by decide) (by decide)
    ⟨by decide, by decide⟩
  rw [hurl] at heq
  have hresult := hprocess.symm.trans (congrArg Outcome.result heq)
  have htext := congrArg String.toList (Except.ok.inj hresult)
  rw [String.toList_ofList] at htext
  exact absurd htext (by decide)

end url

end Storefront.Asset
