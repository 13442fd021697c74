import Storefront.Proofs.Asset.Apart
import Storefront.Proofs.Asset.HeldTag

/-!
The spelling of a directive does not matter: dashes in its marks and blanks around its words leave
the output of an asset as it is.
-/

namespace Storefront.Asset

open Text

/-! ### Rendering once URLs are resolved -/

def rendered (context : Context) (u : List Char) : List Char :=
  releaseSettings (settingValues context.settings u)
    (removeOutputs (removeTags (resolved context (holdSettings u))))

theorem result_processChars (context : Context) (s : List Char) :
    (processChars context s).result = (resolveUrls context s).result.map (rendered context) := by
  rw [processChars, Outcome.result_bind]
  have hrest (u : List Char) : (do
      let s ← resolveConditionals (ε := UrlError) context (holdSettings u)
      return releaseSettings (settingValues context.settings u) (removeOutputs (removeTags s))).result =
        .ok (rendered context u) :=
    Outcome.bind_eq_ok.2 ⟨_, result_resolveConditionals context (holdSettings u), rfl⟩
  cases (resolveUrls context s).result with
  | error e => rfl
  | ok u => exact hrest u

section setting

variable {context : Context} {path : List Char} {sp sp' : Spelling} (hpath : IsPath path)
  (hfits : sp.Fits (.setting path)) (hfits' : sp'.Fits (.setting path))

include hpath hfits in
theorem all_settingOutput?_written (x y : List Char) :
    Piece.all settingOutput? (x ++ ((Directive.setting path).written sp ++ y)) =
      Piece.all settingOutput? x ++
        .directive path ((Directive.setting path).written sp) :: Piece.all settingOutput? y := by
  obtain ⟨z, hz⟩ : ∃ z, (Directive.setting path).written sp ++ y = '\x7b' :: '\x7b' :: z :=
    ⟨_, rfl⟩
  have hne : (Directive.setting path).written sp ≠ [] := List.cons_ne_nil _ _
  rw [Piece.all_append, Piece.all_append_of_some hne (settingOutput?_written hpath hfits y)]
  intro u _ hne
  rw [hz]
  exact settingOutput?_brace hne (.inl rfl) z

include hpath hfits hfits' in
/-- Of an output of a setting only its path matters. -/
theorem rendered_setting (x y : List Char) :
    rendered context (x ++ ((Directive.setting path).written sp ++ y)) =
      rendered context (x ++ ((Directive.setting path).written sp' ++ y)) := by
  have hvalues : settingValues context.settings (x ++ ((Directive.setting path).written sp ++ y)) =
      settingValues context.settings (x ++ ((Directive.setting path).written sp' ++ y)) := by
    rw [settingValues, settingValues, all_settingOutput?_written hpath hfits,
      all_settingOutput?_written hpath hfits', Piece.directives_append, Piece.directives_append]
    rfl
  have hheld : holdSettings (x ++ ((Directive.setting path).written sp ++ y)) =
      holdSettings (x ++ ((Directive.setting path).written sp' ++ y)) := by
    rw [holdSettings, holdSettings, all_settingOutput?_written hpath hfits,
      all_settingOutput?_written hpath hfits', Piece.hold_append, Piece.hold_append]
    rfl
  rw [rendered, rendered, hvalues, hheld]

end setting

section tag

variable {context : Context} {t : Tag} {sp sp' : Spelling} (ht : t.WellFormed)
  (hfits : sp.Fits (.tag t)) (hfits' : sp'.Fits (.tag t))

include ht hfits hfits' in
theorem rendered_tag {x : List Char}
    (hopen : Condition.QuotesClosed t.condition ∨ ¬LeavesOpen (holdSettings x)) (y : List Char) :
    rendered context (x ++ (t.written sp ++ y)) = rendered context (x ++ (t.written sp' ++ y)) := by
  have hvalues : settingValues context.settings (x ++ (t.written sp ++ y)) =
      settingValues context.settings (x ++ (t.written sp' ++ y)) := by
    rw [settingValues, settingValues, ← outputs, ← outputs, Tag.outputs_eq hfits,
      Tag.outputs_eq hfits']
  rw [rendered, rendered, hvalues, Tag.holdSettings_eq hfits, Tag.holdSettings_eq hfits']
  obtain ⟨k, hk⟩ : ∃ k, k = (outputs x).length := ⟨_, rfl⟩
  rw [← hk]
  have hswapped : Swapped ((t.held k).written sp) ((t.held k).written sp')
      (resolved context (_ ++ ((t.held k).written sp ++ _)))
      (resolved context (_ ++ ((t.held k).written sp' ++ _))) :=
    Tag.swapped_resolved (ht.held k) (hfits.held k) (hfits'.held k)
      (hopen.imp_left Tag.quotesClosed_held_iff.2)
      (Piece.hold (k + (outputs t.condition).length) (Piece.all settingOutput? y))
  rw [hswapped.removeTags_eq (ht.held k) (hfits.held k) (hfits'.held k)]

end tag

/-! ### Directives in any text -/

/-- The condition of a directive that has one. -/
def Directive.condition : Directive → List Char
  | .tag t => t.condition
  | _ => []

section directive

variable {context : Context} {d : Directive} {sp sp' : Spelling} {p q : List Char}

/-- A directive that is no output of a URL stays as it is while URLs are resolved. -/
theorem UrlsApart.result_resolveUrls (h : UrlsApart p d sp q)
    (hd : d.urls sp = (d.written sp).map .char) :
    (resolveUrls context (p ++ (d.written sp ++ q))).result = do
      let x ← (resolveUrls context p).result
      let y ← (resolveUrls context q).result
      return x ++ (d.written sp ++ y) := by
  rw [resolveUrls, h, hd, Piece.textM_append, Piece.textM_chars_append]
  simp only [Outcome.result_bind, Outcome.result_map]
  rw [← resolveUrls, ← resolveUrls]
  cases (resolveUrls context p).result with
  | error e => rfl
  | ok x => cases (resolveUrls context q).result <;> rfl

theorem UrlsApart.resolveUrls_url {quote : Char} {name : List Char}
    (h : UrlsApart p (.url quote name) sp q) (h' : UrlsApart p (.url quote name) sp' q) :
    resolveUrls context (p ++ ((Directive.url quote name).written sp ++ q)) =
      resolveUrls context (p ++ ((Directive.url quote name).written sp' ++ q)) := by
  have hurls (sp : Spelling) (replace : List Char → Outcome UrlError (List Char)) :
      Piece.textM replace (Piece.all assetUrl? p ++
          ((Directive.url quote name).urls sp ++ Piece.all assetUrl? q)) = do
        return (← Piece.textM replace (Piece.all assetUrl? p)) ++
          (← Piece.textM replace (.directive name [] :: Piece.all assetUrl? q)) := by
    rw [Piece.textM_append]
    rfl
  rw [resolveUrls, resolveUrls, h, h', hurls, hurls]

/-- In texts that are rendered alike once URLs are resolved. -/
theorem result_processChars_congr (h : UrlsApart p d sp q) (h' : UrlsApart p d sp' q)
    (hd : ∀ sp, d.urls sp = (d.written sp).map .char)
    (hrendered : ∀ x y, (resolveUrls context p).result = .ok x →
      rendered context (x ++ (d.written sp ++ y)) = rendered context (x ++ (d.written sp' ++ y))) :
    (processChars context (p ++ (d.written sp ++ q))).result =
      (processChars context (p ++ (d.written sp' ++ q))).result := by
  rw [result_processChars, result_processChars, h.result_resolveUrls (hd sp),
    h'.result_resolveUrls (hd sp')]
  cases hx : (resolveUrls context p).result with
  | error e => rfl
  | ok x =>
    cases (resolveUrls context q).result with
    | error e => rfl
    | ok y => exact congrArg Except.ok (hrendered x y hx)

theorem result_processChars_respell (hd : d.WellFormed) (hfits : sp.Fits d) (hfits' : sp'.Fits d)
    (h : UrlsApart p d sp q)
    (hopen : Condition.QuotesClosed d.condition ∨
      ∀ x, (resolveUrls context p).result = .ok x → ¬LeavesOpen (holdSettings x)) :
    (processChars context (p ++ (d.written sp ++ q))).result =
      (processChars context (p ++ (d.written sp' ++ q))).result := by
  have h' := h.respell hd hfits hfits'
  cases d with
  | url quote name =>
    rw [result_processChars, result_processChars, h.resolveUrls_url h']
  | setting path =>
    exact result_processChars_congr h h' (fun _ => rfl)
      fun x y _ => rendered_setting hd hfits hfits' x y
  | tag t =>
    exact result_processChars_congr h h' (fun _ => rfl)
      fun x y hx => rendered_tag hd hfits hfits' (hopen.imp_right fun hleft => hleft x hx) y

end directive

section process

variable {context : Context} {d : Directive} {sp : Spelling} {p q : String}

/-- A directive in any spelling gives the output of the plain one, whatever stands around it, unless
an output of a URL reaches into it or its condition takes part in one that is left open in front of
it. -/
theorem process_spelling (hd : d.WellFormed) (hfits : sp.Fits d)
    (hurls : UrlsApart p.toList d .plain q.toList)
    (hopen : Condition.QuotesClosed d.condition ∨
      ∀ x, (resolveUrls context p.toList).result = .ok x → ¬LeavesOpen (holdSettings x)) :
    (process context (p ++ .ofList (d.written sp) ++ q)).result =
      (process context (p ++ .ofList (d.written .plain) ++ q)).result := by
  have hsource (sp : Spelling) : (p ++ .ofList (d.written sp) ++ q).toList =
      p.toList ++ (d.written sp ++ q.toList) := by
    rw [String.toList_append, String.toList_append, String.toList_ofList, List.append_assoc]
  have hchars := result_processChars_respell hd (Spelling.fits_plain d) hfits hurls hopen
  rw [process, process, hsource, hsource, Outcome.result_bind, Outcome.result_bind, hchars]

/-- A line feed and tabs, and a dash that follows the condition at once. -/
theorem process_spelling_conditional :
    (process { settings := [("a", .str "1")], resolveUrl := fun _ => .ok "", keepBodies := false }
        ("x" ++ "\x7b%-\nif\t\tsettings.a-%\x7d" ++ "y\x7b%endif-%\x7dz")).result =
      (process { settings := [("a", .str "1")], resolveUrl := fun _ => .ok "", keepBodies := false }
        ("x" ++ "\x7b% if settings.a %\x7d" ++ "y\x7b%endif-%\x7dz")).result := by
  obtain ⟨t, ht⟩ : ∃ t, t = Tag.opening false "settings.a".toList := ⟨_, rfl⟩
  obtain ⟨sp, hsp⟩ : ∃ sp : Spelling, sp =
      { openingDash := true, before := ['\n'], first := ['\t', '\t'], second := [], after := [],
        closingDash := true } := ⟨_, rfl⟩
  have hd : (Directive.tag t).WellFormed := by
    rw [ht]
    exact ⟨by decide, by decide, by decide, by decide⟩
  have hfits : sp.Fits (.tag t) := by
    rw [ht, hsp]
    exact ⟨by decide, by decide, by decide, by decide, by decide, fun _ => .inr rfl⟩
  have hurls : UrlsApart "x".toList (.tag t) .plain "y\x7b%endif-%\x7dz".toList := by
    rw [ht]
    rfl
  have hquotes : Condition.QuotesClosed (Directive.tag t).condition := by
    rw [ht]
    decide
  have hplain : String.ofList ((Directive.tag t).written .plain) = "\x7b% if settings.a %\x7d" := by
    rw [ht]
    exact (congrArg String.ofList rfl).trans (String.ofList_toList (s := "\x7b% if settings.a %\x7d"))
  have hspelled : String.ofList ((Directive.tag t).written sp) =
      "\x7b%-\nif\t\tsettings.a-%\x7d" := by
    rw [ht, hsp]
    exact (congrArg String.ofList rfl).trans
      (String.ofList_toList (s := "\x7b%-\nif\t\tsettings.a-%\x7d"))
  rw [← hplain, ← hspelled]
  exact process_spelling hd hfits hurls (.inl hquotes)

/-- A dash directly behind a path is read as a part of it. -/
theorem process_spelling_dash :
    ¬∀ (context : Context) (path : List Char) (sp : Spelling), IsPath path →
      IsBlanks sp.before → IsBlanks sp.after →
        (process context (.ofList ((Directive.setting path).written sp))).result =
          (process context (.ofList ((Directive.setting path).written .plain))).result := by
  intro h
  let context : Context :=
    { settings := [("a", .str "1")], resolveUrl := fun _ => .ok "", keepBodies := false }
  have hpath : IsPath "a".toList := by
    have hsegments : splitOn '.' "a".toList = ["a".toList] := rfl
    rw [IsPath, hsegments]
    exact List.forall_mem_singleton.2 ⟨by decide, List.forall_mem_singleton.2 (by decide)⟩
  have hresolve {s : List Char} (hs : Piece.all assetUrl? s = s.map .char) :
      (resolveUrls context (String.ofList s).toList).result = .ok s := by
    have hchars := Piece.textM_chars_append (ε := UrlError) ([] : List (Piece (List Char))) s
      fun name => .ofExcept ((context.resolveUrl (.ofList name)).map String.toList)
    rw [List.append_nil] at hchars
    rw [String.toList_ofList, resolveUrls, hs, hchars]
    exact congrArg Except.ok (List.append_nil s)
  have houtputs : outputs "\x7b\x7b settings.a-\x7d\x7d".toList = ["a-".toList] := rfl
  have hvalue : (lookupPath context.settings "a-".toList).render = "" := rfl
  have hvalues : settingValues context.settings "\x7b\x7b settings.a-\x7d\x7d".toList = [[]] := by
    rw [settingValues, ← outputs, houtputs, List.map_singleton, hvalue]
    rfl
  have hdash := result_process_of_ok (hresolve (s := "\x7b\x7b settings.a-\x7d\x7d".toList) rfl)
    (s := heldMark 0) rfl
  have hplain := result_process_of_output
    (hresolve (s := "\x7b\x7b settings.a \x7d\x7d".toList) rfl) (s := heldMark 0) (v := "1") rfl rfl rfl
  have heq (sp : Spelling) (hbefore : IsBlanks sp.before) (hafter : IsBlanks sp.after)
      {s t : List Char} (hs : (Directive.setting "a".toList).written sp = s)
      (ht : (Directive.setting "a".toList).written .plain = t) :
      (process context (.ofList s)).result = (process context (.ofList t)).result := by
    subst hs
    subst ht
    exact h context "a".toList sp hpath hbefore hafter
  have hresult := heq { Spelling.plain with after := [], closingDash := true } (by decide) (by decide)
    (s := "\x7b\x7b settings.a-\x7d\x7d".toList) (t := "\x7b\x7b settings.a \x7d\x7d".toList) rfl rfl
  rw [hdash, hplain, hvalues] at hresult
  have htext := congrArg String.toList (Except.ok.inj hresult)
  rw [String.toList_ofList, String.toList_ofList] at htext
  exact absurd htext (by decide)

end process

end Storefront.Asset
