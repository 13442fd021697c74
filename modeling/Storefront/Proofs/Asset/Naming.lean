import Storefront.Proofs.Asset.Bundle
import Storefront.Proofs.Text.Boundary
import Storefront.Proofs.Text.Occurrence

/-!
The names of assets with directives. A stylesheet or a script is known by its ending in letters of
either case, but it counts as one with directives in small letters only. A bundle processes just
those that do.
-/

namespace Storefront

namespace Asset

/-- The name of a stylesheet or a script with directives, in letters of either case. -/
inductive NamesLiquid (filename : String) : Kind → Prop
  | css (h : ".css.liquid".toList <:+ filename.toList.map Char.toLower) : NamesLiquid filename .css
  | js (h : ".js.liquid".toList <:+ filename.toList.map Char.toLower) : NamesLiquid filename .js

theorem kind_ofFilename (filename : String) :
    (ofFilename filename).kind = .ofFilename filename := by
  rw [ofFilename]

theorem isLiquid_ofFilename_iff {filename : String} :
    (ofFilename filename).isLiquid = true ↔ ".liquid".toList <:+ filename.toList :=
  Text.endsWith_iff

/-! ### Endings -/

namespace Kind

/-- A path that ends in a longer text without a slash has it at the end of its last part. -/
theorem exists_lastPart_append {u : List Char} (hslash : '/' ∉ u) (hlong : 2 ≤ u.length)
    (s : List Char) : ∃ r, lastPart (s ++ u) = r ++ u := by
  have hsplit : ∃ parts r, Text.splitOn '/' (s ++ u) = parts ++ [r ++ u] := by
    induction s with
    | nil => exact ⟨[], [], Text.splitOn_of_not_mem hslash⟩
    | cons c s ih =>
      obtain ⟨parts, r, h⟩ := ih
      rw [List.cons_append, Text.splitOn, h]
      by_cases hc : c = '/'
      · exact ⟨[] :: parts, r, if_pos hc⟩
      · simp only [if_neg hc]
        cases parts with
        | nil => exact ⟨[], c :: r, rfl⟩
        | cons part parts => exact ⟨(c :: part) :: parts, r, rfl⟩
  obtain ⟨parts, r, h⟩ := hsplit
  refine ⟨r, ?_⟩
  have hlast : (!(r ++ u).isEmpty && r ++ u ≠ ['.']) = true := by
    have hlength : 2 ≤ (r ++ u).length := by
      rw [List.length_append]
      omega
    cases hru : r ++ u with
    | nil => simp [hru] at hlength
    | cons c v =>
      cases v with
      | nil => simp [hru] at hlength
      | cons d v => simp
  rw [lastPart, h, List.filter_append, List.filter_singleton, hlast]
  simp

/-- Behind another character, a dot and what follows it without another one are the extension. -/
theorem extension_append {c : Char} {s u : List Char} (hdot : '.' ∉ u) (hne : u ≠ []) :
    extension (s ++ c :: '.' :: u) = '.' :: u := by
  have hending : (s ++ c :: '.' :: u).reverse.takeWhile (· ≠ '.') = u.reverse := by
    have hall : ∀ d ∈ u.reverse, (d ≠ '.' : Bool) = true := fun d hd => by
      simpa using ne_of_mem_of_not_mem (List.mem_reverse.1 hd) hdot
    rw [List.reverse_append, List.reverse_cons, List.reverse_cons, List.append_assoc,
      List.append_assoc, (Text.takeWhile_append_of_head? (by simp) _).1]
    exact List.takeWhile_eq_self_iff.2 hall
  have hlong : ¬(s ++ c :: '.' :: u).length ≤ u.length + 1 := by
    simp only [List.length_append, List.length_cons]
    omega
  have hempty : u.reverse.isEmpty = false := by simpa using hne
  simp only [extension, hending, hempty, Bool.false_or, List.length_reverse, decide_eq_true_eq,
    if_neg hlong, List.reverse_reverse]

theorem ofFilename_of_namesLiquid {filename : String} {kind : Kind}
    (h : NamesLiquid filename kind) : ofFilename filename = kind := by
  cases h with
  | css h =>
    have hend := Text.endsWith_iff.2 h
    simp only [ofFilename, hend, Bool.or_true, if_true]
  | js h =>
    have hending : extension (lastPart (filename.toList.map Char.toLower)) = ".liquid".toList := by
      obtain ⟨s, hs⟩ := h
      obtain ⟨r, hr⟩ := exists_lastPart_append (u := ".js.liquid".toList) (by decide) (by decide) s
      have hname : r ++ ".js.liquid".toList = (r ++ ['.', 'j']) ++ 's' :: ".liquid".toList := by
        rw [List.append_assoc]
        rfl
      rw [← hs, hr, hname]
      exact extension_append (u := "liquid".toList) (by decide) (by decide)
    have hcss : Text.endsWith (filename.toList.map Char.toLower) ".css.liquid".toList = false := by
      rw [Bool.eq_false_iff, ne_eq, Text.endsWith_iff]
      intro hcss
      exact absurd (List.suffix_of_suffix_length_le h hcss (by decide)) (by decide)
    have hjs := Text.endsWith_iff.2 h
    have hother : cssExtensions.contains (String.ofList ".liquid".toList) = false := by decide
    simp only [ofFilename, hending, hcss, hjs, hother, Bool.or_false, Bool.or_true,
      Bool.false_eq_true, if_true, if_false]

end Kind

end Asset

namespace Theme

open Asset

variable {theme : Theme} {t : FileTree} {context : Context} {a : Asset} {files order : List Asset}
  {text : String}

theorem exists_eq_ofFilename (hfiles : theme.assets t = .ok files) (ha : a ∈ files) :
    ∃ filename, a = ofFilename filename := by
  obtain ⟨names, -, rfl⟩ := except_map_eq_ok.1 hfiles
  obtain ⟨name, -, rfl⟩ := List.mem_map.1 ha
  exact ⟨name, rfl⟩

/-- A bundle has the chunk of each stylesheet or script among its files. -/
theorem exists_isChunk_of_bundle (h : (theme.bundle t context order).result = .ok text)
    (ha : a ∈ order) (htext : a.isText = true) :
    ∃ shown, theme.IsChunk t context a shown ∧ shown.toList <:+: text.toList := by
  obtain ⟨chunks, hchunks, h⟩ := Outcome.bind_eq_ok.1 h
  cases h
  obtain ⟨shown, hshown, h⟩ := Outcome.exists_mem_mapM hchunks (List.mem_filter.2 ⟨ha, htext⟩)
  obtain ⟨text, htext, h⟩ := Outcome.bind_eq_ok.1 h
  exact ⟨shown, ⟨text, htext, (Except.ok.inj h).symm⟩, Text.infix_intercalate hshown⟩

/-- The text that a bundle shows is processed just where the file counts as one with directives. -/
theorem exists_of_assetText (h : (theme.assetText t context a).result = .ok text) :
    ∃ source, t.readText (theme.assetFile a) = .ok source ∧
      (a.isLiquid = true → (process context source).result = .ok text) ∧
      (a.isLiquid = false → text = source) := by
  obtain ⟨source, hsource, h⟩ := Outcome.bind_eq_ok.1 h
  refine ⟨source, hsource, fun hliquid => ?_, fun hliquid => ?_⟩
  · rw [hliquid] at h
    exact except_mapError_eq_ok.1 h
  · rw [hliquid] at h
    exact (Except.ok.inj h).symm

/-- A file of the assets folder whose name, in letters of either case, is that of a stylesheet or a
script with directives is one of that kind. Just where `.liquid` is written in small letters it also
counts as one with directives. Then every bundle that has it shows its processed text, and else it
shows the text as it stands. -/
theorem bundle_namesLiquid (hfiles : theme.assets t = .ok files) (ha : a ∈ files) {kind : Kind}
    (hname : NamesLiquid a.filename kind) :
    a.kind = kind ∧ (a.isLiquid = true ↔ ".liquid".toList <:+ a.filename.toList) ∧
      ∀ order context bundle, a ∈ order → (theme.bundle t context order).result = .ok bundle →
        ∃ source text, t.readText (theme.assetFile a) = .ok source ∧
          (chunk a.filename text).toList <:+: bundle.toList ∧
          (a.isLiquid = true → (process context source).result = .ok text) ∧
          (a.isLiquid = false → text = source) := by
  obtain ⟨filename, rfl⟩ := exists_eq_ofFilename hfiles ha
  change NamesLiquid filename kind at hname
  have hkind : (ofFilename filename).kind = kind := by
    rw [kind_ofFilename, Kind.ofFilename_of_namesLiquid hname]
  have htext : (ofFilename filename).isText = true := by
    rw [isText, hkind]
    cases hname <;> rfl
  refine ⟨hkind, isLiquid_ofFilename_iff, fun order context bundle horder hbundle => ?_⟩
  obtain ⟨shown, ⟨text, hshown, rfl⟩, hinfix⟩ := exists_isChunk_of_bundle hbundle horder htext
  obtain ⟨source, hsource, hprocessed, hcopied⟩ := exists_of_assetText hshown
  exact ⟨source, text, hsource, hinfix, hprocessed, hcopied⟩

/-- The name of a stylesheet in letters of both cases, all of them small in its last ending. -/
theorem bundle_namesLiquid_mixed :
    let theme : Theme := ⟨⟨0, ["theme"]⟩⟩
    let t : FileTree :=
      { workingDirectory := ["home"]
        entries := [(["home", "theme"], .directory), (["home", "theme", "assets"], .directory),
          (["home", "theme", "assets", "A.Css.liquid"], .file "a\x7b% x %\x7d".toUTF8)] }
    let context : Context := { settings := [], resolveUrl := .ok, keepBodies := false }
    let a := ofFilename "A.Css.liquid"
    theme.assets t = .ok [a] ∧ a.kind = .css ∧ a.isLiquid = true ∧
      ∃ bundle source text, (theme.bundle t context [a]).result = .ok bundle ∧
        t.readText (theme.assetFile a) = .ok source ∧ (process context source).result = .ok text ∧
          (chunk a.filename text).toList <:+: bundle.toList := by
  intro theme t context a
  have hfiles : theme.assets t = .ok [a] := except_eq_ok_of_toOption (by decide +kernel)
  have hname : NamesLiquid a.filename .css := .css (by decide)
  obtain ⟨hkind, hliquid, hbundle⟩ := bundle_namesLiquid hfiles List.mem_cons_self hname
  have hliquid : a.isLiquid = true := hliquid.2 (by decide)
  have hsome : (theme.bundle t context [a]).result.toOption.isSome = true := by decide +kernel
  obtain ⟨bundle, hsome⟩ := Option.isSome_iff_exists.1 hsome
  have hresult := except_eq_ok_of_toOption hsome
  obtain ⟨source, text, hsource, hinfix, hprocessed, -⟩ :=
    hbundle [a] context bundle List.mem_cons_self hresult
  exact ⟨hfiles, hkind, hliquid, bundle, source, text, hresult, hsource, hprocessed hliquid, hinfix⟩

/-- With the last ending in capitals a stylesheet is not taken for one with directives, and its
directives stand in the bundle. -/
theorem not_processed_capitals :
    let theme : Theme := ⟨⟨0, ["theme"]⟩⟩
    let t : FileTree :=
      { workingDirectory := ["home"]
        entries := [(["home", "theme"], .directory), (["home", "theme", "assets"], .directory),
          (["home", "theme", "assets", "theme.css.LIQUID"], .file "a\x7b% x %\x7d".toUTF8)] }
    let context : Context := { settings := [], resolveUrl := .ok, keepBodies := false }
    let a := ofFilename "theme.css.LIQUID"
    theme.assets t = .ok [a] ∧ NamesLiquid a.filename a.kind ∧ a.isLiquid = false ∧
      ∃ bundle, (theme.bundle t context [a]).result = .ok bundle ∧
        "\x7b% x %\x7d".toList <:+: bundle.toList := by
  intro theme t context a
  have hfiles : theme.assets t = .ok [a] := except_eq_ok_of_toOption (by decide +kernel)
  have hkind : a.kind = .css := by decide
  have hname : NamesLiquid a.filename a.kind := hkind ▸ .css (by decide)
  have hraw : ((theme.bundle t context [a]).result.toOption.map fun bundle =>
      decide ("\x7b% x %\x7d".toList <:+: bundle.toList)) = some true := by
    decide +kernel
  obtain ⟨bundle, hbundle, hraw⟩ := Option.map_eq_some_iff.1 hraw
  exact ⟨hfiles, hname, by decide, bundle, except_eq_ok_of_toOption hbundle,
    of_decide_eq_true hraw⟩

end Theme

end Storefront
