import Storefront.Command
import Storefront.Proofs.Json.Encoding
import Storefront.Proofs.Theme.Distinct

/-!
The text of a composed page. Whatever is encoded holds no comment and is decoded by the loader of
documents as what it was, so the page that the command prints can be read back from its text.
-/

namespace Storefront

/-! ### Pages as data -/

namespace SectionInstance

theorem Distinct.payload {s : SectionInstance} (h : s.Distinct) : s.payload.Distinct := by
  have hname : s.schemaName.Distinct := by
    unfold schemaName
    split
    · exact .str _
    · exact .null
  have hblock : ∀ b ∈ s.blocks, b.payload.Distinct := by
    intro b hb
    refine .map (show ["id", "type", "settings", "disabled"].Nodup by decide) ?_
    simp only [List.forall_mem_cons]
    exact ⟨.str _, .str _, h.blocks b hb, .bool _, List.forall_mem_nil _⟩
  refine .map (show ["id", "type", "name", "region", "index", "disabled", "settings",
    "block_order", "blocks"].Nodup by decide) ?_
  simp only [List.forall_mem_cons]
  exact ⟨.str _, .str _, hname, .str _, .number _, .bool _, h.settings,
    .list_map fun id _ => .str id, .list_map hblock, List.forall_mem_nil _⟩

end SectionInstance

theorem Page.distinct_payload {page : Page} (h : ∀ s ∈ page.sections, s.Distinct) :
    page.payload.Distinct := by
  refine .map (show ["layout", "sections"].Nodup by decide) ?_
  simp only [List.forall_mem_cons]
  exact ⟨.str _, .list_map fun s hs => (h s hs).payload, List.forall_mem_nil _⟩

namespace Command

variable {host : Host} {t : FileTree} {options : Options} {page : Page}

theorem distinct_of_composePage (h : (composePage host t options).result = .ok page) :
    page.payload.Distinct := by
  obtain ⟨config, -, h⟩ := Outcome.bind_eq_ok.1 h
  obtain ⟨-, hdistinct⟩ := (themeOf config).ensures_compose_distinct t (templateOf options config)
    .empty SchemaCache.served_empty
  exact Page.distinct_payload (hdistinct page h)

/-- Whatever the console can show, a value can be printed on it as JSON. -/
theorem run_printLine_encode (host : Host) (style : Json.Style) (v : Value) (console : Console) :
    (Work.printLine host (Json.encode style v)).run console =
      (.ok (), { console with printed := console.printed ++ (Json.encode style v ++ "\n") }) :=
  Work.run_printLine_of_shows (host.shows_of_ascii _ (Json.ascii_encode style v)) console

/-- A page that can be composed is printed on lines of its own. -/
theorem run_compose_of_ok (houtput : options.output = none)
    (h : (composePage host t options).result = .ok page) :
    (run host t options .compose).1 = .ok () ∧
      (run host t options .compose).2.printed = Json.encode .indented page.payload ++ "\n" := by
  have hread : (Work.read (composePage host · options)).run { tree := t } =
      (.ok page, { tree := t, warnings := (composePage host t options).warnings }) := by
    rw [Work.run_read, h, List.nil_append]
  have hrun : run host t options .compose = _ := Work.run_bind_of_ok hread _
  rw [hrun, houtput]
  show (Prod.fst ((Work.printLine host _).run _)) = _ ∧
    (Prod.snd ((Work.printLine host _).run _)).printed = _
  rw [run_printLine_encode]
  exact ⟨rfl, String.empty_append⟩

/-- Encoded data holds no comment, on one line as on many, and it is decoded as what it was, with all
keys in their places. So a page that is composed is printed as a text that is decoded as its data.
Floating-point numbers are assumed to survive printing and reading. -/
theorem encode_survives :
    (∀ style v, Json.stripComments (Json.encode style v).toList = (Json.encode style v).toList) ∧
    (∀ v, Json.Data v → ∀ style source,
      Document.decode source (Json.encode style v) = .ok v) ∧
    ∀ host t options page, options.output = none →
      (composePage host t options).result = .ok page →
      ∃ text, (run host t options .compose).1 = .ok () ∧
        (run host t options .compose).2.printed = text ∧
        ((∀ x ∈ page.payload.floats, Json.Survives (.float x)) →
          ∀ source, Document.decode source text = .ok page.payload) := by
  refine ⟨fun style v => ?_, fun v hv style source => ?_,
    fun host t options page houtput hpage => ?_⟩
  · have hkept := Json.stripComments_encodeAt style 0 v (List.forall_mem_nil _)
    rw [List.append_nil] at hkept
    rw [Json.encode, String.toList_ofList, hkept]
  · have hread := Json.decodeCommented_encodeAt hv style (List.forall_mem_nil _) (.inl rfl)
    rw [List.append_nil] at hread
    rw [Document.decode, Json.encode, String.toList_ofList, hread]
    rfl
  · obtain ⟨hdone, hprinted⟩ := run_compose_of_ok houtput hpage
    refine ⟨_, hdone, hprinted, fun hfloats source => ?_⟩
    have hdata : Json.Data page.payload := .of_distinct (distinct_of_composePage hpage) hfloats
    have hline : ∀ c ∈ ['\n'], Json.isSpace c = true := List.forall_mem_singleton.2 rfl
    have hread := Json.decodeCommented_encodeAt hdata .indented hline
      (.inr ⟨[], .inr (.inr (.inr rfl))⟩)
    have htext : (Json.encode .indented page.payload ++ "\n").toList =
        Json.encodeAt .indented 0 page.payload ++ ['\n'] := by
      rw [String.toList_append, Json.encode, String.toList_ofList]
      rfl
    rw [Document.decode, htext, hread]
    rfl

/-- Marks of comments, quotes, backslashes and characters of two units, in data and on a page. -/
theorem encode_survives_marks :
    let half : Binary64 := .finite false 4503599627370496 (-53)
    let v : Value := .map [("//", .list [.str "/*\"\\é😀", .number (.float half), .map []]),
      ("", .null)]
    let index := "\x7b\"sections\":\x7b\"a\":\x7b\"type\":\"hero\",\"settings\":\x7b\"//\":0.5," ++
      "\"url\":[\"https://x/*\"]\x7d\x7d\x7d,\"order\":[\"a\"]\x7d // end"
    let t : FileTree :=
      { workingDirectory := ["home"]
        entries := [(["home", "theme"], .directory), (["home", "theme", "templates"], .directory),
          (["home", "theme", "templates", "index.json"], .file index.toUTF8)] }
    let options : Options := ⟨Config.defaultPath, none, none, none⟩
    Json.Data v ∧ (∀ style, Document.decode "document" (Json.encode style v) = .ok v) ∧
      ∃ page text, (composePage .standard t options).result = .ok page ∧
        page.payload.floats = [half] ∧ (run .standard t options .compose).1 = .ok () ∧
        (run .standard t options .compose).2.printed = text ∧
          Document.decode "document" text = .ok page.payload := by
  intro half v index t options
  obtain ⟨-, hdecode, hcompose⟩ := encode_survives
  have hhalf : Json.Survives (.float (.finite false 4503599627370496 (-53))) := by rfl
  have hv : Json.Data v := by
    refine .map (by decide) (List.forall_mem_cons.2 ⟨?_, List.forall_mem_singleton.2 .null⟩)
    refine .list (List.forall_mem_cons.2 ⟨.str _, List.forall_mem_cons.2 ⟨?_, ?_⟩⟩)
    · refine .number fun x hx => ?_
      cases hx
      exact hhalf
    · exact List.forall_mem_singleton.2 (.map List.nodup_nil (List.forall_mem_nil _))
  have hfloats : (composePage .standard t options).result.toOption.map (·.payload.floats) =
      some [half] := by
    decide +kernel
  cases hpage : (composePage .standard t options).result with
  | error e => simp [hpage, Except.toOption] at hfloats
  | ok page =>
    rw [hpage] at hfloats
    have hfloats : page.payload.floats = [half] := Option.some.inj hfloats
    obtain ⟨text, hdone, hprinted, hread⟩ := hcompose .standard t options page rfl hpage
    refine ⟨hv, fun style => hdecode v hv style _, page, text, rfl, hfloats, hdone, hprinted,
      hread ?_ _⟩
    rw [hfloats]
    exact List.forall_mem_singleton.2 hhalf

end Command

end Storefront
