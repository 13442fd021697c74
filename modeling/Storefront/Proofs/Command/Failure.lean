import Storefront.Command
import Storefront.Proofs.FileTree.Writing
import Storefront.Proofs.Json.Encoding

/-!
Commands that fail. A command makes nothing and prints nothing before it has read everything, and
where a file cannot be made, no directory has been made for it. What can still remain of a command
that fails is what it has done before it comes upon a name that the system refuses, a text that
cannot be encoded or a line that cannot be shown.
-/

namespace Storefront

/-! ### Lines -/

namespace Work

variable {host : Host} {console after : Console} {line : String} {e : Error} {lines : List String}

theorem run_printLine_of_error (h : (printLine host line).run console = (.error e, after)) :
    host.shows line = false ∧ e = .notShowable ∧ after = console := by
  cases hshows : host.shows line with
  | true => cases (run_printLine_of_shows hshows console).symm.trans h
  | false =>
    cases (run_printLine_of_not_shows hshows console).symm.trans h
    exact ⟨rfl, rfl, rfl⟩

/-- Lines are printed up to one that cannot be shown. -/
theorem run_forM_printLine_of_not_shows {shown rest : List String}
    (hshown : ∀ s ∈ shown, host.shows s = true) (hshows : host.shows line = false)
    (console : Console) : ((shown ++ line :: rest).forM (printLine host)).run console =
      (.error .notShowable,
        { console with printed := console.printed ++ String.join (shown.map (· ++ "\n")) }) := by
  induction shown generalizing console with
  | nil =>
    refine (run_bind_of_error (run_printLine_of_not_shows hshows console) _).trans ?_
    simp
  | cons first shown ih =>
    obtain ⟨hfirst, hshown⟩ := List.forall_mem_cons.1 hshown
    refine (run_bind_of_ok (run_printLine_of_shows hfirst console) _).trans ((ih hshown _).trans ?_)
    simp [String.append_assoc]

/-- A failure comes from the first line that cannot be shown. -/
theorem exists_of_run_forM_printLine
    (h : (lines.forM (printLine host)).run console = (.error e, after)) :
    ∃ shown line rest, lines = shown ++ line :: rest ∧ (∀ s ∈ shown, host.shows s = true) ∧
      host.shows line = false := by
  induction lines generalizing console with
  | nil => cases h
  | cons line lines ih =>
    cases hshows : host.shows line with
    | false => exact ⟨[], line, lines, rfl, List.forall_mem_nil _, hshows⟩
    | true =>
      have hprinted := run_printLine_of_shows hshows console
      obtain ⟨shown, refused, rest, rfl, hshown, hrefused⟩ :=
        ih ((run_bind_of_ok hprinted _).symm.trans h)
      exact ⟨line :: shown, refused, rest, rfl, List.forall_mem_cons.2 ⟨hshows, hshown⟩, hrefused⟩

end Work

/-! ### What a command gives -/

namespace Command

/-- What a command has to give when it has read everything. -/
inductive Output where
  | file (p : Path) (text : String)
  | lines (ls : List String)

namespace Output

/-- The text for a file, or to be printed. -/
def ofText (p : Option Path) (text : String) : Output := p.elim (.lines [text]) (.file · text)

def texts : Output → List String
  | .file _ text => [text]
  | .lines ls => ls

def give (host : Host) : Output → Work Unit
  | .file p text => do
    .save host p text
    tellWritten host p
  | .lines ls => ls.forM (.printLine host)

end Output

def findingLines (asJson : Bool) (page : Page) : List String :=
  let all := findings page
  if asJson then [Json.encode .indented (.list (all.map fun f => findingPayload f.1 f.2))]
  else if all.isEmpty then [s!"{page.sections.length} sections, no issues"]
  else all.map fun f => findingLine f.1 f.2

def output (host : Host) (options : Options) (t : FileTree) : Command → Outcome Error Output
  | .compose => do
    let page ← composePage host t options
    return .ofText options.output (Json.encode .indented page.payload)
  | .validate asJson => do
    let page ← composePage host t options
    return .lines (findingLines asJson page)
  | .sections => do
    let catalog ← readCatalog host t options
    return .lines (catalog.map sectionLine)
  | .asset path => do
    let text ← processAsset host t options path
    return .ofText options.output text
  | .bundle stylesheets => do
    let text ← bundleAssets host t options stylesheets
    return .ofText options.output text
  | .report generated => do
    let config ← .ofExcept (resolveConfig host t options)
    let report ← fresh (buildReport (themeOf config) t (templateOf options config))
    return .file (options.output.getD config.reportOutput) (report.html generated)

section perform

variable (host : Host) (options : Options)

theorem give_line (line : String) :
    (Output.lines [line]).give host = .printLine host line :=
  bind_pure (Work.printLine host line)

theorem emit_eq (p : Option Path) (text : String) :
    emit host p text = (Output.ofText p text).give host := by
  cases p with
  | none => exact (give_line host text).symm
  | some p => rfl

theorem printFindings_eq (asJson : Bool) (page : Page) :
    printFindings host asJson page = (Output.lines (findingLines asJson page)).give host := by
  rw [printFindings, findingLines]
  split
  · exact (give_line host _).symm
  · split
    · exact (give_line host _).symm
    · exact List.forM_map.symm

theorem read_give {α : Type} {f : FileTree → Outcome Error α} {work : α → Work Unit}
    {g : α → Output} (h : ∀ a, work a = (g a).give host) : Work.read f >>= work =
      (Work.read fun t => do return g (← f t)) >>= fun out => out.give host := by
  rw [Work.read_map_bind]
  exact bind_congr h

/-- A command reads everything, and then it gives what it has made of that. -/
theorem perform_eq (command : Command) : perform host options command =
    Work.read (output host options · command) >>= fun out => out.give host := by
  cases command with
  | compose => exact read_give host fun page => emit_eq host _ _
  | validate asJson => exact read_give host fun page => printFindings_eq host asJson page
  | sections => exact read_give host fun catalog => List.forM_map.symm
  | asset path => exact read_give host fun text => emit_eq host _ text
  | bundle stylesheets => exact read_give host fun text => emit_eq host _ text
  | report generated =>
    have hread := Work.read_bind (fun t => .ofExcept (resolveConfig host t options))
      fun config t => do
        let report ← fresh (buildReport (themeOf config) t (templateOf options config))
        return Output.file (options.output.getD config.reportOutput) (report.html generated)
    refine Eq.trans ?_ (congrArg (· >>= fun out => out.give host) hread)
    refine Eq.trans (bind_congr fun config => ?_) (LawfulMonad.bind_assoc _ _ _).symm
    refine (LawfulMonad.bind_assoc _ _ _).trans ?_
    exact read_give host fun report => rfl

end perform

/-- JSON can be written and shown by whatever system there is. -/
theorem encodes_and_shows_of_json {host : Host} {options : Options} {t : FileTree}
    {command : Command} {out : Output} (hcommand : command = .compose ∨ command = .validate true)
    (h : (output host options t command).result = .ok out) :
    ∀ s ∈ out.texts, host.encodes s = true ∧ host.shows s = true := by
  have hjson (v : Value) : host.encodes (Json.encode .indented v) = true ∧
      host.shows (Json.encode .indented v) = true :=
    ⟨host.encodes_of_ascii _ (Json.ascii_encode _ v), host.shows_of_ascii _ (Json.ascii_encode _ v)⟩
  rcases hcommand with rfl | rfl
  · obtain ⟨page, -, hout⟩ := Outcome.bind_eq_ok.1 h
    cases hout
    cases options.output with
    | none => exact List.forall_mem_singleton.2 (hjson _)
    | some p => exact List.forall_mem_singleton.2 (hjson _)
  · obtain ⟨page, -, hout⟩ := Outcome.bind_eq_ok.1 h
    cases hout
    exact List.forall_mem_singleton.2 (hjson _)

/-! ### What remains -/

/-- A file is opened in directories that are made for it. It is empty now. -/
def Opens (t : FileTree) (p : Path) (t' : FileTree) (place : Location) : Prop :=
  ∃ between, t.makeParents p = (between, .ok ()) ∧ between.openFile p = .ok (t', place)

/-- What is left on a tree, and of what is printed, by a command that fails while it gives what it
has to give. -/
inductive Remains (host : Host) (t : FileTree) (printed : String) :
    Output → Error → FileTree → String → Prop
  /-- Directories for a file whose name the system refuses. -/
  | directories {p : Path} {text name : String} {t' : FileTree}
    (hname : p.names.getLast? = some name) (hrefuses : t.refuses name = true)
    (hmade : t.makeParents p = (t', .ok ())) :
    Remains host t printed (.file p text) (.file .unusableName) t' printed
  /-- An empty file, for a text that cannot be encoded. -/
  | emptyFile {p : Path} {text : String} {t' : FileTree} {place : Location}
    (hopens : Opens t p t' place) (hencodes : host.encodes text = false) :
    Remains host t printed (.file p text) .notEncodable t' printed
  /-- The file, of which it cannot be shown where it has been written. -/
  | file {p : Path} {text : String} {t' : FileTree} {place : Location}
    (hopens : Opens t p t' place) (hencodes : host.encodes text = true)
    (hshows : host.shows (writtenLine (t'.set place (.file text.toUTF8)) p) = false) :
    Remains host t printed (.file p text) .notShowable (t'.set place (.file text.toUTF8)) printed
  /-- The lines before one that cannot be shown. -/
  | lines {shown : List String} {line : String} {rest : List String}
    (hshown : ∀ s ∈ shown, host.shows s = true) (hshows : host.shows line = false) :
    Remains host t printed (.lines (shown ++ line :: rest)) .notShowable t
      (printed ++ String.join (shown.map (· ++ "\n")))

variable {host : Host} {options : Options} {command : Command} {console after : Console}
  {p : Path} {text : String} {out : Output} {e : Error}

section save

variable {t : FileTree} {place : Location} {trouble : FileTrouble}

theorem run_save_of_makeParents (hmade : console.tree.makeParents p = (t, .error trouble)) :
    (Work.save host p text).run console =
      (.error (.file trouble), { console with tree := t }) :=
  Work.run_bind_of_error (Work.run_change_of_error hmade) _

theorem run_save_of_openFile (hmade : console.tree.makeParents p = (t, .ok ()))
    (hopen : t.openFile p = .error trouble) : (Work.save host p text).run console =
      (.error (.file trouble), { console with tree := t }) :=
  (Work.run_bind_of_ok (Work.run_change_of_ok hmade) _).trans
    (Work.run_bind_of_error (Work.run_openFile_of_error hopen) _)

theorem run_save_of_opens (h : Opens console.tree p t place) : (Work.save host p text).run console =
    (Work.fill host place text).run { console with tree := t } := by
  obtain ⟨between, hmade, hopen⟩ := h
  have hopened : (Work.openFile p).run { console with tree := between } =
      (.ok place, { console with tree := t }) := Work.run_openFile_of_ok hopen
  exact (Work.run_bind_of_ok (Work.run_change_of_ok hmade) _).trans
    (Work.run_bind_of_ok hopened _)

end save

theorem run_tellWritten (host : Host) (p : Path) (console : Console) :
    (tellWritten host p).run console =
      (Work.printLine host (writtenLine console.tree p)).run console := by
  have hread : (Work.read fun t => Outcome.pure (writtenLine t p)).run console =
      (.ok (writtenLine console.tree p), console) := by
    show (Except.ok _, Console.mk console.tree console.printed (console.warnings ++ [])) = _
    rw [List.append_nil]
  exact Work.run_bind_of_ok hread _

theorem remains_of_run_give (ht : console.tree.WellFormed)
    (hplain : ∀ p text, out = .file p text → p.IsPlain)
    (h : (out.give host).run console = (.error e, after)) :
    after.tree = console.tree ∧ after.printed = console.printed ∨
      Remains host console.tree console.printed out e after.tree after.printed := by
  cases out with
  | lines ls =>
    obtain ⟨shown, line, rest, rfl, hshown, hshows⟩ := Work.exists_of_run_forM_printLine h
    cases (Work.run_forM_printLine_of_not_shows hshown hshows console).symm.trans h
    exact .inr (.lines hshown hshows)
  | file p text =>
    have hp : p.IsPlain := hplain p text rfl
    rcases hmade : console.tree.makeParents p with ⟨t, trouble | done⟩
    · cases (Work.run_bind_of_error (run_save_of_makeParents hmade) _).symm.trans h
      exact .inl ⟨ht.makeParents_of_error hp hmade, rfl⟩
    rcases hopen : t.openFile p with trouble | ⟨t', place⟩
    · cases (Work.run_bind_of_error (run_save_of_openFile hmade hopen) _).symm.trans h
      rcases ht.makeParents_of_openFile hp hmade hopen with rfl | ⟨rfl, name, hname, hrefuses⟩
      · exact .inl ⟨rfl, rfl⟩
      · exact .inr (.directories hname hrefuses hmade)
    have hopens : Opens console.tree p t' place := ⟨t, hmade, hopen⟩
    cases hencodes : host.encodes text with
    | false =>
      have hsave := (run_save_of_opens hopens).trans
        (Work.run_fill_of_not_encodes hencodes place _)
      cases (Work.run_bind_of_error hsave _).symm.trans h
      exact .inr (.emptyFile hopens hencodes)
    | true =>
      have hsave := (run_save_of_opens hopens).trans (Work.run_fill_of_encodes hencodes place _)
      have htell := (Work.run_bind_of_ok hsave _).symm.trans h
      rw [run_tellWritten] at htell
      obtain ⟨hshows, rfl, rfl⟩ := Work.run_printLine_of_error htell
      exact .inr (.file hopens hencodes hshows)

/-- Whatever can remain is what the command leaves. -/
theorem run_give_of_remains (ht : console.tree.WellFormed)
    (hplain : ∀ p text, out = .file p text → p.IsPlain) {t : FileTree} {printed : String}
    (h : Remains host console.tree console.printed out e t printed) :
    (out.give host).run console = (.error e, { console with tree := t, printed := printed }) := by
  cases h with
  | directories hname hrefuses hmade =>
    rw [← ht.refuses_makeParents (hplain _ _ rfl) hmade] at hrefuses
    have hopen := FileTree.openFile_of_refuses (List.mem_of_getLast? hname) hrefuses
    exact Work.run_bind_of_error (run_save_of_openFile hmade hopen) _
  | emptyFile hopens hencodes =>
    have hsave := (run_save_of_opens hopens).trans (Work.run_fill_of_not_encodes hencodes _ _)
    exact Work.run_bind_of_error hsave _
  | file hopens hencodes hshows =>
    have hsave := (run_save_of_opens hopens).trans (Work.run_fill_of_encodes hencodes _ _)
    refine (Work.run_bind_of_ok hsave _).trans ((run_tellWritten host _ _).trans ?_)
    exact Work.run_printLine_of_not_shows hshows _
  | lines hshown hshows => exact Work.run_forM_printLine_of_not_shows hshown hshows console

/-- A command that fails leaves the tree and what is printed as they were, or it has read everything
and come upon a name that the system refuses, a text that cannot be encoded or a line that cannot be
shown; and where it comes upon one it fails, and what it has done before remains. What is given as
JSON can be encoded and shown. The names of the file to be written lead nowhere up and are not too
long. -/
theorem perform_of_error (ht : console.tree.WellFormed)
    (hplain : ∀ p text, (output host options console.tree command).result = .ok (.file p text) →
      p.IsPlain) :
    (∀ e after, (perform host options command).run console = (.error e, after) →
      after.tree = console.tree ∧ after.printed = console.printed ∨
        ∃ out, (output host options console.tree command).result = .ok out ∧
          Remains host console.tree console.printed out e after.tree after.printed) ∧
    ∀ out, (output host options console.tree command).result = .ok out →
      (∀ e t printed, Remains host console.tree console.printed out e t printed →
        ∃ after, (perform host options command).run console = (.error e, after) ∧
          after.tree = t ∧ after.printed = printed) ∧
      (command = .compose ∨ command = .validate true →
        ∀ s ∈ out.texts, host.encodes s = true ∧ host.shows s = true) := by
  have hread := Work.run_read (output host options · command) console
  rw [perform_eq]
  refine ⟨fun e after h => ?_, fun out hout => ⟨fun e t printed h => ?_, fun hcommand =>
    encodes_and_shows_of_json hcommand hout⟩⟩
  · cases hout : (output host options console.tree command).result with
    | error e' =>
      rw [hout] at hread
      cases (Work.run_bind_of_error hread _).symm.trans h
      exact .inl ⟨rfl, rfl⟩
    | ok out =>
      rw [hout] at hread
      have hgive := (Work.run_bind_of_ok hread _).symm.trans h
      have hkept := remains_of_run_give (by exact ht)
        (fun p text heq => hplain p text (heq ▸ hout)) hgive
      exact hkept.imp_right fun hremains => ⟨out, rfl, hremains⟩
  · rw [hout] at hread
    refine ⟨_, (Work.run_bind_of_ok hread _).trans (run_give_of_remains (by exact ht) ?_ h), ?_⟩
    · exact fun p text heq => hplain p text (heq ▸ hout)
    · exact ⟨rfl, rfl⟩

/-- A file that is to be written below another one. -/
theorem perform_of_error_below :
    let t : FileTree :=
      { workingDirectory := ["home"]
        entries := [(["home", "theme"], .directory), (["home", "theme", "assets"], .directory),
          (["home", "theme", "assets", "a.css"], .file "p".toUTF8),
          (["home", "out"], .file "".toUTF8)] }
    let options : Options := ⟨Config.defaultPath, none, none, some ⟨0, ["out", "new", "a.css"]⟩⟩
    let command : Command := .asset ⟨0, ["a.css"]⟩
    t.WellFormed ∧
      (∀ p text, (output .standard options t command).result = .ok (.file p text) → p.IsPlain) ∧
      ∃ after, (perform .standard options command).run { tree := t, printed := "before" } =
        (.error (.file .notADirectory), after) ∧ after.tree = t ∧ after.printed = "before" := by
  intro t options command
  have ht : t.WellFormed := by decide +kernel
  have hplain : ∀ p text, (output .standard options t command).result = .ok (.file p text) →
      p.IsPlain := by
    intro p text hout
    obtain ⟨text', -, hout⟩ := Outcome.bind_eq_ok.1 hout
    cases hout
    refine List.forall_mem_cons.2 ⟨⟨by decide, by decide⟩, ?_⟩
    refine List.forall_mem_cons.2 ⟨⟨by decide, by decide⟩, ?_⟩
    exact List.forall_mem_singleton.2 ⟨by decide, by decide⟩
  obtain ⟨after, hfails⟩ : ∃ after, (perform .standard options command).run
      { tree := t, printed := "before" } = (.error (.file .notADirectory), after) :=
    ⟨_, Prod.ext (by rfl) rfl⟩
  obtain hkept | ⟨out, -, hremains⟩ :=
    (perform_of_error (by exact ht) (by exact hplain)).1 _ _ hfails
  · exact ⟨ht, hplain, after, hfails, hkept⟩
  · cases hremains

/-- No text with U+FFFD can be written, as where that stands for half of a pair. -/
def withoutHalves : Host where
  readYaml := Yaml.Data.ofText
  objects := .texts
  encodes s := !s.toList.contains '\ufffd'
  shows _ := true
  encodes_of_ascii s h := by
    rw [Bool.not_eq_true', ← Bool.not_eq_true, List.contains_iff_mem]
    exact fun hmem => absurd (h _ hmem) (by decide)
  shows_of_ascii _ _ := rfl

/-- A report whose file has a name that no system takes leaves the directory for it, and an asset with
half of a pair leaves an empty file. -/
theorem exists_remains_of_run :
    let index := "\x7b\"sections\": \x7b\x7d, \"order\": []\x7d"
    let config := "report_output: \"new/re\\0port.html\""
    let data := "\x7b\"current\": \x7b\"x\": \"\\ud800\"\x7d\x7d"
    let t : FileTree :=
      { workingDirectory := ["home"]
        entries := [(["home", "theme-pages.yaml"], .file config.toUTF8),
          (["home", "theme"], .directory), (["home", "theme", "assets"], .directory),
          (["home", "theme", "assets", "a.css"], .file "\x7b\x7b settings.x \x7d\x7d".toUTF8),
          (["home", "theme", "config"], .directory),
          (["home", "theme", "config", "settings_data.json"], .file data.toUTF8),
          (["home", "theme", "templates"], .directory),
          (["home", "theme", "templates", "index.json"], .file index.toUTF8)] }
    let options : Options := ⟨Config.defaultPath, none, none, none⟩
    let output : Path := ⟨0, ["new", "a.css"]⟩
    let report := run .standard t options (.report "")
    let asset := run withoutHalves t { options with output := output } (.asset ⟨0, ["a.css"]⟩)
    t.WellFormed ∧ t.entry? ["home", "new"] = none ∧
      report.1.mapError Error.message = .error "The file name holds what no name can hold." ∧
      report.2.tree.isDirectoryAt ["home", "new"] = true ∧
      asset.1.mapError Error.message = .error "The text cannot be encoded in UTF-8." ∧
      (asset.2.tree.readText output).toOption = some "" := by
  intro index config data t options output report asset
  refine ⟨by decide +kernel, rfl, ?_⟩
  decide +kernel

end Command

end Storefront
