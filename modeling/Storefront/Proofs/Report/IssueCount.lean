import Mathlib.Algebra.GroupWithZero.Nat
import Storefront.Proofs.Report.Markup
import Storefront.Proofs.Text.Occurrence

/-!
The issues that a report lists, counted in its text.
-/

namespace Storefront.Report

open Text

/-- What the item of an issue begins with, character by character: this is faster to compare than
the characters of a string. -/
def itemOpening : List Char :=
  ['<', 'l', 'i', ' ', 'c', 'l', 'a', 's', 's', '=', '"', 'i', 's', 's', 'u', 'e', '-']

/-- What stands before the number of issues. -/
def countOpening : List Char :=
  ['<', 's', 'p', 'a', 'n', ' ', 'c', 'l', 'a', 's', 's', '=', '"', 'i', 's', 's', 'u', 'e', '-',
    'c', 'o', 'u', 'n', 't', '"', '>']

theorem toList_itemOpening : "<li class=\"issue-".toList = itemOpening := String.toList_ofList

theorem toList_countOpening : "<span class=\"issue-count\">".toList = countOpening :=
  String.toList_ofList

/-- So many items of issues begin in the text, and so many numbers of issues. -/
structure Shows (items counts : Nat) (s : String) : Prop where
  items : Brings itemOpening items s.toList
  counts : Brings countOpening counts s.toList

/-- In a text that is written out both can be counted, if it does not end within an opening. -/
def showsExactly (items counts : Nat) (s : List Char) : Bool :=
  isClosed itemOpening s && isClosed countOpening s &&
    occurrences itemOpening s = items && occurrences countOpening s = counts

variable {s t x : String} {m n m' n' : Nat}

namespace Shows

theorem append (hs : Shows m n s) (ht : Shows m' n' t) : Shows (m + m') (n + n') (s ++ t) := by
  constructor
  · rw [String.toList_append]
    exact hs.items.append ht.items
  · rw [String.toList_append]
    exact hs.counts.append ht.counts

theorem fixed {text : List Char} (h : showsExactly m n text = true := by decide +kernel) :
    Shows m n (.ofList text) := by
  simp only [showsExactly, Bool.and_eq_true, decide_eq_true_eq] at h
  obtain ⟨⟨⟨hitem, hcount⟩, rfl⟩, rfl⟩ := h
  constructor
  · rw [String.toList_ofList]
    exact .of_isClosed hitem
  · rw [String.toList_ofList]
    exact .of_isClosed hcount

theorem silent (h : Silent s) : Shows 0 0 s := by
  have hopen : '<' ∉ s.toList := fun hmem => by cases h _ hmem
  exact ⟨.of_not_mem hopen, .of_not_mem hopen⟩

/-- A text comes after that shows nothing. -/
theorem after (hs : Shows m n s) (ht : Shows 0 0 t) : Shows m n (s ++ t) := hs.append ht

/-- A text comes before that shows nothing. -/
theorem before (hs : Shows 0 0 s) (ht : Shows m n t) : Shows m n (s ++ t) := by
  simpa using hs.append ht

/-- A text without markup comes next, and then one that is written out. -/
theorem around {text : List Char} (hs : Shows m n s) (hx : Silent x)
    (htext : showsExactly 0 0 text = true := by decide +kernel) :
    Shows m n (s ++ x ++ .ofList text) :=
  (hs.after (silent hx)).after (fixed htext)

end Shows

/-- So many items begin in lines, and so many numbers. -/
inductive ShowAll : Nat → Nat → List String → Prop
  | nil : ShowAll 0 0 []
  | cons {line : String} {lines : List String} {m n m' n' : Nat} :
      Shows m n line → ShowAll m' n' lines → ShowAll (m + m') (n + n') (line :: lines)

namespace ShowAll

variable {lines lines' : List String}

theorem append (h : ShowAll m n lines) (h' : ShowAll m' n' lines') :
    ShowAll (m + m') (n + n') (lines ++ lines') := by
  induction h with
  | nil => simpa using h'
  | @cons line lines k l k' l' hline _ ih =>
    rw [Nat.add_assoc, Nat.add_assoc]
    exact .cons hline ih

/-- Lines come after that show nothing. -/
theorem after (h : ShowAll m n lines) (h' : ShowAll 0 0 lines') : ShowAll m n (lines ++ lines') :=
  h.append h'

/-- Lines come before that show nothing. -/
theorem before (h : ShowAll 0 0 lines) (h' : ShowAll m n lines') :
    ShowAll m n (lines ++ lines') := by
  simpa using h.append h'

/-- A line is followed by others that show nothing. -/
theorem lead (hs : Shows m n s) (h : ShowAll 0 0 lines) : ShowAll m n (s :: lines) := .cons hs h

/-- A line comes first that shows nothing. -/
theorem cons_quiet (hs : Shows 0 0 s) (h : ShowAll m n lines) : ShowAll m n (s :: lines) := by
  simpa using ShowAll.cons hs h

theorem quiet (h : ∀ line ∈ lines, Shows 0 0 line) : ShowAll 0 0 lines := by
  induction lines with
  | nil => exact .nil
  | cons line lines ih =>
    obtain ⟨hline, hlines⟩ := List.forall_mem_cons.1 h
    exact .cons hline (ih hlines)

theorem single (h : Shows m n s) : ShowAll m n [s] := .cons h .nil

theorem flatMap {α : Type} {f : α → List String} {items counts : α → Nat}
    (h : ∀ a, ShowAll (items a) (counts a) (f a)) (as : List α) :
    ShowAll (as.map items).sum (as.map counts).sum (as.flatMap f) := by
  induction as with
  | nil => exact .nil
  | cons a as ih => exact (h a).append ih

theorem map {α : Type} {f : α → String} (h : ∀ a, Shows m n (f a)) (as : List α) :
    ShowAll (as.length * m) (as.length * n) (as.map f) := by
  induction as with
  | nil => simpa using ShowAll.nil
  | cons a as ih =>
    rw [List.length_cons, Nat.succ_mul, Nat.succ_mul, Nat.add_comm _ m, Nat.add_comm _ n]
    exact .cons (h a) ih

theorem intercalate (h : ShowAll m n lines) : Shows m n ("\n".intercalate lines) := by
  induction h with
  | nil => exact .silent (List.forall_mem_nil _)
  | @cons line lines k l k' l' hline hlines ih =>
    cases lines with
    | nil =>
      cases hlines
      rwa [String.intercalate_singleton]
    | cons next lines =>
      have hbreak : Shows 0 0 "\n" := .silent (by decide)
      rw [String.intercalate_cons_cons]
      exact (hline.append hbreak).append ih

end ShowAll

/-! ### The parts of a report -/

theorem showAll_head (name : String) : ShowAll 0 0 (head name) := by
  refine .quiet ?_
  simp only [head, List.forall_mem_cons]
  refine ⟨.fixed, .fixed, .fixed, .fixed, .around .fixed (.escape name), .fixed, .fixed, .fixed,
    .after .fixed .fixed, .fixed, .fixed, .fixed, .fixed, .fixed, List.forall_mem_nil _⟩

theorem showAll_summary (r : Report) : ShowAll 0 1 r.summary := by
  have hcount : Shows 0 1 s!"<span class=\"issue-count\">{r.issueCount}</span> issues.</p>" :=
    .around .fixed (.nat _)
  rw [summary]
  exact .cons_quiet .fixed (.cons_quiet (.around .fixed (.escape _))
    (.cons_quiet (.around .fixed (.escape _)) (.lead (.before (.around .fixed (.nat _)) hcount)
      (.single .fixed))))

theorem showAll_settingsTable (settings : List (String × String)) :
    ShowAll 0 0 (settingsTable settings) := by
  cases settings with
  | nil => exact .nil
  | cons first settings =>
    rw [settingsTable]
    · refine .after (.before (.cons_quiet .fixed (.single .fixed)) (.quiet fun line hline => ?_))
        (.single .fixed)
      obtain ⟨⟨key, value⟩, -, rfl⟩ := List.mem_map.1 hline
      exact .around (.around .fixed (.escape key)) (.escape value)
    · exact List.cons_ne_nil _ _

theorem shows_issueItem (i : Issue) : Shows 1 0 (issueItem i) := by
  unfold issueItem
  exact .after (.around (.around .fixed (.severityText _)) (.escape _))
    (.after (.silent (.escape _)) .fixed)

theorem showAll_issueList (issues : List Issue) : ShowAll issues.length 0 (issueList issues) := by
  have hitems : ShowAll issues.length 0 (issues.map issueItem) := by
    simpa using ShowAll.map shows_issueItem issues
  cases issues with
  | nil => exact .nil
  | cons first issues =>
    rw [issueList]
    · exact .after (.before (.single .fixed) hitems) (.single .fixed)
    · exact List.cons_ne_nil _ _

theorem showAll_lines (e : Entry) : ShowAll e.issues.length 0 e.lines := by
  have hclass : Silent (if e.disabled then " section-disabled" else "") := by
    split <;> decide
  unfold Entry.lines
  refine .after (.before (.after (.after (.after ?_ ?_) (showAll_settingsTable _)) ?_)
    (showAll_issueList _)) (.single .fixed)
  · refine .cons_quiet (.after (.around (.around .fixed hclass) (.escape _)) ?_) (.single ?_)
    · exact .around (.around .fixed (.regionName _)) (.nat _)
    · exact .around (.around (.around (.around .fixed (.nat _)) (.escape _)) (.regionName _))
        (.escape _)
  · split
    · exact .nil
    · exact .single (.around .fixed (.escape _))
  · exact .single (.around .fixed (.nat _))

theorem showAll_catalogTable (catalog : List Theme.SectionInfo) :
    ShowAll 0 0 (catalogTable catalog) := by
  have hrow (info : Theme.SectionInfo) : ShowAll 0 0 (catalogRow info) := by
    unfold catalogRow
    exact .cons_quiet .fixed (.cons_quiet (.around .fixed (.escape _))
      (.cons_quiet (.around .fixed (.escape _)) (.cons_quiet (.around .fixed (.escape _))
        (.cons_quiet (.around .fixed (.nat _)) (.single .fixed)))))
  have hrows : ShowAll 0 0 (catalog.flatMap catalogRow) := by
    simpa using ShowAll.flatMap hrow catalog
  rw [catalogTable]
  exact .after (.before (.cons_quiet .fixed (.cons_quiet .fixed (.cons_quiet .fixed
    (.single .fixed)))) hrows) (.single .fixed)

/-- A report lists as many issues as its sections have, and tells of their number once. -/
theorem shows_html (r : Report) {generated : String} (h : Silent generated) :
    Shows (r.entries.map (·.issues.length)).sum 1 (r.html generated) := by
  have hentries : ShowAll (r.entries.map (·.issues.length)).sum 0
      (r.entries.flatMap Entry.lines) := by
    simpa using ShowAll.flatMap showAll_lines r.entries
  have hbody : ShowAll 0 1 (head r.templateName ++ ["<body>"] ++ r.summary ++ ["", "  <main>"]) :=
    .after (.before (.after (showAll_head _) (.single .fixed)) (showAll_summary r))
      (.cons_quiet .fixed (.single .fixed))
  rw [html]
  refine ShowAll.intercalate (.after (.after ?_ (showAll_catalogTable _)) ?_)
  · simpa using hbody.append hentries
  · exact .cons_quiet .fixed (.cons_quiet .fixed (.cons_quiet .fixed (.cons_quiet
      (.around .fixed h) (.cons_quiet .fixed (.cons_quiet .fixed (.single .fixed))))))

/-! ### The number that is told -/

theorem issueCount_eq (r : Report) : r.issueCount = (r.entries.map (·.issues.length)).sum :=
  List.length_flatMap

theorem infix_html (r : Report) (generated : String) :
    s!"<span class=\"issue-count\">{r.issueCount}</span>".toList <:+:
      (r.html generated).toList := by
  let sections := s!"    <p>{r.entries.length} sections, "
  let count := s!"<span class=\"issue-count\">{r.issueCount}</span> issues.</p>"
  have hend : "</span>".toList <+: "</span> issues.</p>".toList := by decide +kernel
  have hcount : s!"<span class=\"issue-count\">{r.issueCount}</span>".toList <+:
      count.toList := by
    rw [(String.toList_append : count.toList = _), String.toList_append]
    exact (List.prefix_append_right_inj _).2 hend
  have hline : count.toList <:+: (sections ++ count).toList := by
    rw [(String.toList_append : (sections ++ count).toList = _)]
    exact (List.suffix_append _ _).isInfix
  have hsummary : sections ++ count ∈ r.summary := by
    simp [summary, sections, count]
  refine (hcount.isInfix.trans hline).trans (infix_intercalate ?_)
  simp only [List.mem_append]
  exact .inl (.inl (.inl (.inl (.inr hsummary))))

theorem buildReport_eq_ok {theme : Theme} {t : FileTree} {name : String} {c : SchemaCache}
    {r : Report} (h : (Command.buildReport theme t name c).1.result = .ok r) :
    ∃ page catalog, (theme.compose t name c).1.result = .ok page ∧
      (theme.catalog t (theme.compose t name c).2).1.result = .ok catalog ∧
      r = ofPage name page catalog := by
  obtain ⟨page, hpage, h⟩ := Session.bind_eq_ok.1 h
  obtain ⟨catalog, hcatalog, h⟩ := Session.bind_eq_ok.1 h
  exact ⟨page, catalog, hpage, hcatalog, (Except.ok.inj h).symm⟩

/-- The report that is built of a theme is that of its page and its catalogue. Whatever else two
pages tell, if their sections have one shape and their catalogues one length, then their reports have
the same angle brackets and quotes in the same order: no text of a theme brings markup with it. And a
report has as many issue items as its sections have issues, and this is the number that it tells. -/
theorem html_ofPage :
    (∀ theme t name c r, (Command.buildReport theme t name c).1.result = .ok r →
      ∃ page catalog, (theme.compose t name c).1.result = .ok page ∧
        (theme.catalog t (theme.compose t name c).2).1.result = .ok catalog ∧
        r = ofPage name page catalog) ∧
    (∀ name name' page page' catalog catalog' (moment moment' : Moment),
      List.Forall₂ SameShape page.sections page'.sections → catalog.length = catalog'.length →
      markup ((ofPage name page catalog).html moment.text) =
        markup ((ofPage name' page' catalog').html moment'.text)) ∧
    ∀ name page catalog (moment : Moment),
      let html := ((ofPage name page catalog).html moment.text).toList
      let count := (page.sections.map (·.issues.length)).sum
      occurrences "<li class=\"issue-".toList html = count ∧
        occurrences "<span class=\"issue-count\">".toList html = 1 ∧
        s!"<span class=\"issue-count\">{count}</span>".toList <:+: html := by
  refine ⟨fun theme t name c r => buildReport_eq_ok, ?_, ?_⟩
  · intro name name' page page' catalog catalog' moment moment' hshape hcatalog
    exact markup_html (markupOf_entries hshape) hcatalog (.moment moment) (.moment moment')
  · intro name page catalog moment html count
    have hcount : ((ofPage name page catalog).entries.map (·.issues.length)).sum = count := by
      simp [ofPage, Entry.ofSection, count, Function.comp_def]
    have hshows := shows_html (ofPage name page catalog) (.moment moment)
    have hinfix := infix_html (ofPage name page catalog) moment.text
    rw [issueCount_eq, hcount] at hinfix
    rw [hcount] at hshows
    rw [toList_itemOpening, toList_countOpening]
    exact ⟨hshows.items.occurrences_eq, hshows.counts.occurrences_eq, hinfix⟩

/-- A section with too many blocks, and text that looks like the item of an issue. -/
theorem html_ofPage_text :
    let sample (s : String) : SectionInstance :=
      { id := s, type := s
        schema := some ⟨s, [], [], [], none, none, none, some 0, none, none, [], []⟩
        settings := [(s, .str s)], blocks := [⟨s, s, [], false⟩], blockOrder := [s]
        disabled := false, index := 0, region := .template }
    let html (s : String) :=
      (ofPage s ⟨s, [sample s]⟩ [.ofSchema s none]).html (Moment.text ⟨2026, 1, 2, 3, 4⟩)
    let text := "\"><li class=\"issue-"
    SameShape (sample "a") (sample text) ∧ markup (html "a") = markup (html text) ∧
      (sample text).issues.length = 1 ∧
      occurrences "<li class=\"issue-".toList (html text).toList = 1 := by
  intro sample html text
  have hshape : SameShape (sample "a") (sample text) :=
    ⟨rfl, rfl, rfl, rfl, by decide +kernel⟩
  have hissues : (sample text).issues.length = 1 := by decide +kernel
  obtain ⟨-, hmarkup, hcount⟩ := html_ofPage
  obtain ⟨hitems, -, -⟩ := hcount text ⟨text, [sample text]⟩ [.ofSchema text none] ⟨2026, 1, 2, 3, 4⟩
  refine ⟨hshape, hmarkup _ _ _ _ _ _ _ _ (.cons hshape .nil) rfl, hissues, hitems.trans ?_⟩
  simp [hissues]

end Storefront.Report
