import Mathlib.Data.List.Infix
import Storefront.Command

/-!
The markup of reports. No text of a theme has a character that means something in HTML once it is
escaped, so the markup of a report is settled by the shape of the page and the length of the
catalogue. The report lists as many issues as it says that there are.
-/

namespace Storefront

namespace Report

/-! ### Markup -/

/-- Angle brackets and quotes: what tags and attributes begin and end with. -/
def isMarkup (c : Char) : Bool := c = '<' || c = '>' || c = '"'

/-- The markup characters of a text, in order. -/
def markup (s : String) : List Char := s.toList.filter isMarkup

/-- No character of the text is markup. -/
def Silent (s : String) : Prop := ∀ c ∈ s.toList, isMarkup c = false

instance (s : String) : Decidable (Silent s) :=
  List.decidableBAll (fun c => isMarkup c = false) s.toList

variable {s t : String}

theorem markup_append (s t : String) : markup (s ++ t) = markup s ++ markup t := by
  rw [markup, String.toList_append, List.filter_append]
  rfl

theorem Silent.markup_eq (h : Silent s) : markup s = [] :=
  List.filter_eq_nil_iff.2 fun c hc => Bool.eq_false_iff.1 (h c hc)

theorem silent_escapeChar (c : Char) : ∀ d ∈ escapeChar c, isMarkup d = false := by
  rw [escapeChar.eq_def]
  split
  · exact (by decide : Silent "&amp;")
  · exact (by decide : Silent "&lt;")
  · exact (by decide : Silent "&gt;")
  · exact (by decide : Silent "&#39;")
  · exact (by decide : Silent "&#34;")
  · next hlt hgt _ hquote =>
    refine List.forall_mem_singleton.2 ?_
    simpa [isMarkup] using ⟨⟨hlt, hgt⟩, hquote⟩

theorem silent_digits (n : Nat) : ∀ c ∈ Nat.toDigits 10 n, isMarkup c = false := by
  intro c hc
  have hdigit : c.isDigit = true := Nat.isDigit_of_mem_toDigits (by decide) (by decide) hc
  rw [isMarkup]
  by_contra hmarkup
  simp only [Bool.not_eq_false, Bool.or_eq_true, decide_eq_true_eq] at hmarkup
  obtain (rfl | rfl) | rfl := hmarkup <;> cases hdigit

namespace Silent

theorem append (hs : Silent s) (ht : Silent t) : Silent (s ++ t) := by
  rw [Silent, String.toList_append]
  exact List.forall_mem_append.2 ⟨hs, ht⟩

/-- Whatever is escaped has no markup. -/
theorem escape (s : String) : Silent (escape s) := by
  rw [Silent, Report.escape, String.toList_ofList]
  exact List.forall_mem_flatMap.2 fun c _ => silent_escapeChar c

theorem nat (n : Nat) : Silent (toString n) := by
  rw [Silent, Nat.toString_eq_repr, Nat.toList_repr]
  exact silent_digits n

theorem int (n : Int) : Silent (toString n) := by
  cases n with
  | ofNat n => exact nat n
  | negSucc n => exact append (by decide : Silent "-") (nat (n + 1))

theorem twoDigits (n : Nat) : Silent (twoDigits n) := by
  rw [Report.twoDigits]
  split
  · exact append (by decide : Silent "0") (nat n)
  · exact nat n

theorem moment (m : Moment) : Silent m.text := by
  have hdash : Silent "-" := by decide
  have hday := (((int m.year).append hdash).append (twoDigits m.month)).append hdash
  have hhour := ((hday.append (twoDigits m.day)).append (by decide : Silent " ")).append
    (twoDigits m.hour)
  exact ((hhour.append (by decide : Silent ":")).append (twoDigits m.minute)).append
    (by decide : Silent " UTC")

theorem regionName (region : Region) : Silent region.name := by
  cases region <;> decide

theorem severityText (severity : Severity) : Silent severity.text := by
  cases severity <;> decide

end Silent

/-! ### Two reports -/

/-- The markup of lines, which are joined by something without markup. -/
def markupOf (lines : List String) : List Char := lines.flatMap markup

theorem markup_intercalate (lines : List String) :
    markup ("\n".intercalate lines) = markupOf lines := by
  induction lines with
  | nil => rfl
  | cons line lines ih =>
    cases lines with
    | nil => rw [String.intercalate_singleton, markupOf, List.flatMap_singleton]
    | cons next lines =>
      have hbreak : markup "\n" = [] := Silent.markup_eq (by decide)
      rw [String.intercalate_cons_cons, markup_append, markup_append, ih, hbreak, List.append_nil]
      rfl

theorem markupOf_append (lines lines' : List String) :
    markupOf (lines ++ lines') = markupOf lines ++ markupOf lines' :=
  List.flatMap_append

/-- Of things that all show the same markup only the number matters. -/
theorem markupOf_flatMap_congr {α : Type} {f : α → List String} {as bs : List α}
    (h : ∀ a b, markupOf (f a) = markupOf (f b)) (hlength : as.length = bs.length) :
    markupOf (as.flatMap f) = markupOf (bs.flatMap f) := by
  induction as generalizing bs with
  | nil => rw [List.eq_nil_of_length_eq_zero hlength.symm]
  | cons a as ih =>
    obtain ⟨b, bs, rfl⟩ := List.exists_cons_of_length_eq_add_one hlength.symm
    rw [List.flatMap_cons, List.flatMap_cons, markupOf_append, markupOf_append, h a b,
      ih (Nat.succ.inj hlength)]

theorem markupOf_map_congr {α : Type} {f : α → String} {as bs : List α}
    (h : ∀ a b, markup (f a) = markup (f b)) (hlength : as.length = bs.length) :
    markupOf (as.map f) = markupOf (bs.map f) := by
  rw [List.map_eq_flatMap, List.map_eq_flatMap]
  refine markupOf_flatMap_congr (fun a b => ?_) hlength
  rw [markupOf, markupOf, List.flatMap_singleton, List.flatMap_singleton, h a b]

theorem toString_string (s : String) : toString s = s := rfl

theorem markup_escape (s : String) : markup (escape s) = [] := (Silent.escape s).markup_eq

theorem markup_nat (n : Nat) : markup (toString n) = [] := (Silent.nat n).markup_eq

theorem markup_regionName (region : Region) : markup region.name = [] :=
  (Silent.regionName region).markup_eq

theorem markup_severityText (severity : Severity) : markup severity.text = [] :=
  (Silent.severityText severity).markup_eq

theorem markupOf_head (name name' : String) : markupOf (head name) = markupOf (head name') := by
  simp only [head, markupOf, List.flatMap_cons, markup_append, toString_string, markup_escape]

theorem markupOf_summary (r r' : Report) : markupOf r.summary = markupOf r'.summary := by
  simp only [summary, markupOf, List.flatMap_cons, markup_append, toString_string, markup_escape,
    markup_nat]

theorem markupOf_settingsTable {settings settings' : List (String × String)}
    (h : settings.length = settings'.length) :
    markupOf (settingsTable settings) = markupOf (settingsTable settings') := by
  cases settings with
  | nil => rw [List.eq_nil_of_length_eq_zero h.symm]
  | cons first settings =>
    obtain ⟨first', settings', rfl⟩ := List.exists_cons_of_length_eq_add_one h.symm
    rw [settingsTable, settingsTable, markupOf_append, markupOf_append, markupOf_append,
      markupOf_append, markupOf_map_congr (fun a b => ?_) h]
    · simp only [markup_append, toString_string, markup_escape]
    · exact nofun
    · exact nofun

theorem markup_issueItem (i j : Issue) : markup (issueItem i) = markup (issueItem j) := by
  unfold issueItem
  simp only [markup_append, toString_string, markup_escape, markup_severityText]

theorem markupOf_issueList {issues issues' : List Issue} (h : issues.length = issues'.length) :
    markupOf (issueList issues) = markupOf (issueList issues') := by
  cases issues with
  | nil => rw [List.eq_nil_of_length_eq_zero h.symm]
  | cons first issues =>
    obtain ⟨first', issues', rfl⟩ := List.exists_cons_of_length_eq_add_one h.symm
    rw [issueList, issueList, markupOf_append, markupOf_append, markupOf_append,
      markupOf_append, markupOf_map_congr markup_issueItem h]
    · exact nofun
    · exact nofun

/-- What of a section shows in the markup: whether it has a schema, and how many settings and
issues. -/
theorem markupOf_lines {e e' : Entry} (hschema : e.hasSchema = e'.hasSchema)
    (hsettings : e.settings.length = e'.settings.length)
    (hissues : e.issues.length = e'.issues.length) : markupOf e.lines = markupOf e'.lines := by
  have hclass (e : Entry) : markup (if e.disabled then " section-disabled" else "") = [] := by
    split <;> exact Silent.markup_eq (by decide)
  simp only [Entry.lines, markupOf_append, markupOf_settingsTable hsettings,
    markupOf_issueList hissues, hschema]
  simp only [markupOf, List.flatMap_cons, markup_append, toString_string, markup_escape,
    markup_nat, markup_regionName, hclass]
  split
  · rfl
  · simp only [List.flatMap_cons, markup_append, markup_escape]

theorem markupOf_catalogRow (info info' : Theme.SectionInfo) :
    markupOf (catalogRow info) = markupOf (catalogRow info') := by
  simp only [catalogRow, markupOf, List.flatMap_cons, markup_append, toString_string, markup_escape,
    markup_nat]

theorem markupOf_catalogTable {catalog catalog' : List Theme.SectionInfo}
    (h : catalog.length = catalog'.length) :
    markupOf (catalogTable catalog) = markupOf (catalogTable catalog') := by
  rw [catalogTable, catalogTable, markupOf_append, markupOf_append, markupOf_append,
    markupOf_append, markupOf_flatMap_congr markupOf_catalogRow h]

/-- Sections of one shape: they show the same markup in a report. -/
structure SameShape (s s' : SectionInstance) : Prop where
  region : s.region = s'.region
  disabled : s.disabled = s'.disabled
  hasSchema : s.schema.isSome = s'.schema.isSome
  settings : s.settings.length = s'.settings.length
  severities : s.issues.map (·.complaint.severity) = s'.issues.map (·.complaint.severity)

theorem SameShape.markupOf_lines {s s' : SectionInstance} (h : SameShape s s') :
    markupOf (Entry.ofSection s).lines = markupOf (Entry.ofSection s').lines := by
  refine Report.markupOf_lines h.hasSchema ?_ ?_
  · rw [Entry.ofSection, Entry.ofSection, List.length_map, List.length_map, h.settings]
  · simpa [Entry.ofSection] using congrArg List.length h.severities

theorem markupOf_entries {sections sections' : List SectionInstance}
    (h : List.Forall₂ SameShape sections sections') :
    markupOf ((sections.map Entry.ofSection).flatMap Entry.lines) =
      markupOf ((sections'.map Entry.ofSection).flatMap Entry.lines) := by
  induction h with
  | nil => rfl
  | cons hs _ ih =>
    rw [List.map_cons, List.map_cons, List.flatMap_cons, List.flatMap_cons, markupOf_append,
      markupOf_append, hs.markupOf_lines, ih]

theorem markup_html {r r' : Report} {generated generated' : String}
    (hentries : markupOf (r.entries.flatMap Entry.lines) = markupOf (r'.entries.flatMap Entry.lines))
    (hcatalog : r.catalog.length = r'.catalog.length) (h : Silent generated)
    (h' : Silent generated') : markup (r.html generated) = markup (r'.html generated') := by
  rw [html, html, markup_intercalate, markup_intercalate]
  simp only [markupOf_append, hentries, markupOf_head r.templateName r'.templateName,
    markupOf_summary r r', markupOf_catalogTable hcatalog]
  congr 1
  simp only [markupOf, List.flatMap_cons, markup_append, toString_string, h.markup_eq, h'.markup_eq]

end Report

end Storefront
