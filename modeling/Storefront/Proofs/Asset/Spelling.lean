import Storefront.Proofs.Asset.Conditional
import Storefront.Proofs.Asset.Ending
import Storefront.Proofs.Asset.Lookup

/-!
Ways to write a directive: with any blanks around its words and a dash or none in each of its marks.
A recogniser finds a directive in each of its spellings.
-/

namespace Storefront.Asset

open Text

/-- How the marks and the blanks of a directive are written. -/
structure Spelling where
  openingDash : Bool
  /-- Behind the opening mark. -/
  before : List Char
  /-- Inside, at the first place where blanks may stand. -/
  first : List Char
  /-- Inside, at the second place. -/
  second : List Char
  /-- In front of the closing mark. -/
  after : List Char
  closingDash : Bool
  deriving DecidableEq, Repr

/-- A tag of a conditional. -/
inductive Tag where
  | opening (negated : Bool) (condition : List Char)
  | otherwise
  | closing (negated : Bool)
  deriving DecidableEq, Repr

inductive Directive where
  | url (quote : Char) (name : List Char)
  | setting (path : List Char)
  | tag (t : Tag)
  deriving DecidableEq, Repr

def dash (b : Bool) : List Char := if b then ['-'] else []

namespace Spelling

/-- One blank wherever one may stand, and no dashes. -/
def plain : Spelling where
  openingDash := false
  before := [' ']
  first := [' ']
  second := [' ']
  after := [' ']
  closingDash := false

def opening (mark : List Char) (sp : Spelling) : List Char :=
  mark ++ (dash sp.openingDash ++ sp.before)

def closing (mark : List Char) (sp : Spelling) : List Char :=
  sp.after ++ (dash sp.closingDash ++ mark)

end Spelling

/-! ### Written directives -/

namespace Tag

def word : Tag → List Char
  | .opening negated _ => Conditional.openWord negated
  | .otherwise => elseWord
  | .closing negated => Conditional.endWord negated

/-- The condition of a tag that has one. -/
def condition : Tag → List Char
  | .opening _ condition => condition
  | _ => []

/-- The blanks in front of the condition. -/
def gap (sp : Spelling) : Tag → List Char
  | .opening _ _ => sp.first
  | _ => []

/-- All that stands in front of the condition. -/
def lead (sp : Spelling) (t : Tag) : List Char := sp.opening tagOpen ++ (t.word ++ t.gap sp)

def written (sp : Spelling) (t : Tag) : List Char :=
  t.lead sp ++ (t.condition ++ sp.closing tagClose)

end Tag

def Directive.written (sp : Spelling) : Directive → List Char
  | .url quote name => sp.opening outputOpen ++ (quote :: (name ++ quote :: (sp.first ++
      '|' :: (sp.second ++ ("asset_url".toList ++ sp.closing outputClose)))))
  | .setting path =>
    sp.opening outputOpen ++ ("settings.".toList ++ (path ++ sp.closing outputClose))
  | .tag t => t.written sp

/-! ### Well-formed directives -/

/-- A condition that is not blank at its ends and in which no tag begins or ends. -/
structure IsClause (condition : List Char) : Prop where
  nonempty : condition ≠ []
  trimmed : trim condition = condition
  noTag : ¬tagOpen <:+: condition
  noClose : ¬tagClose <:+: condition

def Tag.WellFormed : Tag → Prop
  | .opening _ condition => IsClause condition
  | _ => True

def Directive.WellFormed : Directive → Prop
  | .url quote name => isQuote quote = true ∧ name ≠ [] ∧ ∀ c ∈ name, isQuote c = false
  | .setting path => IsPath path
  | .tag t => t.WellFormed

/-- A blank stands in front of the condition, and something in front of the closing mark of a tag
whose condition ends with a dash. -/
def Tag.Parted (sp : Spelling) : Tag → Prop
  | .opening _ condition => sp.first ≠ [] ∧
    (condition.getLast? = some '-' → sp.after ≠ [] ∨ sp.closingDash = true)
  | _ => True

/-- Blanks stand where they are needed. A closing dash behind a path would be taken for a part of
it. -/
def Directive.Parted (sp : Spelling) : Directive → Prop
  | .url _ _ => True
  | .setting _ => sp.closingDash = true → sp.after ≠ []
  | .tag t => t.Parted sp

def IsBlanks (s : List Char) : Prop := ∀ c ∈ s, isBlank c = true

instance (s : List Char) : Decidable (IsBlanks s) :=
  List.decidableBAll (fun c => isBlank c = true) s

/-- A spelling has only blanks between the words, and has them where a directive needs them. -/
structure Spelling.Fits (sp : Spelling) (d : Directive) : Prop where
  before : IsBlanks sp.before
  first : IsBlanks sp.first
  second : IsBlanks sp.second
  after : IsBlanks sp.after
  parted : d.Parted sp

theorem Spelling.fits_plain (d : Directive) : Spelling.plain.Fits d := by
  have hblank : IsBlanks [' '] := by
    intro c hc
    rw [List.mem_singleton.1 hc]
    decide
  refine ⟨hblank, hblank, hblank, hblank, ?_⟩
  cases d with
  | url quote name => trivial
  | setting path => exact fun h => nomatch h
  | tag t =>
    cases t with
    | opening negated condition => exact ⟨List.cons_ne_nil _ _, fun _ => .inl (List.cons_ne_nil _ _)⟩
    | otherwise => trivial
    | closing negated => trivial

/-! ### Marks -/

section marks

variable {s r : List Char} {a : Char}

theorem isQuote_iff {c : Char} : isQuote c = true ↔ c = '\'' ∨ c = '"' := by simp [isQuote]

theorem mem_dash {b : Bool} {c : Char} (h : c ∈ dash b) : c = '-' := by
  cases b with
  | false => cases h
  | true => exact List.mem_singleton.1 h

theorem skipDash_dash_append (b : Bool) (hs : ∀ t, s ≠ '-' :: t) : skipDash (dash b ++ s) = s := by
  cases b with
  | true => rfl
  | false =>
    cases s with
    | nil => rfl
    | cons c s => exact skipDash_cons_of_ne fun hc => hs s (hc ▸ rfl)

theorem exists_eq_dash_append (s : List Char) : ∃ b, s = dash b ++ skipDash s := by
  unfold skipDash
  split
  · exact ⟨true, rfl⟩
  · exact ⟨false, rfl⟩

theorem dropBlanks_blanks_append (ha : isBlank a = false) (hs : IsBlanks s) (r : List Char) :
    dropBlanks (s ++ a :: r) = a :: r := by
  rw [dropBlanks_append ha, dropBlanks, List.dropWhile_eq_nil_iff.2 hs]
  rfl

theorem exists_eq_blanks_append (s : List Char) : ∃ blanks, IsBlanks blanks ∧
    s = blanks ++ dropBlanks s :=
  ⟨s.takeWhile isBlank, fun _ hc => List.mem_takeWhile_imp hc,
    List.takeWhile_append_dropWhile.symm⟩

/-- What stands behind an opening mark. -/
theorem opened?_eq_cons_iff (mark : List Char) (ha : isBlank a = false) (hdash : a ≠ '-') :
    opened? mark s = some (a :: r) ↔
      ∃ b blanks, IsBlanks blanks ∧ s = mark ++ (dash b ++ (blanks ++ a :: r)) := by
  constructor
  · intro h
    obtain ⟨t, ht, hdrop⟩ := Option.map_eq_some_iff.1 h
    obtain ⟨b, hb⟩ := exists_eq_dash_append t
    obtain ⟨blanks, hblanks, hsplit⟩ := exists_eq_blanks_append (skipDash t)
    refine ⟨b, blanks, hblanks, ?_⟩
    rw [after?_eq_some_iff.1 ht, ← hdrop, ← hsplit, ← hb]
  · rintro ⟨b, blanks, hblanks, rfl⟩
    have hskip : skipDash (dash b ++ (blanks ++ a :: r)) = blanks ++ a :: r := by
      refine skipDash_dash_append b fun t ht => ?_
      cases blanks with
      | nil => exact hdash (List.cons.inj ht).1
      | cons c blanks =>
        obtain ⟨rfl, -⟩ := List.cons.inj ht
        exact absurd (hblanks '-' List.mem_cons_self) (by decide)
    rw [opened?, after?_append, Option.map_some, hskip, dropBlanks_blanks_append ha hblanks]

/-- What stands behind blanks and a mark. -/
theorem after?_dropBlanks_iff (mark : List Char) (ha : isBlank a = false) :
    after? (a :: mark) (dropBlanks s) = some r ↔
      ∃ blanks, IsBlanks blanks ∧ s = blanks ++ a :: (mark ++ r) := by
  constructor
  · intro h
    obtain ⟨blanks, hblanks, hsplit⟩ := exists_eq_blanks_append s
    exact ⟨blanks, hblanks, by rw [← List.cons_append, ← after?_eq_some_iff.1 h, ← hsplit]⟩
  · rintro ⟨blanks, hblanks, rfl⟩
    rw [dropBlanks_blanks_append ha hblanks]
    exact after?_append (a :: mark) r

/-- What stands behind a closing mark. -/
theorem closed?_eq_some_iff (mark : List Char) (ha : isBlank a = false) (hdash : a ≠ '-') :
    closed? (a :: mark) s = some r ↔
      ∃ blanks b, IsBlanks blanks ∧ s = blanks ++ (dash b ++ a :: (mark ++ r)) := by
  constructor
  · intro h
    obtain ⟨blanks, hblanks, hsplit⟩ := exists_eq_blanks_append s
    obtain ⟨b, hb⟩ := exists_eq_dash_append (dropBlanks s)
    refine ⟨blanks, b, hblanks, ?_⟩
    rw [← List.cons_append, ← after?_eq_some_iff.1 h, ← hb, ← hsplit]
  · rintro ⟨blanks, b, hblanks, rfl⟩
    have hdrop : dropBlanks (blanks ++ (dash b ++ a :: (mark ++ r))) =
        dash b ++ a :: (mark ++ r) := by
      cases b with
      | false => exact dropBlanks_blanks_append ha hblanks _
      | true => exact dropBlanks_blanks_append (by decide) hblanks _
    rw [closed?, hdrop, skipDash_dash_append b fun t ht => hdash (List.cons.inj ht).1]
    exact after?_append (a :: mark) r

end marks

/-! ### Recognised outputs -/

theorem not_isBlank_of_isQuote {c : Char} (h : isQuote c = true) :
    isBlank c = false ∧ c ≠ '-' := by
  rcases isQuote_iff.1 h with rfl | rfl <;> decide

theorem filename?_eq_some_iff {s name rest : List Char} : filename? s = some (name, rest) ↔
    ∃ quote, isQuote quote = true ∧ name ≠ [] ∧ (∀ c ∈ name, isQuote c = false) ∧
      s = quote :: (name ++ quote :: rest) := by
  constructor
  · intro h
    cases s with
    | nil => cases h
    | cons quote s =>
      rw [filename?_cons] at h
      obtain ⟨t, ht, h⟩ := Option.bind_eq_some_iff.1 h
      split at h
      · next hvalid =>
        cases h
        obtain ⟨hquote, hne⟩ := Bool.and_eq_true_iff.1 hvalid
        refine ⟨quote, hquote, by simpa using hne, fun c hc => ?_, ?_⟩
        · simpa using List.mem_takeWhile_imp hc
        · have hrest : s.dropWhile (!isQuote ·) = quote :: rest := after?_eq_some_iff.1 ht
          rw [← hrest, List.takeWhile_append_dropWhile]
      · cases h
  · rintro ⟨quote, hquote, hne, hname, rfl⟩
    have hkept : ∀ c ∈ name, (!isQuote c) = true := by simpa using hname
    rw [filename?_cons, List.takeWhile_append_of_pos hkept, List.dropWhile_append_of_pos hkept]
    simp [hquote, hne, after?]

theorem closed?_tagClose_iff {s r : List Char} : closed? tagClose s = some r ↔
    ∃ blanks b, IsBlanks blanks ∧ s = blanks ++ (dash b ++ (tagClose ++ r)) :=
  closed?_eq_some_iff ['\x7d'] (by decide) (by decide)

theorem closed?_outputClose_iff {s r : List Char} : closed? outputClose s = some r ↔
    ∃ blanks b, IsBlanks blanks ∧ s = blanks ++ (dash b ++ (outputClose ++ r)) :=
  closed?_eq_some_iff ['\x7d'] (by decide) (by decide)

section spelling

variable {sp : Spelling} {a : Char}

theorem opened?_opening (mark : List Char) (hbefore : IsBlanks sp.before) (ha : isBlank a = false)
    (hdash : a ≠ '-') (r : List Char) : opened? mark (sp.opening mark ++ a :: r) = some (a :: r) :=
  (opened?_eq_cons_iff mark ha hdash).2
    ⟨sp.openingDash, sp.before, hbefore, by simp [Spelling.opening]⟩

theorem closed?_tagClose_closing (hafter : IsBlanks sp.after) (r : List Char) :
    closed? tagClose (sp.closing tagClose ++ r) = some r :=
  closed?_tagClose_iff.2 ⟨sp.after, sp.closingDash, hafter, by simp [Spelling.closing]⟩

theorem closed?_outputClose_closing (hafter : IsBlanks sp.after) (r : List Char) :
    closed? outputClose (sp.closing outputClose ++ r) = some r :=
  closed?_outputClose_iff.2 ⟨sp.after, sp.closingDash, hafter, by simp [Spelling.closing]⟩

end spelling

/-- An output of an asset URL is recognised in any of its spellings, and nothing else is. -/
theorem assetUrl?_eq_some_iff {s name rest : List Char} : assetUrl? s = some (name, rest) ↔
    ∃ quote sp, (Directive.url quote name).WellFormed ∧ Spelling.Fits sp (.url quote name) ∧
      s = (Directive.url quote name).written sp ++ rest := by
  have hbar (s r : List Char) :=
    after?_dropBlanks_iff (s := s) (r := r) [] (show isBlank '|' = false by decide)
  have hword (s r : List Char) :=
    after?_dropBlanks_iff (s := s) (r := r) "sset_url".toList (show isBlank 'a' = false by decide)
  constructor
  · intro h
    obtain ⟨t, ht, h⟩ := Option.bind_eq_some_iff.1 h
    obtain ⟨⟨file, u⟩, hu, h⟩ := Option.bind_eq_some_iff.1 h
    obtain ⟨v, hv, h⟩ := Option.bind_eq_some_iff.1 h
    obtain ⟨w, hw, h⟩ := Option.bind_eq_some_iff.1 h
    obtain ⟨x, hx, h⟩ := Option.bind_eq_some_iff.1 h
    cases h
    obtain ⟨quote, hquote, hne, hname, rfl⟩ := filename?_eq_some_iff.1 hu
    obtain ⟨hblank, hdash⟩ := not_isBlank_of_isQuote hquote
    obtain ⟨openingDash, before, hbefore, rfl⟩ := (opened?_eq_cons_iff _ hblank hdash).1 ht
    obtain ⟨first, hfirst, rfl⟩ := (hbar _ _).1 hv
    obtain ⟨second, hsecond, rfl⟩ := (hword _ _).1 hw
    obtain ⟨after, closingDash, hafter, rfl⟩ := closed?_outputClose_iff.1 hx
    refine ⟨quote, { openingDash, before, first, second, after, closingDash },
      ⟨hquote, hne, hname⟩, ⟨hbefore, hfirst, hsecond, hafter, trivial⟩, ?_⟩
    simp [Directive.written, Spelling.opening, Spelling.closing, outputClose]
  · rintro ⟨quote, sp, ⟨hquote, hne, hname⟩, hfits, rfl⟩
    obtain ⟨hblank, hdash⟩ := not_isBlank_of_isQuote hquote
    obtain ⟨tail, htail⟩ : ∃ tail, tail = sp.closing outputClose ++ rest := ⟨_, rfl⟩
    have hclosed : closed? outputClose tail = some rest :=
      htail ▸ closed?_outputClose_closing hfits.after rest
    have hasset := (hword (sp.second ++ ("asset_url".toList ++ tail)) tail).2
      ⟨sp.second, hfits.second, rfl⟩
    have hpipe := (hbar (sp.first ++ '|' :: (sp.second ++ ("asset_url".toList ++ tail))) _).2
      ⟨sp.first, hfits.first, rfl⟩
    have hfile := filename?_eq_some_iff.2 ⟨quote, hquote, hne, hname, Eq.refl (quote :: (name ++
      quote :: (sp.first ++ '|' :: (sp.second ++ ("asset_url".toList ++ tail)))))⟩
    have hopen := opened?_opening outputOpen hfits.before hblank hdash (name ++
      quote :: (sp.first ++ '|' :: (sp.second ++ ("asset_url".toList ++ tail))))
    have hwritten : (Directive.url quote name).written sp ++ rest = sp.opening outputOpen ++
        quote :: (name ++ quote :: (sp.first ++ '|' :: (sp.second ++ ("asset_url".toList ++ tail)))) := by
      simp [Directive.written, htail]
    rw [hwritten, assetUrl?]
    refine Option.bind_eq_some_iff.2 ⟨_, hopen, ?_⟩
    refine Option.bind_eq_some_iff.2 ⟨_, hfile, ?_⟩
    refine Option.bind_eq_some_iff.2 ⟨_, hpipe, ?_⟩
    refine Option.bind_eq_some_iff.2 ⟨_, hasset, ?_⟩
    exact Option.bind_eq_some_iff.2 ⟨_, hclosed, rfl⟩

/-! ### Recognised settings -/

theorem IsPath.path?_eq (h : IsPath path) : path? path = some (path, []) := by
  have hblank := h.path?_append_blank []
  rw [path?_append (by decide) (by decide)] at hblank
  obtain ⟨⟨p, r⟩, hp, heq⟩ := Option.map_eq_some_iff.1 hblank
  obtain ⟨rfl, hr⟩ := Prod.mk.inj heq
  obtain rfl : r = [] := by simpa using hr
  exact hp

/-- A path is found in front of a character that goes on with none. -/
theorem IsPath.path?_append_cons (h : IsPath path) {a : Char} (ha : isSegmentChar a = false)
    (hdot : a ≠ '.') (r : List Char) : path? (path ++ a :: r) = some (path, a :: r) := by
  rw [path?_append ha hdot, h.path?_eq]
  rfl

/-- No path goes on with what closes an output behind one. -/
theorem exists_closing_eq_cons {path : List Char} {sp : Spelling} (h : sp.Fits (.setting path))
    (r : List Char) : ∃ a tail,
      sp.closing outputClose ++ r = a :: tail ∧ isSegmentChar a = false ∧ a ≠ '.' := by
  rw [Spelling.closing]
  cases hafter : sp.after with
  | nil =>
    have hdash : sp.closingDash = false := by
      rw [Bool.eq_false_iff]
      exact fun hdash => h.parted hdash hafter
    exact ⟨'\x7d', '\x7d' :: r, by rw [hdash]; rfl, by decide, by decide⟩
  | cons c after =>
    have hblank : isBlank c = true := h.after c (hafter ▸ List.mem_cons_self)
    refine ⟨c, _, rfl, ?_, ne_of_test hblank (by decide)⟩
    rw [isSegmentChar, isWord_eq_false_of_isBlank hblank, Bool.false_or, decide_eq_false_iff_not]
    exact ne_of_test hblank (by decide)

theorem settingOutput?_written {path : List Char} {sp : Spelling} (hpath : IsPath path)
    (hfits : sp.Fits (.setting path)) (r : List Char) :
    settingOutput? ((Directive.setting path).written sp ++ r) = some (path, r) := by
  obtain ⟨a, tail, htail, hsegment, hdot⟩ := exists_closing_eq_cons hfits r
  have hclosed := closed?_outputClose_closing hfits.after r
  rw [htail] at hclosed
  have hfind := hpath.path?_append_cons hsegment hdot tail
  have hopen := opened?_opening (a := 's') outputOpen hfits.before (by decide) (by decide)
    ("ettings.".toList ++ (path ++ a :: tail))
  have hwritten : (Directive.setting path).written sp ++ r = sp.opening outputOpen ++
      's' :: ("ettings.".toList ++ (path ++ a :: tail)) := by
    simp [Directive.written, ← htail]
  rw [hwritten, settingOutput?]
  refine Option.bind_eq_some_iff.2 ⟨_, hopen, ?_⟩
  refine Option.bind_eq_some_iff.2 ⟨_, after?_append "settings.".toList _, ?_⟩
  refine Option.bind_eq_some_iff.2 ⟨_, hfind, ?_⟩
  exact Option.bind_eq_some_iff.2 ⟨_, hclosed, rfl⟩

end Storefront.Asset
