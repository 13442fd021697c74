import Storefront.Proofs.Asset.Frame
import Storefront.Proofs.Asset.WrittenTag

/-!
Outputs of asset URLs around a directive. One that begins in front of a directive and does not end
there takes it for a part of its file name, in each spelling of the directive or in none.
-/

namespace Storefront.Asset

open Text

/-! ### The parts of an output of a URL -/

/-- What stands in front of a file name, its quote included. -/
def UrlStart (quote : Char) (s : List Char) : Prop :=
  ∃ b blanks, IsBlanks blanks ∧ s = outputOpen ++ (dash b ++ (blanks ++ [quote]))

/-- What stands behind a file name and its quotes. -/
def UrlEnd (s : List Char) : Prop :=
  ∃ sp : Spelling, IsBlanks sp.first ∧ IsBlanks sp.second ∧ IsBlanks sp.after ∧
    s = sp.first ++ '|' :: (sp.second ++ ("asset_url".toList ++ sp.closing outputClose))

def Unquoted (s : List Char) : Prop := ∀ c ∈ s, isQuote c = false

instance (s : List Char) : Decidable (Unquoted s) :=
  List.decidableBAll (fun c => isQuote c = false) s

theorem unquoted_iff {s : List Char} :
    Unquoted s ↔ ∀ quote, isQuote quote = true → quote ∉ s := by
  constructor
  · intro h quote hquote hmem
    exact absurd hquote (Bool.eq_false_iff.1 (h quote hmem))
  · intro h c hc
    rw [Bool.eq_false_iff]
    exact fun hquote => h c hquote hc

namespace Unquoted

variable {s t : List Char}

theorem append (hs : Unquoted s) (ht : Unquoted t) : Unquoted (s ++ t) :=
  List.forall_mem_append.2 ⟨hs, ht⟩

theorem of_blanks (hs : IsBlanks s) : Unquoted s :=
  unquoted_iff.2 fun quote hquote hmem =>
    absurd (hs quote hmem) (Bool.eq_false_iff.1 (not_isBlank_of_isQuote hquote).1)

theorem of_dash (b : Bool) : Unquoted (dash b) := by
  cases b <;> decide

theorem of_word (hs : ∀ c ∈ s, isWord c = true) : Unquoted s := by
  refine unquoted_iff.2 fun quote hquote hmem => ?_
  have hword := hs quote hmem
  rcases isQuote_iff.1 hquote with rfl | rfl
  · exact absurd hword (by decide)
  · exact absurd hword (by decide)

theorem of_path (hs : IsPath s) : Unquoted s := by
  refine unquoted_iff.2 fun quote hquote => ?_
  rcases isQuote_iff.1 hquote with rfl | rfl
  · exact hs.not_mem (by decide) (by decide)
  · exact hs.not_mem (by decide) (by decide)

end Unquoted

section parts

variable {quote : Char} {s name rest : List Char}

theorem assetUrl?_eq_some_iff_parts : assetUrl? s = some (name, rest) ↔
    ∃ quote start behind, isQuote quote = true ∧ name ≠ [] ∧ Unquoted name ∧
      UrlStart quote start ∧ UrlEnd behind ∧ s = start ++ (name ++ quote :: (behind ++ rest)) := by
  rw [assetUrl?_eq_some_iff]
  constructor
  · rintro ⟨quote, sp, ⟨hquote, hne, hname⟩, hfits, rfl⟩
    refine ⟨quote, _, _, hquote, hne, hname, ⟨sp.openingDash, sp.before, hfits.before, rfl⟩,
      ⟨sp, hfits.first, hfits.second, hfits.after, rfl⟩, ?_⟩
    simp [Directive.written, Spelling.opening]
  · rintro ⟨quote, start, behind, hquote, hne, hname, ⟨b, blanks, hblanks, rfl⟩,
      ⟨sp, hfirst, hsecond, hafter, rfl⟩, rfl⟩
    refine ⟨quote, { sp with openingDash := b, before := blanks }, ⟨hquote, hne, hname⟩,
      ⟨hblanks, hfirst, hsecond, hafter, trivial⟩, ?_⟩
    simp [Directive.written, Spelling.opening, Spelling.closing]

theorem UrlEnd.not_mem (h : UrlEnd s) {c : Char} (hc : c ∈ ['\x7b', '%', '\'', '"']) : c ∉ s := by
  obtain ⟨sp, hfirst, hsecond, hafter, rfl⟩ := h
  have hall : ['\x7b', '%', '\'', '"'].all (fun c => !(isBlank c) && decide (c ≠ '|') &&
      decide (c ∉ "asset_url".toList) && decide (c ≠ '-') && decide (c ∉ outputClose)) = true := by
    decide
  have hc := List.all_eq_true.1 hall c hc
  simp only [Bool.and_eq_true, Bool.not_eq_true', decide_eq_true_eq] at hc
  obtain ⟨⟨⟨⟨hblank, hbar⟩, hword⟩, hdash⟩, hclose⟩ := hc
  have hblanks {s : List Char} (hs : IsBlanks s) : c ∉ s := fun hmem =>
    absurd (hs c hmem) (Bool.eq_false_iff.1 hblank)
  refine List.not_mem_append (hblanks hfirst) (List.not_mem_cons_of_ne_of_not_mem hbar ?_)
  refine List.not_mem_append (hblanks hsecond) (List.not_mem_append hword ?_)
  exact List.not_mem_append (hblanks hafter) (List.not_mem_append (fun h => hdash (mem_dash h)) hclose)

theorem UrlEnd.unquoted (h : UrlEnd s) : Unquoted s := by
  refine unquoted_iff.2 fun quote hquote => ?_
  rcases isQuote_iff.1 hquote with rfl | rfl
  · exact h.not_mem (by decide)
  · exact h.not_mem (by decide)

theorem UrlEnd.getLast? (h : UrlEnd s) : s.getLast? = some '\x7d' := by
  obtain ⟨sp, -, -, -, rfl⟩ := h
  have hlast : sp.first ++ '|' :: (sp.second ++ ("asset_url".toList ++ sp.closing outputClose)) =
      (sp.first ++ '|' :: (sp.second ++ ("asset_url".toList ++ (sp.after ++
        (dash sp.closingDash ++ ['\x7d']))))) ++ ['\x7d'] := by
    simp [Spelling.closing, outputClose]
  rw [hlast, List.getLast?_concat]

/-- Behind its first brace a text in front of a file name begins with the only other one, and it
ends with its quote. -/
theorem UrlStart.exists_eq (h : UrlStart quote s) (hquote : isQuote quote = true) :
    ∃ t, s = '\x7b' :: '\x7b' :: t ∧ '\x7b' ∉ t ∧ '%' ∉ t ∧ t.getLast? = some quote := by
  obtain ⟨b, blanks, hblanks, rfl⟩ := h
  have hnot {c : Char} (hc : isBlank c = false) (hdash : c ≠ '-') (hquoted : isQuote c = false) :
      c ∉ dash b ++ (blanks ++ [quote]) := by
    refine List.not_mem_append (fun hmem => hdash (mem_dash hmem)) ?_
    refine List.not_mem_append (fun hmem => absurd (hblanks c hmem) (Bool.eq_false_iff.1 hc)) ?_
    rw [List.mem_singleton]
    exact fun heq => absurd (heq ▸ hquote) (Bool.eq_false_iff.1 hquoted)
  refine ⟨dash b ++ (blanks ++ [quote]), rfl, ?_, ?_, ?_⟩
  · exact hnot (by decide) (by decide) (by decide)
  · exact hnot (by decide) (by decide) (by decide)
  · rw [← List.append_assoc, List.getLast?_concat]

end parts

/-! ### Texts in which no output of a URL goes on, but for its file name -/

/-- Of an output of a URL neither what stands in front of the file name nor what stands behind it
reaches from in front of the text into it. -/
structure Walled (x : List Char) : Prop where
  start : ∀ {quote s t}, isQuote quote = true → UrlStart quote s → t ≠ [] → t <+: x → ¬t <:+ s.tail
  behind : ∀ {quote s t}, isQuote quote = true → UrlEnd s → t ≠ [] → t <+: x → ¬t <:+ quote :: s

theorem not_prefix_of_getLast? {s t z : List Char} {l : Char} (ht : '%' ∉ t) (hl : l ∉ s)
    (hlast : t.getLast? = some l) : ¬t <+: s ++ '%' :: z := by
  rintro ⟨r, hr⟩
  have hsubset : t ⊆ s := by
    rcases List.append_eq_append_iff.1 hr with ⟨u, rfl, -⟩ | ⟨u, rfl, hu⟩
    · exact List.subset_append_left t u
    · cases u with
      | nil => simp
      | cons c u =>
        obtain ⟨rfl, -⟩ := List.cons.inj hu
        exact absurd (List.mem_append_right s List.mem_cons_self) ht
  exact hl (hsubset (List.mem_of_getLast? hlast))

theorem getLast?_of_suffix {s t : List Char} (hne : t ≠ []) (h : t <:+ s) :
    t.getLast? = s.getLast? := by
  obtain ⟨u, rfl⟩ := h
  exact (List.getLast?_append_of_ne_nil u hne).symm

theorem not_mem_quote_cons {quote c : Char} {s : List Char} (hquote : isQuote quote = true)
    (hend : UrlEnd s) (hc : c = '\x7b' ∨ c = '%') : c ∉ quote :: s := by
  have hmark : c ∈ ['\x7b', '%', '\'', '"'] ∧ isQuote c = false := by
    rcases hc with rfl | rfl <;> decide
  refine List.not_mem_cons_of_ne_of_not_mem ?_ (hend.not_mem hmark.1)
  exact (ne_of_test hquote hmark.2).symm

/-- What belongs to no file name ends at a percent sign. -/
theorem walled_percent {s : List Char} (hs : ∀ c ∈ ['\'', '"', '\x7d'], c ∉ s)
    (z : List Char) : Walled (s ++ '%' :: z) := by
  constructor
  · intro quote start t hquote hstart hne ht hsuffix
    obtain ⟨u, rfl, -, hpercent, hlast⟩ := hstart.exists_eq hquote
    have hmem : '%' ∉ t := fun hmem =>
      List.not_mem_cons_of_ne_of_not_mem (by decide) hpercent (hsuffix.subset hmem)
    have hquoted : quote ∉ s := by
      rcases isQuote_iff.1 hquote with rfl | rfl
      · exact hs _ (by decide)
      · exact hs _ (by decide)
    have ht' : t.getLast? = some quote := by
      rw [getLast?_of_suffix hne hsuffix, List.tail_cons, List.getLast?_cons, hlast]
      rfl
    exact not_prefix_of_getLast? hmem hquoted ht' ht
  · intro quote behind t hquote hend hne ht hsuffix
    have hmem : '%' ∉ t := fun hmem =>
      not_mem_quote_cons hquote hend (.inr rfl) (hsuffix.subset hmem)
    have ht' : t.getLast? = some '\x7d' := by
      rw [getLast?_of_suffix hne hsuffix, List.getLast?_cons, hend.getLast?]
      rfl
    exact not_prefix_of_getLast? hmem (hs _ (by decide)) ht' ht

theorem walled_braces (z : List Char) : Walled ('\x7b' :: '\x7b' :: z) := by
  constructor
  · intro quote start t hquote hstart hne ht hsuffix
    obtain ⟨u, rfl, hbrace, -, hlast⟩ := hstart.exists_eq hquote
    obtain ⟨c, t, rfl⟩ := List.exists_cons_of_ne_nil hne
    obtain ⟨rfl, htail⟩ := List.cons_prefix_cons.1 ht
    rcases List.suffix_cons_iff.1 hsuffix with heq | hsuffix
    · obtain ⟨-, rfl⟩ := List.cons.inj heq
      cases t with
      | nil => cases hlast
      | cons d t =>
        obtain ⟨rfl, -⟩ := List.cons_prefix_cons.1 htail
        exact hbrace List.mem_cons_self
    · exact hbrace (hsuffix.subset List.mem_cons_self)
  · intro quote behind t hquote hend hne ht hsuffix
    obtain ⟨c, t, rfl⟩ := List.exists_cons_of_ne_nil hne
    obtain ⟨rfl, -⟩ := List.cons_prefix_cons.1 ht
    exact not_mem_quote_cons hquote hend (.inl rfl) (hsuffix.subset List.mem_cons_self)

/-! ### File names that go on over a text -/

/-- An output of a URL begins in the text, and its file name does not end. -/
def OpensUrl (quote : Char) (u : List Char) : Prop :=
  ∃ start v, UrlStart quote start ∧ Unquoted v ∧ u = start ++ v

/-- A file name that goes on ends in the text, and the output of its URL does. -/
def EndsUrl (quote : Char) (x : List Char) : Prop :=
  ∃ n behind r, Unquoted n ∧ UrlEnd behind ∧ x = n ++ quote :: (behind ++ r)

section ends

variable {quote : Char} {u x x' y m : List Char}

theorem assetUrl?_append_of_some {found : List Char × List Char} (h : assetUrl? u = some found)
    (x : List Char) : assetUrl? (u ++ x) = some (found.1, found.2 ++ x) := by
  obtain ⟨name, rest⟩ := found
  obtain ⟨quote, start, behind, hquote, hne, hname, hstart, hend, rfl⟩ :=
    assetUrl?_eq_some_iff_parts.1 h
  exact assetUrl?_eq_some_iff_parts.2
    ⟨quote, start, behind, hquote, hne, hname, hstart, hend, by simp⟩

/-- An output of a URL that goes on over a text has its file name there. -/
theorem exists_of_assetUrl?_append (hx : Walled x) (hne : u ≠ []) (hu : assetUrl? u = none)
    (h : assetUrl? (u ++ x) ≠ none) :
    ∃ quote, isQuote quote = true ∧ OpensUrl quote u ∧ EndsUrl quote x := by
  obtain ⟨⟨name, r⟩, h⟩ := Option.ne_none_iff_exists'.1 h
  obtain ⟨quote, start, behind, hquote, hname, hunquoted, hstart, hend, heq⟩ :=
    assetUrl?_eq_some_iff_parts.1 h
  obtain ⟨v, rfl, hv⟩ : ∃ v, u = start ++ v ∧ name ++ quote :: (behind ++ r) = v ++ x := by
    rcases List.append_eq_append_iff.1 heq with ⟨t, rfl, ht⟩ | hv
    · by_cases hnil : t = []
      · subst hnil
        exact ⟨[], by simp, ht.symm⟩
      · obtain ⟨c, u, rfl⟩ := List.exists_cons_of_ne_nil hne
        exact absurd (List.suffix_append u t) (hx.start hquote hstart hnil ⟨_, ht.symm⟩)
    · exact hv
  rcases List.append_eq_append_iff.1 hv with ⟨v', rfl, hv'⟩ | ⟨n, rfl, hn⟩
  · -- The output would end in front.
    have hfound (w : List Char) : v' ≠ quote :: (behind ++ w) := by
      rintro rfl
      rw [assetUrl?_eq_some_iff_parts.2
        ⟨quote, start, behind, hquote, hname, hunquoted, hstart, hend, rfl⟩] at hu
      cases hu
    have hsplit : v' ++ x = (quote :: behind) ++ r := hv'.symm
    rcases List.append_eq_append_iff.1 hsplit with ⟨t, ht, hxt⟩ | ⟨w, hw, -⟩
    · by_cases hnil : t = []
      · exact absurd (by simpa [hnil] using ht.symm) (hfound [])
      · exact absurd ⟨v', ht.symm⟩ (hx.behind hquote hend hnil ⟨r, hxt.symm⟩)
    · exact absurd hw (hfound w)
  · have hv : Unquoted v := fun c hc => hunquoted c (List.mem_append_left n hc)
    have hrest : Unquoted n := fun c hc => hunquoted c (List.mem_append_right v hc)
    exact ⟨quote, hquote, ⟨start, v, hstart, hv, rfl⟩, ⟨n, behind, r, hrest, hend, hn⟩⟩

/-- The output of a URL whose file name goes on over a text. -/
theorem assetUrl?_append_ne_none (hx : Walled x) (hquote : isQuote quote = true)
    (hu : OpensUrl quote u) (h : EndsUrl quote x) : assetUrl? (u ++ x) ≠ none := by
  obtain ⟨start, v, hstart, hv, rfl⟩ := hu
  obtain ⟨n, behind, r, hn, hend, rfl⟩ := h
  have hne : v ++ n ≠ [] := by
    intro hnil
    obtain ⟨rfl, rfl⟩ := List.append_eq_nil_iff.1 hnil
    obtain ⟨t, rfl, -, -, hlast⟩ := hstart.exists_eq hquote
    obtain ⟨w, rfl⟩ := List.getLast?_eq_some_iff.1 hlast
    exact hx.start hquote hstart (List.cons_ne_nil quote []) ⟨_, rfl⟩
      (List.suffix_append ('\x7b' :: w) [quote])
  have hname : Unquoted (v ++ n) := List.forall_mem_append.2 ⟨hv, hn⟩
  have hfound : assetUrl? (start ++ v ++ (n ++ quote :: (behind ++ r))) = some (v ++ n, r) :=
    assetUrl?_eq_some_iff_parts.2
      ⟨quote, start, behind, hquote, hne, hname, hstart, hend, by simp⟩
  rw [hfound]
  exact Option.some_ne_none _

/-- What is found in front of a text depends on the file names only that end in it. -/
theorem assetUrl?_append_eq_none (hx : Walled x) (hx' : Walled x')
    (h : ∀ quote, isQuote quote = true → EndsUrl quote x' → EndsUrl quote x) (hne : u ≠ [])
    (hnone : assetUrl? (u ++ x) = none) : assetUrl? (u ++ x') = none := by
  have hu : assetUrl? u = none := by
    cases hu : assetUrl? u with
    | none => rfl
    | some found =>
      rw [assetUrl?_append_of_some hu] at hnone
      cases hnone
  by_contra hfound
  obtain ⟨quote, hquote, hopens, hends⟩ := exists_of_assetUrl?_append hx' hne hu hfound
  exact assetUrl?_append_ne_none hx hquote hopens (h quote hquote hends) hnone

namespace EndsUrl

theorem prepend (hm : Unquoted m) (h : EndsUrl quote x) : EndsUrl quote (m ++ x) := by
  obtain ⟨n, behind, r, hn, hend, rfl⟩ := h
  exact ⟨m ++ n, behind, r, List.forall_mem_append.2 ⟨hm, hn⟩, hend, by simp⟩

/-- The file name of an output ends behind a text without quotes. -/
theorem of_append (hquote : isQuote quote = true) (hm : Unquoted m) (h : EndsUrl quote (m ++ x)) :
    EndsUrl quote x := by
  obtain ⟨n, behind, r, hn, hend, heq⟩ := h
  rcases List.append_eq_append_iff.1 heq with ⟨t, rfl, ht⟩ | ⟨t, rfl, ht⟩
  · exact ⟨t, behind, r, fun c hc => hn c (List.mem_append_right m hc), hend, ht⟩
  · cases t with
    | nil => exact ⟨[], behind, r, List.forall_mem_nil _, hend, ht.symm⟩
    | cons c t =>
      obtain ⟨rfl, -⟩ := List.cons.inj ht
      rw [hm quote (List.mem_append_right n List.mem_cons_self)] at hquote
      cases hquote

/-- An output that ends behind a text, or whose file name does, may go on otherwise behind it. -/
theorem swap (h : EndsUrl quote (m ++ x))
    (hx : ∀ behind t, UrlEnd behind → t ≠ [] → t <:+ behind → ¬t <+: x)
    (hm : Unquoted m → EndsUrl quote x → EndsUrl quote x') : EndsUrl quote (m ++ x') := by
  obtain ⟨n, behind, r, hn, hend, heq⟩ := h
  rcases List.append_eq_append_iff.1 heq with ⟨t, rfl, ht⟩ | ⟨t, rfl, ht⟩
  · obtain ⟨hm', ht'⟩ := List.forall_mem_append.1 hn
    exact (hm hm' ⟨t, behind, r, ht', hend, ht⟩).prepend hm'
  · cases t with
    | nil =>
      have hn' : Unquoted (n ++ []) := by simpa using hn
      exact (hm hn' ⟨[], behind, r, List.forall_mem_nil _, hend, ht.symm⟩).prepend hn'
    | cons c t =>
      obtain ⟨rfl, htail⟩ := List.cons.inj ht
      have hsplit : t ++ x = behind ++ r := htail.symm
      rcases List.append_eq_append_iff.1 hsplit with ⟨w, hw, hxw⟩ | ⟨w, rfl, -⟩
      · by_cases hnil : w = []
        · subst hnil
          rw [List.append_nil] at hw
          exact ⟨n, behind, x', hn, hend, by simp [hw]⟩
        · exact absurd ⟨r, hxw.symm⟩ (hx behind w hend hnil ⟨t, hw.symm⟩)
      · exact ⟨n, behind, w ++ x', hn, hend, by simp⟩

end EndsUrl

end ends

/-! ### Directives in two spellings -/

section directive

variable {d : Directive} {sp sp' : Spelling}

theorem Spelling.unquoted_opening {mark : List Char} (hmark : Unquoted mark)
    (hbefore : IsBlanks sp.before) : Unquoted (sp.opening mark) :=
  hmark.append ((Unquoted.of_dash _).append (.of_blanks hbefore))

theorem Spelling.unquoted_closing {mark : List Char} (hmark : Unquoted mark)
    (hafter : IsBlanks sp.after) : Unquoted (sp.closing mark) :=
  (Unquoted.of_blanks hafter).append ((Unquoted.of_dash _).append hmark)

theorem Directive.walled_written (hfits : sp.Fits d) (q : List Char) :
    Walled (d.written sp ++ q) := by
  cases d with
  | url quote name => exact walled_braces _
  | setting path => exact walled_braces _
  | tag t =>
    obtain ⟨s, hs⟩ := Tag.exists_written_eq hfits q
    have hwalled : Walled (['\x7b'] ++ '%' :: s) := walled_percent (by simp) s
    exact hs ▸ hwalled

theorem Spelling.walled_closing (hafter : IsBlanks sp.after) (q : List Char) :
    Walled (sp.closing tagClose ++ q) := by
  obtain ⟨s, hs, hchars⟩ := exists_closing_eq hafter tagClose
  have hwalled : Walled (s ++ '%' :: ('\x7d' :: q)) := by
    refine walled_percent (fun c hc hmem => ?_) _
    have hall : ['\'', '"', '\x7d'].all (fun c => !(isBlank c) && decide (c ≠ '-')) = true := by
      decide
    have hnot := List.all_eq_true.1 hall c hc
    rcases hchars c hmem with h | h
    · simp [h] at hnot
    · simp [h] at hnot
  rw [hs, List.append_assoc]
  exact hwalled

theorem Tag.endsUrl_closing {quote : Char} {t : Tag} (hquote : isQuote quote = true)
    (hfits : sp.Fits (.tag t)) (hfits' : sp'.Fits (.tag t)) {q : List Char}
    (h : EndsUrl quote (sp'.closing tagClose ++ q)) : EndsUrl quote (sp.closing tagClose ++ q) := by
  have hclose : Unquoted tagClose := by decide
  exact (h.of_append hquote (Spelling.unquoted_closing hclose hfits'.after)).prepend
    (Spelling.unquoted_closing hclose hfits.after)

/-- A file name that goes on ends in a directive in each of its spellings or in none. -/
theorem Directive.endsUrl_written {quote : Char} (hquote : isQuote quote = true)
    (hd : d.WellFormed) (hfits : sp.Fits d) (hfits' : sp'.Fits d) {q : List Char}
    (h : EndsUrl quote (d.written sp' ++ q)) : EndsUrl quote (d.written sp ++ q) := by
  have hopening {sp : Spelling} (hfits : sp.Fits d) : Unquoted (sp.opening outputOpen) :=
    Spelling.unquoted_opening (by decide) hfits.before
  cases d with
  | url mark name =>
    obtain ⟨hmark, -, -⟩ := hd
    have hwritten (sp : Spelling) : (Directive.url mark name).written sp ++ q =
        sp.opening outputOpen ++ (mark :: name ++ mark :: (sp.first ++ '|' :: (sp.second ++
          ("asset_url".toList ++ (sp.closing outputClose ++ q))))) := by
      simp [Directive.written]
    rw [hwritten] at h ⊢
    refine ((h.of_append hquote (hopening hfits')).swap ?_ ?_).prepend (hopening hfits)
    · rintro behind t hend hne ht ⟨r, hr⟩
      obtain ⟨c, t, rfl⟩ := List.exists_cons_of_ne_nil hne
      obtain ⟨rfl, -⟩ := List.cons.inj hr
      exact unquoted_iff.1 hend.unquoted c hmark (ht.subset List.mem_cons_self)
    · intro hname
      exact absurd List.mem_cons_self (unquoted_iff.1 hname mark hmark)
  | setting path =>
    have hunquoted {sp : Spelling} (hfits : sp.Fits (.setting path)) :
        Unquoted ((Directive.setting path).written sp) :=
      (Spelling.unquoted_opening (by decide) hfits.before).append
        (Unquoted.append (by decide) ((Unquoted.of_path hd).append
          (Spelling.unquoted_closing (by decide) hfits.after)))
    exact (h.of_append hquote (hunquoted hfits')).prepend (hunquoted hfits)
  | tag t =>
    have hlead {sp : Spelling} (hfits : sp.Fits (.tag t)) : Unquoted (t.lead sp) := by
      have hgap : IsBlanks (t.gap sp) := by
        cases t with
        | opening negated condition => exact hfits.first
        | _ => exact List.forall_mem_nil _
      exact (Spelling.unquoted_opening (by decide) hfits.before).append
        ((Unquoted.of_word (isWord_of_mem_reservedWords t.word_mem_reservedWords)).append
          (.of_blanks hgap))
    have hwritten (sp : Spelling) : (Directive.tag t).written sp ++ q =
        t.lead sp ++ (t.condition ++ (sp.closing tagClose ++ q)) := by
      simp [Directive.written, Tag.written]
    rw [hwritten] at h ⊢
    refine ((h.of_append hquote (hlead hfits')).swap ?_ ?_).prepend (hlead hfits)
    · exact fun behind w hend hne hw hprefix => (Spelling.walled_closing hfits'.after q).behind hquote
        hend hne hprefix (hw.trans (List.suffix_cons quote behind))
    · exact fun _ => Tag.endsUrl_closing hquote hfits hfits'

end directive

/-! ### Pieces in front of a text -/

namespace Piece

variable {α : Type} {recognise : List Char → Option (α × List Char)} {s r x x' : List Char}

theorem eq_none_of_all_eq {c d : Char} {ps : List (Piece α)}
    (h : all recognise (c :: s) = .char d :: ps) : recognise (c :: s) = none := by
  cases hc : recognise (c :: s) with
  | none => rfl
  | some found =>
    rw [all, scan, hc] at h
    cases h

/-- A text falls into its characters just if nothing is recognised in it. -/
theorem all_eq_chars_append_iff : all recognise (s ++ r) = s.map .char ++ all recognise r ↔
    ∀ u, u <:+ s → u ≠ [] → recognise (u ++ r) = none := by
  induction s with
  | nil => exact ⟨fun _ u hu hne => absurd (List.suffix_nil.1 hu) hne, fun _ => rfl⟩
  | cons c s ih =>
    constructor
    · intro h u hu hne
      have hc : recognise (c :: (s ++ r)) = none := eq_none_of_all_eq h
      rw [List.cons_append, all_cons_of_none hc] at h
      rcases List.suffix_cons_iff.1 hu with rfl | hu
      · exact hc
      · exact ih.1 (List.cons.inj h).2 u hu hne
    · intro h
      have hc : recognise (c :: (s ++ r)) = none :=
        h (c :: s) (List.suffix_refl _) (List.cons_ne_nil c s)
      rw [List.cons_append, all_cons_of_none hc,
        ih.2 fun u hu => h u (hu.trans (List.suffix_cons c s))]
      rfl

/-- What is found in front of a text stays if another one takes its place behind which the same is
found. -/
theorem all_append_congr {ps : List (Piece α)}
    (hextend : ∀ u a t y, recognise u = some (a, t) → recognise (u ++ y) = some (a, t ++ y))
    (hconsume : ∀ u a t, recognise u = some (a, t) → ∃ d, d ≠ [] ∧ u = d ++ t)
    (hnone : ∀ u, u ≠ [] → recognise (u ++ x) = none → recognise (u ++ x') = none)
    (h : all recognise (s ++ x) = all recognise s ++ ps) :
    all recognise x = ps ∧ all recognise (s ++ x') = all recognise s ++ all recognise x' := by
  induction hn : s.length using Nat.strongRecOn generalizing s with
  | ind n ih =>
    cases s with
    | nil => exact ⟨h, rfl⟩
    | cons c s =>
      cases hc : recognise (c :: s) with
      | some found =>
        obtain ⟨a, t⟩ := found
        obtain ⟨d, hd, hsplit⟩ := hconsume _ a t hc
        rw [hsplit] at hc hn h ⊢
        have hall (y : List Char) : all recognise (d ++ t ++ y) =
            .directive a d :: all recognise (t ++ y) := by
          rw [List.append_assoc]
          exact all_append_of_some hd (by rw [← List.append_assoc]; exact hextend _ a t y hc)
        have hfirst : all recognise (d ++ t) = .directive a d :: all recognise t :=
          all_append_of_some hd hc
        rw [hall, hfirst] at h
        obtain ⟨hx, hx'⟩ := ih t.length
          (by rw [← hn, List.length_append]; exact Nat.lt_add_of_pos_left (List.length_pos_iff.2 hd))
          (List.cons.inj h).2 rfl
        refine ⟨hx, ?_⟩
        rw [hall, hfirst, hx']
        rfl
      | none =>
        rw [all_cons_of_none hc] at h ⊢
        have hcx : recognise (c :: (s ++ x)) = none := eq_none_of_all_eq h
        have hcx' : recognise (c :: (s ++ x')) = none := hnone (c :: s) (List.cons_ne_nil c s) hcx
        rw [List.cons_append, all_cons_of_none hcx] at h
        obtain ⟨hx, hx'⟩ := ih s.length (hn ▸ Nat.lt_succ_self _) (List.cons.inj h).2 rfl
        refine ⟨hx, ?_⟩
        rw [List.cons_append, all_cons_of_none hcx', hx']
        rfl

end Piece

/-! ### Directives apart from the outputs of URLs around them -/

/-- The pieces that a directive is for the first pass. -/
def Directive.urls (sp : Spelling) : Directive → List (Piece (List Char))
  | .url quote name => [.directive name ((Directive.url quote name).written sp)]
  | d => (d.written sp).map .char

/-- The URLs of the text are those in front of the directive and those behind it, and that of the
directive itself if it is one. -/
def UrlsApart (p : List Char) (d : Directive) (sp : Spelling) (q : List Char) : Prop :=
  Piece.all assetUrl? (p ++ (d.written sp ++ q)) =
    Piece.all assetUrl? p ++ (d.urls sp ++ Piece.all assetUrl? q)

section apart

variable {d : Directive} {sp sp' : Spelling} {p q : List Char}

theorem Tag.all_assetUrl? {t : Tag} (hfits : sp.Fits (.tag t)) (q : List Char) :
    Piece.all assetUrl? (t.written sp ++ q) = (t.lead sp).map .char ++
      Piece.all assetUrl? (t.condition ++ (sp.closing tagClose ++ q)) := by
  have hwritten : t.written sp ++ q = t.lead sp ++ (t.condition ++ (sp.closing tagClose ++ q)) := by
    simp [Tag.written]
  rw [hwritten]
  exact Piece.all_append_of_silent ((Tag.silent_lead hfits).of_le fun _ => assetUrl?_eq_none) _

/-- No output of a URL begins in a tag just if none begins in its condition. -/
theorem Tag.all_assetUrl?_eq_chars_iff {t : Tag} (hfits : sp.Fits (.tag t)) :
    Piece.all assetUrl? (t.written sp ++ q) =
        (t.written sp).map .char ++ Piece.all assetUrl? q ↔
      ∀ u, u <:+ t.condition → u ≠ [] → assetUrl? (u ++ (sp.closing tagClose ++ q)) = none := by
  have hclosing : Piece.all assetUrl? (sp.closing tagClose ++ q) =
      (sp.closing tagClose).map .char ++ Piece.all assetUrl? q :=
    Piece.all_append_of_silent ((Tag.silent_closing hfits).of_le fun _ => assetUrl?_eq_none) q
  rw [← Piece.all_eq_chars_append_iff, Tag.all_assetUrl? hfits, Tag.written, List.map_append,
    List.map_append, List.append_assoc, List.append_assoc, ← hclosing]
  exact List.append_cancel_left_eq _ _ _ |>.to_iff

theorem assetUrl?_written_setting {path : List Char} (hfits : sp.Fits (.setting path))
    (r : List Char) : assetUrl? ((Directive.setting path).written sp ++ r) = none := by
  have hopen := opened?_opening (a := 's') outputOpen hfits.before (by decide) (by decide)
    ("ettings.".toList ++ (path ++ (sp.closing outputClose ++ r)))
  have hfile (s : List Char) : filename? ('s' :: s) = none := by
    rw [Option.eq_none_iff_forall_ne_some]
    rintro ⟨name, rest⟩ hname
    obtain ⟨quote, hquote, -, -, heq⟩ := filename?_eq_some_iff.1 hname
    obtain ⟨rfl, -⟩ := List.cons.inj heq
    exact absurd hquote (by decide)
  have hwritten : (Directive.setting path).written sp ++ r = sp.opening outputOpen ++
      's' :: ("ettings.".toList ++ (path ++ (sp.closing outputClose ++ r))) := by
    simp [Directive.written]
  rw [hwritten, assetUrl?, hopen]
  exact congrArg (Option.bind · _) (hfile _)

theorem silent_assetUrl?_setting {path : List Char} (hpath : IsPath path)
    (hfits : sp.Fits (.setting path)) :
    Silent assetUrl? ((Directive.setting path).written sp) := by
  obtain ⟨rest, hrest⟩ : ∃ rest, rest = dash sp.openingDash ++ (sp.before ++
    ("settings.".toList ++ (path ++ sp.closing outputClose))) := ⟨_, rfl⟩
  have hwritten : (Directive.setting path).written sp = '\x7b' :: '\x7b' :: rest := by
    simp [hrest, Directive.written, Spelling.opening, outputOpen]
  have hbrace : '\x7b' ∉ rest := by
    obtain ⟨s, hs, hchars⟩ := exists_closing_eq hfits.after outputClose
    have hbefore : '\x7b' ∉ sp.before := fun hmem => absurd (hfits.before _ hmem) (by decide)
    have hclosing : '\x7b' ∉ s := fun hmem => absurd (hchars _ hmem) (by decide)
    rw [hrest, hs]
    refine List.not_mem_append (fun hmem => absurd (mem_dash hmem) (by decide)) ?_
    refine List.not_mem_append hbefore (List.not_mem_append (by decide) ?_)
    refine List.not_mem_append (hpath.not_mem (by decide) (by decide)) ?_
    exact List.not_mem_append hclosing (by decide)
  have hfirst := assetUrl?_written_setting hfits
  rw [hwritten] at hfirst ⊢
  refine Silent.cons_iff.2 ⟨hfirst, Silent.cons_iff.2 ⟨fun r => assetUrl?_eq_none ?_, ?_⟩⟩
  · have hne : rest ≠ [] := by simp [hrest]
    exact (after?_cons _ _ _).trans (after?_of_not_mem hbrace hne r)
  · exact (silent_after?_of_not_mem hbrace).of_le fun _ => assetUrl?_eq_none

/-- The directive in another spelling is found if it is in one. -/
theorem Directive.all_assetUrl?_respell (hd : d.WellFormed) (hfits : sp.Fits d)
    (hfits' : sp'.Fits d)
    (h : Piece.all assetUrl? (d.written sp ++ q) = d.urls sp ++ Piece.all assetUrl? q) :
    Piece.all assetUrl? (d.written sp' ++ q) = d.urls sp' ++ Piece.all assetUrl? q := by
  cases d with
  | url quote name =>
    exact Piece.all_append_of_some (List.cons_ne_nil _ _)
      (assetUrl?_eq_some_iff.2 ⟨quote, sp', hd, hfits', rfl⟩)
  | setting path => exact Piece.all_append_of_silent (silent_assetUrl?_setting hd hfits') q
  | tag t =>
    refine (Tag.all_assetUrl?_eq_chars_iff hfits').2 fun u hu hne => ?_
    exact assetUrl?_append_eq_none (Spelling.walled_closing hfits.after q)
      (Spelling.walled_closing hfits'.after q)
      (fun quote hquote => Tag.endsUrl_closing hquote hfits hfits') hne
      ((Tag.all_assetUrl?_eq_chars_iff hfits).1 h u hu hne)

theorem UrlsApart.respell (h : UrlsApart p d sp q) (hd : d.WellFormed) (hfits : sp.Fits d)
    (hfits' : sp'.Fits d) : UrlsApart p d sp' q := by
  have hconsume : ∀ u a t, assetUrl? u = some (a, t) → ∃ d, d ≠ [] ∧ u = d ++ t := by
    intro u name t hu
    obtain ⟨quote, start, behind, -, -, -, -, -, rfl⟩ := assetUrl?_eq_some_iff_parts.1 hu
    exact ⟨start ++ (name ++ quote :: behind), by simp, by simp⟩
  obtain ⟨hdirective, hfront⟩ := Piece.all_append_congr
    (fun u a t y hu => assetUrl?_append_of_some hu y) hconsume
    (fun u hne => assetUrl?_append_eq_none (Directive.walled_written hfits q)
      (Directive.walled_written hfits' q)
      (fun quote hquote => Directive.endsUrl_written hquote hd hfits hfits') hne) h
  rw [UrlsApart, hfront, Directive.all_assetUrl?_respell hd hfits hfits' hdirective]

end apart

end Storefront.Asset
