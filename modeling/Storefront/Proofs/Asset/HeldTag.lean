import Storefront.Proofs.Asset.Crossing
import Storefront.Proofs.Asset.Leftover

/-!
Tags of conditionals while setting values are held back: an output of a setting lies in front of a
tag, behind it or in its condition, and the tag with marks in its condition is a tag once more.
-/

namespace Storefront.Asset

open Text

/-! ### The extent of an output of a setting -/

section setting

variable {u s path r : List Char} {a : Char}

theorem not_mem_of_path? (h : path? s = some (path, r)) (ha : isSegmentChar a = false)
    (hdot : a ≠ '.') : a ∉ path := by
  cases s with
  | nil => cases h
  | cons c s =>
    rw [path?] at h
    split at h
    · next hc =>
      cases h
      refine List.not_mem_cons_of_ne_of_not_mem ?_ (not_mem_takeDotted ha hdot s)
      exact (ne_of_test hc ha).symm
    · cases h

/-- No quote stands in an output of a setting. -/
theorem exists_of_settingOutput? (h : settingOutput? s = some (path, r)) :
    ∃ d, d ≠ [] ∧ s = d ++ r ∧ ∀ c ∈ d, isQuote c = false := by
  obtain ⟨t, ht, h⟩ := Option.bind_eq_some_iff.1 h
  obtain ⟨v, hv, h⟩ := Option.bind_eq_some_iff.1 h
  obtain ⟨⟨p, w⟩, hp, h⟩ := Option.bind_eq_some_iff.1 h
  obtain ⟨x, hx, heq⟩ := Option.bind_eq_some_iff.1 h
  cases heq
  have hsettings : t = 's' :: ("ettings.".toList ++ v) :=
    after?_eq_some_iff.1 hv
  rw [hsettings] at ht
  obtain ⟨b, before, hbefore, rfl⟩ :=
    (opened?_eq_cons_iff outputOpen (by decide) (by decide)).1 ht
  obtain ⟨after, b', hafter, hclosing⟩ := closed?_outputClose_iff.1 hx
  refine ⟨outputOpen ++ (dash b ++ (before ++ ('s' :: "ettings.".toList ++ (path ++
    (after ++ (dash b' ++ outputClose)))))), List.cons_ne_nil _ _, ?_, fun c hc => ?_⟩
  · rw [eq_append_of_path? hp, hclosing]
    simp
  · rw [Bool.eq_false_iff]
    intro hquote
    obtain ⟨hblank, hdash, hopen, hname, hsegment, hdot, hclose⟩ : isBlank c = false ∧ c ≠ '-' ∧
        c ∉ outputOpen ∧ c ∉ 's' :: "ettings.".toList ∧ isSegmentChar c = false ∧ c ≠ '.' ∧
        c ∉ outputClose := by
      rcases isQuote_iff.1 hquote with rfl | rfl <;> decide
    have hblanks {s : List Char} (hs : IsBlanks s) : c ∉ s := fun hc =>
      absurd (hs c hc) (Bool.eq_false_iff.1 hblank)
    have hpath : c ∉ path := not_mem_of_path? hp hsegment hdot
    simp only [List.mem_append] at hc
    rcases hc with hc | hc | hc | hc | hc | hc | hc | hc
    · exact hopen hc
    · exact hdash (mem_dash hc)
    · exact hblanks hbefore hc
    · exact hname hc
    · exact hpath hc
    · exact hblanks hafter hc
    · exact hdash (mem_dash hc)
    · exact hclose hc

theorem after?_append_of_length_le {mark u : List Char} (h : mark.length ≤ u.length)
    (x : List Char) : after? mark (u ++ x) = (after? mark u).map (· ++ x) := by
  cases hu : after? mark u with
  | some r => exact after?_append_of_some hu
  | none =>
    rw [Option.map_none, Option.eq_none_iff_forall_ne_some]
    intro r hr
    obtain ⟨t, hne, rfl, -⟩ := exists_of_after?_append hu hr
    have hpos := List.length_pos_iff.2 hne
    rw [List.length_append] at h
    omega

/-- An output of a setting does not reach over a character that belongs to none. -/
theorem settingOutput?_append_cons {z : List Char}
    (hopen : after? outputOpen (u ++ a :: z) = (after? outputOpen u).map (· ++ a :: z))
    (ha : a = '\x7b' ∨ a = '%') :
    settingOutput? (u ++ a :: z) = (settingOutput? u).map (HasRest.extend (a :: z)) := by
  obtain ⟨hblank, hdash, hmark, hsegment, hdot, hclose⟩ : isBlank a = false ∧ a ≠ '-' ∧
      a ∉ "settings.".toList ∧ isSegmentChar a = false ∧ a ≠ '.' ∧ a ∉ outputClose := by
    rcases ha with rfl | rfl <;> decide
  rw [settingOutput?, settingOutput?, opened?_append_cons hblank hdash hopen]
  cases opened? outputOpen u with
  | none => rfl
  | some v =>
    show (after? "settings.".toList (v ++ a :: z)).bind _ =
      Option.map _ ((after? "settings.".toList v).bind _)
    rw [after?_append_of_not_mem hmark]
    cases after? "settings.".toList v with
    | none => rfl
    | some w =>
      show (path? (w ++ a :: z)).bind _ = Option.map _ ((path? w).bind _)
      rw [path?_append hsegment hdot]
      cases path? w with
      | none => rfl
      | some found =>
        show (closed? outputClose (found.2 ++ a :: z)).bind _ =
          Option.map _ ((closed? outputClose found.2).bind _)
        rw [closed?_append_cons hblank hdash hclose]
        cases closed? outputClose found.2 <;> rfl

theorem settingOutput?_percent (u z : List Char) :
    settingOutput? (u ++ '%' :: z) = (settingOutput? u).map (HasRest.extend ('%' :: z)) :=
  settingOutput?_append_cons (after?_append_of_not_mem (by decide) u z) (.inr rfl)

theorem settingOutput?_brace (hne : u ≠ []) (ha : a = '\x7b' ∨ a = '%') (z : List Char) :
    settingOutput? (u ++ '\x7b' :: a :: z) =
      (settingOutput? u).map (HasRest.extend ('\x7b' :: a :: z)) := by
  obtain ⟨c, u, rfl⟩ := List.exists_cons_of_ne_nil hne
  cases u with
  | cons d u =>
    refine settingOutput?_append_cons (after?_append_of_length_le ?_ _) (.inl rfl)
    exact Nat.le_add_left 2 u.length
  | nil =>
    have hmark : a ≠ 's' ∧ isBlank a = false ∧ a ≠ '-' := by rcases ha with rfl | rfl <;> decide
    obtain ⟨hs, hblank, hdash⟩ := hmark
    have hnone : settingOutput? [c] = none := by
      rw [settingOutput?, opened?_eq_none]
      · rfl
      · exact Option.eq_none_iff_forall_ne_some.2 fun r hr =>
          absurd (List.cons.inj (after?_eq_some_iff.1 hr)).2 (by simp)
    rw [hnone, Option.map_none]
    by_cases hc : c = '\x7b'
    · subst hc
      have hopen : opened? outputOpen ('\x7b' :: '\x7b' :: a :: z) = some (a :: z) := by
        show some (dropBlanks (skipDash (a :: z))) = _
        rw [skipDash_cons_of_ne hdash, dropBlanks_cons_of_not hblank]
      rw [List.singleton_append, settingOutput?, hopen]
      show (after? "settings.".toList (a :: z)).bind _ = none
      rw [show "settings.".toList = 's' :: "ettings.".toList from rfl, after?_cons_of_ne hs]
      rfl
    · exact settingOutput?_eq_none (after?_cons_of_ne hc)

end setting

/-! ### Pieces in a row -/

namespace Piece

variable {α ε : Type}

theorem hold_append (slot : Nat) (ps qs : List (Piece α)) :
    hold slot (ps ++ qs) = hold slot ps ++ hold (slot + (directives ps).length) qs := by
  induction ps generalizing slot with
  | nil => rfl
  | cons p ps ih =>
    cases p with
    | char c => exact congrArg (c :: ·) (ih slot)
    | directive a s =>
      have hlength : slot + 1 + (directives ps).length =
          slot + (directives (directive a s :: ps)).length := by
        show slot + 1 + (directives ps).length = slot + ((directives ps).length + 1)
        omega
      rw [List.cons_append, hold, hold, ih, hlength, List.append_assoc]

theorem textM_append (replace : α → Outcome ε (List Char)) (ps qs : List (Piece α)) :
    textM replace (ps ++ qs) = do return (← textM replace ps) ++ (← textM replace qs) := by
  induction ps with
  | nil => simp [textM]
  | cons p ps ih =>
    cases p with
    | char c => simp [textM, ih]
    | directive a s =>
      simp only [List.cons_append, textM, ih, bind_assoc, pure_bind, List.append_assoc]

end Piece

/-! ### A tag among outputs of settings -/

section tag

variable {t : Tag} {sp : Spelling} (hfits : sp.Fits (.tag t))

/-- The tag with marks in place of outputs in its condition, numbered from `slot`. -/
def Tag.held (slot : Nat) : Tag → Tag
  | .opening negated condition =>
    .opening negated (Piece.hold slot (Piece.all settingOutput? condition))
  | t => t

include hfits in
/-- Outputs of settings lie in front of a tag, in its condition or behind it. -/
theorem Tag.all_settingOutput? (x y : List Char) :
    Piece.all settingOutput? (x ++ (t.written sp ++ y)) =
      Piece.all settingOutput? x ++ ((t.lead sp).map .char ++ (Piece.all settingOutput? t.condition ++
        ((sp.closing tagClose).map .char ++ Piece.all settingOutput? y))) := by
  obtain ⟨z, hz⟩ := Tag.exists_written_eq hfits y
  have hfront : Piece.all settingOutput? (x ++ (t.written sp ++ y)) =
      Piece.all settingOutput? x ++ Piece.all settingOutput? (t.written sp ++ y) := by
    refine Piece.all_append fun u _ hne => ?_
    rw [hz]
    exact settingOutput?_brace hne (.inr rfl) z
  have hsilent : Silent settingOutput? (t.lead sp) :=
    (Tag.silent_lead hfits).of_le fun _ => settingOutput?_eq_none
  have hcondition : Piece.all settingOutput? (t.condition ++ (sp.closing tagClose ++ y)) =
      Piece.all settingOutput? t.condition ++
        Piece.all settingOutput? (sp.closing tagClose ++ y) := by
    obtain ⟨b, hb, hchars⟩ := exists_closing_eq hfits.after tagClose
    have hbrace : '\x7d' ∉ b := fun hmem => absurd (hchars _ hmem) (by decide)
    refine Piece.all_append fun u _ _ => ?_
    have hend := settingOutput?_percent (u ++ b) ('\x7d' :: y)
    rw [ends_settingOutput?.passes u b hbrace, Option.map_map] at hend
    have hclosing : sp.closing tagClose ++ y = b ++ '%' :: '\x7d' :: y := by
      rw [hb, List.append_assoc]
      rfl
    rw [hclosing, ← List.append_assoc, hend]
    refine congrArg (Option.map · _) (funext fun found => ?_)
    exact Prod.ext rfl (List.append_assoc _ _ _)
  have hclosing : Silent settingOutput? (sp.closing tagClose) :=
    (Tag.silent_closing hfits).of_le fun _ => settingOutput?_eq_none
  have hwritten : t.written sp ++ y = t.lead sp ++ (t.condition ++ (sp.closing tagClose ++ y)) := by
    simp [Tag.written]
  rw [hfront, hwritten, Piece.all_append_of_silent hsilent, hcondition,
    Piece.all_append_of_silent hclosing]

end tag

/-! ### Conditions with marks -/

section condition

variable {slot : Nat} {condition : List Char}

theorem trim_eq_self {s : List Char} (hhead : ∀ c r, s = c :: r → isBlank c = false)
    (hlast : ∀ r l, s = r ++ [l] → isBlank l = false) : trim s = s := by
  have hdrop : dropBlanks s = s := by
    cases s with
    | nil => rfl
    | cons c r => exact dropBlanks_cons_of_not (hhead c r rfl)
  rw [trim, hdrop, trimRight]
  rcases List.eq_nil_or_concat' s with rfl | ⟨r, l, rfl⟩
  · rfl
  · rw [List.reverse_concat, ← dropBlanks, dropBlanks_cons_of_not (hlast r l rfl),
      ← List.reverse_concat, List.reverse_reverse]

namespace Piece

variable {α : Type} {ps : List (Piece α)}

theorem head_hold {c : Char} {s : List Char} (h : hold slot ps = c :: s) :
    c = '\ue000' ∨ ∃ r, ps.flatMap source = c :: r := by
  cases ps with
  | nil => cases h
  | cons p ps =>
    cases p with
    | char d =>
      obtain ⟨rfl, -⟩ := List.cons.inj h
      exact .inr ⟨_, rfl⟩
    | directive a d =>
      obtain ⟨rfl, -⟩ := List.cons.inj h
      exact .inl rfl

theorem last_hold {l : Char} {s : List Char} (h : hold slot ps = s ++ [l]) :
    l = '\ue001' ∨ ∃ r, ps.flatMap source = r ++ [l] := by
  rcases List.eq_nil_or_concat' ps with rfl | ⟨qs, p, rfl⟩
  · exact absurd h.symm (List.append_ne_nil_of_right_ne_nil s (List.cons_ne_nil l []))
  · rw [hold_append] at h
    cases p with
    | char c =>
      obtain ⟨-, hc⟩ := List.append_inj' h rfl
      rw [← hc, List.flatMap_append]
      exact .inr ⟨qs.flatMap source, rfl⟩
    | directive a d =>
      have hmark (k : Nat) : hold k [directive a d] =
          ('\ue000' :: Nat.toDigits 10 k) ++ ['\ue001'] := List.append_nil _
      rw [hmark, ← List.append_assoc] at h
      obtain ⟨-, hl⟩ := List.append_inj' h rfl
      exact .inl (List.cons.inj hl).1.symm

theorem hold_ne_nil (h : ps.flatMap source ≠ []) : hold slot ps ≠ [] := by
  cases ps with
  | nil => exact absurd rfl h
  | cons p ps =>
    cases p with
    | char c => exact List.cons_ne_nil _ _
    | directive a d => exact List.cons_ne_nil _ _

end Piece

theorem IsClause.held (h : IsClause condition) (slot : Nat) :
    IsClause (Piece.hold slot (Piece.all settingOutput? condition)) := by
  have hsource : (Piece.all settingOutput? condition).flatMap Piece.source = condition :=
    Piece.flatMap_source_all condition
  have hnot {c : Char} (hc : c = '\x7b' ∨ c = '%') (k : Nat) : c ∉ heldMark k := by
    rcases hc with rfl | rfl <;> exact not_mem_heldMark (by decide) (by decide) (by decide) k
  refine ⟨Piece.hold_ne_nil (by rw [hsource]; exact h.nonempty), trim_eq_self ?_ ?_, ?_, ?_⟩
  · intro c r hr
    rcases Piece.head_hold hr with rfl | ⟨s, hs⟩
    · decide
    · exact isBlank_head_trim (h.trimmed.trans (hsource.symm.trans hs))
  · intro r l hr
    rcases Piece.last_hold hr with rfl | ⟨s, hs⟩
    · decide
    · exact isBlank_last_trim (h.trimmed.trans (hsource.symm.trans hs))
  · intro hopen
    have hopen := Piece.infix_of_hold (hnot (.inl rfl)) (by decide) hopen
    exact h.noTag (hsource ▸ hopen)
  · intro hclose
    have hclose := Piece.infix_of_hold (hnot (.inr rfl)) (by decide) hclose
    exact h.noClose (hsource ▸ hclose)

/-- Marks bring no quotes, and the outputs that they stand for have none. -/
theorem openQuote_hold {ps : List (Piece (List Char))} {quote : Option Char}
    (hquote : ∀ c ∈ quote, isQuote c = true)
    (hps : ∀ a d, .directive a d ∈ ps → ∀ c ∈ d, isQuote c = false) :
    Condition.openQuote quote (Piece.hold slot ps) =
      Condition.openQuote quote (ps.flatMap Piece.source) := by
  induction ps generalizing slot quote with
  | nil => rfl
  | cons p ps ih =>
    have htail := fun a d hd => hps a d (List.mem_cons_of_mem p hd)
    cases p with
    | char c => exact ih (Condition.isQuote_of_mem_quoteAfter hquote) htail
    | directive a d =>
      have hmark : ∀ c ∈ heldMark slot, isQuote c = false := by
        intro c hc
        rw [Bool.eq_false_iff]
        intro h
        rcases isQuote_iff.1 h with rfl | rfl <;>
          exact not_mem_heldMark (by decide) (by decide) (by decide) slot hc
      rw [Piece.hold, List.flatMap_cons, Piece.source, Condition.openQuote_append, Condition.openQuote_append,
        Condition.openQuote_of_not_quotes hquote hmark,
        Condition.openQuote_of_not_quotes hquote (hps a d List.mem_cons_self)]
      exact ih hquote htail

theorem quotesClosed_held_iff : Condition.QuotesClosed (Piece.hold slot
    (Piece.all settingOutput? condition)) ↔ Condition.QuotesClosed condition := by
  have hquotes : ∀ a d, .directive a d ∈ Piece.all settingOutput? condition →
      ∀ c ∈ d, isQuote c = false := by
    intro a d hd
    obtain ⟨c, u, r, hr, rfl⟩ := Piece.exists_of_mem_all hd
    obtain ⟨e, hne, he, hquote⟩ := exists_of_settingOutput? hr
    obtain ⟨b, e, rfl⟩ := List.exists_cons_of_ne_nil hne
    obtain ⟨rfl, hu⟩ := List.cons.inj he
    have htake : u.take (u.length - r.length) = e := by
      rw [hu]
      simp
    rwa [htake]
  rw [Condition.QuotesClosed, Condition.QuotesClosed, openQuote_hold (by simp) hquotes,
    Piece.flatMap_source_all]

end condition

section tag

variable {t : Tag} {sp : Spelling} {slot : Nat}

theorem Tag.WellFormed.held (h : t.WellFormed) (slot : Nat) : (t.held slot).WellFormed := by
  cases t with
  | opening negated condition => exact IsClause.held h slot
  | _ => exact h

theorem Spelling.Fits.held (h : sp.Fits (.tag t)) (slot : Nat) : sp.Fits (.tag (t.held slot)) := by
  refine ⟨h.before, h.first, h.second, h.after, ?_⟩
  have hparted := h.parted
  cases t with
  | opening negated condition =>
    refine ⟨hparted.1, fun hlast => hparted.2 ?_⟩
    obtain ⟨s, hs⟩ := List.getLast?_eq_some_iff.1 hlast
    rcases Piece.last_hold hs with heq | ⟨r, hr⟩
    · exact absurd heq (by decide)
    · rw [Piece.flatMap_source_all] at hr
      exact List.getLast?_eq_some_iff.2 ⟨r, hr⟩
  | _ => exact hparted

theorem Tag.quotesClosed_held_iff :
    Condition.QuotesClosed (t.held slot).condition ↔ Condition.QuotesClosed t.condition := by
  cases t with
  | opening negated condition => exact Asset.quotesClosed_held_iff
  | _ => exact Iff.rfl

theorem Tag.lead_held : (t.held slot).lead sp = t.lead sp := by
  cases t <;> rfl

theorem Tag.condition_held :
    (t.held slot).condition = Piece.hold slot (Piece.all settingOutput? t.condition) := by
  cases t <;> rfl

theorem Tag.outputs_eq (hfits : sp.Fits (.tag t)) (x y : List Char) :
    outputs (x ++ (t.written sp ++ y)) = outputs x ++ (outputs t.condition ++ outputs y) := by
  rw [outputs, Tag.all_settingOutput? hfits]
  simp [outputs]

/-- The text with its outputs held back has the tag with marks in its condition. -/
theorem Tag.holdSettings_eq (hfits : sp.Fits (.tag t)) (x y : List Char) :
    holdSettings (x ++ (t.written sp ++ y)) = holdSettings x ++
      ((t.held (outputs x).length).written sp ++
        Piece.hold ((outputs x).length + (outputs t.condition).length)
          (Piece.all settingOutput? y)) := by
  rw [holdSettings, Tag.all_settingOutput? hfits, Piece.hold_append, Piece.hold_chars_append,
    Piece.hold_append, Piece.hold_chars_append, Tag.written, Tag.lead_held, Tag.condition_held]
  simp [holdSettings, outputs]

end tag

end Storefront.Asset
