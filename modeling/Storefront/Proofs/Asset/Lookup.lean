import Mathlib.Data.List.Infix
import Storefront.Proofs.Asset.Extent
import Storefront.Proofs.Asset.Leaf
import Storefront.Proofs.Condition.Lookup

/-!
Assets read only settings that their text names. The names in conditions are found in a text with
marks in place of outputs, but no name has a mark in it, so each stands in the text itself.
-/

namespace Storefront.Asset

namespace Piece

variable {α ε : Type} {ps : List (Piece α)} {w : List Char}

/-- What stands before the first mark stands in the text. -/
theorem prefix_of_hold {slot : Nat} (hw : '\ue000' ∉ w) (h : w <+: hold slot ps) :
    w <+: ps.flatMap source := by
  induction ps generalizing slot w with
  | nil => exact h
  | cons p ps ih =>
    cases w with
    | nil => exact List.nil_prefix
    | cons c w =>
      obtain ⟨hc, hw⟩ := not_or.1 (fun hmem => hw (List.mem_cons.2 hmem))
      cases p with
      | char d =>
        obtain ⟨rfl, htail⟩ := List.cons_prefix_cons.1 h
        exact List.cons_prefix_cons.2 ⟨rfl, ih hw htail⟩
      | directive a s =>
        obtain ⟨rfl, -⟩ := List.cons_prefix_cons.1 h
        exact absurd rfl hc

/-- What stands among marks, with no part of one, stands in the text. -/
theorem infix_of_hold {c : Char} {slot : Nat} (hc : ∀ k, c ∉ heldMark k)
    (hw : '\ue000' ∉ c :: w) (h : c :: w <:+: hold slot ps) : c :: w <:+: ps.flatMap source := by
  induction ps generalizing slot with
  | nil => exact h
  | cons p ps ih =>
    cases p with
    | char d =>
      rcases List.infix_cons_iff.1 h with hstart | h
      · have hsource : c :: w <+: (char d :: ps).flatMap source := prefix_of_hold hw hstart
        exact hsource.isInfix
      · exact (ih h).trans (List.suffix_append _ _).isInfix
    | directive a s =>
      have hrest : c :: w <:+: hold (slot + 1) ps := Text.infix_of_infix_append (hc slot) h
      exact (ih hrest).trans (List.suffix_append _ _).isInfix

theorem textM_congr {f g : α → Outcome ε (List Char)} (h : ∀ a ∈ directives ps, f a = g a) :
    textM f ps = textM g ps := by
  induction ps with
  | nil => rfl
  | cons p ps ih =>
    cases p with
    | char c => rw [textM, textM, ih h]
    | directive a s =>
      rw [textM, textM, h a List.mem_cons_self, ih fun b hb => h b (List.mem_cons_of_mem a hb)]

end Piece

theorem infix_of_holdSettings {c : Char} {w u : List Char} (hc : ∀ k, c ∉ heldMark k)
    (hw : '\ue000' ∉ c :: w) (h : c :: w <:+: holdSettings u) : c :: w <:+: u := by
  have hpart := Piece.infix_of_hold hc hw h
  rwa [Piece.flatMap_source_all] at hpart

section lookup

variable {ε : Type} {context : Context} {s₁ s₂ : Dict Value} {u : List Char}

/-- The settings are the same at all paths that a text names. -/
def AgreeOn (s₁ s₂ : Dict Value) (u : List Char) : Prop :=
  ∀ path, "settings.".toList ++ path <:+: u → lookupPath s₁ path = lookupPath s₂ path

theorem AgreeOn.settingValues_eq (h : AgreeOn s₁ s₂ u) :
    settingValues s₁ u = settingValues s₂ u := by
  refine List.map_congr_left fun path hpath => ?_
  obtain ⟨t, r, ht, houtput⟩ := Piece.exists_of_mem_directives hpath
  rw [h path ((infix_of_settingOutput? houtput).trans ht.isInfix)]

/-- A conditional is decided by settings that the text names. -/
theorem AgreeOn.verdict_eq (h : AgreeOn s₁ s₂ u) {c : Conditional}
    (hc : c ∈ Piece.directives (Piece.all conditional? (holdSettings u))) :
    verdict (ε := ε) s₁ (.ofList c.condition) = verdict s₂ (.ofList c.condition) := by
  obtain ⟨t, r, ht, hconditional⟩ := Piece.exists_of_mem_directives hc
  obtain ⟨rest, rfl, before, v, tail, -, rfl⟩ := extends_of_conditional? hconditional
  have hcondition : c.condition <:+: holdSettings u := by
    refine List.IsInfix.trans ?_ ht.isInfix
    exact ⟨'\x7b' :: before, v ++ (tagClose ++ (c.body ++ (tail ++ r))), by simp⟩
  have hs (k : Nat) : 's' ∉ heldMark k := not_mem_heldMark (by decide) (by decide) (by decide) k
  have hevaluate : Condition.evaluate s₁ (.ofList c.condition) =
      Condition.evaluate s₂ (.ofList c.condition) := by
    refine Condition.evaluate_congr fun path hmark hpath => h path ?_
    rw [String.toList_ofList (l := c.condition)] at hpath
    refine infix_of_holdSettings hs ?_ (hpath.trans hcondition)
    exact List.not_mem_append (show '\ue000' ∉ "settings.".toList by decide) hmark
  rw [verdict, verdict, hevaluate]

theorem AgreeOn.resolveConditionals_eq (h : AgreeOn s₁ s₂ u) :
    resolveConditionals (ε := ε) { context with settings := s₁ } (holdSettings u) =
      resolveConditionals { context with settings := s₂ } (holdSettings u) := by
  refine Piece.textM_congr fun c hc => ?_
  rw [Conditional.resolve, Conditional.resolve]
  exact congrArg (fun x => if context.keepBodies then pure c.body else do
    let holds ← x
    return if holds != c.negated then c.branches.1 else c.branches.2) (h.verdict_eq hc)

/-- Settings that are the same wherever the text, with its URLs resolved, names one give the same
output and the same warnings. -/
theorem process_congr {text : String}
    (h : ∀ u, (resolveUrls context text.toList).result = .ok u → AgreeOn s₁ s₂ u) :
    process { context with settings := s₁ } text =
      process { context with settings := s₂ } text := by
  rw [process, process, processChars, processChars, bind_assoc, bind_assoc]
  refine Outcome.bind_congr_of_ok fun u hu => ?_
  have hagree := h u hu
  show (do
    let s ← (do
      let s ← resolveConditionals { context with settings := s₁ } (holdSettings u)
      return releaseSettings (settingValues s₁ u) (removeOutputs (removeTags s)))
    return String.ofList s) = _
  rw [hagree.settingValues_eq, hagree.resolveConditionals_eq]

/-- A value that reads like an output of another setting does not bring that setting in. -/
theorem process_congr_value :
    process
        { settings := [("a", .str "\x7b\x7bsettings.b\x7d\x7d"), ("b", .str "x")]
          resolveUrl := fun _ => .error .strayBrace
          keepBodies := false }
        (.ofList "\x7b\x7bsettings.a\x7d\x7d".toList) =
      process
        { settings := [("a", .str "\x7b\x7bsettings.b\x7d\x7d"), ("b", .str "y")]
          resolveUrl := fun _ => .error .strayBrace
          keepBodies := false }
        (.ofList "\x7b\x7bsettings.a\x7d\x7d".toList) := by
  let context : Context :=
    { settings := [], resolveUrl := fun _ => .error .strayBrace, keepBodies := false }
  let settings (b : String) : Dict Value :=
    [("a", .str "\x7b\x7bsettings.b\x7d\x7d"), ("b", .str b)]
  let text := "\x7b\x7bsettings.a\x7d\x7d".toList
  let names := (text.tails.filterMap (after? "settings.".toList)).flatMap List.inits
  have hresolve : (resolveUrls context (String.ofList text).toList).result = .ok text := by
    rw [String.toList_ofList]
    rfl
  have hnames : names = [[], ['a'], ['a', '\x7d'], ['a', '\x7d', '\x7d']] := by decide
  have hlookup : ∀ path ∈ names,
      lookupPath (settings "x") path = lookupPath (settings "y") path := by
    rw [hnames]
    simp only [List.forall_mem_cons]
    exact ⟨rfl, rfl, rfl, rfl, List.forall_mem_nil _⟩
  have hagree : ∀ u, (resolveUrls context (String.ofList text).toList).result = .ok u →
      AgreeOn (settings "x") (settings "y") u := by
    rintro u hu path ⟨before, rest, hpath⟩
    cases hresolve.symm.trans hu
    refine hlookup path (List.mem_flatMap.2 ⟨path ++ rest, ?_, ?_⟩)
    · refine List.mem_filterMap.2 ⟨"settings.".toList ++ (path ++ rest), ?_, after?_append _ _⟩
      exact (List.mem_tails _ _).2 ⟨before, by simpa using hpath⟩
    · exact (List.mem_inits _ _).2 (List.prefix_append path rest)
  exact process_congr hagree

end lookup

end Storefront.Asset
