import Storefront.Proofs.Asset.Extent
import Storefront.Proofs.Asset.Held

/-!
Setting values are opaque. While they are held back the text is a row of characters and whole marks
(`Chunk`), and it stays one: each pass cuts at braces, and no mark has a brace in it. What a pass
leaves is a sublist of the row, so each value comes out whole, where its mark stands.
-/

namespace Storefront.Asset

/-- A text that has neither end of a mark in it. -/
def Unmarked (s : List Char) : Prop := '\ue000' ∉ s ∧ '\ue001' ∉ s

instance (s : List Char) : Decidable (Unmarked s) := inferInstanceAs (Decidable (_ ∧ _))

/-- A character of a text, or the place of the value of a slot. -/
inductive Chunk where
  | char (c : Char)
  | slot (k : Nat)

namespace Chunk

/-- The text while values are held back. -/
def marked : Chunk → List Char
  | char c => [c]
  | slot k => heldMark k

/-- The text with the values. -/
def filled (values : List (List Char)) : Chunk → List Char
  | char c => [c]
  | slot k => values[k]?.getD []

/-- A character that no mark begins or ends with, or one of the first `slots` slots. -/
def Fits (slots : Nat) : Chunk → Prop
  | char c => c ≠ '\ue000' ∧ c ≠ '\ue001'
  | slot k => k < slots

theorem marked_ne_nil (x : Chunk) : x.marked ≠ [] := by
  cases x <;> exact List.cons_ne_nil _ _

end Chunk

def marks (cs : List Chunk) : List Char := cs.flatMap Chunk.marked

def fill (values : List (List Char)) (cs : List Chunk) : List Char := cs.flatMap (·.filled values)

@[simp] theorem marks_append (as bs : List Chunk) : marks (as ++ bs) = marks as ++ marks bs :=
  List.flatMap_append

theorem marks_ne_nil {cs : List Chunk} (h : cs ≠ []) : marks cs ≠ [] := by
  cases cs with
  | nil => exact absurd rfl h
  | cons x cs =>
    intro hnil
    exact x.marked_ne_nil (List.append_eq_nil_iff.1 hnil).1

/-! ### Cutting between chunks -/

/-- A character that is in no mark stands between whole chunks. -/
theorem exists_cut {b : Char} (hb : ∀ k, b ∉ heldMark k) {cs : List Chunk} {p q : List Char}
    (h : marks cs = p ++ b :: q) :
    ∃ as bs, cs = as ++ .char b :: bs ∧ marks as = p ∧ marks bs = q := by
  induction cs generalizing p with
  | nil =>
    have hlength := congrArg List.length h
    simp [marks] at hlength
  | cons x cs ih =>
    rcases List.append_eq_append_iff.1 h with ⟨p', rfl, hcs⟩ | ⟨t, hx, ht⟩
    · obtain ⟨as, bs, rfl, rfl, rfl⟩ := ih hcs
      exact ⟨x :: as, bs, rfl, rfl, rfl⟩
    cases t with
    | nil =>
      obtain ⟨as, bs, rfl, has, rfl⟩ := ih (p := []) ht.symm
      refine ⟨x :: as, bs, rfl, ?_, rfl⟩
      rw [List.append_nil] at hx
      show x.marked ++ marks as = p
      rw [has, hx, List.append_nil]
    | cons d t =>
      obtain ⟨rfl, rfl⟩ := List.cons.inj ht
      cases x with
      | slot k =>
        have hmem : b ∈ (Chunk.slot k).marked := by
          rw [hx]
          exact List.mem_append_right p List.mem_cons_self
        exact absurd hmem (hb k)
      | char c =>
        obtain ⟨rfl, hc⟩ | ⟨-, hnil⟩ := List.append_eq_singleton_iff.1 hx.symm
        · obtain ⟨rfl, rfl⟩ := List.cons.inj hc
          exact ⟨[], cs, rfl, rfl, rfl⟩
        · exact absurd hnil (List.cons_ne_nil _ _)

theorem leftBrace_not_mem_heldMark (k : Nat) : '\x7b' ∉ heldMark k :=
  not_mem_heldMark (by decide) (by decide) (by decide) k

theorem rightBrace_not_mem_heldMark (k : Nat) : '\x7d' ∉ heldMark k :=
  not_mem_heldMark (by decide) (by decide) (by decide) k

/-- A text between braces is made of whole chunks. -/
theorem exists_cut_braced {cs : List Chunk} {p d q : List Char} (hd : Braced d)
    (h : marks cs = p ++ (d ++ q)) :
    ∃ as ds bs, cs = as ++ (ds ++ bs) ∧ marks as = p ∧ marks ds = d ∧ marks bs = q := by
  obtain ⟨u, rfl⟩ := hd
  have hopen : marks cs = p ++ '\x7b' :: (u ++ '\x7d' :: q) := by simpa using h
  obtain ⟨as, rest, rfl, rfl, hrest⟩ := exists_cut leftBrace_not_mem_heldMark hopen
  obtain ⟨us, bs, rfl, rfl, rfl⟩ := exists_cut rightBrace_not_mem_heldMark hrest
  refine ⟨as, .char '\x7b' :: (us ++ [.char '\x7d']), bs, by simp, rfl, ?_, rfl⟩
  show '\x7b' :: marks (us ++ [.char '\x7d']) = _
  rw [marks_append]
  rfl

/-! ### Passes over chunks -/

namespace Piece

variable {α ε : Type} {recognise : List Char → Option (α × List Char)}

/-- What begins with a brace begins in no mark. -/
theorem silent_heldMark (hbrace : ∀ s a r, recognise s = some (a, r) → ∃ t, s = '\x7b' :: t)
    (k : Nat) : Silent recognise (heldMark k) := by
  intro u s hu hne
  rw [Option.eq_none_iff_forall_ne_some]
  rintro ⟨a, r⟩ hsome
  obtain ⟨t, ht⟩ := hbrace _ _ _ hsome
  cases u with
  | nil => exact hne rfl
  | cons c u =>
    obtain ⟨rfl, -⟩ := List.cons.inj ht
    exact leftBrace_not_mem_heldMark k (hu.subset List.mem_cons_self)

/-- A pass leaves whole chunks if it does so at each directive. -/
theorem exists_sublist_textM {replace : α → Outcome ε (List Char)}
    (hbrace : ∀ s a r, recognise s = some (a, r) → ∃ t, s = '\x7b' :: t)
    (hreplace : ∀ cs a r, recognise (marks cs) = some (a, r) →
      ∃ ds rs left, cs = ds ++ rs ∧ marks rs = r ∧ ds ≠ [] ∧ left.Sublist ds ∧
        (replace a).result = .ok (marks left))
    (cs : List Chunk) :
    ∃ left, left.Sublist cs ∧
      (textM replace (all recognise (marks cs))).result = .ok (marks left) := by
  induction hn : cs.length using Nat.strongRecOn generalizing cs with
  | ind n ih =>
    cases hrec : recognise (marks cs) with
    | some found =>
      obtain ⟨a, r⟩ := found
      obtain ⟨ds, rs, left, rfl, rfl, hne, hleft, ha⟩ := hreplace cs a r hrec
      have hlength : rs.length < n := by
        have hpos := List.length_pos_iff.2 hne
        rw [← hn, List.length_append]
        omega
      obtain ⟨rest, hrest, hrs⟩ := ih rs.length hlength rs rfl
      refine ⟨left ++ rest, hleft.append hrest, ?_⟩
      rw [marks_append] at hrec ⊢
      rw [all_append_of_some (marks_ne_nil hne) hrec, marks_append]
      exact Outcome.bind_eq_ok.2 ⟨_, ha, Outcome.bind_eq_ok.2 ⟨_, hrs, rfl⟩⟩
    | none =>
      cases cs with
      | nil => exact ⟨[], List.Sublist.refl _, rfl⟩
      | cons x cs =>
        have hlength : cs.length < n := by
          rw [← hn]
          exact Nat.lt_succ_self _
        obtain ⟨rest, hrest, hcs⟩ := ih cs.length hlength cs rfl
        refine ⟨x :: rest, hrest.cons_cons x, ?_⟩
        cases x with
        | char c =>
          have hnone : recognise (c :: marks cs) = none := hrec
          show (textM replace (all recognise (c :: marks cs))).result = _
          rw [all_cons_of_none hnone]
          exact Outcome.bind_eq_ok.2 ⟨_, hcs, rfl⟩
        | slot k =>
          show (textM replace (all recognise (heldMark k ++ marks cs))).result = _
          rw [all_append_of_silent (silent_heldMark hbrace k), textM_chars_append, map_eq_pure_bind]
          exact Outcome.bind_eq_ok.2 ⟨_, hcs, rfl⟩

theorem textM_pure (left : List Char) (ps : List (Piece α)) :
    textM (fun _ => (pure left : Outcome ε (List Char))) ps =
      pure (text (fun _ _ => left) ps) := by
  induction ps with
  | nil => rfl
  | cons p ps ih =>
    cases p with
    | char c =>
      rw [textM, ih]
      rfl
    | directive a s =>
      rw [textM, ih]
      rfl

/-- Removal of what stands between braces leaves whole chunks. -/
theorem exists_sublist_removal
    (hbraced : ∀ s a r, recognise s = some (a, r) → ∃ d, Braced d ∧ s = d ++ r)
    (cs : List Chunk) :
    ∃ left, left.Sublist cs ∧ text (fun _ _ => []) (all recognise (marks cs)) = marks left := by
  have hbrace : ∀ s a r, recognise s = some (a, r) → ∃ t, s = '\x7b' :: t := by
    intro s a r h
    obtain ⟨d, ⟨u, rfl⟩, rfl⟩ := hbraced s a r h
    exact ⟨_, List.cons_append⟩
  have hnothing : ∀ cs a r, recognise (marks cs) = some (a, r) →
      ∃ ds rs left, cs = ds ++ rs ∧ marks rs = r ∧ ds ≠ [] ∧ left.Sublist ds ∧
        (pure [] : Outcome Empty (List Char)).result = .ok (marks left) := by
    intro cs a r h
    obtain ⟨d, hd, hs⟩ := hbraced _ a r h
    obtain ⟨as, ds, rs, rfl, -, rfl, rfl⟩ := exists_cut_braced (p := []) hd hs
    refine ⟨as ++ ds, rs, [], (List.append_assoc _ _ _).symm, rfl, ?_, List.nil_sublist _, rfl⟩
    intro hnil
    obtain ⟨u, hu⟩ := hd
    rw [(List.append_eq_nil_iff.1 hnil).2] at hu
    cases hu
  obtain ⟨left, hleft, hresult⟩ := exists_sublist_textM hbrace hnothing cs
  rw [textM_pure] at hresult
  exact ⟨left, hleft, Except.ok.inj hresult⟩

end Piece

theorem exists_sublist_removeTags (cs : List Chunk) :
    ∃ left, left.Sublist cs ∧ removeTags (marks cs) = marks left :=
  Piece.exists_sublist_removal (fun _ _ _ => exists_of_anyTag?) cs

theorem exists_sublist_removeOutputs (cs : List Chunk) :
    ∃ left, left.Sublist cs ∧ removeOutputs (marks cs) = marks left :=
  Piece.exists_sublist_removal (fun _ _ _ => exists_of_anyOutput?) cs

/-! ### Conditionals -/

section conditionals

variable {ε : Type}

/-- A verdict is always given. -/
theorem exists_verdict (settings : Dict Value) (condition : String) :
    ∃ b, (verdict (ε := ε) settings condition).result = .ok b := by
  rw [verdict]
  split
  · next b hb => exact ⟨b, rfl⟩
  · exact ⟨false, rfl⟩

/-- What is kept of a conditional is its body or one of its branches, all of whole chunks. -/
theorem Conditional.exists_sublist_resolve (context : Context) (c : Conditional)
    {body : List Chunk} (hbody : marks body = c.body) :
    ∃ left, left.Sublist body ∧ (c.resolve (ε := ε) context).result = .ok (marks left) := by
  rw [Conditional.resolve]
  split
  · exact ⟨body, List.Sublist.refl _, by rw [hbody]; rfl⟩
  obtain ⟨first, second, hfirst, hsecond, hbranches⟩ : ∃ first second : List Chunk,
      first.Sublist body ∧ second.Sublist body ∧ c.branches = (marks first, marks second) := by
    rcases c.branches_cases with h | ⟨d, hd, h⟩
    · exact ⟨body, [], List.Sublist.refl _, List.nil_sublist _, by rw [h, hbody]; rfl⟩
    · obtain ⟨as, ds, bs, rfl, has, -, hbs⟩ := exists_cut_braced hd (hbody.trans h)
      refine ⟨as, bs, List.sublist_append_left _ _, ?_, by rw [has, hbs]⟩
      exact (List.sublist_append_right ds bs).trans (List.sublist_append_right as _)
  obtain ⟨holds, hholds⟩ := exists_verdict (ε := ε) context.settings (.ofList c.condition)
  rw [hbranches]
  cases hkeep : holds != c.negated with
  | true =>
    refine ⟨first, hfirst, Outcome.bind_eq_ok.2 ⟨holds, hholds, ?_⟩⟩
    rw [if_pos hkeep]
    rfl
  | false =>
    refine ⟨second, hsecond, Outcome.bind_eq_ok.2 ⟨holds, hholds, ?_⟩⟩
    rw [if_neg (Bool.eq_false_iff.1 hkeep)]
    rfl

theorem exists_sublist_resolveConditionals (context : Context) (cs : List Chunk) :
    ∃ left, left.Sublist cs ∧
      (resolveConditionals (ε := ε) context (marks cs)).result = .ok (marks left) := by
  refine Piece.exists_sublist_textM ?_ ?_ cs
  · intro s c r h
    obtain ⟨t, rfl, -⟩ := extends_of_conditional? h
    exact ⟨t, rfl⟩
  · intro cs c r h
    obtain ⟨t, hs, before, u, tail, htail, rfl⟩ := extends_of_conditional? h
    have hcut : marks cs = ('\x7b' :: (before ++ (c.condition ++ (u ++ ['%'])))) ++
        '\x7d' :: (c.body ++ (tail ++ r)) := by
      rw [hs]
      simp [tagClose]
    obtain ⟨as, rest, rfl, -, hrest⟩ := exists_cut rightBrace_not_mem_heldMark hcut
    obtain ⟨body, ts, rs, rfl, hbody, -, rfl⟩ := exists_cut_braced htail hrest
    obtain ⟨left, hleft, hresolve⟩ := c.exists_sublist_resolve (ε := ε) context hbody
    refine ⟨as ++ .char '\x7d' :: (body ++ ts), rs, left, by simp, rfl, by simp, ?_, hresolve⟩
    refine hleft.trans ((List.sublist_append_left body ts).trans ?_)
    exact (List.sublist_cons_self _ _).trans (List.sublist_append_right as _)

end conditionals

/-! ### Values in their slots -/

namespace Piece

variable {α ε : Type}

/-- Of pieces with marks in place of the directives the marks are whole. -/
theorem exists_marks_hold {ps : List (Piece α)}
    (h : ∀ c, .char c ∈ ps → c ≠ '\ue000' ∧ c ≠ '\ue001') (slot : Nat) :
    ∃ cs, hold slot ps = marks cs ∧ ∀ x ∈ cs, x.Fits (slot + (directives ps).length) := by
  induction ps generalizing slot with
  | nil => exact ⟨[], rfl, fun x hx => absurd hx List.not_mem_nil⟩
  | cons p ps ih =>
    have htail : ∀ c, .char c ∈ ps → c ≠ '\ue000' ∧ c ≠ '\ue001' :=
      fun c hc => h c (List.mem_cons_of_mem p hc)
    cases p with
    | char c =>
      obtain ⟨cs, hcs, hfits⟩ := ih htail slot
      refine ⟨.char c :: cs, congrArg (c :: ·) hcs, List.forall_mem_cons.2 ⟨?_, hfits⟩⟩
      exact h c List.mem_cons_self
    | directive a s =>
      obtain ⟨cs, hcs, hfits⟩ := ih htail (slot + 1)
      have hlength : slot + (directives (directive a s :: ps)).length =
          slot + 1 + (directives ps).length := by
        show slot + ((directives ps).length + 1) = _
        omega
      rw [hlength]
      refine ⟨.slot slot :: cs, congrArg (heldMark slot ++ ·) hcs,
        List.forall_mem_cons.2 ⟨?_, hfits⟩⟩
      show slot < slot + 1 + (directives ps).length
      omega

/-- What a pass puts out comes from the text or from what directives are replaced by. -/
theorem of_mem_textM {replace : α → Outcome ε (List Char)} {ps : List (Piece α)} {s : List Char}
    (h : (textM replace ps).result = .ok s) {c : Char} (hc : c ∈ s) :
    .char c ∈ ps ∨ ∃ a t, (replace a).result = .ok t ∧ c ∈ t := by
  induction ps generalizing s with
  | nil =>
    cases h
    exact absurd hc List.not_mem_nil
  | cons p ps ih =>
    cases p with
    | char b =>
      obtain ⟨t, ht, heq⟩ := Outcome.bind_eq_ok.1 h
      cases heq
      rcases List.mem_cons.1 hc with rfl | hc
      · exact .inl List.mem_cons_self
      · exact (ih ht hc).imp_left (List.mem_cons_of_mem _)
    | directive a b =>
      obtain ⟨first, hfirst, h⟩ := Outcome.bind_eq_ok.1 h
      obtain ⟨t, ht, heq⟩ := Outcome.bind_eq_ok.1 h
      cases heq
      rcases List.mem_append.1 hc with hc | hc
      · exact .inr ⟨a, first, hfirst, hc⟩
      · exact (ih ht hc).imp_left (List.mem_cons_of_mem _)

/-- Passes that replace each directive of the text with the same result have the same result. -/
theorem result_textM_congr {f g : α → Outcome ε (List Char)} {ps : List (Piece α)}
    (h : ∀ a ∈ directives ps, (f a).result = (g a).result) :
    (textM f ps).result = (textM g ps).result := by
  induction ps with
  | nil => rfl
  | cons p ps ih =>
    cases p with
    | char c => exact Outcome.result_bind_congr (ih h) fun _ _ => rfl
    | directive a s =>
      have htail := ih fun b hb => h b (List.mem_cons_of_mem a hb)
      refine Outcome.result_bind_congr (h a List.mem_cons_self) fun first _ => ?_
      exact Outcome.result_bind_congr htail fun _ _ => rfl

end Piece

theorem unmarked_of_resolveUrls {context : Context} {s u : List Char} (hs : Unmarked s)
    (hurl : ∀ name url, context.resolveUrl name = .ok url → Unmarked url.toList)
    (h : (resolveUrls context s).result = .ok u) : Unmarked u := by
  have hmem : ∀ c ∈ u, c ∈ s ∨ ∃ url : String, Unmarked url.toList ∧ c ∈ url.toList := by
    intro c hc
    rcases Piece.of_mem_textM h hc with hc | ⟨name, t, ht, hc⟩
    · exact .inl (Piece.mem_of_char_mem_all hc)
    · cases hresolve : context.resolveUrl (.ofList name) with
      | error e =>
        rw [hresolve] at ht
        cases ht
      | ok url =>
        rw [hresolve] at ht
        cases ht
        exact .inr ⟨url, hurl _ url hresolve, hc⟩
  constructor
  · intro hc
    rcases hmem _ hc with hc | ⟨url, hurl, hc⟩
    · exact hs.1 hc
    · exact hurl.1 hc
  · intro hc
    rcases hmem _ hc with hc | ⟨url, hurl, hc⟩
    · exact hs.2 hc
    · exact hurl.2 hc

theorem exists_marks_holdSettings {u : List Char} (h : Unmarked u) :
    ∃ cs, holdSettings u = marks cs ∧
      ∀ x ∈ cs, x.Fits (Piece.directives (Piece.all settingOutput? u)).length := by
  have hchars : ∀ c, .char c ∈ Piece.all settingOutput? u → c ≠ '\ue000' ∧ c ≠ '\ue001' := by
    intro c hc
    have hmem : c ∈ u := Piece.mem_of_char_mem_all hc
    exact ⟨fun heq => h.1 (heq ▸ hmem), fun heq => h.2 (heq ▸ hmem)⟩
  obtain ⟨cs, hcs, hfits⟩ := Piece.exists_marks_hold hchars 0
  rw [Nat.zero_add] at hfits
  exact ⟨cs, hcs, hfits⟩

/-- Each whole mark gives way to its own value. -/
theorem releaseSettings_marks {values : List (List Char)} {cs : List Chunk}
    (h : ∀ x ∈ cs, x.Fits values.length) :
    releaseSettings values (marks cs) = fill values cs := by
  induction cs with
  | nil => rfl
  | cons x cs ih =>
    obtain ⟨hx, hcs⟩ := List.forall_mem_cons.1 h
    show releaseSettings values (x.marked ++ marks cs) = x.filled values ++ fill values cs
    rw [← ih hcs]
    cases x with
    | char c =>
      refine releaseSettings_text_append (s := [c]) ?_ _
      exact fun hc => hx.1 (List.mem_singleton.1 hc).symm
    | slot k =>
      have hvalue : values[k]? = some values[k] := List.getElem?_eq_getElem hx
      rw [Chunk.marked, releaseSettings_heldMark_append hvalue, Chunk.filled, hvalue]
      rfl

/-! ### Outputs under two settings -/

section output

variable {context : Context} {text : String} {s₁ s₂ : Dict Value}

theorem result_process_of_ok {u s : List Char}
    (hu : (resolveUrls context text.toList).result = .ok u)
    (hs : (resolveConditionals (ε := UrlError) context (holdSettings u)).result = .ok s) :
    (process context text).result = .ok (.ofList
      (releaseSettings (settingValues context.settings u) (removeOutputs (removeTags s)))) :=
  Outcome.bind_eq_ok.2 ⟨_, Outcome.bind_eq_ok.2 ⟨u, hu, Outcome.bind_eq_ok.2 ⟨s, hs, rfl⟩⟩, rfl⟩

/-- The same verdicts keep the same branches. -/
theorem result_resolveConditionals_congr {s : List Char}
    (h : context.keepBodies = false → ∀ c ∈ Piece.directives (Piece.all conditional? s),
      (verdict (ε := UrlError) s₁ (.ofList c.condition)).result =
        (verdict (ε := UrlError) s₂ (.ofList c.condition)).result) :
    (resolveConditionals (ε := UrlError) { context with settings := s₁ } s).result =
      (resolveConditionals (ε := UrlError) { context with settings := s₂ } s).result := by
  refine Piece.result_textM_congr fun c hc => ?_
  rw [Conditional.resolve, Conditional.resolve]
  cases hkeep : context.keepBodies with
  | true => rfl
  | false => exact Outcome.result_bind_congr (h hkeep c hc) fun _ _ => rfl

/-- Two settings under which all conditionals have the same verdict give the same characters, with
the values of each in the same slots: what is left of the text as it is when all values are held in
slots. -/
theorem exists_process_eq_fill (htext : Unmarked text.toList)
    (hurl : ∀ name url, context.resolveUrl name = .ok url → Unmarked url.toList)
    (hverdict : context.keepBodies = false →
      ∀ u, (resolveUrls context text.toList).result = .ok u →
        ∀ c ∈ Piece.directives (Piece.all conditional? (holdSettings u)),
          (verdict (ε := UrlError) s₁ (.ofList c.condition)).result =
            (verdict (ε := UrlError) s₂ (.ofList c.condition)).result) :
    ∃ cs left : List Chunk, left.Sublist cs ∧
      (∀ u, (resolveUrls context text.toList).result = .ok u → marks cs = holdSettings u ∧
        ∀ x ∈ cs, x.Fits (Piece.directives (Piece.all settingOutput? u)).length) ∧
      ∀ s ∈ [s₁, s₂], (process { context with settings := s } text).result =
        (resolveUrls context text.toList).result.map fun u =>
          .ofList (fill (settingValues s u) left) := by
  cases hu : (resolveUrls context text.toList).result with
  | error e =>
    refine ⟨[], [], .slnil, fun u hu' => absurd hu' nofun, fun s _ => ?_⟩
    rw [process, processChars, bind_assoc]
    exact Outcome.result_bind_of_error hu _
  | ok u =>
    obtain ⟨cs, hhold, hfits⟩ := exists_marks_holdSettings (unmarked_of_resolveUrls htext hurl hu)
    obtain ⟨kept, hkept, hresolve⟩ := exists_sublist_resolveConditionals (ε := UrlError)
      { context with settings := s₁ } cs
    obtain ⟨untagged, huntagged, htags⟩ := exists_sublist_removeTags kept
    obtain ⟨left, hleft, houtputs⟩ := exists_sublist_removeOutputs untagged
    have hsublist : left.Sublist cs := hleft.trans (huntagged.trans hkept)
    refine ⟨cs, left, hsublist, fun v hv => Except.ok.inj hv ▸ ⟨hhold.symm, hfits⟩,
      fun s hs => ?_⟩
    have hresolve : (resolveConditionals (ε := UrlError) { context with settings := s }
        (holdSettings u)).result = .ok (marks kept) := by
      rw [← hhold] at hresolve
      rcases List.mem_cons.1 hs with rfl | hs
      · exact hresolve
      · rw [List.mem_singleton.1 hs, ← hresolve]
        exact (result_resolveConditionals_congr fun hkeep => hverdict hkeep u hu).symm
    have hrelease : releaseSettings (settingValues s u) (marks left) =
        fill (settingValues s u) left := by
      apply releaseSettings_marks
      rw [settingValues, List.length_map]
      exact fun x hx => hfits x (hsublist.subset hx)
    have hu : (resolveUrls { context with settings := s } text.toList).result = .ok u := hu
    have hprocess := result_process_of_ok hu hresolve
    rw [htags, houtputs, hrelease] at hprocess
    exact hprocess

/-- A value that reads like an output or like a mark is put out as it is. -/
theorem exists_process_eq_fill_name :
    let text := "\x7b%if settings.a%\x7d\x7b\x7bsettings.a\x7d\x7d\x7b%endif%\x7d".toList
    ∃ cs left : List Chunk, left.Sublist cs ∧ marks cs = holdSettings text ∧
      (∀ x ∈ cs, x.Fits 1) ∧ ∀ v ∈ ["\x7b\x7b settings.b", "%\x7d\ue0000\ue001"],
        (process
          { settings := [("a", .str v)], resolveUrl := fun _ => .ok "/c", keepBodies := false }
          (.ofList text)).result = .ok (.ofList (fill [v.toList] left)) := by
  intro text
  let context : Context := { settings := [], resolveUrl := fun _ => .ok "/c", keepBodies := false }
  let settings (v : String) : Dict Value := [("a", .str v)]
  have hu : (resolveUrls context (String.ofList text).toList).result = .ok text := by
    rw [String.toList_ofList]
    rfl
  have htext : Unmarked (String.ofList text).toList := by
    rw [String.toList_ofList]
    decide
  have hurl : ∀ name url, context.resolveUrl name = .ok url → Unmarked url.toList := by
    intro name url h
    cases h
    decide
  have hverdict : ∀ u, (resolveUrls context (String.ofList text).toList).result = .ok u →
      ∀ c ∈ Piece.directives (Piece.all conditional? (holdSettings u)),
        (verdict (ε := UrlError) (settings "\x7b\x7b settings.b")
          (.ofList c.condition)).result =
        (verdict (ε := UrlError) (settings "%\x7d\ue0000\ue001")
          (.ofList c.condition)).result := by
    intro v hv
    cases hu.symm.trans hv
    exact List.forall_mem_singleton.2 rfl
  have hpaths : Piece.directives (Piece.all settingOutput? text) = ["a".toList] := rfl
  have hlookup : ∀ v, lookupPath (settings v) "a".toList = .str v := fun _ => rfl
  obtain ⟨cs, left, hsublist, hchunks, hout⟩ :=
    exists_process_eq_fill htext hurl fun _ => hverdict
  obtain ⟨hmarks, hfits⟩ := hchunks text hu
  rw [hpaths] at hfits
  refine ⟨cs, left, hsublist, hmarks, hfits, fun v hv => ?_⟩
  have hmem : settings v ∈ [settings "\x7b\x7b settings.b", settings "%\x7d\ue0000\ue001"] :=
    List.mem_map_of_mem (f := settings) hv
  have h := hout (settings v) hmem
  rw [hu, Except.map, settingValues, hpaths, List.map_singleton, hlookup] at h
  exact h

end output

end Storefront.Asset
