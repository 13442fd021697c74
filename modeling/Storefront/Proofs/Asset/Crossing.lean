import Storefront.Proofs.Asset.Frame
import Storefront.Proofs.Asset.WrittenTag
import Storefront.Proofs.Condition.Strings

/-!
Conditionals and tags that begin in front of a tag, in two spellings of it. They either end in front
of it, and are the same; or they take it in or end with it, and what follows is the same.
-/

namespace Storefront.Asset

open Text

/-! ### Opening braces behind a text -/

theorem opened?_append_cons {a : Char} {mark u z : List Char} (ha : isBlank a = false)
    (hdash : a ≠ '-') (hafter : after? mark (u ++ a :: z) = (after? mark u).map (· ++ a :: z)) :
    opened? mark (u ++ a :: z) = (opened? mark u).map (· ++ a :: z) := by
  rw [opened?, opened?, hafter, Option.map_map, Option.map_map]
  refine congrArg (Option.map · _) (funext fun s => ?_)
  show dropBlanks (skipDash (s ++ a :: z)) = _
  rw [skipDash_append hdash, dropBlanks_append ha]
  rfl

theorem closed?_append_cons {a : Char} {mark : List Char} (ha : isBlank a = false) (hdash : a ≠ '-')
    (hmark : a ∉ mark) (u z : List Char) :
    closed? mark (u ++ a :: z) = (closed? mark u).map (· ++ a :: z) := by
  rw [closed?, closed?, dropBlanks_append ha, skipDash_append hdash]
  exact after?_append_of_not_mem hmark _ z

section brace

variable {u x : List Char} (hx : x.head? = some '\x7b')

include hx

theorem after?_brace {mark : List Char} (hmark : '\x7b' ∉ mark) (u : List Char) :
    after? mark (u ++ x) = (after? mark u).map (· ++ x) := by
  obtain ⟨z, rfl⟩ := List.head?_eq_some_iff.1 hx
  exact after?_append_of_not_mem hmark u z

/-- The mark of tags begins with a brace and does not reach over another one. -/
theorem after?_tagOpen_brace (hne : u ≠ []) :
    after? tagOpen (u ++ x) = (after? tagOpen u).map (· ++ x) := by
  obtain ⟨c, u, rfl⟩ := List.exists_cons_of_ne_nil hne
  have hpercent : '\x7b' ∉ ['%'] := by decide
  by_cases hc : c = '\x7b'
  · subst hc
    rw [List.cons_append, tagOpen, after?_cons, after?_cons]
    exact after?_brace hx hpercent u
  · rw [List.cons_append, tagOpen, after?_cons_of_ne hc, after?_cons_of_ne hc]
    rfl

theorem opened?_tagOpen_brace (hne : u ≠ []) :
    opened? tagOpen (u ++ x) = (opened? tagOpen u).map (· ++ x) := by
  have hafter := after?_tagOpen_brace hx hne
  obtain ⟨z, rfl⟩ := List.head?_eq_some_iff.1 hx
  exact opened?_append_cons (by decide) (by decide) hafter

theorem closed?_tagClose_brace (u : List Char) :
    closed? tagClose (u ++ x) = (closed? tagClose u).map (· ++ x) := by
  obtain ⟨z, rfl⟩ := List.head?_eq_some_iff.1 hx
  exact closed?_append_cons (by decide) (by decide) (by decide) u z

theorem tag?_brace {word : List Char} (hword : word ∈ reservedWords) (hne : u ≠ []) :
    tag? word (u ++ x) = (tag? word u).map (· ++ x) := by
  have hbrace : '\x7b' ∉ word := fun hmem =>
    absurd (isWord_of_mem_reservedWords hword _ hmem) (by decide)
  rw [tag?, tag?, opened?_tagOpen_brace hx hne]
  cases opened? tagOpen u with
  | none => rfl
  | some v =>
    show (after? word (v ++ x)).bind _ = Option.map _ ((after? word v).bind _)
    rw [after?_brace hx hbrace]
    cases after? word v with
    | none => rfl
    | some r => exact closed?_tagClose_brace hx r

theorem Conditional.start?_brace (negated : Bool) (v : List Char) :
    start? negated (v ++ x) = (start? negated v).map fun start => (start.1, start.2 ++ x) := by
  have hbrace : '\x7b' ∉ openWord negated := fun hmem =>
    absurd (isWord_of_mem_reservedWords (openWord_mem_reservedWords negated) _ hmem) (by decide)
  rw [start?, start?, after?_brace hx hbrace]
  cases after? (openWord negated) v with
  | none => rfl
  | some s =>
    have hhead : ∀ c ∈ x.head?, isBlank c = false := by
      intro c hc
      rw [hx] at hc
      cases hc
      decide
    obtain ⟨htake, hdrop⟩ := takeWhile_append_of_head? hhead s
    rw [Option.map_some, Option.bind_some, Option.bind_some, htake, hdrop]
    split <;> rfl

end brace

/-! ### Cuts in a text and behind it -/

section cut

variable {ends : List Char → Option (List Char)} {s u x before rest : List Char}

theorem eq_none_of_cutBy? (h : cutBy? ends s = none) (hu : u <:+ s) : ends u = none := by
  induction s with
  | nil =>
    rw [List.suffix_nil.1 hu]
    exact Option.map_eq_none_iff.1 h
  | cons c s ih =>
    rw [cutBy?] at h
    split at h
    · cases h
    · next hnone =>
      rcases List.suffix_cons_iff.1 hu with rfl | hu
      · exact hnone
      · exact ih (Option.map_eq_none_iff.1 h) hu

theorem cutBy?_append_of_some (hnil : ends [] = none)
    (hends : ∀ u, u ≠ [] → ends (u ++ x) = (ends u).map (· ++ x))
    (h : cutBy? ends s = some (before, rest)) :
    cutBy? ends (s ++ x) = some (before, rest ++ x) := by
  induction s generalizing before with
  | nil =>
    rw [cutBy?, hnil] at h
    cases h
  | cons c s ih =>
    have hfirst := hends (c :: s) (List.cons_ne_nil c s)
    rw [List.cons_append] at hfirst ⊢
    rw [cutBy?] at h ⊢
    rw [hfirst]
    cases hs : ends (c :: s) with
    | some r =>
      rw [hs] at h
      cases h
      rfl
    | none =>
      rw [hs] at h
      obtain ⟨⟨b, r⟩, hcut, heq⟩ := Option.map_eq_some_iff.1 h
      cases heq
      rw [Option.map_none, ih hcut]
      rfl

end cut

/-! ### Texts that differ in one part -/

/-- What is found in texts that go on as `x` and as `x'`: nothing in both; or the same in front of
them; or things that are related, with the same rest. -/
inductive Alike {β : Type} (K : β → β → Prop) (x x' : List Char) :
    Option (β × List Char) → Option (β × List Char) → Prop
  | none : Alike K x x' none none
  | before (b : β) (v : List Char) : Alike K x x' (some (b, v ++ x)) (some (b, v ++ x'))
  | beyond {b b' : β} (h : K b b') (r : List Char) : Alike K x x' (some (b, r)) (some (b', r))

namespace Alike

variable {β γ : Type} {K : β → β → Prop} {L : γ → γ → Prop} {x x' : List Char}
  {o o' p p' : Option (β × List Char)}

theorem map {f : β → γ} (h : Alike K x x' o o') (hf : ∀ b b', K b b' → L (f b) (f b')) :
    Alike L x x' (o.map fun found => (f found.1, found.2))
      (o'.map fun found => (f found.1, found.2)) := by
  cases h with
  | none => exact none
  | before b v => exact before (f b) v
  | beyond hb r => exact beyond (hf _ _ hb) r

theorem orElse (ho : Alike K x x' o o') (hp : Alike K x x' p p') :
    Alike K x x' (o <|> p) (o' <|> p') := by
  cases ho with
  | none => exact hp
  | before b v => exact before b v
  | beyond hb r => exact beyond hb r

end Alike

/-- The same text, but for a part `w` that is written as `w'`. -/
inductive Swapped (w w' : List Char) : List Char → List Char → Prop
  | refl (s : List Char) : Swapped w w' s s
  | swap (p q : List Char) : Swapped w w' (p ++ (w ++ q)) (p ++ (w' ++ q))

namespace Swapped

variable {w w' s s' : List Char}

theorem prepend (h : Swapped w w' s s') (a : List Char) : Swapped w w' (a ++ s) (a ++ s') := by
  cases h with
  | refl => exact refl _
  | swap p q =>
    have h : Swapped w w' _ _ := swap (a ++ p) q
    simpa only [List.append_assoc] using h

theorem append (h : Swapped w w' s s') (b : List Char) : Swapped w w' (s ++ b) (s' ++ b) := by
  cases h with
  | refl => exact refl _
  | swap p q =>
    simp only [List.append_assoc]
    exact swap p (q ++ b)

end Swapped

namespace Piece

variable {β : Type} {find : List Char → Option (β × List Char)} {keep : β → List Char}
  {K : β → β → Prop} {R : List Char → List Char → Prop} {x x' : List Char}

/-- What is kept of texts in which alike things are found is related. -/
theorem text_alike (hfind : ∀ s b r, find s = some (b, r) → ∃ d, d ≠ [] ∧ s = d ++ r)
    (hkeep : ∀ b b', K b b' → R (keep b) (keep b'))
    (hprepend : ∀ a s s', R s s' → R (a ++ s) (a ++ s'))
    (happend : ∀ b s s', R s s' → R (s ++ b) (s' ++ b))
    (hx : R (text (fun b _ => keep b) (all find x)) (text (fun b _ => keep b) (all find x')))
    {p : List Char}
    (halike : ∀ u, u <:+ p → u ≠ [] → Alike K x x' (find (u ++ x)) (find (u ++ x'))) :
    R (text (fun b _ => keep b) (all find (p ++ x)))
      (text (fun b _ => keep b) (all find (p ++ x'))) := by
  have hfirst {s r : List Char} {b : β} (h : find s = some (b, r)) :
      text (fun b _ => keep b) (all find s) = keep b ++ text (fun b _ => keep b) (all find r) := by
    obtain ⟨d, hd, rfl⟩ := hfind _ _ _ h
    rw [all_append_of_some hd h]
    rfl
  induction hn : p.length using Nat.strongRecOn generalizing p with
  | ind n ih =>
    cases p with
    | nil => exact hx
    | cons c p =>
      have hp := halike (c :: p) (List.suffix_refl _) (List.cons_ne_nil c p)
      generalize hs : find (c :: p ++ x) = o at hp
      generalize hs' : find (c :: p ++ x') = o' at hp
      cases hp with
      | none =>
        rw [List.cons_append] at hs hs' ⊢
        rw [List.cons_append, all_cons_of_none hs, all_cons_of_none hs']
        refine hprepend [c] _ _ (ih p.length ?_ (fun u hu => halike u ?_) rfl)
        · exact hn ▸ Nat.lt_succ_self _
        · exact hu.trans (List.suffix_cons c p)
      | before b v =>
        rw [hfirst hs, hfirst hs']
        obtain ⟨d, hd, heq⟩ := hfind _ _ _ hs
        rw [← List.append_assoc] at heq
        have hv : c :: p = d ++ v := List.append_cancel_right heq
        rw [hv] at hn halike
        refine hprepend _ _ _ (ih v.length ?_ (fun u hu => halike u ?_) rfl)
        · rw [← hn, List.length_append]
          exact Nat.lt_add_of_pos_left (List.length_pos_iff.2 hd)
        · exact hu.trans (List.suffix_append d v)
      | beyond hb r =>
        rw [hfirst hs, hfirst hs']
        exact happend _ _ _ (hkeep _ _ hb)

end Piece

/-! ### Tags in two spellings -/

section tag

variable {t : Tag} {sp sp' : Spelling} (ht : t.WellFormed) (hfits : sp.Fits (.tag t))
  (hfits' : sp'.Fits (.tag t))

include hfits in
theorem Tag.head?_written (y : List Char) : (t.written sp ++ y).head? = some '\x7b' := by
  obtain ⟨z, hz⟩ := Tag.exists_written_eq hfits y
  rw [hz, List.head?_cons]

/-! #### Removal of tags -/

include ht hfits in
theorem Tag.cutAt?_tagClose_append {v : List Char} (hv : cutAt? tagClose v = none)
    (y : List Char) : ∃ before, cutAt? tagClose (v ++ (t.written sp ++ y)) = some (before, y) := by
  obtain ⟨before, hcut⟩ := Tag.cutAt?_closing ht hfits (List.suffix_refl _) y
  have hwritten : t.written sp ++ y = t.lead sp ++ t.condition ++ (sp.closing tagClose ++ y) := by
    simp [Tag.written]
  rw [cutAt?_eq_cutBy?] at hv hcut ⊢
  refine ⟨v ++ before, ?_⟩
  rw [cutBy?_append_of_none, hwritten, hcut]
  · rfl
  · intro u hu _
    rw [after?_brace (Tag.head?_written hfits y) (by decide), eq_none_of_cutBy? hv hu]
    rfl

include hfits in
theorem Tag.cutAt?_tagClose_append_of_some {v before rest : List Char}
    (hv : cutAt? tagClose v = some (before, rest)) (y : List Char) :
    cutAt? tagClose (v ++ (t.written sp ++ y)) = some (before, rest ++ (t.written sp ++ y)) := by
  rw [cutAt?_eq_cutBy?] at hv ⊢
  exact cutBy?_append_of_some rfl
    (fun u _ => after?_brace (Tag.head?_written hfits y) (by decide) u) hv

include ht hfits hfits' in
/-- A tag that begins in front ends in front, or with the tag. -/
theorem Tag.alike_anyTag? {u : List Char} (hne : u ≠ []) (y : List Char) :
    Alike (fun _ _ => True) (t.written sp ++ y) (t.written sp' ++ y)
      (anyTag? (u ++ (t.written sp ++ y))) (anyTag? (u ++ (t.written sp' ++ y))) := by
  have hopen {sp : Spelling} (hfits : sp.Fits (.tag t)) : after? tagOpen (u ++ (t.written sp ++ y)) =
      (after? tagOpen u).map (· ++ (t.written sp ++ y)) :=
    after?_tagOpen_brace (Tag.head?_written hfits y) hne
  rw [anyTag?, anyTag?, hopen hfits, hopen hfits']
  cases after? tagOpen u with
  | none => exact .none
  | some v =>
    show Alike _ _ _ ((cutAt? tagClose (v ++ (t.written sp ++ y))).bind fun cut => some ((), cut.2))
      ((cutAt? tagClose (v ++ (t.written sp' ++ y))).bind fun cut => some ((), cut.2))
    cases hv : cutAt? tagClose v with
    | some cut =>
      rw [Tag.cutAt?_tagClose_append_of_some hfits hv, Tag.cutAt?_tagClose_append_of_some hfits' hv]
      exact .before () cut.2
    | none =>
      obtain ⟨before, hcut⟩ := Tag.cutAt?_tagClose_append ht hfits hv y
      obtain ⟨before', hcut'⟩ := Tag.cutAt?_tagClose_append ht hfits' hv y
      rw [hcut, hcut']
      exact .beyond trivial y

include ht hfits hfits' in
theorem Swapped.removeTags_eq {s s' : List Char}
    (h : Swapped (t.written sp) (t.written sp') s s') : removeTags s = removeTags s' := by
  cases h with
  | refl => rfl
  | swap p q =>
    have hall {sp : Spelling} (hfits : sp.Fits (.tag t)) :
        Piece.all anyTag? (t.written sp ++ q) =
          .directive () (t.written sp) :: Piece.all anyTag? q := by
      refine Piece.all_append_of_some ?_ (Tag.anyTag?_written ht hfits q)
      exact List.ne_nil_of_length_pos (by simp [Tag.written, Tag.lead, Spelling.opening, tagOpen])
    rw [removeTags, removeTags]
    refine Piece.text_alike (R := (· = ·)) (fun s a r h => ?_) (fun _ _ _ => rfl)
      (fun a _ _ h => congrArg (a ++ ·) h) (fun b _ _ h => congrArg (· ++ b) h) ?_
      fun u _ hne => Tag.alike_anyTag? ht hfits hfits' hne q
    · obtain ⟨d, ⟨v, rfl⟩, hs⟩ := exists_of_anyTag? h
      exact ⟨_, List.cons_ne_nil _ _, hs⟩
    · rw [hall hfits, hall hfits']
      rfl

/-! #### Bodies of conditionals -/

theorem opened?_closingBrace (r : List Char) :
    opened? tagOpen (tagOpen ++ '\x7d' :: r) = some ('\x7d' :: r) := by
  rw [opened?, after?_append]
  rfl

theorem after?_closingBrace {word : List Char} (hword : word ∈ reservedWords) (r : List Char) :
    after? word ('\x7d' :: r) = none := by
  rw [Option.eq_none_iff_forall_ne_some]
  intro s hs
  have heq := after?_eq_some_iff.1 hs
  cases word with
  | nil => exact absurd hword (by decide)
  | cons c word =>
    obtain ⟨rfl, -⟩ := List.cons.inj heq
    exact absurd (isWord_of_mem_reservedWords hword _ List.mem_cons_self) (by decide)

theorem tag?_closingBrace {word : List Char} (hword : word ∈ reservedWords) (r : List Char) :
    tag? word (tagOpen ++ '\x7d' :: r) = none := by
  rw [tag?, opened?_closingBrace]
  show (after? word ('\x7d' :: r)).bind _ = none
  rw [after?_closingBrace hword]
  rfl

theorem conditional?_closingBrace (r : List Char) :
    conditional? (tagOpen ++ '\x7d' :: r) = none := by
  have hkind (negated : Bool) : Conditional.ofKind? negated ('\x7d' :: r) = none := by
    rw [Conditional.ofKind?, after?_closingBrace (openWord_mem_reservedWords negated)]
    rfl
  rw [conditional?, opened?_closingBrace]
  show (Conditional.ofKind? false ('\x7d' :: r) <|> Conditional.ofKind? true ('\x7d' :: r)) = none
  rw [hkind, hkind]
  rfl

include hfits in
theorem Tag.suffix_written_cases {u : List Char} (hu : u <:+ t.written sp) :
    u = t.written sp ∨ u <:+ (t.written sp).tail := by
  obtain ⟨s, hs⟩ := Tag.exists_written_eq hfits []
  rw [List.append_nil] at hs
  rw [hs] at hu ⊢
  exact List.suffix_cons_iff.1 hu

include ht hfits hfits' in
/-- A body ends in front of a tag, with it, or behind it. -/
theorem Tag.alike_cutBy?_tag? {word : List Char} (hword : word ∈ reservedWords)
    (hopen : ∀ negated, word ≠ Conditional.openWord negated) (v y : List Char) :
    Alike (Swapped (t.written sp) (t.written sp')) (t.written sp ++ y) (t.written sp' ++ y)
      (cutBy? (tag? word) (v ++ (t.written sp ++ y)))
      (cutBy? (tag? word) (v ++ (t.written sp' ++ y))) := by
  have hends {sp : Spelling} (hfits : sp.Fits (.tag t)) (u : List Char) (hne : u ≠ []) :
      tag? word (u ++ (t.written sp ++ y)) =
        (tag? word u).map (· ++ (t.written sp ++ y)) :=
    tag?_brace (Tag.head?_written hfits y) hword hne
  cases hv : cutBy? (tag? word) v with
  | some cut =>
    rw [cutBy?_append_of_some (ends_tag? word).nil (hends hfits) hv,
      cutBy?_append_of_some (ends_tag? word).nil (hends hfits') hv]
    exact .before cut.1 cut.2
  | none =>
    have hcut {sp : Spelling} (hfits : sp.Fits (.tag t)) :
        cutBy? (tag? word) (v ++ (t.written sp ++ y)) =
          (cutBy? (tag? word) (t.written sp ++ y)).map (Prod.map (v ++ ·) id) := by
      refine cutBy?_append_of_none fun u hu hne => ?_
      rw [hends hfits u hne, eq_none_of_cutBy? hv hu]
      rfl
    rw [hcut hfits, hcut hfits']
    have htag {sp : Spelling} (hfits : sp.Fits (.tag t)) := Tag.tag?_written hfits hword hopen y
    by_cases heq : word = t.word
    · rw [cutBy?_of_some ((htag hfits).trans (if_pos heq)),
        cutBy?_of_some ((htag hfits').trans (if_pos heq))]
      exact .beyond (.refl _) y
    · have hbehind {sp : Spelling} (hfits : sp.Fits (.tag t)) :
          cutBy? (tag? word) (t.written sp ++ y) =
            (cutBy? (tag? word) y).map (Prod.map (t.written sp ++ ·) id) := by
        refine cutBy?_append_of_none fun u hu hne => ?_
        rcases Tag.suffix_written_cases hfits hu with rfl | hu
        · exact (htag hfits).trans (if_neg heq)
        · exact Tag.silent_tail ht hfits (fun _ => tag?_eq_none) (tag?_closingBrace hword) u y hu hne
      rw [hbehind hfits, hbehind hfits']
      cases cutBy? (tag? word) y with
      | none => exact .none
      | some cut => exact .beyond (.swap v cut.1) cut.2

end tag

/-! ### What is kept of conditionals -/

namespace Conditional

/-- Whether a condition can be read and holds. -/
def holds (settings : Dict Value) (condition : List Char) : Bool :=
  (Condition.evaluate settings (.ofList condition)).toOption.getD false

/-- The branch of a conditional that is kept. -/
def kept (context : Context) (c : Conditional) : List Char :=
  if context.keepBodies then c.body
  else if holds context.settings c.condition != c.negated then c.branches.1 else c.branches.2

theorem result_resolve {ε : Type} (context : Context) (c : Conditional) :
    (c.resolve (ε := ε) context).result = .ok (c.kept context) := by
  rw [resolve, kept]
  split
  · rfl
  · have hverdict : (verdict (ε := ε) context.settings (.ofList c.condition)).result =
        .ok (holds context.settings c.condition) := by
      rw [verdict, holds]
      cases Condition.evaluate context.settings (.ofList c.condition) <;> rfl
    refine Outcome.bind_eq_ok.2 ⟨_, hverdict, ?_⟩
    split <;> rfl

end Conditional

theorem Piece.result_textM {α ε : Type} {replace : α → Outcome ε (List Char)}
    {keep : α → List Char} (h : ∀ a, (replace a).result = .ok (keep a)) (ps : List (Piece α)) :
    (textM replace ps).result = .ok (text (fun a _ => keep a) ps) := by
  induction ps with
  | nil => rfl
  | cons p ps ih =>
    cases p with
    | char c => exact Outcome.bind_eq_ok.2 ⟨_, ih, rfl⟩
    | directive a s => exact Outcome.bind_eq_ok.2 ⟨_, h a, Outcome.bind_eq_ok.2 ⟨_, ih, rfl⟩⟩

/-- The text with all conditionals resolved. -/
def resolved (context : Context) (s : List Char) : List Char :=
  Piece.text (fun c _ => c.kept context) (Piece.all conditional? s)

theorem result_resolveConditionals {ε : Type} (context : Context) (s : List Char) :
    (resolveConditionals (ε := ε) context s).result =
      .ok (resolved context s) :=
  Piece.result_textM (Conditional.result_resolve context) _

section tag

variable {t : Tag} {sp sp' : Spelling} (ht : t.WellFormed) (hfits : sp.Fits (.tag t))
  (hfits' : sp'.Fits (.tag t))

include ht hfits hfits' in
theorem Swapped.branches {c d : Conditional}
    (h : Swapped (t.written sp) (t.written sp') c.body d.body) :
    Swapped (t.written sp) (t.written sp') c.branches.1 d.branches.1 ∧
      Swapped (t.written sp) (t.written sp') c.branches.2 d.branches.2 := by
  obtain ⟨negated, condition, body⟩ := c
  obtain ⟨negated', condition', body'⟩ := d
  rw [Conditional.branches, Conditional.branches]
  dsimp only at h ⊢
  cases h with
  | refl => exact ⟨.refl _, .refl _⟩
  | swap p q =>
    have halike := Tag.alike_cutBy?_tag? ht hfits hfits' elseWord_mem_reservedWords
      (by decide) p q
    generalize cutBy? (tag? elseWord) (p ++ (t.written sp ++ q)) = o at halike ⊢
    generalize cutBy? (tag? elseWord) (p ++ (t.written sp' ++ q)) = o' at halike ⊢
    cases halike with
    | none => exact ⟨.swap p q, .refl []⟩
    | before b v => exact ⟨.refl b, .swap v q⟩
    | beyond hb r => exact ⟨hb, .refl r⟩

include ht hfits hfits' in
/-- Of conditionals whose bodies are the same but for the tag, the same is kept. -/
theorem Swapped.kept {context : Context} {negated : Bool} {condition condition' body body' : List Char}
    (hholds : Conditional.holds context.settings condition =
      Conditional.holds context.settings condition')
    (h : Swapped (t.written sp) (t.written sp') body body') :
    Swapped (t.written sp) (t.written sp')
      (Conditional.kept context { negated, condition, body })
      (Conditional.kept context { negated, condition := condition', body := body' }) := by
  have hbranches := Swapped.branches ht hfits hfits' (c := { negated, condition, body })
    (d := { negated, condition := condition', body := body' }) h
  obtain ⟨hfirst, hsecond⟩ := hbranches
  rw [Conditional.kept, Conditional.kept, hholds]
  split
  · exact h
  · split
    · exact hfirst
    · exact hsecond

end tag

/-! ### Conditionals that begin in front of a tag -/

/-- The opening tag of a conditional begins in the text and does not end in it. -/
def LeavesOpen (s : List Char) : Prop :=
  ∃ u v negated start, u <:+ s ∧ opened? tagOpen u = some v ∧
    Conditional.start? negated v = some start ∧ cutBy? (closed? tagClose) start.2.tail = none

section conditional

variable {t : Tag} {sp sp' : Spelling} (ht : t.WellFormed) (hfits : sp.Fits (.tag t))
  (hfits' : sp'.Fits (.tag t))

open Conditional

include hfits in
/-- A condition that reaches into a tag cannot be read. -/
theorem Tag.holds_lead_eq_false (hquotes : Condition.QuotesClosed t.condition)
    (settings : Dict Value) (front : List Char) :
    holds settings (front ++ (t.lead sp ++ t.condition)) = false := by
  obtain ⟨s, hs, -, hlead⟩ := t.exists_lead_eq hfits
  have hmark : ∀ c ∈ '%' :: s, isQuote c = false := by
    refine List.forall_mem_cons.2 ⟨by decide, fun c hc => ?_⟩
    rw [Bool.eq_false_iff]
    intro hquote
    rcases isQuote_iff.1 hquote with rfl | rfl
    · exact not_mem_of_lead (by decide) (hlead _ hc)
    · exact not_mem_of_lead (by decide) (hlead _ hc)
  rw [holds, hs]
  cases h : Condition.evaluate settings
      (.ofList (front ++ ('\x7b' :: '%' :: s ++ t.condition))) with
  | error e => rfl
  | ok b => exact absurd h (Condition.evaluate_ne_ok hquotes hmark front b)

include ht hfits in
/-- A condition that does not end in front of a tag takes in what stands in front of the closing
mark of the tag. -/
theorem Tag.ofCondition?_append {r : List Char} (hr : cutBy? (closed? tagClose) r.tail = none)
    (negated : Bool) (y : List Char) : ofCondition? negated (r ++ (t.written sp ++ y)) =
      ended negated (r ++ (t.lead sp ++ t.condition)) y := by
  obtain ⟨s, hs, -, -⟩ := t.exists_lead_eq hfits
  have hwritten : t.written sp ++ y =
      '\x7b' :: '%' :: s ++ t.condition ++ (sp.closing tagClose ++ y) := by
    simp [Tag.written, hs]
  have hfront := Tag.cutBy?_closed?_closing ht hfits (List.suffix_refl _) y
  cases r with
  | nil =>
    have hsuffix : '%' :: s ++ t.condition <:+ t.lead sp ++ t.condition := by
      rw [hs]
      exact ⟨['\x7b'], rfl⟩
    have hcut := Tag.cutBy?_closed?_closing ht hfits hsuffix y
    have hcons : t.written sp ++ y =
        '\x7b' :: ('%' :: s ++ t.condition ++ (sp.closing tagClose ++ y)) := hwritten
    rw [List.nil_append, hcons, ofCondition?_cons, hcut, hs]
    rfl
  | cons c r =>
    have hcut : cutBy? (closed? tagClose) (r ++ (t.written sp ++ y)) =
        some (r ++ (t.lead sp ++ t.condition), y) := by
      rw [cutBy?_append_of_none, hwritten, ← hs, hfront]
      · rfl
      · intro u hu _
        rw [closed?_tagClose_brace (Tag.head?_written hfits y), eq_none_of_cutBy? hr hu]
        rfl
    rw [List.cons_append, ofCondition?_cons, hcut]
    rfl

/-- Conditionals of which the same is kept, but for the tag. -/
def KeptAlike (context : Context) (t : Tag) (sp sp' : Spelling) (c c' : Conditional) : Prop :=
  Swapped (t.written sp) (t.written sp') (c.kept context) (c'.kept context)

variable {context : Context}

include ht hfits hfits' in
theorem Tag.alike_ended (negated : Bool) (condition v y : List Char) :
    Alike (KeptAlike context t sp sp') (t.written sp ++ y) (t.written sp' ++ y)
      (ended negated condition (v ++ (t.written sp ++ y)))
      (ended negated condition (v ++ (t.written sp' ++ y))) := by
  have hopen (b : Bool) : endWord negated ≠ openWord b := by cases negated <;> cases b <;> decide
  have hcut := Tag.alike_cutBy?_tag? ht hfits hfits' (endWord_mem_reservedWords negated) hopen v y
  exact hcut.map fun _ _ h => h.kept ht hfits hfits' rfl

include ht hfits hfits' in
theorem Tag.alike_ofCondition? (negated : Bool) {r : List Char}
    (hr : Condition.QuotesClosed t.condition ∨ cutBy? (closed? tagClose) r.tail ≠ none)
    (y : List Char) :
    Alike (KeptAlike context t sp sp') (t.written sp ++ y) (t.written sp' ++ y)
      (ofCondition? negated (r ++ (t.written sp ++ y)))
      (ofCondition? negated (r ++ (t.written sp' ++ y))) := by
  cases hcut : cutBy? (closed? tagClose) r.tail with
  | some cut =>
    cases r with
    | nil => cases hcut
    | cons c r =>
      have hends {sp : Spelling} (hfits : sp.Fits (.tag t)) :
          ofCondition? negated (c :: r ++ (t.written sp ++ y)) =
            ended negated (c :: cut.1) (cut.2 ++ (t.written sp ++ y)) := by
        have hr : cutBy? (closed? tagClose) (r ++ (t.written sp ++ y)) =
            some (cut.1, cut.2 ++ (t.written sp ++ y)) :=
          cutBy?_append_of_some ends_closed?_tagClose.nil
            (fun u _ => closed?_tagClose_brace (Tag.head?_written hfits y) u) hcut
        rw [List.cons_append, ofCondition?_cons, hr]
        rfl
      rw [hends hfits, hends hfits']
      exact Tag.alike_ended ht hfits hfits' negated (c :: cut.1) cut.2 y
  | none =>
    have hquotes := hr.resolve_right fun hsome => hsome hcut
    rw [Tag.ofCondition?_append ht hfits hcut, Tag.ofCondition?_append ht hfits' hcut, ended, ended]
    cases cutBy? (tag? (endWord negated)) y with
    | none => exact .none
    | some cut =>
      refine Alike.beyond ?_ cut.2
      refine Swapped.kept ht hfits hfits' ?_ (.refl _)
      rw [Tag.holds_lead_eq_false hfits hquotes, Tag.holds_lead_eq_false hfits' hquotes]

include ht hfits hfits' in
theorem Tag.alike_ofBlanks? (negated : Bool) (blanks r y : List Char) :
    Alike (KeptAlike context t sp sp') (t.written sp ++ y) (t.written sp' ++ y)
      (ofBlanks? negated blanks (r ++ (t.written sp ++ y)))
      (ofBlanks? negated blanks (r ++ (t.written sp' ++ y))) := by
  have hclosed {sp : Spelling} (hfits : sp.Fits (.tag t)) :
      closed? tagClose (r ++ (t.written sp ++ y)) =
        (closed? tagClose r).map (· ++ (t.written sp ++ y)) :=
    closed?_tagClose_brace (Tag.head?_written hfits y) r
  rw [ofBlanks?_eq, ofBlanks?_eq, hclosed hfits, hclosed hfits']
  cases closed? tagClose r with
  | none => exact .none
  | some v =>
    rw [Option.map_some, Option.bind_some, Option.map_some, Option.bind_some]
    split
    · exact Tag.alike_ended ht hfits hfits' negated _ v y
    · exact .none

include ht hfits hfits' in
theorem Tag.alike_conditional? {u : List Char} (hne : u ≠ [])
    (hopen : Condition.QuotesClosed t.condition ∨ ¬LeavesOpen u) (y : List Char) :
    Alike (KeptAlike context t sp sp') (t.written sp ++ y) (t.written sp' ++ y)
      (conditional? (u ++ (t.written sp ++ y))) (conditional? (u ++ (t.written sp' ++ y))) := by
  have hopened {sp : Spelling} (hfits : sp.Fits (.tag t)) :
      opened? tagOpen (u ++ (t.written sp ++ y)) =
        (opened? tagOpen u).map (· ++ (t.written sp ++ y)) :=
    opened?_tagOpen_brace (Tag.head?_written hfits y) hne
  rw [conditional?, conditional?, hopened hfits, hopened hfits']
  cases hu : opened? tagOpen u with
  | none => exact .none
  | some v =>
    have hkind (negated : Bool) :
        Alike (KeptAlike context t sp sp') (t.written sp ++ y) (t.written sp' ++ y)
          (ofKind? negated (v ++ (t.written sp ++ y)))
          (ofKind? negated (v ++ (t.written sp' ++ y))) := by
      have hstart {sp : Spelling} (hfits : sp.Fits (.tag t)) :
          start? negated (v ++ (t.written sp ++ y)) = (start? negated v).map fun start =>
            (start.1, start.2 ++ (t.written sp ++ y)) :=
        start?_brace (Tag.head?_written hfits y) negated v
      rw [ofKind?_eq, ofKind?_eq, hstart hfits, hstart hfits']
      cases hv : start? negated v with
      | none => exact .none
      | some start =>
        refine Alike.orElse (Tag.alike_ofCondition? ht hfits hfits' negated ?_ y)
          (Tag.alike_ofBlanks? ht hfits hfits' negated start.1 start.2 y)
        refine hopen.imp_right fun hleft hcut => hleft ?_
        exact ⟨u, v, negated, start, List.suffix_refl u, hu, hv, hcut⟩
    exact (hkind false).orElse (hkind true)

theorem exists_of_conditional? {s r : List Char} {c : Conditional}
    (h : conditional? s = some (c, r)) : ∃ d, d ≠ [] ∧ s = d ++ r := by
  obtain ⟨v, rfl, before, u, tail, -, rfl⟩ := extends_of_conditional? h
  exact ⟨'\x7b' :: (before ++ (c.condition ++ (u ++ (tagClose ++ (c.body ++ tail))))),
    List.cons_ne_nil _ _, by simp⟩

theorem resolved_of_conditional? {s r : List Char} {c : Conditional}
    (h : conditional? s = some (c, r)) :
    resolved context s = c.kept context ++ resolved context r := by
  obtain ⟨d, hd, rfl⟩ := exists_of_conditional? h
  rw [resolved, Piece.all_append_of_some hd h]
  rfl

include ht hfits in
theorem Tag.resolved_written_of_none {y : List Char} (hbegun : t.begun y = none) :
    resolved context (t.written sp ++ y) = t.written sp ++ resolved context y := by
  obtain ⟨s, hs⟩ := Tag.exists_written_eq hfits []
  rw [List.append_nil] at hs
  have hfirst := Tag.conditional?_written ht hfits y
  have hsilent := Tag.silent_tail ht hfits (fun _ => conditional?_eq_none) conditional?_closingBrace
  rw [hbegun] at hfirst
  rw [hs, List.cons_append] at hfirst
  rw [hs, List.tail_cons] at hsilent
  rw [hs, resolved, List.cons_append, Piece.all_cons_of_none hfirst,
    Piece.all_append_of_silent hsilent]
  show '\x7b' :: Piece.text _ (('%' :: s).map .char ++ Piece.all conditional? y) = _
  rw [Piece.text_append, Piece.text_chars]
  rfl

include ht hfits hfits' in
/-- Conditionals that are resolved leave the tag where it was, or the same text. -/
theorem Tag.swapped_resolved {x : List Char}
    (hopen : Condition.QuotesClosed t.condition ∨ ¬LeavesOpen x) (y : List Char) :
    Swapped (t.written sp) (t.written sp') (resolved context (x ++ (t.written sp ++ y)))
      (resolved context (x ++ (t.written sp' ++ y))) := by
  refine Piece.text_alike (K := KeptAlike context t sp sp') (fun s c r h => exists_of_conditional? h)
    (fun c c' h => h) (fun a s s' h => h.prepend a) (fun b s s' h => h.append b) ?_
    fun u hu hne => Tag.alike_conditional? ht hfits hfits' hne (hopen.imp_right ?_) y
  · show Swapped _ _ (resolved context (t.written sp ++ y)) (resolved context (t.written sp' ++ y))
    cases hbegun : t.begun y with
    | none =>
      rw [Tag.resolved_written_of_none ht hfits hbegun, Tag.resolved_written_of_none ht hfits' hbegun]
      exact .swap [] _
    | some found =>
      rw [resolved_of_conditional? ((Tag.conditional?_written ht hfits y).trans hbegun),
        resolved_of_conditional? ((Tag.conditional?_written ht hfits' y).trans hbegun)]
      exact .refl _
  · rintro hx ⟨v, w, negated, start, hv, hrest⟩
    exact hx ⟨v, w, negated, start, hv.trans hu, hrest⟩

end conditional

end Storefront.Asset
