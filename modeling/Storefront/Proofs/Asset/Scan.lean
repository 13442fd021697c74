import Storefront.Asset.Processing

/-!
Scanning a text that is put together from parts. What begins in a part must be known whatever
follows the part: either no directive begins in it (`Silent`), or the part is a directive. The text
then falls into the pieces of its parts.
-/

namespace Storefront.Asset

/-- Nothing is recognised at any place inside `s`, whatever follows `s`. -/
def Silent {β : Type} (recognise : List Char → Option β) (s : List Char) : Prop :=
  ∀ u r, u <:+ s → u ≠ [] → recognise (u ++ r) = none

namespace Silent

variable {β γ : Type} {recognise : List Char → Option β} {s t : List Char}

@[simp] theorem nil : Silent recognise [] := fun _ _ hu hne => absurd (List.suffix_nil.1 hu) hne

@[simp] theorem cons_iff {c : Char} :
    Silent recognise (c :: s) ↔ (∀ r, recognise (c :: (s ++ r)) = none) ∧ Silent recognise s := by
  constructor
  · intro h
    exact ⟨fun r => h (c :: s) r (List.suffix_refl _) (List.cons_ne_nil _ _),
      fun u r hu hne => h u r (hu.trans (List.suffix_cons c s)) hne⟩
  · rintro ⟨hc, hs⟩ u r hu hne
    rcases List.suffix_cons_iff.1 hu with rfl | hu
    · exact hc r
    · exact hs u r hu hne

theorem append (hs : Silent recognise s) (ht : Silent recognise t) : Silent recognise (s ++ t) := by
  induction s with
  | nil => exact ht
  | cons c s ih =>
    obtain ⟨hc, hs⟩ := cons_iff.1 hs
    rw [List.cons_append]
    refine cons_iff.2 ⟨fun r => ?_, ih hs⟩
    rw [List.append_assoc]
    exact hc (t ++ r)

theorem flatMap {ι : Type} {f : ι → List Char} {xs : List ι}
    (h : ∀ x ∈ xs, Silent recognise (f x)) : Silent recognise (xs.flatMap f) := by
  induction xs with
  | nil => exact nil
  | cons x xs ih =>
    rw [List.flatMap_cons]
    exact (h x List.mem_cons_self).append (ih fun y hy => h y (List.mem_cons_of_mem _ hy))

/-- A recogniser that finds less is silent as well. -/
theorem of_le {finer : List Char → Option γ} (hs : Silent recognise s)
    (hle : ∀ u, recognise u = none → finer u = none) : Silent finer s :=
  fun u r hu hne => hle _ (hs u r hu hne)

end Silent

/-! ### The first end of a body -/

section cutBy

variable {ends : List Char → Option (List Char)} {s r rest : List Char}

theorem cutBy?_of_some (h : ends s = some rest) : cutBy? ends s = some ([], rest) := by
  cases s with
  | nil => simp [cutBy?, h]
  | cons c s => simp [cutBy?, h]

/-- The body reaches up to `r` if no end begins before it. -/
theorem cutBy?_append (hs : ∀ u, u <:+ s → u ≠ [] → ends (u ++ r) = none)
    (hr : ends r = some rest) : cutBy? ends (s ++ r) = some (s, rest) := by
  induction s with
  | nil => exact cutBy?_of_some hr
  | cons c s ih =>
    have hc : ends (c :: (s ++ r)) = none := hs (c :: s) (List.suffix_refl _) (List.cons_ne_nil _ _)
    rw [List.cons_append, cutBy?, hc]
    simp only [ih fun u hu => hs u (hu.trans (List.suffix_cons c s)), Option.map_some]

/-- Where no end begins in `s`, it is the first part of what is cut off. -/
theorem cutBy?_append_of_none (hs : ∀ u, u <:+ s → u ≠ [] → ends (u ++ r) = none) :
    cutBy? ends (s ++ r) = (cutBy? ends r).map (Prod.map (s ++ ·) id) := by
  induction s with
  | nil => exact (congrFun Option.map_id (cutBy? ends r)).symm
  | cons c s ih =>
    have hc : ends (c :: (s ++ r)) = none := hs (c :: s) (List.suffix_refl _) (List.cons_ne_nil _ _)
    rw [List.cons_append, cutBy?, hc]
    simp only [ih fun u hu => hs u (hu.trans (List.suffix_cons c s)), Option.map_map]
    rfl

theorem Silent.cutBy?_append (hs : Silent ends s) (hr : ends r = some rest) :
    cutBy? ends (s ++ r) = some (s, rest) :=
  Asset.cutBy?_append (fun u hu hne => hs u r hu hne) hr

theorem Silent.cutBy?_eq_none (hs : Silent ends s) (h : ends [] = none) : cutBy? ends s = none := by
  induction s with
  | nil => simp [cutBy?, h]
  | cons c s ih =>
    obtain ⟨hc, hs⟩ := Silent.cons_iff.1 hs
    have hc : ends (c :: s) = none := by simpa using hc []
    rw [cutBy?, hc]
    simp only [ih hs, Option.map_none]

end cutBy

namespace Piece

variable {α ε : Type} {recognise : List Char → Option (α × List Char)}

theorem scan_eq_all_drop (skip : Nat) (s : List Char) :
    scan recognise skip s = all recognise (s.drop skip) := by
  induction s generalizing skip with
  | nil => cases skip <;> rfl
  | cons c s ih =>
    cases skip with
    | zero => rfl
    | succ skip => exact ih skip

theorem all_cons_of_none {c : Char} {s : List Char} (h : recognise (c :: s) = none) :
    all recognise (c :: s) = .char c :: all recognise s := by
  rw [all, scan, h]
  rfl

/-- A directive that is recognised at the start is the first piece. -/
theorem all_append_of_some {a : α} {d r : List Char} (hd : d ≠ [])
    (h : recognise (d ++ r) = some (a, r)) :
    all recognise (d ++ r) = .directive a d :: all recognise r := by
  cases d with
  | nil => exact absurd rfl hd
  | cons c d =>
    have hlen : (d ++ r).length - r.length = d.length := by simp
    rw [List.cons_append] at h ⊢
    rw [all, scan, h]
    simp only [hlen, scan_eq_all_drop, List.take_left, List.drop_left]

/-- A silent part falls into its characters. -/
theorem all_append_of_silent {s : List Char} (hs : Silent recognise s) (r : List Char) :
    all recognise (s ++ r) = s.map .char ++ all recognise r := by
  induction s with
  | nil => rfl
  | cons c s ih =>
    obtain ⟨hc, hs⟩ := Silent.cons_iff.1 hs
    rw [List.cons_append, all_cons_of_none (hc r), ih hs]
    rfl

/-! ### What is made of the pieces of parts -/

section pieces

variable (ps qs : List (Piece α)) (s : List Char)

@[simp] theorem text_append (replace : α → List Char → List Char) :
    text replace (ps ++ qs) = text replace ps ++ text replace qs := by
  simp [text]

@[simp] theorem text_chars (replace : α → List Char → List Char) :
    text replace (s.map .char) = s := by
  induction s with
  | nil => rfl
  | cons c s ih => exact congrArg (c :: ·) ih

@[simp] theorem directives_append : directives (ps ++ qs) = directives ps ++ directives qs := by
  simp [directives]

@[simp] theorem directives_chars : directives (s.map (.char : Char → Piece α)) = [] := by
  induction s with
  | nil => rfl
  | cons c s ih => exact ih

@[simp] theorem hold_chars_append (slot : Nat) :
    hold slot (s.map .char ++ ps) = s ++ hold slot ps := by
  induction s with
  | nil => rfl
  | cons c s ih => exact congrArg (c :: ·) ih

theorem textM_chars_append (replace : α → Outcome ε (List Char)) :
    textM replace (s.map .char ++ ps) = (s ++ ·) <$> textM replace ps := by
  induction s with
  | nil => exact (id_map _).symm
  | cons c s ih =>
    show (do return c :: (← textM replace (s.map Piece.char ++ ps))) = _
    simp only [ih, map_eq_pure_bind, bind_assoc, pure_bind, List.cons_append]

end pieces

end Piece

end Storefront.Asset
