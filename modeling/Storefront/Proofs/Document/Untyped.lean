import Storefront.Error
import Storefront.Proofs.Document.Stub

/-!
Entries without a type. Reading a document drops each with one warning and looks at nothing in it, so
a document reads the same without them, and so does a page that is composed of such documents.
-/

namespace Storefront

open Value

/-- The entries with the value of a key changed. -/
def Dict.update {α : Type} (key : String) (f : α → α) (d : Dict α) : Dict α :=
  d.map fun p => (p.1, if p.1 = key then f p.2 else p.2)

theorem Dict.get?_update {α : Type} (key : String) (f : α → α) (d : Dict α) (k : String) :
    (update key f d).get? k = (d.get? k).map fun a => if k = key then f a else a := by
  induction d with
  | nil => rfl
  | cons p d ih =>
    obtain ⟨j, a⟩ := p
    rw [update, List.map_cons, get?, get?, ← update, ih]
    by_cases h : j = k
    · subst h
      simp
    · simp [h]

namespace Value

theorem field_update_self {key : String} {f : Value → Value} (hf : f .null = .null)
    (fields : Dict Value) : field (fields.update key f) key = f (field fields key) := by
  rw [field, field, Dict.get?_update]
  cases fields.get? key with
  | none => exact hf.symm
  | some v => simp

theorem field_update_of_ne {key k : String} (h : k ≠ key) (f : Value → Value)
    (fields : Dict Value) : field (fields.update key f) k = field fields k := by
  rw [field, field, Dict.get?_update]
  cases fields.get? k with
  | none => rfl
  | some v => simp [h]

end Value

namespace Document

/-! ### Documents without untyped entries -/

/-- An object that has a type. -/
def isTyped (v : Value) : Bool := (typed? v).isSome

def typedOnly (entries : Dict Value) : Dict Value := entries.filter (isTyped ·.2)

/-- The blocks of a section without the untyped ones. -/
def pruneBlocks : Value → Value
  | .map entries => .map (typedOnly entries)
  | v => v

/-- A section without the untyped ones of its blocks. -/
def pruneSection : Value → Value
  | .map fields => .map (Dict.update "blocks" pruneBlocks fields)
  | v => v

/-- The sections of a document without the untyped ones and their untyped blocks. -/
def pruneSections : Value → Value
  | .map entries => .map ((typedOnly entries).map fun p => (p.1, pruneSection p.2))
  | v => v

/-- A document without untyped sections and blocks. -/
def prune : Value → Value
  | .map fields => .map (Dict.update "sections" pruneSections fields)
  | v => v

/-! ### Warnings -/

/-- A warning for each untyped block. -/
def droppedBlocks (v : Value) : List Warning :=
  v.asMap?.elim [] fun entries => (entries.filter (!isTyped ·.2)).map fun p => .droppedBlock p.1

/-- A warning for the section itself, or else one for each of its untyped blocks. -/
def droppedSection (id : String) (v : Value) : List Warning :=
  (typed? v).elim [.droppedSection id] fun typed => droppedBlocks (field typed.2 "blocks")

def droppedSections (v : Value) : List Warning :=
  v.asMap?.elim [] fun entries => entries.flatMap fun p => droppedSection p.1 p.2

/-- A warning for each entry that is taken out of a document, in the order of the entries. -/
def dropped (v : Value) : List Warning :=
  v.asMap?.elim [] fun fields => droppedSections (field fields "sections")

/-! ### Entries one by one -/

theorem typed?_pruneSection (v : Value) : typed? (pruneSection v) =
    (typed? v).map fun typed => (typed.1, typed.2.update "blocks" pruneBlocks) := by
  cases v with
  | map fields =>
    have htype : field (Dict.update "blocks" pruneBlocks fields) "type" = field fields "type" :=
      field_update_of_ne (by decide) _ _
    simp only [pruneSection, typed?, htype]
    split
    · rfl
    · rfl
  | _ => rfl

theorem typedOnly_cons_of_none {id : String} {v : Value} (h : typed? v = none)
    (entries : Dict Value) : typedOnly ((id, v) :: entries) = typedOnly entries :=
  List.filter_cons_of_neg (by simp [isTyped, h])

theorem typedOnly_cons_of_some {id : String} {v : Value} {typed : String × Dict Value}
    (h : typed? v = some typed) (entries : Dict Value) :
    typedOnly ((id, v) :: entries) = (id, v) :: typedOnly entries :=
  List.filter_cons_of_pos (by simp [isTyped, h])

theorem droppedBlocks_cons (id : String) (v : Value) (entries : Dict Value) :
    droppedBlocks (.map ((id, v) :: entries)) =
      (typed? v).elim [.droppedBlock id] (fun _ => []) ++ droppedBlocks (.map entries) := by
  cases h : typed? v with
  | none => simp [droppedBlocks, asMap?, isTyped, h]
  | some typed => simp [droppedBlocks, asMap?, isTyped, h]

end Document

/-! ### Readings that shed their warnings -/

/-- The second reading has the result of the first one, and if they succeed it gives no warnings
where the first one gives these. -/
structure Outcome.Sheds {ε α : Type} (warnings : List Warning) (x y : Outcome ε α) : Prop where
  result : y.result = x.result
  warnings : ∀ a, x.result = .ok a → x.warnings = warnings ∧ y.warnings = []

namespace Outcome.Sheds

variable {ε α β : Type} {ws vs : List Warning} {x y : Outcome ε α} {f g : α → Outcome ε β}

theorem ofExcept (r : Except ε α) : Sheds [] (.ofExcept r) (.ofExcept r) :=
  ⟨rfl, fun _ _ => ⟨rfl, rfl⟩⟩

theorem pure (a : α) : Sheds (ε := ε) [] (Pure.pure a) (Pure.pure a) := ofExcept (.ok a)

theorem fail (e : ε) : Sheds (α := α) [] (Outcome.fail e) (Outcome.fail e) := ofExcept (.error e)

/-- What is shed is shed by one reading after the other. -/
theorem bind (hx : Sheds ws x y) (hf : ∀ a, Sheds vs (f a) (g a)) :
    Sheds (ws ++ vs) (x >>= f) (y >>= g) := by
  obtain ⟨r, xs⟩ := x
  obtain ⟨r', ys⟩ := y
  obtain ⟨rfl, hwarnings⟩ := hx
  cases r' with
  | error e => exact ⟨rfl, nofun⟩
  | ok a =>
    obtain ⟨rfl, rfl⟩ := hwarnings a rfl
    refine ⟨(hf a).result, fun b hb => ?_⟩
    obtain ⟨hfs, hgs⟩ := (hf a).warnings b hb
    exact ⟨congrArg (xs ++ ·) hfs, congrArg ([] ++ ·) hgs⟩

theorem warn (w : Warning) (h : Sheds ws x y) :
    Sheds (w :: ws) (do Outcome.warn w; x) y :=
  ⟨h.result, fun a ha =>
    ⟨congrArg (w :: ·) (h.warnings a ha).1, (h.warnings a ha).2⟩⟩

/-- What comes after may give no warnings. -/
theorem bind_quiet (hx : Sheds ws x y) (hf : ∀ a, Sheds [] (f a) (g a)) :
    Sheds ws (x >>= f) (y >>= g) := by
  have hbind := hx.bind hf
  rwa [List.append_nil] at hbind

theorem mapError {δ : Type} (h : Sheds ws x y) (f : ε → δ) :
    Sheds ws (x.mapError f) (y.mapError f) :=
  ⟨congrArg (·.mapError f) h.result, fun a ha => h.warnings a (except_mapError_eq_ok.1 ha)⟩

end Outcome.Sheds

open Document Outcome

namespace SectionStub

theorem sheds_readBlocks (place : String) (blocks : Dict BlockStub) (entries : Dict Value) :
    Sheds (droppedBlocks (.map entries)) (readBlocks place blocks entries)
      (readBlocks place blocks (typedOnly entries)) := by
  induction entries generalizing blocks with
  | nil => exact .pure blocks
  | cons p entries ih =>
    obtain ⟨id, v⟩ := p
    rw [droppedBlocks_cons, readBlocks]
    cases hv : typed? v with
    | none =>
      rw [typedOnly_cons_of_none hv]
      exact (ih blocks).warn _
    | some typed =>
      rw [typedOnly_cons_of_some hv, readBlocks, hv]
      exact .bind (.ofExcept _) fun block => ih _

theorem sheds_blocks (place : String) (v : Value) :
    Sheds (droppedBlocks v) (blockEntries place v >>= readBlocks place [])
      (blockEntries place (pruneBlocks v) >>= readBlocks place []) := by
  cases v with
  | map entries => exact sheds_readBlocks place [] entries
  | _ =>
    dsimp only [blockEntries, asMap?, pruneBlocks]
    split
    · exact .fail _
    · exact .pure _

theorem readMembers_update (place type : String) (blocks : Dict BlockStub) (f : Value → Value)
    (fields : Dict Value) :
    readMembers place type blocks (fields.update "blocks" f) =
      readMembers place type blocks fields := by
  have hfield (k : String) (h : k ≠ "blocks") :
      field (fields.update "blocks" f) k = field fields k := field_update_of_ne h f fields
  rw [readMembers, hfield "settings" (by decide), hfield "block_order" (by decide),
    hfield "disabled" (by decide)]
  rfl

theorem sheds_ofFields (type : String) (fields : Dict Value) :
    Sheds (droppedBlocks (field fields "blocks")) (ofFields type fields)
      (ofFields type (fields.update "blocks" pruneBlocks)) := by
  rw [ofFields_eq, ofFields_eq, field_update_self rfl]
  simp only [readMembers_update]
  exact (sheds_blocks _ _).bind_quiet fun blocks => .ofExcept _

theorem sheds_readAll (sections : Dict SectionStub) (entries : Dict Value) :
    Sheds (droppedSections (.map entries)) (readAll sections entries)
      (readAll sections ((typedOnly entries).map fun p => (p.1, pruneSection p.2))) := by
  induction entries generalizing sections with
  | nil => exact .pure sections
  | cons p entries ih =>
    obtain ⟨id, v⟩ := p
    have hdropped : droppedSections (.map ((id, v) :: entries)) =
        droppedSection id v ++ droppedSections (.map entries) := by
      simp only [droppedSections, asMap?, Option.elim_some, List.flatMap_cons]
    rw [hdropped, droppedSection, readAll]
    cases hv : typed? v with
    | none =>
      rw [typedOnly_cons_of_none hv]
      exact (ih sections).warn _
    | some typed =>
      rw [typedOnly_cons_of_some hv, List.map_cons, readAll, typed?_pruneSection, hv]
      exact (sheds_ofFields _ _).bind fun stub => ih _

theorem sheds_mapOfValue (v : Value) :
    Sheds (droppedSections v) (mapOfValue v) (mapOfValue (pruneSections v)) := by
  cases v with
  | null => exact .pure []
  | map entries => exact sheds_readAll [] entries
  | _ => exact .fail _

end SectionStub

theorem Template.sheds_ofValue (v : Value) :
    Sheds (dropped v) (ofValue v) (ofValue (prune v)) := by
  cases v with
  | map fields =>
    have hfield (k : String) (h : k ≠ "sections") := field_update_of_ne h pruneSections fields
    simp only [prune, ofValue, field_update_self (f := pruneSections) rfl,
      hfield "order" (by decide), hfield "layout" (by decide), hfield "wrapper" (by decide)]
    exact (SectionStub.sheds_mapOfValue _).bind_quiet fun sections =>
      .bind_quiet (.ofExcept _) fun order => .pure _
  | _ => exact .fail _

theorem SectionGroup.sheds_ofValue (fallback : Option String) (v : Value) :
    Sheds (dropped v) (ofValue fallback v) (ofValue fallback (prune v)) := by
  cases v with
  | map fields =>
    have hfield (k : String) (h : k ≠ "sections") := field_update_of_ne h pruneSections fields
    simp only [prune, ofValue, field_update_self (f := pruneSections) rfl,
      hfield "type" (by decide), hfield "order" (by decide), hfield "name" (by decide)]
    exact .bind (.ofExcept _) fun kind =>
      (SectionStub.sheds_mapOfValue _).bind_quiet fun sections =>
        .bind_quiet (.ofExcept _) fun order => .pure _
  | _ => exact .fail _

/-! ### Pages -/

/-- The group of a region in decoded data, if there is any. -/
def SectionGroup.ofValue? (kind : String) :
    Option Value → Outcome Document.Error (Option SectionGroup)
  | none => return none
  | some v => do return some (← ofValue (some kind) v)

/-- The page of decoded documents. -/
def Page.ofValues (lookup : String → Option SectionSchema) (template : Value)
    (header footer : Option Value) : Outcome Storefront.Error Page := do
  let template ← (Template.ofValue template).mapError .document
  let header ← (SectionGroup.ofValue? "header" header).mapError .document
  let footer ← (SectionGroup.ofValue? "footer" footer).mapError .document
  .ofExcept ((composeRequired lookup (some template) header footer).mapError .page)

theorem SectionGroup.sheds_ofValue? (kind : String) (v : Option Value) :
    Sheds (v.elim [] dropped) (ofValue? kind v) (ofValue? kind (v.map prune)) := by
  cases v with
  | none => exact .pure none
  | some v => exact (sheds_ofValue (some kind) v).bind_quiet fun group => .pure (some group)

/-- Documents read the same, or fail with the same error, without their untyped entries, and so does
the page of such documents. Each of these entries gives one warning, and nothing else does. -/
theorem Document.sheds_prune (v : Value) (fallback : Option String)
    (lookup : String → Option SectionSchema) (header footer : Option Value) :
    Sheds (dropped v) (Template.ofValue v) (Template.ofValue (prune v)) ∧
    Sheds (dropped v) (SectionGroup.ofValue fallback v) (SectionGroup.ofValue fallback (prune v)) ∧
    Sheds (dropped v ++ (header.elim [] dropped ++ footer.elim [] dropped))
      (Page.ofValues lookup v header footer)
      (Page.ofValues lookup (prune v) (header.map prune) (footer.map prune)) :=
  ⟨Template.sheds_ofValue v, SectionGroup.sheds_ofValue fallback v,
    ((Template.sheds_ofValue v).mapError _).bind fun _ =>
      ((SectionGroup.sheds_ofValue? _ header).mapError _).bind fun _ =>
        ((SectionGroup.sheds_ofValue? _ footer).mapError _).bind_quiet fun _ => .ofExcept _⟩

/-- Nothing inside an untyped section is looked at, its blocks included. -/
example : dropped (.map [("sections", .map [
    ("a", .map [("settings", .int 1), ("blocks", .map [("x", .null)])]),
    ("b", .map [("type", .str "hero"), ("blocks", .map [("y", .str "text")])])])]) =
      [.droppedSection "a", .droppedBlock "y"] := rfl

end Storefront
