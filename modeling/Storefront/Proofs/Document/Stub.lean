import Storefront.Document.Reading
import Storefront.Proofs.Schema.Shape

/-!
The faults of a section that a document places, listed in the order in which it is read. Reading
succeeds if there is none and fails with the first one otherwise, so a section is read just if its
members have the right shapes. Of blocks only what is filled is looked at.
-/

namespace Storefront

open Schema (OrNull IsObject isFields isFields_iff)
open Value

namespace Document

/-! ### Faults in their order -/

def faultUnless (met : Bool) (e : Error) : List Error := if met then [] else [e]

theorem faultUnless_eq_nil_iff {met : Bool} {e : Error} : faultUnless met e = [] ↔ met = true := by
  cases met <;> simp [faultUnless]

/-- A reading that succeeds if there are no faults and else fails with the first of them. -/
def FailsBy {α : Type} (faults : List Error) (r : Except Error α) : Prop :=
  (faults = [] → ∃ a, r = .ok a) ∧ ∀ e ∈ faults.head?, r = .error e

namespace FailsBy

variable {α β : Type} {fs gs : List Error} {x : Except Error α} {f : α → Except Error β}

theorem ok (a : α) : FailsBy [] (.ok a) := ⟨fun _ => ⟨a, rfl⟩, nofun⟩

theorem error (e : Error) (fs : List Error) : FailsBy (e :: fs) (.error e : Except Error α) :=
  ⟨nofun, fun d hd => by rw [Option.some.inj hd]⟩

/-- What is read later fails only where nothing before it has. -/
theorem bind (hx : FailsBy fs x) (hf : ∀ a, x = .ok a → FailsBy gs (f a)) :
    FailsBy (fs ++ gs) (x >>= f) := by
  cases fs with
  | nil =>
    obtain ⟨a, rfl⟩ := hx.1 rfl
    exact hf a rfl
  | cons e fs =>
    rw [hx.2 e rfl]
    exact error e (fs ++ gs)

theorem map (hx : FailsBy fs x) (g : α → β) : FailsBy fs (do return g (← x)) := by
  have hbind : FailsBy (fs ++ []) (do return g (← x)) := hx.bind fun a _ => ok (g a)
  rwa [List.append_nil] at hbind

theorem eq_ok_iff (hx : FailsBy fs x) : (∃ a, x = .ok a) ↔ fs = [] := by
  refine ⟨?_, hx.1⟩
  rintro ⟨a, ha⟩
  cases fs with
  | nil => rfl
  | cons e fs =>
    rw [hx.2 e rfl] at ha
    cases ha

theorem eq_error_iff (hx : FailsBy fs x) (e : Error) : x = .error e ↔ fs.head? = some e := by
  refine ⟨fun he => ?_, hx.2 e⟩
  cases fs with
  | nil =>
    obtain ⟨a, ha⟩ := hx.1 rfl
    rw [ha] at he
    cases he
  | cons d fs =>
    rw [hx.2 d rfl] at he
    cases he
    rfl

end FailsBy

/-! ### Members -/

def IsList (v : Value) : Prop := ∃ items, v = .list items

def IsFlag (v : Value) : Prop := ∃ b, v = .bool b

/-- A list or null. -/
def isIds : Value → Bool
  | .null | .list _ => true
  | _ => false

/-- A truth value or null. -/
def isFlag : Value → Bool
  | .null | .bool _ => true
  | _ => false

theorem isIds_iff {v : Value} : isIds v = true ↔ OrNull IsList v := by
  cases v <;> simp [isIds, OrNull, IsList]

theorem isFlag_iff {v : Value} : isFlag v = true ↔ OrNull IsFlag v := by
  cases v <;> simp [isFlag, OrNull, IsFlag]

theorem failsBy_settingsOf (place : String) (v : Value) :
    FailsBy (faultUnless (isFields v) (.settingsNotObject place)) (settingsOf place v) := by
  cases v with
  | null | map fields => exact .ok _
  | _ => exact .error _ []

theorem failsBy_flagOf (place : String) (v : Value) :
    FailsBy (faultUnless (isFlag v) (.disabledNotBool place v)) (flagOf place v) := by
  cases v with
  | null | bool b => exact .ok _
  | _ => exact .error _ []

theorem failsBy_idsOf (e : Error) (v : Value) :
    FailsBy (faultUnless (isIds v) e) (idsOf e v) := by
  cases v with
  | null | list items => exact .ok _
  | _ => exact .error _ []

/-- The settings and the switch of a block or of a section. -/
structure SharedFit (fields : Dict Value) : Prop where
  settings : OrNull IsObject (field fields "settings")
  disabled : OrNull IsFlag (field fields "disabled")

end Document

open Document

namespace BlockStub

def faults (place : String) (fields : Dict Value) : List Error :=
  faultUnless (isFields (field fields "settings")) (.settingsNotObject place) ++
    faultUnless (isFlag (field fields "disabled"))
      (.disabledNotBool place (field fields "disabled"))

theorem failsBy_ofFields (place type : String) (fields : Dict Value) :
    FailsBy (faults place fields) (ofFields place type fields) :=
  (failsBy_settingsOf _ _).bind fun _ _ => (failsBy_flagOf _ _).map _

theorem faults_eq_nil_iff {place : String} {fields : Dict Value} :
    faults place fields = [] ↔ SharedFit fields := by
  rw [faults, List.append_eq_nil_iff, faultUnless_eq_nil_iff, faultUnless_eq_nil_iff, isFields_iff,
    isFlag_iff]
  exact ⟨fun h => ⟨h.1, h.2⟩, fun h => ⟨h.settings, h.disabled⟩⟩

end BlockStub

namespace SectionStub

/-! ### The reading in parts -/

/-- The entries of the blocks of a section. -/
def blockEntries (place : String) (v : Value) : Outcome Error (Dict Value) :=
  match v.asMap? with
  | some entries => pure entries
  | none => if v.isFilled then Outcome.fail (.blocksNotObject place) else pure []

/-- The section with these blocks, once its other members are read. -/
def readMembers (place type : String) (blocks : Dict BlockStub) (fields : Dict Value) :
    Except Error SectionStub := do
  let settings ← settingsOf place (field fields "settings")
  let blockOrder ← idsOf (.blockOrderNotList place) (field fields "block_order")
  let disabled ← flagOf place (field fields "disabled")
  return { type, settings, blocks, blockOrder, disabled }

/-- How errors call a section of the type. -/
def placeOf (type : String) : String := s!"section type '{type}'"

theorem ofFields_eq (type : String) (fields : Dict Value) : ofFields type fields =
    (blockEntries (placeOf type) (field fields "blocks") >>= readBlocks (placeOf type) []) >>=
      fun blocks => .ofExcept (readMembers (placeOf type) type blocks fields) := by
  rw [bind_assoc]
  simp only [ofFields, readMembers, Outcome.ofExcept_bind]
  cases hblocks : field fields "blocks" with
  | map entries => rfl
  | _ =>
    dsimp only [blockEntries, asMap?]
    split <;> rfl

/-! ### Faults of a section -/

/-- The faults of the blocks that have a type; all others are dropped unread. -/
def blockFaults (place : String) (entries : Dict Value) : List Error :=
  entries.flatMap fun p => (typed? p.2).elim [] fun typed =>
    BlockStub.faults s!"block '{p.1}' of {place}" typed.2

def blocksFaults (place : String) (v : Value) : List Error :=
  v.asMap?.elim (faultUnless (!v.isFilled) (.blocksNotObject place)) (blockFaults place)

/-- The faults of all other members. -/
def memberFaults (place : String) (fields : Dict Value) : List Error :=
  faultUnless (isFields (field fields "settings")) (.settingsNotObject place) ++
    (faultUnless (isIds (field fields "block_order")) (.blockOrderNotList place) ++
      faultUnless (isFlag (field fields "disabled"))
        (.disabledNotBool place (field fields "disabled")))

/-- All faults of a section of the type, in the order in which its members are read. -/
def faults (type : String) (fields : Dict Value) : List Error :=
  blocksFaults (placeOf type) (field fields "blocks") ++ memberFaults (placeOf type) fields

theorem failsBy_readMembers (place type : String) (blocks : Dict BlockStub)
    (fields : Dict Value) :
    FailsBy (memberFaults place fields) (readMembers place type blocks fields) :=
  (failsBy_settingsOf _ _).bind fun _ _ => (failsBy_idsOf _ _).bind fun _ _ =>
    (failsBy_flagOf _ _).map _

theorem failsBy_readBlocks (place : String) (blocks : Dict BlockStub) (entries : Dict Value) :
    FailsBy (blockFaults place entries) (readBlocks place blocks entries).result := by
  induction entries generalizing blocks with
  | nil => exact .ok _
  | cons p entries ih =>
    obtain ⟨id, v⟩ := p
    rw [readBlocks, blockFaults, List.flatMap_cons]
    cases hv : typed? v with
    | none => exact ih blocks
    | some typed =>
      obtain ⟨type, fields⟩ := typed
      dsimp only
      rw [Outcome.result_bind]
      exact (BlockStub.failsBy_ofFields _ _ _).bind fun block _ => ih _

theorem failsBy_blocks (place : String) (v : Value) :
    FailsBy (blocksFaults place v) (blockEntries place v >>= readBlocks place []).result := by
  rw [blocksFaults, blockEntries]
  cases v.asMap? with
  | some entries => exact failsBy_readBlocks place [] entries
  | none =>
    dsimp only [Option.elim_none]
    cases hfilled : v.isFilled with
    | true => exact .error _ []
    | false => exact .ok []

theorem failsBy_ofFields (type : String) (fields : Dict Value) :
    FailsBy (faults type fields) (ofFields type fields).result := by
  rw [faults, ofFields_eq, Outcome.result_bind]
  exact (failsBy_blocks _ _).bind fun blocks _ => failsBy_readMembers _ type blocks fields

/-! ### Shapes -/

/-- The members of a section and of its blocks with a type are of the right kinds, its blocks as a
whole aside. -/
structure MembersFit (fields : Dict Value) : Prop where
  shared : SharedFit fields
  blockOrder : OrNull IsList (field fields "block_order")
  blocks : ∀ entries, field fields "blocks" = .map entries → ∀ p ∈ entries, ∀ inner,
    p.2 = .map inner → (field inner "type").isFilled = true → SharedFit inner

theorem blockFaults_eq_nil_iff {place : String} {entries : Dict Value} :
    blockFaults place entries = [] ↔ ∀ p ∈ entries, ∀ inner,
      p.2 = .map inner → (field inner "type").isFilled = true → SharedFit inner := by
  rw [blockFaults, List.flatMap_eq_nil_iff]
  refine forall₂_congr fun p _ => ?_
  cases hv : p.2 with
  | map inner =>
    by_cases htype : (field inner "type").isFilled = true
    · simp [typed?, htype, BlockStub.faults_eq_nil_iff]
    · simp [typed?, htype]
  | _ => simp [typed?]

theorem blocksFaults_eq_nil_iff {place : String} {v : Value} :
    blocksFaults place v = [] ↔ (v.isFilled = false ∨ IsObject v) ∧ ∀ entries, v = .map entries →
      ∀ p ∈ entries, ∀ inner, p.2 = .map inner → (field inner "type").isFilled = true →
        SharedFit inner := by
  rw [blocksFaults]
  cases v with
  | map entries => simp [asMap?, IsObject, blockFaults_eq_nil_iff]
  | _ => simp [asMap?, IsObject, faultUnless_eq_nil_iff]

theorem faults_eq_nil_iff {type : String} {fields : Dict Value} :
    faults type fields = [] ↔ MembersFit fields ∧
      ((field fields "blocks").isFilled = false ∨ IsObject (field fields "blocks")) := by
  rw [faults, memberFaults]
  simp only [List.append_eq_nil_iff, blocksFaults_eq_nil_iff, faultUnless_eq_nil_iff, isFields_iff,
    isIds_iff, isFlag_iff]
  constructor
  · rintro ⟨⟨hblocks, heach⟩, hsettings, horder, hdisabled⟩
    exact ⟨⟨⟨hsettings, hdisabled⟩, horder, heach⟩, hblocks⟩
  · rintro ⟨⟨⟨hsettings, hdisabled⟩, horder, heach⟩, hblocks⟩
    exact ⟨⟨hblocks, heach⟩, hsettings, horder, hdisabled⟩

/-- A section is read just if its members fit and its blocks are an object or not filled, and fails
with the first of its faults otherwise. So blocks that are neither null nor an object are refused
unless they are not filled. -/
theorem ofFields_eq_ok_iff_membersFit (type : String) (fields : Dict Value) :
    ((∃ stub, (ofFields type fields).result = .ok stub) ↔ MembersFit fields ∧
      ((field fields "blocks").isFilled = false ∨ IsObject (field fields "blocks"))) ∧
    (∀ e, (ofFields type fields).result = .error e ↔ (faults type fields).head? = some e) ∧
    (((∃ e, (ofFields type fields).result = .error e) ↔
        ¬(MembersFit fields ∧ OrNull IsObject (field fields "blocks"))) ↔
      ¬(MembersFit fields ∧ (field fields "blocks").isFilled = false ∧
        ¬OrNull IsObject (field fields "blocks"))) := by
  have hfails := failsBy_ofFields type fields
  have hok := hfails.eq_ok_iff.trans faults_eq_nil_iff
  have herror : (∃ e, (ofFields type fields).result = .error e) ↔ ¬(MembersFit fields ∧
      ((field fields "blocks").isFilled = false ∨ IsObject (field fields "blocks"))) := by
    rw [← hok]
    cases (ofFields type fields).result with
    | error e => simp
    | ok stub => simp
  have hnull : field fields "blocks" = .null → (field fields "blocks").isFilled = false :=
    fun h => by rw [h]; rfl
  refine ⟨hok, hfails.eq_error_iff, ?_⟩
  rw [herror, not_iff_not, and_congr_right_iff]
  constructor
  · rintro h ⟨hmembers, hfilled, hshape⟩
    exact hshape ((h hmembers).1 (.inl hfilled))
  · intro h hmembers
    refine ⟨?_, Or.imp_left hnull⟩
    rintro (hfilled | hobject)
    · by_contra hshape
      exact h ⟨hmembers, hfilled, hshape⟩
    · exact .inr hobject

/-- An empty list of blocks counts as none. -/
theorem not_error_iff_emptyBlocks : ¬∀ type fields,
    (∃ e, (ofFields type fields).result = .error e) ↔
      ¬(MembersFit fields ∧ OrNull IsObject (field fields "blocks")) := by
  intro h
  have hblocks : ¬OrNull IsObject (field [("type", .str "hero"), ("blocks", .list [])] "blocks") := by
    rintro (hnull | ⟨entries, hobject⟩)
    · cases hnull
    · cases hobject
  obtain ⟨e, he⟩ := (h "hero" [("type", .str "hero"), ("blocks", .list [])]).2 fun h => hblocks h.2
  cases he

end SectionStub

end Storefront
