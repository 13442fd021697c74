import Mathlib.Data.Finset.Card
import Storefront.Proofs.Page.Settings
import Storefront.Proofs.Schema.Declaration
import Storefront.Proofs.Schema.Origin

/-!
What a schema declares more than once. Its check reports each declaration of an id or of a block
type but the first, one scope after the other, so without an error each declaration is the one that
takes effect.
-/

namespace Storefront

/-! ### Repetitions -/

/-- The elements that stand behind an equal one or are among those seen before. -/
def repeated (seen : List String) : List String → List String
  | [] => []
  | k :: l => if k ∈ seen then k :: repeated (k :: seen) l else repeated (k :: seen) l

theorem length_repeated_add_card (seen l : List String) :
    (repeated seen l).length + (l.toFinset \ seen.toFinset).card = l.length := by
  induction l generalizing seen with
  | nil => simp [repeated]
  | cons k l ih =>
    have ih := ih (k :: seen)
    rw [repeated]
    by_cases hk : k ∈ seen
    · have hseen : (k :: seen).toFinset = seen.toFinset := by simp [hk]
      have hrest : (k :: l).toFinset \ seen.toFinset = l.toFinset \ seen.toFinset := by
        rw [List.toFinset_cons, Finset.insert_sdiff_of_mem _ (by simpa using hk)]
      rw [hseen] at ih
      rw [if_pos hk, hrest, List.length_cons, List.length_cons]
      omega
    · have hrest : (k :: l).toFinset \ seen.toFinset =
          insert k (l.toFinset \ (k :: seen).toFinset) := by
        ext j
        by_cases hj : j = k <;> simp [hj, hk]
      rw [if_neg hk, hrest, Finset.card_insert_of_notMem (by simp), List.length_cons]
      omega

/-- As many elements stand behind an equal one as there are more elements than different ones. -/
theorem length_repeated (l : List String) :
    (repeated [] l).length = l.length - l.toFinset.card := by
  have h := length_repeated_add_card [] l
  simp only [List.toFinset_nil, Finset.sdiff_empty] at h
  omega

theorem repeated_eq_nil_iff {l : List String} : repeated [] l = [] ↔ l.Nodup := by
  have hlength := length_repeated_add_card [] l
  rw [List.toFinset_nil, Finset.sdiff_empty, List.card_toFinset] at hlength
  rw [← List.length_eq_zero_iff]
  constructor
  · intro h
    have hdedup : l.dedup = l := (List.dedup_sublist l).eq_of_length_le (by omega)
    exact List.dedup_eq_self.1 hdedup
  · intro h
    rw [h.dedup] at hlength
    omega

namespace Complaint

def isDuplicateId : Complaint → Bool
  | .duplicateSettingId _ => true
  | _ => false

def isDuplicateType : Complaint → Bool
  | .duplicateBlockType _ => true
  | _ => false

theorem severity_of_isDuplicateType {c : Complaint} (h : c.isDuplicateType = true) :
    c.severity = .error := by
  unfold isDuplicateType at h
  split at h
  · rfl
  · cases h

end Complaint

theorem filter_ite_eq_nil {α : Type} {p : α → Bool} {a : α} {c : Prop} [Decidable c]
    (h : p a = false) : (if c then [a] else []).filter p = [] := by
  split
  · rw [List.filter_cons_of_neg (by simp [h]), List.filter_nil]
  · rfl

/-! ### Settings -/

namespace Setting

/-- The errors of the ids that are declared again, where `scope` stands before an id. -/
def duplicates (scope : String) (settings : List Setting) : List Issue :=
  (repeated [] (settings.filterMap id?)).map fun id => ⟨scope ++ id, .duplicateSettingId id⟩

theorem filter_isDuplicateId_idIssues (scope : String) (seen : List String) (position : Nat)
    (settings : List Setting) :
    (idIssues scope seen position settings).filter (·.complaint.isDuplicateId) =
      (repeated seen (settings.filterMap key?)).map
        fun id => ⟨scope ++ id, .duplicateSettingId id⟩ := by
  induction settings generalizing seen position with
  | nil => rfl
  | cons s settings ih =>
    rw [idIssues]
    cases hdisplay : s.isDisplay with
    | true => rw [if_pos rfl, ih, List.filterMap_cons_none (key?_of_isDisplay hdisplay)]
    | false =>
      have hkey := key?_eq_id? hdisplay
      rw [if_neg Bool.false_ne_true]
      cases hid : s.id? with
      | none =>
        rw [List.filterMap_cons_none (hkey.trans hid), ← ih seen (position + 1)]
        exact List.filter_cons_of_neg (by simp [Complaint.isDuplicateId])
      | some id =>
        rw [List.filterMap_cons_some (hkey.trans hid), repeated]
        by_cases hseen : id ∈ seen
        · rw [if_pos hseen, List.map_cons, ← ih (id :: seen) (position + 1)]
          simp [hseen, Complaint.isDuplicateId]
        · rw [if_neg hseen, ← ih (id :: seen) (position + 1)]
          simp [hseen]

theorem complaint_of_mem_idIssues {scope : String} {seen : List String} {position : Nat}
    {settings : List Setting} {i : Issue} (hi : i ∈ idIssues scope seen position settings) :
    (∃ place type, i.complaint = .settingWithoutId place type) ∨
      ∃ id, i.complaint = .duplicateSettingId id := by
  induction settings generalizing seen position with
  | nil => cases hi
  | cons s settings ih =>
    rw [idIssues] at hi
    split at hi
    · exact ih hi
    · split at hi
      · rcases List.mem_cons.1 hi with rfl | hi
        · exact .inl ⟨_, _, rfl⟩
        · exact ih hi
      · dsimp only at hi
        split at hi
        · rcases List.mem_cons.1 hi with rfl | hi
          · exact .inr ⟨_, rfl⟩
          · exact ih hi
        · exact ih hi

theorem severity_of_mem_idIssues {scope : String} {seen : List String} {position : Nat}
    {settings : List Setting} {i : Issue} (hi : i ∈ idIssues scope seen position settings) :
    i.complaint.severity = .error := by
  rcases complaint_of_mem_idIssues hi with ⟨_, _, h⟩ | ⟨_, h⟩
  · rw [h]
    rfl
  · rw [h]
    rfl

theorem filter_isDuplicateType_idIssues (scope : String) (seen : List String) (position : Nat)
    (settings : List Setting) :
    (idIssues scope seen position settings).filter (·.complaint.isDuplicateType) = [] := by
  rw [List.filter_eq_nil_iff]
  intro i hi
  rcases complaint_of_mem_idIssues hi with ⟨_, _, h⟩ | ⟨_, h⟩
  · rw [h]
    exact Bool.false_ne_true
  · rw [h]
    exact Bool.false_ne_true

/-- Without an error the ids of the settings that hold values are there and differ. -/
theorem wellDeclared_of_no_error {scope : String} {settings : List Setting}
    (h : ∀ i ∈ idIssues scope [] 1 settings, i.complaint.severity ≠ .error) :
    WellDeclared settings := by
  have hnil : idIssues scope [] 1 settings = [] :=
    List.eq_nil_iff_forall_not_mem.2 fun i hi => h i hi (severity_of_mem_idIssues hi)
  exact idIssues_nil_eq_nil_iff.1 hnil

/-- A family reads headings where it is that of headings. -/
theorem Family.display_of_read {label : String} {fields : Dict Value} {family : Family}
    {content : String} (h : family.read label fields = .ok (.display content)) :
    family = .display := by
  cases family with
  | display => rfl
  | number =>
    obtain ⟨_, -, h⟩ := except_bind_eq_ok.1 h
    cases h
  | range =>
    repeat obtain ⟨_, -, h⟩ := except_bind_eq_ok.1 h
    cases h
  | resourceList =>
    obtain ⟨_, -, h⟩ := except_bind_eq_ok.1 h
    cases h
  | _ => cases h

/-- Headings are read without an id. -/
theorem id_of_isDisplay {place : String} {v : Value} {s : Setting} (h : ofValue place v = .ok s)
    (hs : s.isDisplay = true) : s.id = none := by
  unfold ofValue at h
  split at h
  · split at h
    · split at h
      · cases h
      · obtain ⟨kind, hkind, h⟩ := except_bind_eq_ok.1 h
        cases h
        unfold isDisplay at hs
        dsimp only at hs
        split at hs
        · rw [Family.display_of_read hkind, if_pos rfl]
        · cases hs
    · cases h
  · cases h

theorem key?_eq_id?_of_ofValue {place : String} {v : Value} {s : Setting}
    (h : ofValue place v = .ok s) : s.key? = s.id? := by
  cases hs : s.isDisplay with
  | true => rw [key?_of_isDisplay hs, id?, id_of_isDisplay h hs, Option.filter_none]
  | false => exact key?_eq_id? hs

/-- Each setting that holds a value has an id, with its own default as value, and there are no other
keys. -/
structure OwnDefaults (settings : List Setting) : Prop where
  keys : (defaults settings).keys.map some =
    (settings.filter fun s => !s.isDisplay).map Setting.id
  values : ∀ s ∈ settings, s.isDisplay = false → ∃ id, s.id = some id ∧
    (defaults settings).get? id = some (s.declared.getD s.kind.default)

theorem key?_of_not_isDisplay {s : Setting} (hdisplay : s.isDisplay = false)
    (hid : s.id?.isSome) : ∃ id, s.id = some id ∧ s.key? = some id := by
  obtain ⟨id, hid⟩ := Option.isSome_iff_exists.1 hid
  have hkey : s.key? = some id := (key?_eq_id? hdisplay).trans hid
  exact ⟨id, (key?_eq_some_iff.1 hkey).2.1, hkey⟩

theorem map_some_filterMap_key? {settings : List Setting}
    (h : ∀ s ∈ settings, s.isDisplay = false → s.id?.isSome) :
    (settings.filterMap key?).map some =
      (settings.filter fun s => !s.isDisplay).map Setting.id := by
  induction settings with
  | nil => rfl
  | cons s settings ih =>
    obtain ⟨hs, h⟩ := List.forall_mem_cons.1 h
    cases hdisplay : s.isDisplay with
    | true =>
      rw [List.filterMap_cons_none (key?_of_isDisplay hdisplay),
        List.filter_cons_of_neg (by simp [hdisplay]), ih h]
    | false =>
      obtain ⟨id, hid, hkey⟩ := key?_of_not_isDisplay hdisplay (hs hdisplay)
      rw [List.filterMap_cons_some hkey, List.filter_cons_of_pos (by simp [hdisplay]),
        List.map_cons, List.map_cons, ih h, hid]

theorem WellDeclared.ownDefaults {settings : List Setting} (h : WellDeclared settings) :
    OwnDefaults settings where
  keys := by
    rw [keys_defaults, declaredKeys_of_nodup h.distinct, map_some_filterMap_key? h.hasId]
  values s hs hdisplay := by
    obtain ⟨id, hid, hkey⟩ := key?_of_not_isDisplay hdisplay (h.hasId s hs hdisplay)
    exact ⟨id, hid, get?_defaults_of_nodup h.distinct hs hkey⟩

end Setting

/-! ### Block definitions -/

namespace BlockDefinition

theorem filter_isDuplicateId_issues (seen : List String) (blocks : List BlockDefinition) :
    (issues seen blocks).filter (·.complaint.isDuplicateId) =
      blocks.flatMap fun b => (repeated [] (b.settings.filterMap Setting.key?)).map
        fun id => ⟨b.type ++ "." ++ id, .duplicateSettingId id⟩ := by
  induction blocks generalizing seen with
  | nil => rfl
  | cons b blocks ih =>
    rw [issues, List.filter_append, List.filter_append, List.filter_append, ih,
      Setting.filter_isDuplicateId_idIssues, List.flatMap_cons]
    rw [filter_ite_eq_nil rfl, filter_ite_eq_nil rfl]
    rfl

theorem filter_isDuplicateType_issues (seen : List String) (blocks : List BlockDefinition) :
    (issues seen blocks).filter (·.complaint.isDuplicateType) =
      (repeated seen (blocks.map (·.type))).map
        fun type => ⟨"blocks", .duplicateBlockType type⟩ := by
  induction blocks generalizing seen with
  | nil => rfl
  | cons b blocks ih =>
    rw [issues, List.filter_append, List.filter_append, List.filter_append, ih,
      Setting.filter_isDuplicateType_idIssues, List.map_cons, repeated]
    rw [filter_ite_eq_nil (c := Text.trimmed b.name = "") rfl]
    by_cases hseen : b.type ∈ seen
    · simp [hseen, Complaint.isDuplicateType]
    · simp [hseen]

theorem idIssues_subset_issues {seen : List String} {blocks : List BlockDefinition}
    {b : BlockDefinition} (hb : b ∈ blocks) :
    Setting.idIssues (b.type ++ ".") [] 1 b.settings ⊆ issues seen blocks := by
  induction blocks generalizing seen with
  | nil => cases hb
  | cons c blocks ih =>
    rw [issues]
    rcases List.mem_cons.1 hb with rfl | hb
    · exact List.subset_append_of_subset_left _ (List.subset_append_right _ _)
    · exact List.subset_append_of_subset_right _ (ih hb)

end BlockDefinition

/-! ### Schemas -/

namespace SectionSchema

variable {s : SectionSchema}

/-- Where no two block definitions have the same type, each is found under its own. -/
theorem findBlock?_of_nodup (h : s.blockTypes.Nodup) {b : BlockDefinition} (hb : b ∈ s.blocks) :
    s.findBlock? b.type = some b := by
  have hfound : (s.findBlock? b.type).isSome := List.find?_isSome.2 ⟨b, hb, by simp⟩
  obtain ⟨found, hfound⟩ := Option.isSome_iff_exists.1 hfound
  have htype : found.type = b.type := by simpa using List.find?_some hfound
  have heq : found = b :=
    List.inj_on_of_nodup_map h (List.mem_of_find?_eq_some hfound) hb htype
  rw [hfound, heq]

theorem filter_isDuplicateId_issues (s : SectionSchema) :
    s.issues.filter (·.complaint.isDuplicateId) =
      ((repeated [] (s.settings.filterMap Setting.key?)).map
        fun id => ⟨"" ++ id, .duplicateSettingId id⟩) ++
      s.blocks.flatMap fun b => (repeated [] (b.settings.filterMap Setting.key?)).map
        fun id => ⟨b.type ++ "." ++ id, .duplicateSettingId id⟩ := by
  rw [issues, List.filter_append, List.filter_append, filter_ite_eq_nil rfl,
    Setting.filter_isDuplicateId_idIssues, BlockDefinition.filter_isDuplicateId_issues]
  rfl

theorem filter_isDuplicateType_issues (s : SectionSchema) :
    s.issues.filter (·.complaint.isDuplicateType) =
      (repeated [] s.blockTypes).map fun type => ⟨"blocks", .duplicateBlockType type⟩ := by
  rw [issues, List.filter_append, List.filter_append, filter_ite_eq_nil rfl,
    Setting.filter_isDuplicateType_idIssues, BlockDefinition.filter_isDuplicateType_issues]
  rfl

theorem nodup_blockTypes_of_no_error (h : ∀ i ∈ s.issues, i.complaint.severity ≠ .error) :
    s.blockTypes.Nodup := by
  rw [← repeated_eq_nil_iff, ← List.map_eq_nil_iff, ← filter_isDuplicateType_issues,
    List.filter_eq_nil_iff]
  exact fun i hi htype => h i hi (Complaint.severity_of_isDuplicateType htype)

/-- Without an error each declaration is the one that takes effect. -/
theorem effective_of_no_error (h : ∀ i ∈ s.issues, i.complaint.severity ≠ .error) :
    Setting.OwnDefaults s.settings ∧ (∀ b ∈ s.blocks, Setting.OwnDefaults b.settings) ∧
      ∀ b ∈ s.blocks, s.findBlock? b.type = some b := by
  have hsettings : Setting.idIssues "" [] 1 s.settings ⊆ s.issues :=
    List.subset_append_of_subset_left _ (List.subset_append_right _ _)
  have hblocks : BlockDefinition.issues [] s.blocks ⊆ s.issues := List.subset_append_right _ _
  refine ⟨?_, fun b hb => ?_, fun b hb => ?_⟩
  · exact (Setting.wellDeclared_of_no_error fun i hi => h i (hsettings hi)).ownDefaults
  · have hown : Setting.idIssues (b.type ++ ".") [] 1 b.settings ⊆ s.issues :=
      List.Subset.trans (BlockDefinition.idIssues_subset_issues hb) hblocks
    exact (Setting.wellDeclared_of_no_error fun i hi => h i (hown hi)).ownDefaults
  · exact findBlock?_of_nodup (nodup_blockTypes_of_no_error h) hb

/-- In each scope of a schema that is read there are as many errors of repeated ids as there are
more ids than different ones, and as many errors of repeated block types as there are more block
definitions than types. Where nothing is an error, each setting has its own default under its id and
each block definition is found under its type. -/
theorem issues_tell_repeated {payload : Value} (h : ofValue payload = .ok s) :
    s.issues.filter (·.complaint.isDuplicateId) = Setting.duplicates "" s.settings ++
        s.blocks.flatMap (fun b => Setting.duplicates (b.type ++ ".") b.settings) ∧
      (∀ scope settings, (Setting.duplicates scope settings).length =
        (settings.filterMap Setting.id?).length - (settings.filterMap Setting.id?).toFinset.card) ∧
      (∀ scope settings, ∀ i ∈ Setting.duplicates scope settings, i.complaint.severity = .error) ∧
      (s.issues.filter (·.complaint.isDuplicateType)).length =
        s.blocks.length - s.blockTypes.toFinset.card ∧
      (∀ i ∈ s.issues, i.complaint.isDuplicateType = true → i.complaint.severity = .error) ∧
      ((∀ i ∈ s.issues, i.complaint.severity ≠ .error) →
        Setting.OwnDefaults s.settings ∧ (∀ b ∈ s.blocks, Setting.OwnDefaults b.settings) ∧
          ∀ b ∈ s.blocks, s.findBlock? b.type = some b) := by
  obtain ⟨hsettings, hblocks⟩ := exists_ofValue_of_mem h
  have hkeys {settings : List Setting}
      (hread : ∀ t ∈ settings, ∃ place w, Setting.ofValue place w = .ok t) :
      settings.filterMap Setting.key? = settings.filterMap Setting.id? :=
    List.filterMap_congr fun t ht => by
      obtain ⟨place, w, hw⟩ := hread t ht
      exact Setting.key?_eq_id?_of_ofValue hw
  have hown : (s.blocks.flatMap fun b => (repeated [] (b.settings.filterMap Setting.key?)).map
      fun id => (⟨b.type ++ "." ++ id, .duplicateSettingId id⟩ : Issue)) =
      s.blocks.flatMap fun b => Setting.duplicates (b.type ++ ".") b.settings :=
    List.flatMap_congr fun b hb => by rw [Setting.duplicates, hkeys (hblocks b hb)]
  refine ⟨?_, fun scope settings => ?_, fun scope settings i hi => ?_, ?_,
    fun i _ hi => Complaint.severity_of_isDuplicateType hi, effective_of_no_error⟩
  · rw [filter_isDuplicateId_issues, hkeys hsettings, hown]
    rfl
  · rw [Setting.duplicates, List.length_map, length_repeated]
  · obtain ⟨id, -, rfl⟩ := List.mem_map.1 hi
    rfl
  · rw [filter_isDuplicateType_issues, List.length_map, length_repeated, blockTypes,
      List.length_map]

/-- Two of three texts with one id and the second of two block types of one name are reported, the
same id in two scopes is not. A null default is its setting's own. -/
theorem issues_tell_repeated_hero :
    let text (id : String) : Value := .map [("type", .str "text"), ("id", .str id)]
    let doubled : Value := .map [("name", .str "Hero"),
      ("settings", .list [text "a", .map [("type", .str "header")], text "a", text "a", text "b"]),
      ("blocks", .list [.map [("type", .str "item"), ("settings", .list [text "a"])],
        .map [("type", .str "item"), ("settings", .list [text "b", text "b"])]])]
    let clean : Value := .map [("name", .str "Hero"),
      ("settings", .list [text "a", .map [("type", .str "number"), ("id", .str "b"),
        ("default", .null)]]),
      ("blocks", .list [.map [("type", .str "item"), ("settings", .list [text "a"])]])]
    (∃ s, ofValue doubled = .ok s ∧
      (s.issues.filter (·.complaint.isDuplicateId)).map Issue.subject = ["a", "a", "item.b"] ∧
      (s.issues.filter (·.complaint.isDuplicateType)).length = 1) ∧
    ∃ s, ofValue clean = .ok s ∧ (∀ i ∈ s.issues, i.complaint.severity ≠ .error) ∧
      Setting.OwnDefaults s.settings ∧ (∀ b ∈ s.blocks, Setting.OwnDefaults b.settings) ∧
        ∀ b ∈ s.blocks, s.findBlock? b.type = some b := by
  intro text doubled clean
  constructor
  · have hread : ofValue doubled = .ok _ := rfl
    obtain ⟨hids, -, -, htypes, -, -⟩ := issues_tell_repeated hread
    refine ⟨_, hread, (congrArg (List.map Issue.subject) hids).trans ?_, htypes.trans ?_⟩
    · decide +kernel
    · decide +kernel
  · have hread : ofValue clean = .ok _ := rfl
    obtain ⟨-, -, -, -, -, heffective⟩ := issues_tell_repeated hread
    refine ⟨_, hread, ?_, heffective ?_⟩
    · decide +kernel
    · decide +kernel

end SectionSchema

end Storefront
