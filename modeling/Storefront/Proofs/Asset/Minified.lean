import Mathlib.Data.List.Nodup
import Mathlib.Data.List.Perm.Subperm
import Mathlib.Logic.Relation
import Storefront.Asset.Catalog

/-!
Scripts and their minified duplicates. A minified script is dropped where the one that it was made
from is there too. That one may be minified itself and be dropped in turn, but each time the name
gets shorter, so that in the end there is a script that is kept.
-/

namespace Storefront.Asset

/-- The name without its first mark of minified files is the other one. -/
def ShedsMark (m n : String) : Prop :=
  ∃ before behind, m.toList = before ++ minifiedMark ++ behind ∧
    n.toList = before ++ '.' :: behind ∧
    ∀ before' behind', m.toList = before' ++ minifiedMark ++ behind' →
      before.length ≤ before'.length

def scriptNames (files : List Asset) : List String :=
  (files.filter (·.kind = .js)).map (·.filename)

/-- The one script has the other one, of which there is a file, as its unminified sibling. -/
def HasSibling (files : List Asset) (m n : String) : Prop :=
  ShedsMark m n ∧ n ∈ scriptNames files

/-- The scripts among the files without their minified duplicates. -/
structure Prunes (files kept : List Asset) : Prop where
  order : kept.Sublist (files.filter (·.kind = .js))
  unmarked : ∀ a ∈ files, a.kind = .js → ¬minifiedMark <:+: a.filename.toList → a ∈ kept
  /-- What is dropped leads to what is kept, from sibling to sibling. -/
  replaced : ∀ a ∈ files, a.kind = .js → a ∉ kept →
    ∃ b ∈ kept, Relation.TransGen (HasSibling files) a.filename b.filename
  duplicates : ∀ a ∈ kept, ∀ n, ¬HasSibling files a.filename n

variable {files kept : List Asset} {a : Asset} {m n : String}

/-! ### Names -/

theorem shedsMark_iff :
    ShedsMark m n ↔ Text.occursIn minifiedMark m.toList = true ∧ n = unminified m := by
  rw [Text.occursIn_iff]
  cases hcut : Text.cutAt? minifiedMark m.toList with
  | none =>
    have hnone := Text.cutAt?_eq_none_iff.1 hcut
    constructor
    · rintro ⟨before, behind, hm, -⟩
      exact absurd ⟨before, behind, by rw [hm, List.append_assoc]⟩ hnone
    · rintro ⟨⟨before, behind, hm⟩, -⟩
      exact absurd ⟨before, behind, by rw [← hm, List.append_assoc]⟩ hnone
  | some parts =>
    obtain ⟨first, rest⟩ := parts
    have hfirst := Text.eq_append_of_cutAt? hcut
    have hunminified : (unminified m).toList = first ++ '.' :: rest := by
      rw [unminified, Text.replaceFirst, String.toList_ofList, hcut]
      exact List.append_assoc _ _ _
    constructor
    · rintro ⟨before, behind, hm, hn, hleast⟩
      -- Both cut the name at its first mark.
      have hlength : before.length = first.length := by
        apply Nat.le_antisymm (hleast first rest hfirst)
        exact Text.length_le_of_cutAt? hcut (by rw [hm, List.append_assoc])
      rw [List.append_assoc] at hm hfirst
      obtain ⟨rfl, hbehind⟩ := List.append_inj (hm.symm.trans hfirst) hlength
      obtain rfl := List.append_cancel_left hbehind
      refine ⟨⟨before, behind, by rw [hm, List.append_assoc]⟩, ?_⟩
      rw [← String.toList_inj, hn, hunminified]
    · rintro ⟨-, rfl⟩
      refine ⟨first, rest, hfirst, hunminified, fun before behind hm => ?_⟩
      exact Text.length_le_of_cutAt? hcut (by rw [hm, List.append_assoc])

theorem ShedsMark.length_lt (h : ShedsMark m n) : n.toList.length < m.toList.length := by
  obtain ⟨before, behind, hm, hn, -⟩ := h
  rw [hm, hn]
  simp [minifiedMark]

/-! ### Scripts -/

theorem mem_scripts_iff :
    a ∈ scripts files ↔ a ∈ files ∧ a.kind = .js ∧ ∀ n, ¬HasSibling files a.filename n := by
  have hsibling : (!Text.occursIn minifiedMark a.filename.toList ||
      !(scriptNames files).contains (unminified a.filename)) = true ↔
        ∀ n, ¬HasSibling files a.filename n := by
    simp only [HasSibling, shedsMark_iff, Bool.or_eq_true, Bool.not_eq_true', List.contains_eq_mem,
      decide_eq_false_iff_not]
    constructor
    · rintro hkept n ⟨⟨hmark, rfl⟩, hn⟩
      rcases hkept with hkept | hkept
      · exact Bool.noConfusion (hkept.symm.trans hmark)
      · exact hkept hn
    · intro hnone
      rw [or_iff_not_imp_left, Bool.not_eq_false]
      exact fun hmark hn => hnone _ ⟨⟨hmark, rfl⟩, hn⟩
  rw [scripts, List.mem_filter, List.mem_filter, decide_eq_true_eq, and_assoc]
  exact and_congr_right fun _ => and_congr_right fun _ => hsibling

theorem mem_scriptNames_iff : n ∈ scriptNames files ↔
    ∃ a ∈ files, a.kind = .js ∧ a.filename = n := by
  simp [scriptNames, and_assoc]

/-- From the name of each script siblings lead to one that is kept. -/
theorem exists_mem_scripts {m : String} (hm : m ∈ scriptNames files) :
    ∃ a ∈ scripts files, Relation.ReflTransGen (HasSibling files) m a.filename := by
  by_cases hsibling : ∃ n, HasSibling files m n
  · obtain ⟨n, hmn⟩ := hsibling
    have hlt := hmn.1.length_lt
    obtain ⟨a, ha, hchain⟩ := exists_mem_scripts hmn.2
    exact ⟨a, ha, .head hmn hchain⟩
  · obtain ⟨a, ha, hkind, rfl⟩ := mem_scriptNames_iff.1 hm
    exact ⟨a, mem_scripts_iff.2 ⟨ha, hkind, not_exists.1 hsibling⟩, .refl⟩
termination_by m.toList.length

theorem prunes_scripts (files : List Asset) : Prunes files (scripts files) where
  order := List.filter_sublist
  unmarked a ha hkind hmark := by
    refine mem_scripts_iff.2 ⟨ha, hkind, fun n hn => hmark ?_⟩
    obtain ⟨⟨before, behind, hm, -⟩, -⟩ := hn
    exact ⟨before, behind, hm.symm⟩
  replaced a ha hkind hdropped := by
    rw [mem_scripts_iff, not_and, not_and, not_forall_not] at hdropped
    obtain ⟨n, hn⟩ := hdropped ha hkind
    obtain ⟨b, hb, hchain⟩ := exists_mem_scripts hn.2
    exact ⟨b, hb, .head' hn hchain⟩
  duplicates a ha := (mem_scripts_iff.1 ha).2.2

/-- A script is kept just where no sibling takes its place. -/
theorem Prunes.mem_iff (h : Prunes files kept) : a ∈ kept ↔ a ∈ scripts files := by
  constructor
  · intro ha
    obtain ⟨hmem, hkind⟩ := List.mem_filter.1 (h.order.subset ha)
    exact mem_scripts_iff.2 ⟨hmem, of_decide_eq_true hkind, h.duplicates a ha⟩
  · intro ha
    obtain ⟨hmem, hkind, hnone⟩ := mem_scripts_iff.1 ha
    by_contra hdropped
    obtain ⟨b, -, hchain⟩ := h.replaced a hmem hkind hdropped
    obtain ⟨n, hn, -⟩ := Relation.TransGen.head'_iff.1 hchain
    exact hnone n hn

/-- Among files of distinct names the scripts that are kept are all those without minified
duplicates: in their order, each one without a mark among them, and for each one dropped a script
that siblings lead to. -/
theorem prunes_iff_eq_scripts (hnames : (files.map (·.filename)).Nodup) :
    Prunes files kept ↔ kept = scripts files := by
  constructor
  · intro h
    have hdistinct : (files.filter (·.kind = .js)).Nodup := (List.Nodup.of_map _ hnames).filter _
    have hscripts := (prunes_scripts files).order
    apply (List.Nodup.perm_iff_eq_of_sublist hdistinct h.order hscripts).1
    exact (List.perm_ext_iff_of_nodup (hdistinct.sublist h.order) (hdistinct.sublist hscripts)).2
      fun a => h.mem_iff
  · rintro rfl
    exact prunes_scripts files

/-- Of two scripts the siblings lead to a third one. The sibling of another one is not there, and
that of the last one is no script. -/
theorem prunes_chain :
    let files := ["a.min.min.js", "a.js", "a.min.js", "b.min.min.js", "c.min.css", ".min.js", "c.css",
      ".js"].map Asset.ofFilename
    let kept := ["a.js", "b.min.min.js", ".min.js"].map Asset.ofFilename
    (files.map (·.filename)).Nodup ∧ Prunes files kept := by
  intro files kept
  have hnames : (files.map (·.filename)).Nodup := by decide
  exact ⟨hnames, (prunes_iff_eq_scripts hnames).2 (by decide)⟩

end Storefront.Asset
