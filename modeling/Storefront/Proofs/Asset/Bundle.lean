import Mathlib.Data.List.Forall2
import Storefront.Proofs.Asset.Stepwise
import Storefront.Theme.Assets

/-!
Bundles of stylesheets. The stylesheets among files of distinct names have one load order, in whatever
order the files are listed, and a bundle is one chunk for each of them in that order. A chunk is made
of its own file alone.
-/

namespace Storefront

namespace Outcome

theorem mapM_eq_ok_iff {ε α β : Type} {f : α → Outcome ε β} {xs : List α} {ys : List β} :
    (xs.mapM f).result = .ok ys ↔ List.Forall₂ (fun x y => (f x).result = .ok y) xs ys := by
  rw [result_mapM_eq_ok_iff, ← List.forall₂_eq_eq_eq, List.forall₂_map_left_iff,
    List.forall₂_map_right_iff]

end Outcome

namespace Asset

/-! ### Load order -/

/-- The one file loads before the other: by priority, and by name at the same priority. -/
def Precedes (a b : Asset) : Prop :=
  cssPriority a.filename < cssPriority b.filename ∨
    cssPriority a.filename = cssPriority b.filename ∧ a.filename < b.filename

/-- The stylesheets among the files, each before those that it precedes. -/
structure IsLoadOrder (files order : List Asset) : Prop where
  mem_iff : ∀ a, a ∈ order ↔ a ∈ files ∧ a.kind = .css
  increasing : order.Pairwise Precedes

variable {a b c : Asset} {files files' : List Asset}

theorem Precedes.asymm (h : Precedes a b) : ¬Precedes b a := by
  rintro (h' | ⟨heq', h'⟩)
  · rcases h with h | ⟨heq, -⟩ <;> omega
  · rcases h with h | ⟨-, h⟩
    · omega
    · exact String.lt_asymm h h'

theorem loadsBefore_iff : loadsBefore a b = true ↔
    cssPriority a.filename < cssPriority b.filename ∨
      cssPriority a.filename = cssPriority b.filename ∧ a.filename ≤ b.filename := by
  simp [loadsBefore]

theorem loadsBefore_trans (hab : loadsBefore a b = true) (hbc : loadsBefore b c = true) :
    loadsBefore a c = true := by
  rw [loadsBefore_iff] at *
  rcases hab with hab | ⟨hab, hnames⟩
  · exact .inl (by rcases hbc with hbc | ⟨hbc, -⟩ <;> omega)
  · rcases hbc with hbc | ⟨hbc, hnames'⟩
    · exact .inl (by omega)
    · exact .inr ⟨hab.trans hbc, String.le_trans hnames hnames'⟩

theorem loadsBefore_total (a b : Asset) : (loadsBefore a b || loadsBefore b a) = true := by
  rw [Bool.or_eq_true, loadsBefore_iff, loadsBefore_iff]
  rcases Nat.lt_trichotomy (cssPriority a.filename) (cssPriority b.filename) with h | h | h
  · exact .inl (.inl h)
  · rcases String.le_total a.filename b.filename with hnames | hnames
    · exact .inl (.inr ⟨h, hnames⟩)
    · exact .inr (.inr ⟨h.symm, hnames⟩)
  · exact .inr (.inl h)

/-- Of two files of distinct names one precedes the other. -/
theorem precedes_of_loadsBefore (h : loadsBefore a b = true) (hne : a.filename ≠ b.filename) :
    Precedes a b := by
  rcases loadsBefore_iff.1 h with h | ⟨h, hnames⟩
  · exact .inl h
  · exact .inr ⟨h, String.not_le.1 fun hle => hne (String.le_antisymm hnames hle)⟩

theorem stylesheets_perm (files : List Asset) :
    (stylesheets files).Perm (files.filter (·.kind = .css)) :=
  List.mergeSort_perm _ _

theorem isLoadOrder_stylesheets (hnames : (files.map (·.filename)).Nodup) :
    IsLoadOrder files (stylesheets files) where
  mem_iff a := by
    rw [(stylesheets_perm files).mem_iff, List.mem_filter, decide_eq_true_eq]
  increasing := by
    have hsorted : (stylesheets files).Pairwise fun a b => loadsBefore a b = true :=
      @List.pairwise_mergeSort _ loadsBefore (fun a b c => @loadsBefore_trans a b c)
        loadsBefore_total _
    have hdistinct : ((stylesheets files).map (·.filename)).Nodup :=
      ((stylesheets_perm files).map _).nodup_iff.2 ((hnames.sublist (List.filter_sublist.map _)))
    exact (hsorted.and (List.pairwise_map.1 hdistinct)).imp fun h => precedes_of_loadsBefore h.1 h.2

/-- The load order does not depend on the order in which files are listed. -/
theorem stylesheets_congr (hnames : (files.map (·.filename)).Nodup) (h : files'.Perm files) :
    stylesheets files' = stylesheets files := by
  have hnames' : (files'.map (·.filename)).Nodup := (h.map _).nodup_iff.2 hnames
  refine List.Perm.eq_of_pairwise (fun a b _ _ hab hba => absurd hba hab.asymm)
    (isLoadOrder_stylesheets hnames').increasing (isLoadOrder_stylesheets hnames).increasing ?_
  exact (stylesheets_perm files').trans ((h.filter _).trans (stylesheets_perm files).symm)

end Asset

namespace Theme

open Asset

variable {theme : Theme} {t t' : FileTree} {context : Context} {a b : Asset}
  {files order : List Asset} {chunks : List String} {text : String}

/-! ### Chunks -/

def assetFile (theme : Theme) (a : Asset) : Path := theme.assetsDirectory.child a.filename

/-- What a bundle shows of a file, which is made of its text. -/
def IsChunk (theme : Theme) (t : FileTree) (context : Context) (a : Asset) (shown : String) : Prop :=
  ∃ text, (theme.assetText t context a).result = .ok text ∧ shown = chunk a.filename text

/-- A chunk for each file, in their order. -/
def Chunks (theme : Theme) (t : FileTree) (context : Context) : List Asset → List String → Prop :=
  List.Forall₂ (theme.IsChunk t context)

theorem assetText_congr (h : t'.readText (theme.assetFile a) = t.readText (theme.assetFile a)) :
    theme.assetText t' context a = theme.assetText t context a := by
  rw [assetText, assetText]
  exact congrArg (fun read => Outcome.ofExcept read >>= _) h

theorem exists_isChunk (hresolve : ∀ name, ∃ url, context.resolveUrl name = .ok url)
    (h : ∃ s, t.readText (theme.assetFile a) = .ok s) : ∃ shown, theme.IsChunk t context a shown := by
  obtain ⟨s, hs⟩ := h
  have hread : (Outcome.ofExcept (t.readText (theme.assetFile a))).result = .ok s := hs
  suffices htext : ∃ text, (theme.assetText t context a).result = .ok text by
    obtain ⟨text, htext⟩ := htext
    exact ⟨_, text, htext, rfl⟩
  cases hliquid : a.isLiquid with
  | false =>
    refine ⟨s, Outcome.bind_eq_ok.2 ⟨s, hread, ?_⟩⟩
    rw [hliquid]
    rfl
  | true =>
    obtain ⟨text, htext⟩ := exists_result_process hresolve s
    refine ⟨text, Outcome.bind_eq_ok.2 ⟨s, hread, ?_⟩⟩
    rw [hliquid]
    exact except_mapError_eq_ok.2 htext

theorem IsChunk.unique {shown shown' : String} (h : theme.IsChunk t context a shown)
    (h' : theme.IsChunk t context a shown') : shown = shown' := by
  obtain ⟨text, htext, rfl⟩ := h
  obtain ⟨text', htext', rfl⟩ := h'
  cases htext.symm.trans htext'
  rfl

theorem result_bundle_eq_ok_iff (hfiles : ∀ a ∈ order, a.isText = true) :
    (theme.bundle t context order).result = .ok text ↔
      ∃ chunks, theme.Chunks t context order chunks ∧ text = "\n".intercalate chunks := by
  have hchunk (a : Asset) (shown : String) :
      (do return chunk a.filename (← theme.assetText t context a) : Outcome Error String).result =
        .ok shown ↔ theme.IsChunk t context a shown := by
    rw [Outcome.bind_eq_ok]
    refine exists_congr fun text => and_congr_right fun _ => ?_
    exact ⟨fun h => (Except.ok.inj h).symm, fun h => congrArg Except.ok h.symm⟩
  rw [bundle, Outcome.bind_eq_ok, List.filter_eq_self.2 hfiles]
  refine exists_congr fun chunks => and_congr ?_ ?_
  · rw [Outcome.mapM_eq_ok_iff]
    simp only [hchunk, Chunks]
  · exact ⟨fun h => (Except.ok.inj h).symm, fun h => congrArg Except.ok h.symm⟩

/-- Where each file can be read and each URL is known, there is a chunk for each file. -/
theorem exists_chunks (hresolve : ∀ name, ∃ url, context.resolveUrl name = .ok url)
    (h : ∀ a ∈ order, ∃ s, t.readText (theme.assetFile a) = .ok s) :
    ∃ chunks, theme.Chunks t context order chunks := by
  induction order with
  | nil => exact ⟨[], .nil⟩
  | cons a order ih =>
    obtain ⟨ha, horder⟩ := List.forall_mem_cons.1 h
    obtain ⟨shown, hshown⟩ := exists_isChunk hresolve ha
    obtain ⟨chunks, hchunks⟩ := ih horder
    exact ⟨shown :: chunks, .cons hshown hchunks⟩

/-- Another text of one file makes no other chunk than its own another one. -/
theorem Chunks.getElem?_congr {chunks' : List String} (h : theme.Chunks t context order chunks)
    (h' : theme.Chunks t' context order chunks')
    (hread : ∀ b ∈ order, b ≠ a →
      t'.readText (theme.assetFile b) = t.readText (theme.assetFile b))
    {i : Nat} (hi : order[i]? = some b) (hb : b ≠ a) : chunks'[i]? = chunks[i]? := by
  induction h generalizing chunks' i with
  | nil => cases hi
  | @cons c shown order chunks hc h ih =>
    obtain ⟨shown', chunks', hc', htail', rfl⟩ := List.forall₂_cons_left_iff.1 h'
    obtain ⟨hreadc, hreadtail⟩ := List.forall_mem_cons.1 hread
    cases i with
    | zero =>
      cases hi
      obtain ⟨text, htext, rfl⟩ := hc'
      rw [assetText_congr (hreadc hb)] at htext
      exact congrArg some (IsChunk.unique ⟨text, htext, rfl⟩ hc)
    | succ i => exact ih htail' hreadtail hi

/-- Files of distinct names have one load order of their stylesheets, whatever their own order. The
bundle of the stylesheets is a chunk for each of them in this order, with a line feed between any
two; there is one wherever the files can be read and the URLs are known. And where one file has
another text, all other chunks are the same. -/
theorem exists_loadOrder_bundle (hnames : (files.map (·.filename)).Nodup) (theme : Theme) :
    ∃ order, IsLoadOrder files order ∧ ∀ files', files'.Perm files →
      stylesheets files' = order ∧ ∀ t context,
        (∀ text, (theme.bundle t context (stylesheets files')).result = .ok text ↔
          ∃ chunks, theme.Chunks t context order chunks ∧ text = "\n".intercalate chunks) ∧
        ((∀ name, ∃ url, context.resolveUrl name = .ok url) →
          (∀ a ∈ order, ∃ s, t.readText (theme.assetFile a) = .ok s) →
            ∃ chunks, theme.Chunks t context order chunks) ∧
        ∀ t' a, (∀ b ∈ files, b ≠ a →
            t'.readText (theme.assetFile b) = t.readText (theme.assetFile b)) →
          ∀ chunks chunks', theme.Chunks t context order chunks →
            theme.Chunks t' context order chunks' →
              ∀ (i : Nat) b, order[i]? = some b → b ≠ a → chunks'[i]? = chunks[i]? := by
  have horder := isLoadOrder_stylesheets hnames
  refine ⟨stylesheets files, horder, fun files' hperm => ?_⟩
  have heq := stylesheets_congr hnames hperm
  refine ⟨heq, fun t context => ⟨fun text => ?_, exists_chunks, ?_⟩⟩
  · rw [heq]
    refine result_bundle_eq_ok_iff fun a ha => ?_
    simp [isText, ((horder.mem_iff a).1 ha).2]
  · intro t' a hread chunks chunks' hchunks hchunks' i b hi hb
    exact hchunks.getElem?_congr hchunks'
      (fun c hc => hread c ((horder.mem_iff c).1 hc).1) hi hb

/-- Three stylesheets and an image, listed in two orders. One of the stylesheets opens a conditional
and an output and closes neither. -/
theorem exists_loadOrder_bundle_open :
    let files := ["a.css.liquid", "logo.png", "base.css", "a.css"].map Asset.ofFilename
    let t : FileTree :=
      { workingDirectory := ["theme", "assets"]
        entries := [(["theme", "assets", "a.css"], .file "p\x7b\x7d".toUTF8),
          (["theme", "assets", "a.css.liquid"], .file "\x7b% if x %\x7d \x7b\x7b".toUTF8),
          (["theme", "assets", "base.css"], .file " q ".toUTF8)] }
    let context : Context := { settings := [], resolveUrl := .ok, keepBodies := false }
    (files.map (·.filename)).Nodup ∧ ∃ order, IsLoadOrder files order ∧
      stylesheets files.reverse = order ∧ ∃ text,
        ((Theme.mk ⟨1, ["theme"]⟩).bundle t context (stylesheets files.reverse)).result =
          .ok text := by
  intro files t context
  have hnames : (files.map (·.filename)).Nodup := by decide
  obtain ⟨order, horder, hbundle⟩ := exists_loadOrder_bundle hnames ⟨⟨1, ["theme"]⟩⟩
  obtain ⟨heq, htext⟩ := hbundle files.reverse (List.reverse_perm files)
  obtain ⟨hiff, hchunks, -⟩ := htext t context
  have hread : ∀ a ∈ files, a.kind = .css →
      (t.readText ((Theme.mk ⟨1, ["theme"]⟩).assetFile a)).toOption.isSome = true := by
    decide +kernel
  obtain ⟨chunks, hchunks⟩ := hchunks (fun name => ⟨name, rfl⟩) fun a ha => by
    obtain ⟨hmem, hkind⟩ := (horder.mem_iff a).1 ha
    have hsome := hread a hmem hkind
    cases h : t.readText ((Theme.mk ⟨1, ["theme"]⟩).assetFile a) with
    | error e =>
      rw [h] at hsome
      cases hsome
    | ok s => exact ⟨s, rfl⟩
  exact ⟨hnames, order, horder, heq, _, (hiff _).2 ⟨chunks, hchunks, rfl⟩⟩

end Theme

end Storefront
