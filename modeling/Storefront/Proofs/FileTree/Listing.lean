import Mathlib.Data.List.Nodup
import Storefront.FileTree.Reading
import Storefront.Proofs.FileTree.Resolution

/-!
What is read of a file and listed of a directory. A file that lies in a directory under its own name
is listed there, and where each location has one entry it is listed once.
-/

namespace Storefront

section filter

variable {ε α : Type} {p : α → Except ε Bool} {xs ys : List α}

private theorem filterAuxM_eq_ok_iff {before : List α} :
    xs.filterAuxM p before = .ok ys ↔
      (∀ x ∈ xs, ∃ b, p x = .ok b) ∧
        ys = (xs.filter fun x => (p x).toOption = some true).reverse ++ before := by
  induction xs generalizing before with
  | nil => simp [List.filterAuxM, pure, Except.pure, eq_comm]
  | cons x xs ih =>
    rw [List.filterAuxM, except_bind_eq_ok, List.forall_mem_cons]
    constructor
    · rintro ⟨b, hb, h⟩
      obtain ⟨hxs, rfl⟩ := ih.1 h
      refine ⟨⟨⟨b, hb⟩, hxs⟩, ?_⟩
      cases b <;> simp [hb, Except.toOption]
    · rintro ⟨⟨⟨b, hb⟩, hxs⟩, rfl⟩
      refine ⟨b, hb, ih.2 ⟨hxs, ?_⟩⟩
      cases b <;> simp [hb, Except.toOption]

/-- A test that can fail leaves the elements that pass it, unless it fails for one of them. -/
theorem filterM_eq_ok_iff : xs.filterM p = .ok ys ↔
    (∀ x ∈ xs, ∃ b, p x = .ok b) ∧ ys = xs.filter fun x => (p x).toOption = some true := by
  rw [List.filterM, except_bind_eq_ok]
  constructor
  · rintro ⟨zs, hzs, h⟩
    obtain ⟨hxs, rfl⟩ := filterAuxM_eq_ok_iff.1 hzs
    cases h
    refine ⟨hxs, ?_⟩
    rw [List.append_nil, List.reverse_reverse]
  · rintro ⟨hxs, rfl⟩
    refine ⟨_, filterAuxM_eq_ok_iff.2 ⟨hxs, rfl⟩, ?_⟩
    rw [List.append_nil, List.reverse_reverse]
    rfl

end filter

namespace FileTree

/-- Each location has one entry. -/
def Distinct (t : FileTree) : Prop := (t.entries.map Prod.fst).Nodup

instance (t : FileTree) : Decidable t.Distinct := inferInstanceAs (Decidable (List.Nodup _))

/-- The name that an entry at a location has in the directory `here`, if it lies there. -/
def nameIn (here place : Location) : Option String :=
  if here.isPrefixOf place && place.length = here.length + 1 then place.getLast? else none

variable {t : FileTree} {here place : Location} {name : String} {names files : List String}
  {bytes : ByteArray} {e : Entry} {directory p : Path} {test : String → Bool}

/-! ### Entries of a directory -/

theorem nameIn_eq_some_iff : nameIn here place = some name ↔ place = here ++ [name] := by
  rw [nameIn]
  constructor
  · intro h
    split at h
    · next hbelow =>
      rw [Bool.and_eq_true, decide_eq_true_eq, List.isPrefixOf_iff_prefix] at hbelow
      obtain ⟨⟨rest, rfl⟩, hlength⟩ := hbelow
      obtain ⟨last, rfl⟩ : ∃ last, rest = [last] := by
        rw [← List.length_eq_one_iff]
        rw [List.length_append] at hlength
        omega
      rw [List.getLast?_concat] at h
      rw [Option.some.inj h]
    · cases h
  · rintro rfl
    simp

theorem namesIn_eq_ok_iff : t.namesIn p = .ok names ↔ ∃ here, t.locate .existing p = .ok here ∧
    names = (t.entries.map Prod.fst).filterMap (nameIn here) := by
  rw [namesIn, except_bind_eq_ok]
  refine exists_congr fun here => and_congr_right fun _ => ?_
  rw [List.filterMap_map]
  exact ⟨fun h => (Except.ok.inj h).symm, fun h => congrArg Except.ok h.symm⟩

theorem Distinct.nodup_namesIn (ht : t.Distinct) (h : t.namesIn p = .ok names) : names.Nodup := by
  obtain ⟨here, -, rfl⟩ := namesIn_eq_ok_iff.1 h
  refine List.Nodup.filterMap (fun place other name hname hother => ?_) ht
  rw [nameIn_eq_some_iff.1 hname, nameIn_eq_some_iff.1 hother]

/-- What is neither the working directory nor above it is there by an entry. -/
theorem mem_places_of_file (h : t.entry? place = some (.file bytes)) :
    place ∈ t.entries.map Prod.fst := by
  rw [FileTree.entry?] at h
  split at h
  · cases h
  · obtain ⟨⟨found, e⟩, hfind, rfl⟩ := Option.map_eq_some_iff.1 h
    have hplace : found = place := by simpa using List.find?_some hfind
    exact List.mem_map.2 ⟨_, List.mem_of_find?_eq_some hfind, hplace⟩

/-! ### Files -/

theorem find_eq_ok_iff : t.find p = .ok e ↔
    ∃ place, t.locate .existing p = .ok place ∧ t.entry? place = some e := by
  rw [find, except_bind_eq_ok]
  refine exists_congr fun place => and_congr_right fun _ => ?_
  cases t.entry? place with
  | none => exact ⟨nofun, nofun⟩
  | some found =>
    exact ⟨fun h => congrArg some (Except.ok.inj h), fun h => congrArg _ (Option.some.inj h)⟩

theorem passes_of_find {test : Entry → Bool} (h : t.find p = .ok e) :
    t.passes p test = .ok (test e) := by
  rw [passes, h]

theorem passes_eq_true_iff {test : Entry → Bool} :
    t.passes p test = .ok true ↔ ∃ e, t.find p = .ok e ∧ test e = true := by
  rw [passes]
  cases t.find p with
  | error trouble => cases trouble <;> simp
  | ok e => simp

theorem isFile_eq_true_iff : t.isFile p = .ok true ↔
    ∃ place bytes, t.locate .existing p = .ok place ∧ t.entry? place = some (.file bytes) := by
  simp only [isFile, passes_eq_true_iff, find_eq_ok_iff]
  constructor
  · rintro ⟨e, ⟨place, hplace, hentry⟩, he⟩
    cases e with
    | file bytes => exact ⟨place, bytes, hplace, hentry⟩
    | link target => cases he
    | directory => cases he
  · rintro ⟨place, bytes, hplace, hentry⟩
    exact ⟨_, ⟨place, hplace, hentry⟩, rfl⟩

theorem bytes_eq_ok_iff : t.bytes p = .ok bytes ↔
    ∃ place, t.locate .existing p = .ok place ∧ t.entry? place = some (.file bytes) := by
  rw [FileTree.bytes, except_bind_eq_ok]
  constructor
  · rintro ⟨e, hfind, h⟩
    cases e with
    | file found =>
      cases h
      exact find_eq_ok_iff.1 hfind
    | link target => cases h
    | directory => cases h
  · exact fun h => ⟨_, find_eq_ok_iff.2 h, rfl⟩

/-- The text of a path is that of the file that it leads to. -/
theorem readText_eq_ok_iff {source : String} : t.readText p = .ok source ↔
    ∃ place bytes, t.locate .existing p = .ok place ∧ t.entry? place = some (.file bytes) ∧
      Text.ofBytes? bytes = some source := by
  have htext : t.readText p = .ok source ↔
      ∃ bytes, t.bytes p = .ok bytes ∧ Text.ofBytes? bytes = some source := by
    rw [readText]
    cases t.bytes p with
    | error e => simp
    | ok bytes => cases h : Text.ofBytes? bytes <;> simp [h]
  simp only [htext, bytes_eq_ok_iff]
  constructor
  · rintro ⟨bytes, ⟨place, hplace, hentry⟩, hbytes⟩
    exact ⟨place, bytes, hplace, hentry, hbytes⟩
  · rintro ⟨place, bytes, hplace, hentry, hbytes⟩
    exact ⟨bytes, ⟨place, hplace, hentry⟩, hbytes⟩

theorem readText_of_readText? {source : String} (h : t.readText? p = .ok (some source)) :
    t.readText p = .ok source := by
  obtain ⟨isFile, -, h⟩ := except_bind_eq_ok.1 h
  cases isFile with
  | false => cases h
  | true =>
    obtain ⟨text, htext, h⟩ := except_bind_eq_ok.1 h
    cases h
    exact htext

/-! ### Listings -/

/-- A listing has the files among the names that pass the test. -/
theorem filesIn_eq_ok (h : t.filesIn directory test = .ok files) :
    (t.isDirectory directory = .ok false ∧ files = []) ∨
      t.isDirectory directory = .ok true ∧ ∃ names, t.namesIn directory = .ok names ∧
        (∀ name ∈ names.filter test, ∃ b, t.isFile (directory.child name) = .ok b) ∧
        files = Text.sorted ((names.filter test).filter fun name =>
          (t.isFile (directory.child name)).toOption = some true) := by
  obtain ⟨isDirectory, hdirectory, h⟩ := except_bind_eq_ok.1 h
  cases isDirectory with
  | false => exact .inl ⟨hdirectory, (Except.ok.inj h).symm⟩
  | true =>
    obtain ⟨names, hnames, h⟩ := except_bind_eq_ok.1 h
    obtain ⟨kept, hkept, h⟩ := except_bind_eq_ok.1 h
    obtain ⟨hall, rfl⟩ := filterM_eq_ok_iff.1 hkept
    exact .inr ⟨hdirectory, names, hnames, hall, (Except.ok.inj h).symm⟩

theorem of_mem_filesIn (h : t.filesIn directory test = .ok files) (hname : name ∈ files) :
    test name = true ∧ t.isFile (directory.child name) = .ok true := by
  obtain ⟨-, rfl⟩ | ⟨-, names, -, -, rfl⟩ := filesIn_eq_ok h
  · cases hname
  · rw [(Text.sorted_perm _).mem_iff, List.mem_filter, List.mem_filter] at hname
    obtain ⟨⟨-, htest⟩, hfile⟩ := hname
    exact ⟨htest, except_eq_ok_of_toOption (of_decide_eq_true hfile)⟩

theorem Distinct.nodup_filesIn (ht : t.Distinct) (h : t.filesIn directory test = .ok files) :
    files.Nodup := by
  obtain ⟨-, rfl⟩ | ⟨-, names, hnames, -, rfl⟩ := filesIn_eq_ok h
  · exact List.nodup_nil
  · rw [(Text.sorted_perm _).nodup_iff]
    exact ((ht.nodup_namesIn hnames).filter _).filter _

/-- A file that lies in the directory under its own name is listed. -/
theorem mem_filesIn (hhere : t.locate .existing directory = .ok here)
    (hplace : t.locate .existing (directory.child name) = .ok (here ++ [name]))
    (hentry : t.entry? (here ++ [name]) = some (.file bytes)) (htest : test name = true)
    (h : t.filesIn directory test = .ok files) : name ∈ files := by
  obtain ⟨hnot, -⟩ | ⟨-, names, hnames, -, rfl⟩ := filesIn_eq_ok h
  · obtain ⟨middle, hmiddle, hisDirectory⟩ := exists_directory_of_locate hplace
    cases hmiddle.unique (resolves_of_locate hhere)
    have hdirectory : t.isDirectory directory = .ok true :=
      passes_of_find (find_eq_ok_iff.2 ⟨here, hhere, isDirectoryAt_iff.1 hisDirectory⟩)
    cases hnot.symm.trans hdirectory
  · obtain ⟨here', hhere', rfl⟩ := namesIn_eq_ok_iff.1 hnames
    cases hhere.symm.trans hhere'
    have hfile := isFile_eq_true_iff.2 ⟨_, _, hplace, hentry⟩
    rw [(Text.sorted_perm _).mem_iff, List.mem_filter, List.mem_filter, List.mem_filterMap]
    refine ⟨⟨⟨_, mem_places_of_file hentry, nameIn_eq_some_iff.2 rfl⟩, htest⟩, ?_⟩
    rw [hfile]
    rfl

end FileTree

end Storefront
