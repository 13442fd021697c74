import Mathlib.Data.List.Infix
import Storefront.FileTree
import Storefront.Outcome
import Storefront.Proofs.FileTree.Resolution

/-!
Files that are opened in directories made for them. A directory that had to be made holds nothing, so
nothing can be in the way of the file: where a file cannot be opened, no directory was made for it,
unless the system refuses the name of the file.
-/

namespace Storefront

namespace Path

/-- A name that does not lead up, and is no longer than names can be. -/
structure IsPlainName (name : String) : Prop where
  up : name ≠ ".."
  size : name.utf8ByteSize ≤ FileTree.maxNameLength

def IsPlain (p : Path) : Prop := ∀ name ∈ p.names, IsPlainName name

theorem parent_child (p : Path) (name : String) : (p.child name).parent = p := by
  rw [child, parent, List.dropLast_concat]

theorem names_eq_nil_or_child (p : Path) : p.names = [] ∨ ∃ q name, p = child q name := by
  obtain ⟨slashes, names⟩ := p
  rcases List.eq_nil_or_concat names with rfl | ⟨names, name, rfl⟩
  · exact .inl rfl
  · exact .inr ⟨⟨slashes, names⟩, name, by rw [child, List.concat_eq_append]⟩

theorem IsPlain.parent {p : Path} (h : p.IsPlain) : p.parent.IsPlain :=
  fun name hname => h name (List.mem_of_mem_dropLast hname)

theorem exists_child_of_parent {p : Path} (h : p.parent.names ≠ []) :
    ∃ q name, p = child q name := by
  rcases p.names_eq_nil_or_child with hnil | hchild
  · exact absurd (by rw [Path.parent, hnil]; rfl) h
  · exact hchild

theorem isPlain_child {p : Path} {name : String} :
    (p.child name).IsPlain ↔ p.IsPlain ∧ IsPlainName name := by
  rw [IsPlain, child, List.forall_mem_append, List.forall_mem_singleton]
  rfl

end Path

namespace FileTree

open Storefront.Path (IsPlainName)

/-- Whatever is there lies in a directory. -/
def WellFormed (t : FileTree) : Prop :=
  ∀ e ∈ t.entries, e.1 ≠ [] → t.isDirectoryAt e.1.dropLast = true

instance (t : FileTree) : Decidable t.WellFormed :=
  List.decidableBAll
    (fun e : Location × Entry => e.1 ≠ [] → t.isDirectoryAt e.1.dropLast = true) t.entries

/-- What is there in the first tree is there in the second one too. -/
structure Extends (t t' : FileTree) : Prop where
  workingDirectory : t'.workingDirectory = t.workingDirectory
  refuses : t'.refuses = t.refuses
  entry : ∀ place e, t.entry? place = some e → t'.entry? place = some e

variable {t t' : FileTree} {here place other : Location} {name : String} {names : List String}
  {e : Entry} {target p q : Path} {mode : Mode} {links left depth : Nat}

/-! ### Entries -/

theorem entry?_of_above (h : place <+: t.workingDirectory) : t.entry? place = some .directory := by
  rw [FileTree.entry?, if_pos (List.isPrefixOf_iff_prefix.2 h)]

theorem entry?_startOf (t : FileTree) (p : Path) : t.entry? (t.startOf p) = some .directory := by
  refine entry?_of_above ?_
  rw [startOf, startFrom]
  split
  · exact List.nil_prefix
  · exact List.prefix_refl _

theorem WellFormed.isDirectoryAt (h : t.WellFormed) (hentry : t.entry? (here ++ [name]) = some e) :
    t.isDirectoryAt here = true := by
  rw [FileTree.entry?] at hentry
  split at hentry
  · next hprefix =>
    have hhere : here <+: t.workingDirectory :=
      (List.prefix_append _ _).trans (List.isPrefixOf_iff_prefix.1 hprefix)
    exact isDirectoryAt_iff.2 (entry?_of_above hhere)
  · obtain ⟨⟨found, e⟩, hfind, rfl⟩ := Option.map_eq_some_iff.1 hentry
    have hplace : found = here ++ [name] := by simpa using List.find?_some hfind
    have hparent := h _ (List.mem_of_find?_eq_some hfind) (by simp [hplace])
    rwa [hplace, List.dropLast_concat] at hparent

theorem entry?_set_of_ne (h : other ≠ place) :
    FileTree.entry? (t.set place e) other = t.entry? other := by
  have hold : (t.entries.filter (·.1 ≠ place)).find? (·.1 = other) =
      t.entries.find? (·.1 = other) := by
    rw [List.find?_filter]
    congr 1
    funext x
    by_cases hx : x.1 = other
    · simp [hx, h]
    · simp [hx]
  rw [FileTree.entry?, entry?, set, List.find?_append, hold]
  simp [Ne.symm h]

theorem entry?_set_self (h : t.entry? place = none) :
    FileTree.entry? (t.set place e) place = some e := by
  rw [FileTree.entry?] at h ⊢
  split at h
  · cases h
  · next hprefix =>
    have hold : (t.entries.filter (·.1 ≠ place)).find? (·.1 = place) = none := by
      simp [List.find?_filter]
    rw [set, if_neg hprefix, List.find?_append, hold]
    simp

theorem extends_set (h : t.entry? place = none) : t.Extends (t.set place e) where
  workingDirectory := rfl
  refuses := rfl
  entry := by
    intro other e' hother
    have hne : other ≠ place := by
      rintro rfl
      rw [h] at hother
      cases hother
    rw [entry?_set_of_ne hne, hother]

theorem Extends.isDirectoryAt (h : t.Extends t') (hplace : t.isDirectoryAt place = true) :
    t'.isDirectoryAt place = true :=
  isDirectoryAt_iff.2 (h.entry _ _ (isDirectoryAt_iff.1 hplace))

theorem WellFormed.set_directory (h : t.WellFormed) (hhere : t.isDirectoryAt here = true)
    (hnone : t.entry? (here ++ [name]) = none) :
    (t.set (here ++ [name]) .directory).WellFormed := by
  have hextends : t.Extends (t.set (here ++ [name]) .directory) := extends_set hnone
  intro e he hne
  rw [set, List.mem_append, List.mem_singleton] at he
  rcases he with he | rfl
  · exact hextends.isDirectoryAt (h e (List.mem_of_mem_filter he) hne)
  · rw [List.dropLast_concat]
    exact hextends.isDirectoryAt hhere

/-- A directory that is new in a tree holds nothing. -/
theorem WellFormed.entry?_set_below (h : t.WellFormed) (hnone : t.entry? place = none)
    (name : String) : FileTree.entry? (t.set place e) (place ++ [name]) = none := by
  rw [entry?_set_of_ne (by simp)]
  by_contra hsome
  obtain ⟨found, hfound⟩ := Option.ne_none_iff_exists'.1 hsome
  rw [isDirectoryAt_iff.1 (h.isDirectoryAt hfound)] at hnone
  cases hnone

/-! ### Walks through what is there -/

/-- Names lead from one location to another through what is there, while so many of the links that
may be followed are left. -/
inductive Walks (t : FileTree) : Nat → Location → List String → Nat → Location → Prop
  | done (links : Nat) (here : Location) : Walks t links here [] links here
  | up {links left : Nat} {here : Location} {names : List String} {place : Location} :
      t.isDirectoryAt here = true → Walks t links here.dropLast names left place →
      Walks t links here (".." :: names) left place
  | enter {links left : Nat} {here : Location} {name : String} {names : List String} {e : Entry}
      {place : Location} : t.isDirectoryAt here = true → name ≠ ".." →
      name.utf8ByteSize ≤ maxNameLength → t.entry? (here ++ [name]) = some e →
      (∀ target, e ≠ .link target) → Walks t links (here ++ [name]) names left place →
      Walks t links here (name :: names) left place
  | follow {links left : Nat} {here : Location} {name : String} {names : List String} {target : Path}
      {place : Location} : t.isDirectoryAt here = true → name ≠ ".." →
      name.utf8ByteSize ≤ maxNameLength → t.entry? (here ++ [name]) = some (.link target) →
      Walks t links (startFrom here target) (target.names ++ names) left place →
      Walks t (links + 1) here (name :: names) left place

/-- With all links of a walk left, and with all but one. -/
theorem walk_eq (t : FileTree) (mode : Mode) (links : Nat) :
    ∃ follow, t.walk mode links = t.walkWith mode follow := by
  cases links with
  | zero => exact ⟨_, rfl⟩
  | succ links => exact ⟨_, rfl⟩

theorem walk_up (hhere : t.isDirectoryAt here = true) :
    t.walk mode links here (".." :: names) = t.walk mode links here.dropLast names := by
  obtain ⟨follow, hfollow⟩ := walk_eq t mode links
  simp [hfollow, walkWith, hhere]

theorem walk_enter (hhere : t.isDirectoryAt here = true) (hname : name ≠ "..")
    (hsize : name.utf8ByteSize ≤ maxNameLength) (hentry : t.entry? (here ++ [name]) = some e)
    (hlink : ∀ target, e ≠ .link target) :
    t.walk mode links here (name :: names) = t.walk mode links (here ++ [name]) names := by
  obtain ⟨follow, hfollow⟩ := walk_eq t mode links
  cases e with
  | link target => exact absurd rfl (hlink target)
  | file bytes => simp [hfollow, walkWith, hhere, hname, Nat.not_lt.2 hsize, hentry]
  | directory => simp [hfollow, walkWith, hhere, hname, Nat.not_lt.2 hsize, hentry]

theorem walk_follow (hhere : t.isDirectoryAt here = true) (hname : name ≠ "..")
    (hsize : name.utf8ByteSize ≤ maxNameLength)
    (hentry : t.entry? (here ++ [name]) = some (.link target)) :
    t.walk mode (links + 1) here (name :: names) =
      t.walk mode links (startFrom here target) (target.names ++ names) := by
  simp [walk, walkWith, hhere, hname, Nat.not_lt.2 hsize, hentry]

/-- A name that is not there can be walked to only if it is the last one and may be new. -/
theorem walk_new (hhere : t.isDirectoryAt here = true) (hname : name ≠ "..")
    (hsize : name.utf8ByteSize ≤ maxNameLength) (hentry : t.entry? (here ++ [name]) = none) :
    t.walk .creating links here [name] = .ok (here ++ [name]) := by
  obtain ⟨follow, hfollow⟩ := walk_eq t .creating links
  simp [hfollow, walkWith, hhere, hname, Nat.not_lt.2 hsize, hentry]

namespace Walks

theorem walk_append (h : t.Walks links here names left place) (mode : Mode) (rest : List String) :
    t.walk mode links here (names ++ rest) = t.walk mode left place rest := by
  induction h with
  | done links here => rfl
  | up hhere _ ih =>
    rw [List.cons_append, walk_up hhere, ih]
  | enter hhere hname hsize hentry hlink _ ih =>
    rw [List.cons_append, walk_enter hhere hname hsize hentry hlink, ih]
  | follow hhere hname hsize hentry _ ih =>
    rw [List.cons_append, walk_follow hhere hname hsize hentry, ← List.append_assoc, ih]

theorem walk_eq_ok (h : t.Walks links here names left place) (mode : Mode) :
    t.walk mode links here names = .ok place := by
  have hall := h.walk_append mode []
  obtain ⟨follow, hfollow⟩ := walk_eq t mode left
  rwa [List.append_nil, hfollow, walkWith] at hall

theorem mono (h : t.Walks links here names left place) (ht : t.Extends t') :
    t'.Walks links here names left place := by
  induction h with
  | done links here => exact .done links here
  | up hhere _ ih => exact .up (ht.isDirectoryAt hhere) ih
  | enter hhere hname hsize hentry hlink _ ih =>
    exact .enter (ht.isDirectoryAt hhere) hname hsize (ht.entry _ _ hentry) hlink ih
  | follow hhere hname hsize hentry _ ih =>
    exact .follow (ht.isDirectoryAt hhere) hname hsize (ht.entry _ _ hentry) ih

end Walks

/-- Names that are walked along with `follow` lead through what is there, if the names of each link
do that `follow` goes on with. -/
theorem exists_walks_of_walkWith {follow : Location → List String → Except FileTrouble Location}
    (hfollow : ∀ here name target names, t.isDirectoryAt here = true → name ≠ ".." →
      name.utf8ByteSize ≤ maxNameLength → t.entry? (here ++ [name]) = some (.link target) →
      follow (startFrom here target) (target.names ++ names) = .ok place →
      ∃ left, t.Walks links here (name :: names) left place)
    (h : t.walkWith .existing follow here names = .ok place) :
    ∃ left, t.Walks links here names left place := by
  induction names generalizing here with
  | nil =>
    cases h
    exact ⟨links, .done links place⟩
  | cons name names ih =>
    rw [walkWith] at h
    cases hhere : t.isDirectoryAt here with
    | false => simp [hhere] at h
    | true =>
      by_cases hname : name = ".."
      · subst hname
        obtain ⟨left, hwalks⟩ := ih (by simpa [hhere] using h)
        exact ⟨left, .up hhere hwalks⟩
      by_cases hsize : maxNameLength < name.utf8ByteSize
      · simp [hhere, hname, hsize] at h
      simp only [hhere, hname, hsize, Bool.not_true, Bool.false_eq_true, if_false] at h
      have hsize := Nat.not_lt.1 hsize
      cases hentry : t.entry? (here ++ [name]) with
      | none => simp [hentry] at h
      | some e =>
        rw [hentry] at h
        cases e with
        | link target => exact hfollow here name target names hhere hname hsize hentry h
        | file bytes =>
          obtain ⟨left, hwalks⟩ := ih h
          exact ⟨left, .enter hhere hname hsize hentry (fun _ => Entry.noConfusion) hwalks⟩
        | directory =>
          obtain ⟨left, hwalks⟩ := ih h
          exact ⟨left, .enter hhere hname hsize hentry (fun _ => Entry.noConfusion) hwalks⟩

theorem exists_walks_of_walk (h : t.walk .existing links here names = .ok place) :
    ∃ left, t.Walks links here names left place := by
  induction links generalizing here names place with
  | zero =>
    refine exists_walks_of_walkWith ?_ h
    intro here name target names hhere hname hsize hentry h
    cases h
  | succ links ih =>
    refine exists_walks_of_walkWith ?_ h
    intro here name target names hhere hname hsize hentry h
    obtain ⟨left, hwalks⟩ := ih h
    exact ⟨left, .follow hhere hname hsize hentry hwalks⟩

/-! ### Directories that are made -/

/-- The path leads to a directory that holds nothing. -/
def IsEmptyAt (t : FileTree) (p : Path) : Prop :=
  ∃ here, t.locate .existing p = .ok here ∧ t.isDirectoryAt here = true ∧
    ∀ name, t.entry? (here ++ [name]) = none

/-- In a directory that is found a name is looked for, and also if there are more entries. -/
theorem exists_locate_child (h : t.locate .existing p = .ok here) :
    ∃ left, ∀ t', t.Extends t' → ∀ mode name, t.refuses name = false →
      t'.locate mode (p.child name) = t'.walk mode left here [name] := by
  obtain ⟨htaken, hwalk⟩ := locate_eq_ok_iff.1 h
  obtain ⟨left, hwalks⟩ := exists_walks_of_walk hwalk
  refine ⟨left, fun t' ht mode name hname => ?_⟩
  have htaken : t'.takes (p.child name) = true := by
    rw [takes, ht.refuses]
    exact takes_child_iff.2 ⟨htaken, hname⟩
  have hstart : t'.startOf p = t.startOf p := by rw [startOf, startOf, ht.workingDirectory]
  have hall := (hwalks.mono ht).walk_append mode [name]
  rw [← hstart] at hall
  rw [locate, if_pos htaken]
  exact hall

theorem locateLast_child_eq_ok (hname : IsPlainName name) :
    t.locateLast (p.child name) = .ok place ↔ t.refuses name = false ∧
      ∃ here, t.locate .existing p = .ok here ∧ t.isDirectoryAt here = true ∧
        place = here ++ [name] := by
  have hlast : (p.child name).names.getLast? = some name := List.getLast?_concat
  have hsteps : t.locateLast (p.child name) =
      if !t.takes (p.child name) then .error .unusableName
      else t.locate .existing p >>= fun here =>
        if !t.isDirectoryAt here then .error .notADirectory
        else if maxNameLength < name.utf8ByteSize then .error .nameTooLong
        else pure (here ++ [name]) := by
    rw [locateLast, Path.parent_child, hlast]
    split
    · next h => cases h
    · next h => exact absurd (Option.some.inj h) hname.up
    · next h => rw [Option.some.inj h]
  have htaken : t.takes (p.child name) = true ∧ (∃ here, t.locate .existing p = .ok here ∧
      t.isDirectoryAt here = true ∧ place = here ++ [name]) ↔
        t.refuses name = false ∧ ∃ here, t.locate .existing p = .ok here ∧
          t.isDirectoryAt here = true ∧ place = here ++ [name] := by
    rw [takes_child_iff]
    refine ⟨fun ⟨⟨_, h⟩, hhere⟩ => ⟨h, hhere⟩, fun ⟨h, here, hhere, hrest⟩ => ?_⟩
    exact ⟨⟨(locate_eq_ok_iff.1 hhere).1, h⟩, here, hhere, hrest⟩
  rw [hsteps, ← htaken]
  cases t.takes (p.child name) with
  | false => simp
  | true =>
    rw [if_neg (by simp), except_bind_eq_ok, and_iff_right rfl]
    refine exists_congr fun here => and_congr_right fun _ => ?_
    rw [if_neg (Nat.not_lt.2 hname.size)]
    cases t.isDirectoryAt here with
    | false => exact ⟨nofun, nofun⟩
    | true =>
      constructor
      · intro h
        exact ⟨rfl, (Except.ok.inj h).symm⟩
      · rintro ⟨-, rfl⟩
        rfl

/-- A path without names leads to where it starts, which is there. -/
theorem makeDirectory_ne_ok_of_nil (h : p.names = []) : t.makeDirectory p ≠ .ok t' := by
  intro hmade
  obtain ⟨place, hplace, hmade⟩ := except_bind_eq_ok.1 hmade
  have hlast : t.locateLast p = t.locate .existing p := by
    rw [locateLast, h]
    rfl
  rw [hlast, locate_eq_ok_iff, h] at hplace
  have hstart : place = t.startOf p := (Except.ok.inj hplace.2).symm
  rw [hstart, entry?_startOf] at hmade
  cases hmade

theorem makeDirectory_child_eq_ok (hname : IsPlainName name) :
    t.makeDirectory (p.child name) = .ok t' ↔ t.refuses name = false ∧
      ∃ here, t.locate .existing p = .ok here ∧ t.isDirectoryAt here = true ∧
        t.entry? (here ++ [name]) = none ∧ t' = t.set (here ++ [name]) .directory := by
  rw [makeDirectory, except_bind_eq_ok]
  constructor
  · rintro ⟨place, hplace, hmade⟩
    obtain ⟨htaken, here, hhere, hdirectory, rfl⟩ := (locateLast_child_eq_ok hname).1 hplace
    cases hentry : t.entry? (here ++ [name]) with
    | some e =>
      rw [hentry] at hmade
      cases hmade
    | none =>
      rw [hentry] at hmade
      exact ⟨htaken, here, hhere, hdirectory, hentry, (Except.ok.inj hmade).symm⟩
  · rintro ⟨htaken, here, hhere, hdirectory, hentry, rfl⟩
    refine ⟨here ++ [name],
      (locateLast_child_eq_ok hname).2 ⟨htaken, here, hhere, hdirectory, rfl⟩, ?_⟩
    rw [hentry]
    rfl

/-- The second tree has a directory at the path that is not in the first one. It holds nothing. -/
structure Makes (t : FileTree) (p : Path) (t' : FileTree) : Prop where
  grown : t.Extends t'
  wellFormed : t'.WellFormed
  named : p.names ≠ []
  empty : t'.IsEmptyAt p

theorem WellFormed.makes_child (h : t.WellFormed) (hname : IsPlainName name)
    (hmade : t.makeDirectory (p.child name) = .ok t') : t.Makes (p.child name) t' := by
  obtain ⟨htaken, here, hhere, hdirectory, hnone, rfl⟩ := (makeDirectory_child_eq_ok hname).1 hmade
  obtain ⟨left, hchild⟩ := exists_locate_child hhere
  have hextends : t.Extends (t.set (here ++ [name]) .directory) := extends_set hnone
  have hnew := entry?_set_self (e := .directory) hnone
  refine ⟨hextends, h.set_directory hdirectory hnone, by simp [Path.child], here ++ [name], ?_,
    isDirectoryAt_iff.2 hnew, h.entry?_set_below hnone⟩
  rw [hchild _ hextends _ _ htaken]
  have hwalks : (t.set (here ++ [name]) .directory).Walks left here [name] left (here ++ [name]) :=
    .enter (hextends.isDirectoryAt hdirectory) hname.up hname.size hnew (fun _ => Entry.noConfusion) (.done _ _)
  exact hwalks.walk_eq_ok .existing

/-- Nothing is changed, or all is well and the path leads to a directory that was made for it. -/
def Settles (t : FileTree) (p : Path) (change : Change) : Prop :=
  change.1 = t ∨ change.2 = .ok () ∧ t.Makes p change.1

theorem Settles.settleDirectory (t : FileTree) (p q : Path) (trouble : FileTrouble) :
    t.Settles p (t.settleDirectory q trouble) := .inl rfl

theorem WellFormed.settles_makeDirectory (h : t.WellFormed) (hp : p.IsPlain)
    (hmade : t.makeDirectory p = .ok t') : t.Settles p (t', .ok ()) := by
  rcases p.names_eq_nil_or_child with hnil | ⟨q, name, rfl⟩
  · exact absurd hmade (makeDirectory_ne_ok_of_nil hnil)
  · exact .inr ⟨rfl, h.makes_child (Path.isPlain_child.1 hp).2 hmade⟩

theorem WellFormed.settles_ensureDirectory (h : t.WellFormed) (hp : p.IsPlain) :
    t.Settles p (t.ensureDirectory p) := by
  rw [ensureDirectory]
  split
  · next hmade => exact h.settles_makeDirectory hp hmade
  · exact .settleDirectory t p p _

theorem Extends.trans {t'' : FileTree} (h : t.Extends t') (h' : t'.Extends t'') :
    t.Extends t'' where
  workingDirectory := h'.workingDirectory.trans h.workingDirectory
  refuses := h'.refuses.trans h.refuses
  entry place e hplace := h'.entry place e (h.entry place e hplace)

/-- In a directory that was made another one can be made, if the system takes its name. -/
theorem Makes.settles_ensureDirectory (h : t.Makes q t') (hname : IsPlainName name)
    (htaken : t.refuses name = false) :
    t.Settles (q.child name) (t'.ensureDirectory (q.child name)) := by
  obtain ⟨here, hhere, hdirectory, hnone⟩ := h.empty
  rw [← h.grown.refuses] at htaken
  have hmade := (makeDirectory_child_eq_ok hname).2
    ⟨htaken, here, hhere, hdirectory, hnone name, rfl⟩
  obtain ⟨hgrown, hwell, hnamed, hempty⟩ := h.wellFormed.makes_child hname hmade
  rw [ensureDirectory, hmade]
  exact .inr ⟨rfl, h.grown.trans hgrown, hwell, hnamed, hempty⟩

/-- The system takes a name that it looks for in vain. -/
theorem refuses_of_makeDirectory (h : t.makeDirectory (q.child name) = .error .notFound)
    (hname : IsPlainName name) : t.refuses name = false := by
  by_contra hrefused
  have hlast : (q.child name).names.getLast? = some name := List.getLast?_concat
  have htaken : t.takes (q.child name) = false := by
    rw [← Bool.not_eq_true, takes_child_iff]
    exact fun h => hrefused h.2
  have hlocate : t.locateLast (q.child name) = .error .unusableName := by
    rw [locateLast, hlast]
    split
    · next h => cases h
    · next h => exact absurd (Option.some.inj h) hname.up
    · rw [htaken]
      rfl
  rw [makeDirectory, hlocate] at h
  cases h

theorem WellFormed.settles_ensureDirectories (h : t.WellFormed) (hp : p.IsPlain) :
    t.Settles p (t.ensureDirectories depth p) := by
  induction depth generalizing p with
  | zero =>
    rw [ensureDirectories]
    split
    · next hmade => exact h.settles_makeDirectory hp hmade
    · exact .inl rfl
    · exact .settleDirectory t p p _
  | succ depth ih =>
    rw [ensureDirectories]
    split
    · next hmade => exact h.settles_makeDirectory hp hmade
    · next hmissing =>
      have hsettles := ih hp.parent
      split
      · next hchange =>
        rw [hchange] at hsettles
        -- The directory above was there all along, or it is new and nothing is in the way.
        rcases hsettles with rfl | ⟨-, hmakes⟩
        · exact h.settles_ensureDirectory hp
        · obtain ⟨q, name, rfl⟩ := Path.exists_child_of_parent hmakes.named
          rw [Path.parent_child] at hmakes
          have hname := (Path.isPlain_child.1 hp).2
          exact hmakes.settles_ensureDirectory hname (refuses_of_makeDirectory hmissing hname)
      · next hfail =>
        rcases hsettles with hkept | ⟨hdone, -⟩
        · exact .inl hkept
        · exact (hfail _ (Prod.ext rfl hdone)).elim
    · exact .settleDirectory t p p _

/-! ### Files that are opened -/

theorem openFile_of_refuses (hname : name ∈ p.names) (hrefuses : t.refuses name = true) :
    t.openFile p = .error .unusableName := by
  have htaken : t.takes p = false := by
    rw [takes, List.all_eq_false]
    exact ⟨name, hname, by simp [hrefuses]⟩
  rw [openFile, locate, htaken]
  rfl

/-- In a directory that was made a file can be opened, unless the system refuses its name. -/
theorem Makes.openFile_child (h : t.Makes q t') (hname : IsPlainName name) :
    (∃ opened, t'.openFile (q.child name) = .ok opened) ∨
      t.refuses name = true ∧ t'.openFile (q.child name) = .error .unusableName := by
  obtain ⟨here, hhere, hdirectory, hnone⟩ := h.empty
  rw [← h.grown.refuses]
  cases hrefuses : t'.refuses name with
  | true => exact .inr ⟨rfl, openFile_of_refuses List.mem_concat_self hrefuses⟩
  | false =>
    obtain ⟨left, hchild⟩ := exists_locate_child hhere
    have hplace : t'.locate .creating (q.child name) = .ok (here ++ [name]) := by
      rw [hchild t' ⟨rfl, rfl, fun _ _ => id⟩ _ _ hrefuses]
      exact walk_new hdirectory hname.up hname.size (hnone name)
    refine .inl ⟨(t'.set (here ++ [name]) (.file .empty), here ++ [name]), ?_⟩
    rw [openFile, except_bind_eq_ok]
    exact ⟨here ++ [name], hplace, by rw [hnone name]; rfl⟩

/-- Where directories cannot be made, none is. -/
theorem WellFormed.makeParents_of_error (h : t.WellFormed) (hp : p.IsPlain) {trouble : FileTrouble}
    (hmade : t.makeParents p = (t', .error trouble)) : t' = t := by
  have hsettles : t.Settles p.parent (t.makeParents p) := h.settles_ensureDirectories hp.parent
  rw [hmade] at hsettles
  rcases hsettles with rfl | ⟨hdone, -⟩
  · rfl
  · cases hdone

/-- Where a file cannot be opened, no directory has been made for it, unless the system refuses its
name. -/
theorem WellFormed.makeParents_of_openFile (h : t.WellFormed) (hp : p.IsPlain)
    {trouble : FileTrouble} (hmade : t.makeParents p = (t', .ok ()))
    (hopen : t'.openFile p = .error trouble) :
    t' = t ∨ trouble = .unusableName ∧ ∃ name, p.names.getLast? = some name ∧
      t.refuses name = true := by
  have hsettles : t.Settles p.parent (t.makeParents p) := h.settles_ensureDirectories hp.parent
  rw [hmade] at hsettles
  rcases hsettles with rfl | ⟨-, hmakes⟩
  · exact .inl rfl
  · obtain ⟨q, name, rfl⟩ := Path.exists_child_of_parent hmakes.named
    rw [Path.parent_child] at hmakes
    obtain ⟨opened, hopened⟩ | ⟨hrefused, hfails⟩ :=
      hmakes.openFile_child (Path.isPlain_child.1 hp).2
    · cases hopen.symm.trans hopened
    · cases hopen.symm.trans hfails
      exact .inr ⟨rfl, name, List.getLast?_concat, hrefused⟩

theorem WellFormed.refuses_makeParents (h : t.WellFormed) (hp : p.IsPlain)
    (hmade : t.makeParents p = (t', .ok ())) : t'.refuses = t.refuses := by
  have hsettles : t.Settles p.parent (t.makeParents p) := h.settles_ensureDirectories hp.parent
  rw [hmade] at hsettles
  rcases hsettles with rfl | ⟨-, hmakes⟩
  · rfl
  · exact hmakes.grown.refuses

end FileTree

end Storefront
