import Mathlib.Data.Finset.Card
import Mathlib.Data.Nat.Find
import Storefront.FileTree

/-!
Where paths lead. A path leads to a location by its names, one after the other, and through the
targets of the links among them. The search for a file and the resolution of a path find no other
location, and resolution finds it however many links lead through one another.
-/

namespace Storefront.FileTree

/-- Names lead from one location to another. A link leads to where its target leads, and a name that
is not there stands for itself. -/
inductive Leads (t : FileTree) : Location → List String → Location → Prop
  | done (place : Location) : Leads t place [] place
  | up {here : Location} {names : List String} {place : Location} :
      Leads t here.dropLast names place → Leads t here (".." :: names) place
  | enter {here : Location} {name : String} {names : List String} {place : Location} :
      name ≠ ".." → (∀ target, t.entry? (here ++ [name]) ≠ some (.link target)) →
      Leads t (here ++ [name]) names place → Leads t here (name :: names) place
  | follow {here : Location} {name : String} {target : Path} {names : List String}
      {middle place : Location} :
      name ≠ ".." → t.entry? (here ++ [name]) = some (.link target) →
      Leads t (startFrom here target) target.names middle → Leads t middle names place →
      Leads t here (name :: names) place

/-- A path that the system takes leads to a location once all links are followed. -/
structure Resolves (t : FileTree) (p : Path) (place : Location) : Prop where
  taken : t.takes p = true
  leads : t.Leads (t.startOf p) p.names place

variable {t : FileTree} {here place middle : Location} {name : String} {names : List String}
  {target : Path}

namespace Leads

theorem nil_iff : t.Leads here [] place ↔ place = here := by
  constructor
  · intro h
    cases h
    rfl
  · rintro rfl
    exact done place

theorem up_iff : t.Leads here (".." :: names) place ↔ t.Leads here.dropLast names place := by
  constructor
  · intro h
    cases h with
    | up h => exact h
    | enter hname => exact absurd rfl hname
    | follow hname => exact absurd rfl hname
  · exact up

theorem enter_iff (hname : name ≠ "..")
    (hentry : ∀ target, t.entry? (here ++ [name]) ≠ some (.link target)) :
    t.Leads here (name :: names) place ↔ t.Leads (here ++ [name]) names place := by
  constructor
  · intro h
    cases h with
    | up h => exact absurd rfl hname
    | enter _ _ h => exact h
    | follow _ hlink => exact absurd hlink (hentry _)
  · exact enter hname hentry

theorem follow_iff (hname : name ≠ "..") (hlink : t.entry? (here ++ [name]) = some (.link target)) :
    t.Leads here (name :: names) place ↔
      ∃ middle, t.Leads (startFrom here target) target.names middle ∧ t.Leads middle names place := by
  constructor
  · intro h
    cases h with
    | up h => exact absurd rfl hname
    | enter _ hentry => exact absurd hlink (hentry _)
    | follow _ hother hfirst hrest =>
      cases hlink.symm.trans hother
      exact ⟨_, hfirst, hrest⟩
  · rintro ⟨middle, hfirst, hrest⟩
    exact follow hname hlink hfirst hrest

/-- Names lead to one location only. -/
theorem unique {other : Location} (h : t.Leads here names place) (h' : t.Leads here names other) :
    place = other := by
  induction h generalizing other with
  | done place => exact (nil_iff.1 h').symm
  | up _ ih => exact ih (up_iff.1 h')
  | enter hname hentry _ ih => exact ih ((enter_iff hname hentry).1 h')
  | follow hname hlink _ _ ihfirst ihrest =>
    obtain ⟨middle, hfirst, hrest⟩ := (follow_iff hname hlink).1 h'
    cases ihfirst hfirst
    exact ihrest hrest

/-- Names are followed one part after the other. -/
theorem append_iff {first rest : List String} : t.Leads here (first ++ rest) place ↔
    ∃ middle, t.Leads here first middle ∧ t.Leads middle rest place := by
  constructor
  · intro h
    induction first generalizing here with
    | nil => exact ⟨here, done here, h⟩
    | cons name first ih =>
      cases h with
      | up h =>
        obtain ⟨middle, hfirst, hrest⟩ := ih h
        exact ⟨middle, up hfirst, hrest⟩
      | enter hname hentry h =>
        obtain ⟨middle, hfirst, hrest⟩ := ih h
        exact ⟨middle, enter hname hentry hfirst, hrest⟩
      | follow hname hlink htarget h =>
        obtain ⟨middle, hfirst, hrest⟩ := ih h
        exact ⟨middle, follow hname hlink htarget hfirst, hrest⟩
  · rintro ⟨middle, hfirst, hrest⟩
    induction hfirst with
    | done => exact hrest
    | up _ ih => exact up (ih hrest)
    | enter hname hentry _ ih => exact enter hname hentry (ih hrest)
    | follow hname hlink htarget _ _ ih => exact follow hname hlink htarget (ih hrest)

end Leads

theorem Resolves.unique {p : Path} {other : Location} (h : t.Resolves p place)
    (h' : t.Resolves p other) : place = other :=
  h.leads.unique h'.leads

/-! ### The search for a file -/

section search

variable {follow : Location → List String → Except FileTrouble Location}

/-- What is found from a name on, once the entry of the name is known. -/
theorem walkWith_cons_eq_ok (h : t.walkWith .existing follow here (name :: names) = .ok place) :
    t.isDirectoryAt here = true ∧
      (name = ".." ∧ t.walkWith .existing follow here.dropLast names = .ok place ∨
        name ≠ ".." ∧ ((∀ target, t.entry? (here ++ [name]) ≠ some (.link target)) ∧
          t.walkWith .existing follow (here ++ [name]) names = .ok place ∨
            ∃ target, t.entry? (here ++ [name]) = some (.link target) ∧
              follow (startFrom here target) (target.names ++ names) = .ok place)) := by
  rw [walkWith] at h
  cases hhere : t.isDirectoryAt here with
  | false => simp [hhere] at h
  | true =>
    refine ⟨rfl, ?_⟩
    by_cases hname : name = ".."
    · exact .inl ⟨hname, by simpa [hhere, hname] using h⟩
    refine .inr ⟨hname, ?_⟩
    by_cases hlength : maxNameLength < name.utf8ByteSize
    · simp [hhere, hname, hlength] at h
    simp only [hhere, hname, hlength, Bool.not_true, Bool.false_eq_true, if_false] at h
    cases hentry : t.entry? (here ++ [name]) with
    | none => simp [hentry] at h
    | some e =>
      cases e with
      | link target => exact .inr ⟨target, rfl, by simpa [hentry] using h⟩
      | file bytes => exact .inl ⟨by simp, by simpa [hentry] using h⟩
      | directory => exact .inl ⟨by simp, by simpa [hentry] using h⟩

theorem leads_of_walkWith
    (hfollow : ∀ here names place, follow here names = .ok place → t.Leads here names place)
    (h : t.walkWith .existing follow here names = .ok place) : t.Leads here names place := by
  induction names generalizing here with
  | nil =>
    cases h
    exact .done _
  | cons name names ih =>
    obtain ⟨-, ⟨rfl, hnext⟩ | ⟨hname, ⟨hentry, hnext⟩ | ⟨target, hlink, hnext⟩⟩⟩ :=
      walkWith_cons_eq_ok h
    · exact .up (ih hnext)
    · exact .enter hname hentry (ih hnext)
    · obtain ⟨middle, hfirst, hrest⟩ := Leads.append_iff.1 (hfollow _ _ _ hnext)
      exact .follow hname hlink hfirst hrest

/-- What is searched for by its name lies in a directory. -/
theorem exists_directory_of_walkWith
    (hfollow : ∀ here names place, follow here (names ++ [name]) = .ok place →
      ∃ middle, t.Leads here names middle ∧ t.isDirectoryAt middle = true)
    (h : t.walkWith .existing follow here (names ++ [name]) = .ok place) :
    ∃ middle, t.Leads here names middle ∧ t.isDirectoryAt middle = true := by
  induction names generalizing here with
  | nil => exact ⟨here, .done here, (walkWith_cons_eq_ok h).1⟩
  | cons first names ih =>
    rw [List.cons_append] at h
    obtain ⟨-, ⟨rfl, hnext⟩ | ⟨hname, ⟨hentry, hnext⟩ | ⟨target, hlink, hnext⟩⟩⟩ :=
      walkWith_cons_eq_ok h
    · obtain ⟨middle, hmiddle, hdirectory⟩ := ih hnext
      exact ⟨middle, .up hmiddle, hdirectory⟩
    · obtain ⟨middle, hmiddle, hdirectory⟩ := ih hnext
      exact ⟨middle, .enter hname hentry hmiddle, hdirectory⟩
    · rw [← List.append_assoc] at hnext
      obtain ⟨middle, hmiddle, hdirectory⟩ := hfollow _ _ _ hnext
      obtain ⟨place, hfirst, hrest⟩ := Leads.append_iff.1 hmiddle
      exact ⟨middle, .follow hname hlink hfirst hrest, hdirectory⟩

theorem leads_of_walk {links : Nat} (h : t.walk .existing links here names = .ok place) :
    t.Leads here names place := by
  induction links generalizing here names place with
  | zero =>
    refine leads_of_walkWith ?_ h
    intro here names place h
    cases h
  | succ links ih => exact leads_of_walkWith (fun _ _ _ => ih) h

theorem exists_directory_of_walk {links : Nat}
    (h : t.walk .existing links here (names ++ [name]) = .ok place) :
    ∃ middle, t.Leads here names middle ∧ t.isDirectoryAt middle = true := by
  induction links generalizing here names place with
  | zero =>
    refine exists_directory_of_walkWith ?_ h
    intro here names place h
    cases h
  | succ links ih => exact exists_directory_of_walkWith (fun _ _ _ => ih) h

end search

/-- A path is searched for where it leads. -/
theorem resolves_of_locate {p : Path} (h : t.locate .existing p = .ok place) :
    t.Resolves p place := by
  obtain ⟨htaken, hwalk⟩ := locate_eq_ok_iff.1 h
  exact ⟨htaken, leads_of_walk hwalk⟩

theorem takes_child_iff {p : Path} :
    t.takes (p.child name) = true ↔ t.takes p = true ∧ t.refuses name = false := by
  simp [takes, Path.child]

/-- What is found below a path lies in a directory where that path leads. -/
theorem exists_directory_of_locate {p : Path} (h : t.locate .existing (p.child name) = .ok place) :
    ∃ middle, t.Resolves p middle ∧ t.isDirectoryAt middle = true := by
  obtain ⟨htaken, hwalk⟩ := locate_eq_ok_iff.1 h
  obtain ⟨middle, hleads, hdirectory⟩ := exists_directory_of_walk hwalk
  exact ⟨middle, ⟨(takes_child_iff.1 htaken).1, hleads⟩, hdirectory⟩

/-! ### Resolution -/

section resolution

variable {follow : Location → List String → Option Location}

@[simp] theorem resolveWith_nil : t.resolveWith follow here [] = some here := rfl

@[simp] theorem resolveWith_up :
    t.resolveWith follow here (".." :: names) = t.resolveWith follow here.dropLast names := rfl

theorem resolveWith_enter (hname : name ≠ "..")
    (hentry : ∀ target, t.entry? (here ++ [name]) ≠ some (.link target)) :
    t.resolveWith follow here (name :: names) = t.resolveWith follow (here ++ [name]) names := by
  rw [resolveWith, if_neg hname]
  split
  · next target hlink => exact absurd hlink (hentry target)
  · rfl

theorem resolveWith_follow (hname : name ≠ "..")
    (hlink : t.entry? (here ++ [name]) = some (.link target)) :
    t.resolveWith follow here (name :: names) =
      (follow (startFrom here target) target.names).bind (t.resolveWith follow · names) := by
  rw [resolveWith, if_neg hname, hlink]
  rfl

/-- A name leads up, to what is no link, or to a link. -/
theorem name_cases (t : FileTree) (here : Location) (name : String) : name = ".." ∨
    name ≠ ".." ∧ ((∀ target, t.entry? (here ++ [name]) ≠ some (.link target)) ∨
      ∃ target, t.entry? (here ++ [name]) = some (.link target)) := by
  by_cases hname : name = ".."
  · exact .inl hname
  by_cases hlink : ∃ target, t.entry? (here ++ [name]) = some (.link target)
  · exact .inr ⟨hname, .inr hlink⟩
  · exact .inr ⟨hname, .inl (not_exists.1 hlink)⟩

theorem leads_of_resolveWith
    (hfollow : ∀ here names place, follow here names = some place → t.Leads here names place)
    (h : t.resolveWith follow here names = some place) : t.Leads here names place := by
  induction names generalizing here with
  | nil =>
    cases h
    exact .done _
  | cons name names ih =>
    obtain rfl | ⟨hname, hentry | ⟨target, hlink⟩⟩ := name_cases t here name
    · exact .up (ih h)
    · rw [resolveWith_enter hname hentry] at h
      exact .enter hname hentry (ih h)
    · rw [resolveWith_follow hname hlink] at h
      obtain ⟨middle, hmiddle, h⟩ := Option.bind_eq_some_iff.1 h
      exact .follow hname hlink (hfollow _ _ _ hmiddle) (ih h)

theorem resolveWith_mono {further : Location → List String → Option Location}
    (hle : ∀ here names place, follow here names = some place → further here names = some place)
    (h : t.resolveWith follow here names = some place) :
    t.resolveWith further here names = some place := by
  induction names generalizing here with
  | nil => exact h
  | cons name names ih =>
    obtain rfl | ⟨hname, hentry | ⟨target, hlink⟩⟩ := name_cases t here name
    · exact ih h
    · rw [resolveWith_enter hname hentry] at h ⊢
      exact ih h
    · rw [resolveWith_follow hname hlink] at h ⊢
      obtain ⟨middle, hmiddle, h⟩ := Option.bind_eq_some_iff.1 h
      exact Option.bind_eq_some_iff.2 ⟨middle, hle _ _ _ hmiddle, ih h⟩

/-- Where following links further makes a difference, it does so for the target of some link. -/
theorem exists_link_of_resolveWith {further : Location → List String → Option Location}
    (hle : ∀ here names place, follow here names = some place → further here names = some place)
    (h : t.resolveWith further here names = some place)
    (hnone : t.resolveWith follow here names = none) :
    ∃ here name target middle, t.entry? (here ++ [name]) = some (.link target) ∧
      further (startFrom here target) target.names = some middle ∧
      follow (startFrom here target) target.names = none := by
  induction names generalizing here with
  | nil => cases hnone
  | cons name names ih =>
    obtain rfl | ⟨hname, hentry | ⟨target, hlink⟩⟩ := name_cases t here name
    · exact ih h hnone
    · rw [resolveWith_enter hname hentry] at h hnone
      exact ih h hnone
    · rw [resolveWith_follow hname hlink] at h hnone
      obtain ⟨middle, hmiddle, h⟩ := Option.bind_eq_some_iff.1 h
      cases hfollow : follow (startFrom here target) target.names with
      | none => exact ⟨here, name, target, middle, hlink, hmiddle, hfollow⟩
      | some other =>
        cases hmiddle.symm.trans (hle _ _ _ hfollow)
        rw [hfollow] at hnone
        exact ih h hnone

end resolution

theorem leads_of_resolveIn {depth : Nat} (h : t.resolveIn depth here names = some place) :
    t.Leads here names place := by
  induction depth generalizing here names place with
  | zero =>
    refine leads_of_resolveWith ?_ h
    intro here names place h
    cases h
  | succ depth ih => exact leads_of_resolveWith (fun _ _ _ => ih) h

theorem resolveIn_succ {depth : Nat} (h : t.resolveIn depth here names = some place) :
    t.resolveIn (depth + 1) here names = some place := by
  induction depth generalizing here names place with
  | zero =>
    refine resolveWith_mono ?_ h
    intro here names place h
    cases h
  | succ depth ih => exact resolveWith_mono (fun _ _ _ => ih) h

theorem resolveIn_mono {depth deeper : Nat} (hle : depth ≤ deeper)
    (h : t.resolveIn depth here names = some place) : t.resolveIn deeper here names = some place := by
  induction hle with
  | refl => exact h
  | step _ ih => exact resolveIn_succ ih

/-- Names that lead somewhere are resolved at some depth. -/
theorem Leads.exists_resolveIn (h : t.Leads here names place) :
    ∃ depth, t.resolveIn depth here names = some place := by
  induction h with
  | done place => exact ⟨0, rfl⟩
  | up _ ih =>
    obtain ⟨depth, hdepth⟩ := ih
    refine ⟨depth, ?_⟩
    cases depth <;> exact hdepth
  | enter hname hentry _ ih =>
    obtain ⟨depth, hdepth⟩ := ih
    refine ⟨depth, ?_⟩
    cases depth <;> exact (resolveWith_enter hname hentry).trans hdepth
  | follow hname hlink _ _ ihfirst ihrest =>
    obtain ⟨first, hfirst⟩ := ihfirst
    obtain ⟨rest, hrest⟩ := ihrest
    refine ⟨max first rest + 1, ?_⟩
    have hfirst := resolveIn_mono (Nat.le_max_left first rest) hfirst
    have hrest := resolveIn_mono (Nat.le_succ_of_le (Nat.le_max_right first rest)) hrest
    exact (resolveWith_follow hname hlink).trans (Option.bind_eq_some_iff.2 ⟨_, hfirst, hrest⟩)

/-! ### The depth that resolution needs -/

/-- Names are resolved at a depth and at no smaller one. -/
structure Needs (t : FileTree) (depth : Nat) (here : Location) (names : List String) : Prop where
  resolved : ∃ place, t.resolveIn depth here names = some place
  least : ∀ smaller < depth, t.resolveIn smaller here names = none

/-- The target of the link at a location needs a depth. -/
def LinkNeeds (t : FileTree) (depth : Nat) (place : Location) : Prop :=
  ∃ target, t.entry? place = some (.link target) ∧
    t.Needs depth (startFrom place.dropLast target) target.names

theorem Needs.unique {depth other : Nat} (h : t.Needs depth here names)
    (h' : t.Needs other here names) : depth = other := by
  obtain ⟨place, hplace⟩ := h.resolved
  obtain ⟨place', hplace'⟩ := h'.resolved
  rcases Nat.lt_trichotomy depth other with hlt | heq | hlt
  · rw [h'.least depth hlt] at hplace
    cases hplace
  · exact heq
  · rw [h.least other hlt] at hplace'
    cases hplace'

theorem LinkNeeds.unique {depth other : Nat} (h : t.LinkNeeds depth place)
    (h' : t.LinkNeeds other place) : depth = other := by
  obtain ⟨target, hlink, h⟩ := h
  obtain ⟨target', hlink', h'⟩ := h'
  cases hlink.symm.trans hlink'
  exact h.unique h'

theorem LinkNeeds.mem_links {depth : Nat} (h : t.LinkNeeds depth place) : place ∈ t.links := by
  obtain ⟨target, hlink, -⟩ := h
  rw [FileTree.entry?] at hlink
  split at hlink
  · cases hlink
  · obtain ⟨⟨found, e⟩, hfind, rfl⟩ := Option.map_eq_some_iff.1 hlink
    have hplace : found = place := by simpa using List.find?_some hfind
    exact List.mem_filterMap.2 ⟨_, List.mem_of_find?_eq_some hfind, congrArg some hplace⟩

/-- Names that need a depth lead through a link whose target needs one less. -/
theorem Needs.exists_linkNeeds {depth : Nat} (h : t.Needs (depth + 1) here names) :
    ∃ place, t.LinkNeeds depth place := by
  obtain ⟨place, hplace⟩ := h.resolved
  have hnone := h.least depth (Nat.lt_succ_self depth)
  cases depth with
  | zero =>
    obtain ⟨here, name, target, middle, hlink, hmiddle, -⟩ :=
      exists_link_of_resolveWith (fun _ _ _ h => by cases h) hplace hnone
    refine ⟨here ++ [name], target, hlink, ?_, fun smaller hlt => absurd hlt (Nat.not_lt_zero _)⟩
    rw [List.dropLast_concat]
    exact ⟨middle, hmiddle⟩
  | succ depth =>
    obtain ⟨here, name, target, middle, hlink, hmiddle, hnone⟩ :=
      exists_link_of_resolveWith (fun _ _ _ => resolveIn_succ) hplace hnone
    refine ⟨here ++ [name], target, hlink, ?_⟩
    rw [List.dropLast_concat]
    refine ⟨⟨middle, hmiddle⟩, fun smaller hlt => ?_⟩
    rw [Option.eq_none_iff_forall_ne_some]
    intro other hother
    rw [resolveIn_mono (Nat.le_of_lt_succ hlt) hother] at hnone
    cases hnone

/-- Each smaller depth is needed by some link. -/
theorem Needs.exists_linkNeeds_of_lt {depth smaller : Nat} (h : t.Needs depth here names)
    (hlt : smaller < depth) : ∃ place, t.LinkNeeds smaller place := by
  induction depth generalizing here names with
  | zero => exact absurd hlt (Nat.not_lt_zero _)
  | succ depth ih =>
    obtain ⟨place, hplace⟩ := h.exists_linkNeeds
    rcases Nat.lt_succ_iff_lt_or_eq.1 hlt with hlt | rfl
    · obtain ⟨target, -, htarget⟩ := hplace
      exact ih htarget hlt
    · exact ⟨place, hplace⟩

/-- No two depths are needed by one link, so none is greater than the number of links. -/
theorem Needs.le_links {depth : Nat} (h : t.Needs depth here names) : depth ≤ t.links.length := by
  have hlinks : ∀ smaller, smaller < depth → ∃ place, t.LinkNeeds smaller place :=
    fun smaller => h.exists_linkNeeds_of_lt
  choose! link hlink using hlinks
  calc depth = (Finset.range depth).card := (Finset.card_range depth).symm
    _ ≤ t.links.toFinset.card := by
      refine Finset.card_le_card_of_injOn link ?_ ?_
      · intro smaller hsmaller
        exact List.mem_toFinset.2 (hlink smaller (Finset.mem_range.1 hsmaller)).mem_links
      · intro a ha b hb heq
        have hb := hlink b (Finset.mem_range.1 hb)
        rw [← heq] at hb
        exact (hlink a (Finset.mem_range.1 ha)).unique hb
    _ ≤ t.links.length := List.toFinset_card_le t.links

/-- A path is resolved to the location that its names lead to. -/
theorem resolve_eq_some_iff {p : Path} :
    t.resolve p = some place ↔ t.Leads (t.startOf p) p.names place := by
  constructor
  · exact leads_of_resolveIn
  · intro h
    have hexists := h.exists_resolveIn
    have hneeds : t.Needs (Nat.find hexists) (t.startOf p) p.names := by
      refine ⟨⟨place, Nat.find_spec hexists⟩, fun smaller hlt => ?_⟩
      rw [Option.eq_none_iff_forall_ne_some]
      intro other hother
      cases h.unique (leads_of_resolveIn hother)
      exact Nat.find_min hexists hlt hother
    exact resolveIn_mono hneeds.le_links (Nat.find_spec hexists)

end Storefront.FileTree
