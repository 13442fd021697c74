import Storefront.Page

/-!
Which sections stand on the page of some documents, in which order and under which index, and which
of them an id finds.
-/

namespace Storefront

/-- The documents of one page. A group that is absent places nothing. -/
structure Documents where
  template : Template
  header : Option SectionGroup
  footer : Option SectionGroup

namespace Documents

variable (docs : Documents)

/-- The sections that the document of a region defines. -/
def sections : Region → Dict SectionStub
  | .header => docs.header.elim [] SectionGroup.sections
  | .template => docs.template.sections
  | .footer => docs.footer.elim [] SectionGroup.sections

/-- The ids that the document of a region puts in order, defined or not. -/
def order : Region → List String
  | .header => docs.header.elim [] SectionGroup.order
  | .template => docs.template.order
  | .footer => docs.footer.elim [] SectionGroup.order

def placed (region : Region) : List (Region × String × SectionStub) :=
  Placement.ofDocument region (docs.sections region) (docs.order region)

end Documents

namespace Placement

theorem ofGroup_header (docs : Documents) : ofGroup .header docs.header = docs.placed .header := by
  cases h : docs.header <;> simp [ofGroup, Documents.placed, Documents.sections, Documents.order, h,
    ofDocument]

theorem ofGroup_footer (docs : Documents) : ofGroup .footer docs.footer = docs.placed .footer := by
  cases h : docs.footer <;> simp [ofGroup, Documents.placed, Documents.sections, Documents.order, h,
    ofDocument]

theorem ids_ofDocument (region : Region) (sections : Dict SectionStub) (order : List String) :
    (ofDocument region sections order).map (·.2.1) = order.filter sections.contains := by
  induction order with
  | nil => rfl
  | cons id order ih =>
    have htail : (ofDocument region sections (id :: order)).map (·.2.1) =
        (sections.get? id).toList.map (fun _ => id) ++
          (ofDocument region sections order).map (·.2.1) := by
      cases h : sections.get? id <;> simp [ofDocument, h]
    rw [htail, ih]
    cases h : sections.get? id with
    | none => simp [Dict.contains, h]
    | some stub => simp [Dict.contains, h]

/-- A section stands where its own document defines it. -/
theorem of_mem_ofDocument {region : Region} {sections : Dict SectionStub} {order : List String}
    {q : Region × String × SectionStub} (h : q ∈ ofDocument region sections order) :
    q.1 = region ∧ sections.get? q.2.1 = some q.2.2 := by
  obtain ⟨id, -, hid⟩ := List.mem_filterMap.1 h
  obtain ⟨stub, hstub, rfl⟩ := Option.map_eq_some_iff.1 hid
  exact ⟨rfl, hstub⟩

/-- The sections from some index on, resolved. -/
def instances (lookup : String → Option SectionSchema) (start : Nat)
    (placed : List (Region × String × SectionStub)) : List SectionInstance :=
  (placed.zipIdx start).map fun ((region, id, stub), index) =>
    resolve { region, id, stub, index } (lookup stub.type)

section instances

variable {lookup : String → Option SectionSchema} {start : Nat}
  {placed more : List (Region × String × SectionStub)}

theorem instances_append :
    instances lookup start (placed ++ more) =
      instances lookup start placed ++ instances lookup (start + placed.length) more := by
  simp [instances, List.zipIdx_append]

theorem map_id_instances :
    (instances lookup start placed).map SectionInstance.id = placed.map (·.2.1) := by
  rw [instances, List.map_map]
  calc (placed.zipIdx start).map (·.1.2.1)
      = ((placed.zipIdx start).map Prod.fst).map (·.2.1) := by rw [List.map_map]; rfl
    _ = placed.map (·.2.1) := by rw [List.zipIdx_map_fst]

theorem map_index_instances :
    (instances lookup start placed).map SectionInstance.index =
      List.range' start placed.length := by
  rw [instances, List.map_map, ← List.zipIdx_map_snd]
  rfl

@[simp] theorem length_instances : (instances lookup start placed).length = placed.length := by
  rw [← List.length_map SectionInstance.index, map_index_instances, List.length_range']

theorem of_mem_instances {s : SectionInstance} (h : s ∈ instances lookup start placed) :
    ∃ stub index, (s.region, s.id, stub) ∈ placed ∧
      s = resolve { region := s.region, id := s.id, stub, index } (lookup stub.type) := by
  obtain ⟨⟨⟨region, id, stub⟩, index⟩, hmem, rfl⟩ := List.mem_map.1 h
  exact ⟨stub, index, List.fst_mem_of_mem_zipIdx hmem, rfl⟩

end instances

end Placement

/-! ### The sections of a page -/

namespace Documents

variable (docs : Documents) (lookup : String → Option SectionSchema)

/-- The sections of a region, numbered from `start`. -/
def instances (region : Region) (start : Nat) : List SectionInstance :=
  Placement.instances lookup start (docs.placed region)

/-- The page of the documents, region by region. -/
def page : Page where
  layout := docs.template.layout.name
  sections :=
    let header := docs.instances lookup .header 0
    let template := docs.instances lookup .template header.length
    header ++ template ++ docs.instances lookup .footer (header.length + template.length)

variable {docs lookup} {region : Region} {start : Nat}

theorem region_of_mem_instances {s : SectionInstance}
    (h : s ∈ docs.instances lookup region start) : s.region = region := by
  obtain ⟨stub, index, hmem, -⟩ := Placement.of_mem_instances h
  exact (Placement.of_mem_ofDocument hmem).1

theorem sections_page : (docs.page lookup).sections =
    Placement.instances lookup 0
      (docs.placed .header ++ docs.placed .template ++ docs.placed .footer) := by
  rw [Placement.instances_append, Placement.instances_append]
  simp [page, instances]

/-- Composition numbers the sections of all three documents by one count. -/
theorem composeRequired_eq :
    Page.composeRequired lookup (some docs.template) docs.header docs.footer =
      .ok (docs.page lookup) := by
  have hsections : Id.run ((Placement.all docs.template docs.header docs.footer).mapM fun p =>
      (pure (p.resolve (lookup p.stub.type)) : Id SectionInstance)) =
        (docs.page lookup).sections := by
    rw [List.idRun_mapM, sections_page, Placement.all, Placement.ofGroup_header,
      Placement.ofGroup_footer, List.map_map]
    rfl
  have hpage : docs.page lookup =
      { layout := docs.template.layout.name, sections := (docs.page lookup).sections } := rfl
  rw [hpage, ← hsections]
  rfl

end Documents

namespace Page

/-- A section may be meant by an id, and by a region if one is given. -/
def Means (id : String) (region : Option Region) (s : SectionInstance) : Prop :=
  s.id = id ∧ ∀ r ∈ region, s.region = r

/-- A page that shows the sections of its documents. -/
structure Shows (page : Page) (docs : Documents) : Prop where
  /-- The regions follow on one another. -/
  regions : page.sections =
    page.inRegion .header ++ page.inRegion .template ++ page.inRegion .footer
  /-- A region has the sections that its document orders and defines. -/
  ids : ∀ region, (page.inRegion region).map SectionInstance.id =
    (docs.order region).filter fun id => (docs.sections region).contains id
  /-- One count runs through all regions. -/
  indexes : page.sections.map SectionInstance.index = List.range page.sections.length
  /-- A section is the one that its own document defines. -/
  stubs : ∀ s ∈ page.sections, ∃ stub, (docs.sections s.region).get? s.id = some stub ∧
    s.type = stub.type ∧ s.disabled = stub.disabled ∧ s.blockOrder = stub.blockOrder
  /-- The first section that an id means is found. -/
  found : ∀ id region s, page.get id region = .ok s ↔
    s ∈ page.sections ∧ Means id region s ∧
      ∀ t ∈ page.sections, Means id region t → s.index ≤ t.index
  /-- None is found of an id that no region considered both orders and defines. -/
  unknown : ∀ id region e, page.get id region = .error e ↔ e = .unknownSection id ∧
    ¬∃ r, (∀ r' ∈ region, r = r') ∧ id ∈ docs.order r ∧ (docs.sections r).contains id = true

theorem meant_iff {id : String} {region : Option Region} {s : SectionInstance} :
    (s.id = id && (region.isNone || region = some s.region)) = true ↔ Means id region s := by
  cases region with
  | none => simp [Means]
  | some r => simp [Means, eq_comm (a := r)]

end Page

/-- In an increasing list the first element of a property is the least one. -/
theorem find?_eq_some_iff_least {α : Type} {p : α → Bool} {f : α → Nat} {l : List α} {a : α}
    (hl : l.Pairwise (f · < f ·)) :
    l.find? p = some a ↔ a ∈ l ∧ p a = true ∧ ∀ b ∈ l, p b = true → f a ≤ f b := by
  induction l with
  | nil => simp
  | cons x l ih =>
    obtain ⟨hx, hl⟩ := List.pairwise_cons.1 hl
    cases hp : p x with
    | true =>
      rw [List.find?_cons_of_pos hp, Option.some_inj]
      constructor
      · rintro rfl
        refine ⟨List.mem_cons_self, hp, fun b hb _ => ?_⟩
        rcases List.mem_cons.1 hb with rfl | hb
        · exact Nat.le_refl _
        · exact Nat.le_of_lt (hx b hb)
      · rintro ⟨ha, -, hleast⟩
        rcases List.mem_cons.1 ha with rfl | ha
        · rfl
        · have hle := hleast x List.mem_cons_self hp
          have hlt := hx a ha
          omega
    | false =>
      rw [List.find?_cons_of_neg (by simp [hp]), ih hl]
      constructor
      · rintro ⟨ha, hpa, hleast⟩
        refine ⟨List.mem_cons_of_mem _ ha, hpa, fun b hb hpb => ?_⟩
        rcases List.mem_cons.1 hb with rfl | hb
        · simp [hp] at hpb
        · exact hleast b hb hpb
      · rintro ⟨ha, hpa, hleast⟩
        rcases List.mem_cons.1 ha with rfl | ha
        · simp [hp] at hpa
        · exact ⟨ha, hpa, fun b hb => hleast b (List.mem_cons_of_mem _ hb)⟩

namespace Documents

variable (docs : Documents) (lookup : String → Option SectionSchema)

theorem filter_instances (region other : Region) (start : Nat) :
    (docs.instances lookup region start).filter (·.region = other) =
      if region = other then docs.instances lookup region start else [] := by
  split
  · next h =>
    exact List.filter_eq_self.2 fun s hs => by simpa [region_of_mem_instances hs] using h
  · next h =>
    exact List.filter_eq_nil_iff.2 fun s hs => by simpa [region_of_mem_instances hs] using h

/-- A region of the page is what its document places. -/
theorem exists_inRegion_page (region : Region) :
    ∃ start, (docs.page lookup).inRegion region = docs.instances lookup region start := by
  cases region <;> exact ⟨_, by simp [Page.inRegion, page, filter_instances]; rfl⟩

theorem ids_inRegion_page (region : Region) :
    ((docs.page lookup).inRegion region).map SectionInstance.id =
      (docs.order region).filter fun id => (docs.sections region).contains id := by
  obtain ⟨start, hregion⟩ := exists_inRegion_page docs lookup region
  rw [hregion, instances, Placement.map_id_instances, placed, Placement.ids_ofDocument]

theorem map_index_page : (docs.page lookup).sections.map SectionInstance.index =
    List.range (docs.page lookup).sections.length := by
  rw [sections_page, Placement.map_index_instances, Placement.length_instances,
    List.range_eq_range']

theorem index_page_increasing :
    (docs.page lookup).sections.Pairwise (·.index < ·.index) := by
  have hrange : ((docs.page lookup).sections.map SectionInstance.index).Pairwise (· < ·) := by
    rw [map_index_page]
    exact List.pairwise_lt_range
  exact List.pairwise_map.1 hrange

/-- A section of the page comes from a stub of its own region's document. -/
theorem exists_stub_of_mem_page {docs : Documents} {lookup : String → Option SectionSchema}
    {s : SectionInstance} (h : s ∈ (docs.page lookup).sections) :
    ∃ stub index, (docs.sections s.region).get? s.id = some stub ∧
      s = Placement.resolve { region := s.region, id := s.id, stub, index }
        (lookup stub.type) := by
  have hmem : s ∈ (docs.page lookup).inRegion s.region := List.mem_filter.2 ⟨h, by simp⟩
  obtain ⟨start, hregion⟩ := exists_inRegion_page docs lookup s.region
  rw [hregion] at hmem
  obtain ⟨stub, index, hplaced, hs⟩ := Placement.of_mem_instances hmem
  exact ⟨stub, index, (Placement.of_mem_ofDocument hplaced).2, hs⟩

/-- An id means some section of the page if a region considered orders and defines it. -/
theorem exists_means_iff (id : String) (region : Option Region) :
    (∃ s ∈ (docs.page lookup).sections, Page.Means id region s) ↔
      ∃ r, (∀ r' ∈ region, r = r') ∧ id ∈ docs.order r ∧
        (docs.sections r).contains id = true := by
  have hids (r : Region) : id ∈ docs.order r ∧ (docs.sections r).contains id = true ↔
      ∃ s ∈ (docs.page lookup).inRegion r, s.id = id := by
    rw [← List.mem_filter, ← ids_inRegion_page docs lookup, List.mem_map]
  constructor
  · rintro ⟨s, hs, hid, hregion⟩
    exact ⟨s.region, hregion, (hids _).2 ⟨s, List.mem_filter.2 ⟨hs, by simp⟩, hid⟩⟩
  · rintro ⟨r, hregion, hr⟩
    obtain ⟨s, hs, hid⟩ := (hids r).1 hr
    obtain ⟨hs, hsr⟩ := List.mem_filter.1 hs
    refine ⟨s, hs, hid, fun r' hr' => ?_⟩
    rw [of_decide_eq_true hsr, hregion r' hr']

/-- Composition succeeds for all documents, with a page that shows them. -/
theorem exists_page_shows :
    ∃ page, Page.composeRequired lookup (some docs.template) docs.header docs.footer = .ok page ∧
      page.Shows docs := by
  refine ⟨docs.page lookup, composeRequired_eq, ?_⟩
  constructor
  case regions => simp [Page.inRegion, page, filter_instances]
  case ids => exact ids_inRegion_page docs lookup
  case indexes => exact map_index_page docs lookup
  case stubs =>
    intro s hs
    obtain ⟨stub, index, hstub, heq⟩ := exists_stub_of_mem_page hs
    exact ⟨stub, hstub, congrArg SectionInstance.type heq, congrArg SectionInstance.disabled heq,
      congrArg SectionInstance.blockOrder heq⟩
  case found =>
    intro id region s
    have hleast := find?_eq_some_iff_least (a := s)
      (p := fun s => s.id = id && (region.isNone || region = some s.region))
      (index_page_increasing docs lookup)
    simp only [Page.meant_iff] at hleast
    rw [← hleast, Page.get, Page.find?]
    split
    · next t ht => rw [ht, Except.ok.injEq, Option.some_inj]
    · next ht => simp [ht]
  case unknown =>
    intro id region e
    rw [← exists_means_iff docs lookup, Page.get]
    have hnone : (docs.page lookup).find? id region = none ↔
        ¬∃ s ∈ (docs.page lookup).sections, Page.Means id region s := by
      simp only [Page.find?, List.find?_eq_none, Page.meant_iff, not_exists, not_and]
    rw [← hnone]
    split
    · next t ht => simp [ht]
    · next ht => simp [ht, eq_comm]

end Documents

end Storefront
