import Storefront.Proofs.Schema.Cache
import Storefront.Theme

/-!
What sessions make of the cache that they share. What holds of a cache before the work and is kept
by every step of it holds afterwards too, whether the work fails or not.
-/

namespace Storefront

namespace SchemaCache

/-- The cache has done nothing but answer requests since it was new. -/
def Served (c : SchemaCache) : Prop := ∃ past, c = after id past

theorem served_empty : Served empty := ⟨[], rfl⟩

/-- Of the sources those that share a digest are the same. -/
def Separates (digest : String → String) (sources : List String) : Prop :=
  ∀ s ∈ sources, ∀ s' ∈ sources, digest s = digest s' → s = s'

/-- The cache has done nothing but answer requests for these sources since it was new. -/
def ServedOf (digest : String → String) (sources : List String) (c : SchemaCache) : Prop :=
  ∃ past : List Request, (∀ r ∈ past, r.source ∈ sources) ∧ c = after digest past

theorem servedOf_empty (digest : String → String) (sources : List String) :
    ServedOf digest sources empty :=
  ⟨[], List.forall_mem_nil _, rfl⟩

/-- A cache that has served requests answers one more as reading its source afresh does, and has
then served it too. -/
theorem ServedOf.getBy {digest : String → String} {sources : List String} {c : SchemaCache}
    (h : c.ServedOf digest sources) (hdigest : Separates digest sources) {source : String}
    (hsource : source ∈ sources) (identity : String) :
    (c.getBy digest identity source).2.ServedOf digest sources ∧
      ∀ name, (c.getBy digest identity source).1.result =
        (SectionSchema.extract name source).result := by
  obtain ⟨past, hpast, rfl⟩ := h
  let r : Request := ⟨identity, source⟩
  have hkeeps : Keeps digest past (after digest past) :=
    keeps_after fun q hq p hp => hdigest _ (hpast q hq) _ (hpast p hp)
  have hserves : Serves digest past r :=
    hkeeps.serves fun q hq => hdigest _ (hpast q hq) _ hsource
  refine ⟨⟨past ++ [r], ?_, (after_concat digest past r).symm⟩, hserves.result⟩
  exact List.forall_mem_append.2 ⟨hpast, List.forall_mem_singleton.2 hsource⟩

theorem Served.get {c : SchemaCache} (h : c.Served) (identity source : String) :
    (c.get identity source).2.Served ∧
      ∀ name, (c.get identity source).1.result = (SectionSchema.extract name source).result := by
  obtain ⟨past, rfl⟩ := h
  have hserved : ServedOf id (source :: past.map Request.source) (after id past) :=
    ⟨past, fun r hr => List.mem_cons_of_mem _ (List.mem_map_of_mem hr), rfl⟩
  obtain ⟨⟨more, -, hmore⟩, hresult⟩ :=
    hserved.getBy (fun s _ s' _ heq => heq) List.mem_cons_self identity
  exact ⟨⟨more, hmore⟩, hresult⟩

end SchemaCache

namespace Session

variable {α β : Type} {I : SchemaCache → Prop}

theorem result_lift_bind {x : Outcome Error α} {a : α} (h : x.result = .ok a)
    (f : α → Session β) (c : SchemaCache) :
    ((lift x >>= f) c).1.result = (f a c).1.result := by
  show ((lift x).bind f c).1.result = _
  obtain ⟨result, warnings⟩ := x
  cases h
  rfl

/-- From a cache with the invariant the work comes to a cache with the invariant, and to a result
with the property unless it fails. -/
def Ensures (I : SchemaCache → Prop) (x : Session α) (P : α → Prop) : Prop :=
  ∀ c, I c → I (x c).2 ∧ ∀ a, (x c).1.result = .ok a → P a

namespace Ensures

variable {x : Session α} {P : α → Prop} {Q : β → Prop}

theorem pure {a : α} (h : P a) : Ensures I (Pure.pure a) P := by
  intro c hc
  refine ⟨hc, fun b hb => ?_⟩
  cases hb
  exact h

theorem lift {x : Outcome Error α} (h : ∀ a, x.result = .ok a → P a) :
    Ensures I (Session.lift x) P :=
  fun _ hc => ⟨hc, h⟩

theorem bind {f : α → Session β} (hx : Ensures I x P) (hf : ∀ a, P a → Ensures I (f a) Q) :
    Ensures I (x >>= f) Q := by
  intro c hc
  obtain ⟨hnext, hresult⟩ := hx c hc
  show I (x.bind f c).2 ∧ ∀ b, (x.bind f c).1.result = .ok b → Q b
  rw [Session.bind]
  rcases hstep : x c with ⟨⟨result, warnings⟩, next⟩
  rw [hstep] at hnext hresult
  cases result with
  | error e => exact ⟨hnext, fun b hb => by cases hb⟩
  | ok a => exact hf a (hresult a rfl) next hnext

/-- Work that is done for each element of a list gives results that all have the property. -/
theorem mapM {f : α → Session β} {xs : List α} (h : ∀ a ∈ xs, Ensures I (f a) Q) :
    Ensures I (xs.mapM f) fun bs => ∀ b ∈ bs, Q b := by
  induction xs with
  | nil => exact pure (List.forall_mem_nil Q)
  | cons a xs ih =>
    obtain ⟨ha, hxs⟩ := List.forall_mem_cons.1 h
    rw [List.mapM_cons]
    refine bind ha fun b hb => ?_
    refine bind (ih hxs) fun bs hbs => ?_
    exact pure (List.forall_mem_cons.2 ⟨hb, hbs⟩)

end Ensures

/-- From a cache with the invariant the work comes to a cache with the invariant and to the result
of `y`, whichever that cache is. -/
def Gives (I : SchemaCache → Prop) (x : Session α) (y : Outcome Error α) : Prop :=
  ∀ c, I c → I (x c).2 ∧ (x c).1.result = y.result

namespace Gives

variable {x : Session α} {y : Outcome Error α}

theorem congr {y' : Outcome Error α} (h : Gives I x y) (hy : y.result = y'.result) :
    Gives I x y' :=
  fun c hc => hy ▸ h c hc

theorem pure (a : α) : Gives I (Pure.pure a) (Pure.pure a) := fun _ hc => ⟨hc, rfl⟩

theorem lift (y : Outcome Error α) : Gives I (Session.lift y) y := fun _ hc => ⟨hc, rfl⟩

theorem bind {f : α → Session β} {g : α → Outcome Error β} (hx : Gives I x y)
    (hf : ∀ a, y.result = .ok a → Gives I (f a) (g a)) : Gives I (x >>= f) (y >>= g) := by
  intro c hc
  obtain ⟨hnext, hresult⟩ := hx c hc
  show I (x.bind f c).2 ∧ (x.bind f c).1.result = (y.bind g).result
  rw [Session.bind, Outcome.bind, ← hresult]
  rcases hstep : x c with ⟨⟨result, warnings⟩, next⟩
  rw [hstep] at hnext hresult
  cases result with
  | error e => exact ⟨hnext, rfl⟩
  | ok a => exact hf a hresult.symm next hnext

end Gives

end Session

/-- The schema that the cache gives for a source is the one that the source has. -/
theorem Theme.ensures_cachedSchema (identity source : String) :
    (cachedSchema identity source).Ensures SchemaCache.Served fun schema =>
      ∀ name, (SectionSchema.extract name source).result = .ok schema := by
  intro c hc
  obtain ⟨hserved, hresult⟩ := hc.get identity source
  refine ⟨hserved, fun schema hschema name => ?_⟩
  have hget : (c.get identity source).1.result.mapError Error.schema = .ok schema := hschema
  rw [hresult name] at hget
  exact except_mapError_eq_ok.1 hget

end Storefront
