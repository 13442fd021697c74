import Mathlib.Data.List.Induction
import Storefront.Proofs.Schema.Recovery
import Storefront.Schema.Cache

/-!
A cache of schemas under any sequence of requests. For each identity it keeps what the last request
that did not fail has given, so that every answer is that of reading the source afresh, as long as
sources that share a digest are the same.
-/

namespace Storefront

/-- The name of a source matters for the warning alone. -/
theorem SectionSchema.result_extract (name other source : String) :
    (extract name source).result = (extract other source).result := by
  rw [extract, extract]
  cases load source with
  | ok schema => rfl
  | error e => cases e <;> rfl

namespace SchemaCache

/-- A request for the schema of a source under an identity. -/
structure Request where
  identity : String
  source : String

namespace Request

/-- What reading the source afresh gives. -/
def fresh (r : Request) : Except Schema.Error (Option SectionSchema) :=
  (SectionSchema.extract r.identity r.source).result

/-- The source has a schema or counts as having none; reading it does not fail. -/
def settles (r : Request) : Bool := r.fresh.toOption.isSome

/-- The entry that reading the source makes. -/
def stored? (digest : String → String) (r : Request) : Option (String × Entry) :=
  r.fresh.toOption.map fun schema => (r.identity, ⟨digest r.source, schema⟩)

theorem settles_of_fresh {r : Request} {schema : Option SectionSchema} (h : r.fresh = .ok schema) :
    r.settles = true := by
  rw [settles, h]
  rfl

theorem settles_of_error {r : Request} {e : Schema.Error} (h : r.fresh = .error e) :
    r.settles = false := by
  rw [settles, h]
  rfl

theorem stored?_of_fresh {r : Request} {schema : Option SectionSchema} (h : r.fresh = .ok schema)
    (digest : String → String) :
    r.stored? digest = some (r.identity, ⟨digest r.source, schema⟩) := by
  rw [stored?, h]
  rfl

theorem stored?_of_error {r : Request} {e : Schema.Error} (h : r.fresh = .error e)
    (digest : String → String) : r.stored? digest = none := by
  rw [stored?, h]
  rfl

end Request

/-- The last request under an identity that did not fail. -/
def lastSettled? (past : List Request) (identity : String) : Option Request :=
  past.reverse.find? fun r => r.settles && r.identity = identity

/-- The identities of the requests that did not fail, each once. -/
def settledIdentities (past : List Request) : List String :=
  ((past.filter Request.settles).map Request.identity).eraseDups

section requests

variable (digest : String → String)

def answer (c : SchemaCache) (r : Request) : Outcome Schema.Error (Option SectionSchema) :=
  (c.getBy digest r.identity r.source).1

/-- The cache after one more request. -/
def next (c : SchemaCache) (r : Request) : SchemaCache := (c.getBy digest r.identity r.source).2

/-- A new cache after requests, one after the other. -/
def after (past : List Request) : SchemaCache := past.foldl (next digest) empty

/-- What a request does to a cache that has served the requests of the past. -/
structure Serves (past : List Request) (r : Request) : Prop where
  result : ∀ name,
    ((after digest past).answer digest r).result = (SectionSchema.extract name r.source).result
  /-- A request is a hit just if the last one under its identity that did not fail had the same
  source, and else a miss. -/
  counts : (((after digest past).next digest r).hits, ((after digest past).next digest r).misses) =
    if (lastSettled? past r.identity).map Request.source = some r.source then
      ((after digest past).hits + 1, (after digest past).misses)
    else ((after digest past).hits, (after digest past).misses + 1)
  failure : ∀ e, ((after digest past).answer digest r).result = .error e →
    (after digest past).next digest r =
      { after digest past with misses := (after digest past).misses + 1 }

end requests

/-! ### What the cache keeps -/

variable {digest : String → String} {past : List Request} {c : SchemaCache}

/-- The entries are those of the past requests, of which the last one counts. -/
structure Keeps (digest : String → String) (past : List Request) (c : SchemaCache) : Prop where
  entries : c.entries = Dict.ofList (past.filterMap (Request.stored? digest))
  counted : c.hits + c.misses = past.length

theorem keeps_empty (digest : String → String) : Keeps digest [] empty := ⟨rfl, rfl⟩

/-- In a row of requests with the latest first, an identity has the entry of the first one that
settles. -/
theorem get?_filterMap_stored? (requests : List Request) (identity : String) :
    Dict.get? (requests.filterMap (Request.stored? digest)) identity =
      (requests.find? fun r => r.settles && r.identity = identity).bind fun r =>
        (r.stored? digest).map Prod.snd := by
  induction requests with
  | nil => rfl
  | cons r requests ih =>
    cases hfresh : r.fresh with
    | error e =>
      have hsettles := Request.settles_of_error hfresh
      rw [List.filterMap_cons_none (Request.stored?_of_error hfresh digest), ih,
        List.find?_cons_of_neg (by simp [hsettles])]
    | ok schema =>
      have hsettles := Request.settles_of_fresh hfresh
      rw [List.filterMap_cons_some (Request.stored?_of_fresh hfresh digest), Dict.get?]
      by_cases hid : r.identity = identity
      · rw [if_pos hid, List.find?_cons_of_pos (by simp [hsettles, hid]), Option.bind_some,
          Request.stored?_of_fresh hfresh]
        rfl
      · rw [if_neg hid, ih, List.find?_cons_of_neg (by simp [hid])]

theorem Keeps.get?_entries (h : Keeps digest past c) (identity : String) :
    Dict.get? c.entries identity =
      (lastSettled? past identity).bind fun r => (r.stored? digest).map Prod.snd := by
  rw [h.entries, Dict.get?_ofList, ← List.filterMap_reverse, get?_filterMap_stored?, lastSettled?]

theorem of_lastSettled? {identity : String} {r : Request}
    (h : lastSettled? past identity = some r) :
    r ∈ past ∧ r.identity = identity ∧ ∃ schema, r.fresh = .ok schema := by
  have hmem := List.mem_reverse.1 (List.mem_of_find?_eq_some h)
  have hr := List.find?_some h
  simp only [Bool.and_eq_true, decide_eq_true_eq] at hr
  obtain ⟨hsettles, hid⟩ := hr
  refine ⟨hmem, hid, ?_⟩
  cases hfresh : r.fresh with
  | ok schema => exact ⟨schema, rfl⟩
  | error e =>
    rw [Request.settles_of_error hfresh] at hsettles
    cases hsettles

/-- An entry is found just for the source that the last settled request has had. -/
theorem Keeps.hit?_cases (h : Keeps digest past c) {r : Request}
    (hinj : ∀ q ∈ past, digest q.source = digest r.source → q.source = r.source) :
    ((lastSettled? past r.identity).map Request.source = some r.source ∧
      ∃ schema, r.fresh = .ok schema ∧ c.hit? r.identity (digest r.source) = some schema) ∨
    (lastSettled? past r.identity).map Request.source ≠ some r.source ∧
      c.hit? r.identity (digest r.source) = none := by
  rw [hit?, h.get?_entries]
  cases hlast : lastSettled? past r.identity with
  | none => exact .inr ⟨by simp, rfl⟩
  | some q =>
    obtain ⟨hmem, hid, schema, hfresh⟩ := of_lastSettled? hlast
    simp only [Option.bind_some, Request.stored?_of_fresh hfresh, Option.map_some, ne_eq,
      Option.some.injEq]
    by_cases hsource : q.source = r.source
    · have hsame : r.fresh = .ok schema := by
        rw [← hfresh, Request.fresh, Request.fresh, hid, hsource]
      exact .inl ⟨hsource, schema, hsame, if_pos (congrArg digest hsource)⟩
    · have hdigest : digest q.source ≠ digest r.source := fun heq => hsource (hinj q hmem heq)
      exact .inr ⟨hsource, if_neg hdigest⟩

/-! ### One request -/

theorem hit?_eq_some_iff {identity d : String} {schema : Option SectionSchema} :
    c.hit? identity d = some schema ↔ Dict.get? c.entries identity = some ⟨d, schema⟩ := by
  rw [hit?]
  cases Dict.get? c.entries identity with
  | none => simp
  | some e =>
    obtain ⟨d', schema'⟩ := e
    by_cases hd : d' = d <;> simp [hd]

theorem getBy_of_hit {r : Request} {schema : Option SectionSchema}
    (h : c.hit? r.identity (digest r.source) = some schema) :
    c.getBy digest r.identity r.source = (pure schema, { c with hits := c.hits + 1 }) := by
  rw [getBy, h]

theorem getBy_of_miss {r : Request} (h : c.hit? r.identity (digest r.source) = none) :
    c.getBy digest r.identity r.source = (SectionSchema.extract r.identity r.source,
      { c with
        misses := c.misses + 1
        entries := match r.fresh with
          | .ok schema => Dict.insert c.entries r.identity ⟨digest r.source, schema⟩
          | .error _ => c.entries }) := by
  rw [getBy, h]
  cases hfresh : r.fresh with
  | ok schema =>
    rw [Request.fresh] at hfresh
    simp only [hfresh]
  | error e =>
    rw [Request.fresh] at hfresh
    simp only [hfresh]

/-- A request adds to what the cache keeps. -/
theorem Keeps.next (h : Keeps digest past c) {r : Request}
    (hinj : ∀ q ∈ past, digest q.source = digest r.source → q.source = r.source) :
    Keeps digest (past ++ [r]) (c.next digest r) := by
  have hcounted := h.counted
  have hlength : (past ++ [r]).length = past.length + 1 := List.length_append
  rcases h.hit?_cases hinj with ⟨-, schema, hfresh, hhit⟩ | ⟨-, hhit⟩
  · -- The entry that is found is the one that the source would make again.
    have hentries : c.entries =
        Dict.ofList ((past ++ [r]).filterMap (Request.stored? digest)) := by
      rw [List.filterMap_append, List.filterMap_cons_some (Request.stored?_of_fresh hfresh digest),
        List.filterMap_nil, Dict.ofList_concat, ← h.entries,
        Dict.insert_of_get? (hit?_eq_some_iff.1 hhit)]
    rw [SchemaCache.next, getBy_of_hit hhit]
    refine ⟨hentries, ?_⟩
    show c.hits + 1 + c.misses = _
    omega
  · rw [SchemaCache.next, getBy_of_miss hhit]
    refine ⟨?_, ?_⟩
    · cases hfresh : r.fresh with
      | ok schema =>
        rw [List.filterMap_append,
          List.filterMap_cons_some (Request.stored?_of_fresh hfresh digest),
          List.filterMap_nil, Dict.ofList_concat, ← h.entries]
      | error e =>
        rw [List.filterMap_append,
          List.filterMap_cons_none (Request.stored?_of_error hfresh digest),
          List.filterMap_nil, List.append_nil, ← h.entries]
    · show c.hits + (c.misses + 1) = _
      omega

/-! ### Any requests -/

theorem after_concat (digest : String → String) (past : List Request) (r : Request) :
    after digest (past ++ [r]) = (after digest past).next digest r := by
  rw [after, List.foldl_append]
  rfl

/-- What the cache keeps after any requests. -/
theorem keeps_after (hinj : ∀ q ∈ past, ∀ r ∈ past, digest q.source = digest r.source →
    q.source = r.source) : Keeps digest past (after digest past) := by
  induction past using List.reverseRecOn with
  | nil => exact keeps_empty digest
  | append_singleton past r ih =>
    have hr : r ∈ past ++ [r] := List.mem_append_right _ List.mem_cons_self
    have hpast : ∀ q ∈ past, q ∈ past ++ [r] := fun q hq => List.mem_append_left _ hq
    rw [after_concat]
    apply Keeps.next (ih fun q hq p hp => hinj q (hpast q hq) p (hpast p hp))
    intro q hq
    exact hinj q (hpast q hq) r hr

theorem keys_filterMap_stored? (requests : List Request) :
    Dict.keys (requests.filterMap (Request.stored? digest)) =
      (requests.filter Request.settles).map Request.identity := by
  induction requests with
  | nil => rfl
  | cons r requests ih =>
    cases hfresh : r.fresh with
    | ok schema =>
      have hsettles := Request.settles_of_fresh hfresh
      rw [List.filterMap_cons_some (Request.stored?_of_fresh hfresh digest),
        List.filter_cons_of_pos hsettles]
      exact congrArg (r.identity :: ·) ih
    | error e =>
      have hsettles := Request.settles_of_error hfresh
      rw [List.filterMap_cons_none (Request.stored?_of_error hfresh digest), ih,
        List.filter_cons_of_neg (by simp [hsettles])]

theorem Keeps.size_eq (h : Keeps digest past c) : c.size = (settledIdentities past).length := by
  have hsize : c.size = (Dict.keys c.entries).length := (List.length_map _).symm
  rw [hsize, h.entries, Dict.keys_ofList, keys_filterMap_stored?, settledIdentities]

/-- A cache that keeps the past serves the next request. -/
theorem Keeps.serves (h : Keeps digest past (after digest past)) {r : Request}
    (hinj : ∀ q ∈ past, digest q.source = digest r.source → q.source = r.source) :
    Serves digest past r := by
  rcases h.hit?_cases hinj with ⟨hlast, schema, hfresh, hhit⟩ | ⟨hlast, hhit⟩
  · have hget := getBy_of_hit hhit
    refine ⟨fun name => ?_, ?_, fun e he => ?_⟩
    · rw [answer, hget, SectionSchema.result_extract name r.identity]
      exact hfresh.symm
    · rw [SchemaCache.next, hget, if_pos hlast]
    · rw [answer, hget] at he
      cases he
  · have hget := getBy_of_miss hhit
    refine ⟨fun name => ?_, ?_, fun e he => ?_⟩
    · rw [answer, hget]
      exact SectionSchema.result_extract r.identity name r.source
    · rw [SchemaCache.next, hget, if_neg hlast]
    · rw [answer, hget] at he
      have hfresh : r.fresh = .error e := he
      rw [SchemaCache.next, hget, hfresh]

/-- As long as sources that share a digest are the same, each of any requests to a new cache is
served as reading its source afresh would serve it. All requests are hits or misses, and there is
one entry for each identity under which a request did not fail. -/
theorem serves_after {requests : List Request}
    (hinj : ∀ q ∈ requests, ∀ r ∈ requests, digest q.source = digest r.source →
      q.source = r.source) :
    (∀ past r, past ++ [r] <+: requests → Serves digest past r) ∧
      (after digest requests).hits + (after digest requests).misses = requests.length ∧
      (after digest requests).size = (settledIdentities requests).length := by
  have hkeeps := keeps_after hinj
  refine ⟨fun past r hpast => ?_, hkeeps.counted, hkeeps.size_eq⟩
  have hr : r ∈ requests := hpast.subset (List.mem_append_right _ List.mem_cons_self)
  have hsub : past ⊆ requests := fun q hq => hpast.subset (List.mem_append_left _ hq)
  apply (keeps_after fun q hq p hp => hinj q (hsub hq) p (hsub hp)).serves
  intro q hq
  exact hinj q (hsub hq) r hr

/-- A request fails between two for one source, and its digest is the beginning of its source. The
request after it is a hit, and there is one entry. -/
theorem serves_after_failure :
    let digest := fun source : String => String.ofList (source.toList.take 5)
    let plain : Request := ⟨"hero", "<div>"⟩
    let oversized : Request := ⟨"hero", .ofList ("\x7b% schema %\x7d\x7b\"limit\":".toList ++
      List.replicate 309 '9' ++ "\x7d\x7b% endschema %\x7d".toList)⟩
    Serves digest [plain, oversized] plain ∧ oversized.settles = false ∧
      (lastSettled? [plain, oversized] "hero").map Request.source = some "<div>" ∧
      (after digest [plain, oversized, plain]).size = 1 := by
  intro digest plain oversized
  have hfails : oversized.settles = false := by
    have haborts : (SectionSchema.abortingInteger? oversized.source).isSome = true := by
      rw [SectionSchema.abortingInteger?, String.toList_ofList]
      decide +kernel
    rcases SectionSchema.load_cases oversized.source with ⟨-, hload⟩ | ⟨hnone, -⟩
    · rw [Request.settles, Request.fresh, SectionSchema.extract, hload]
      rfl
    · rw [haborts] at hnone
      cases hnone
  have hsettles : plain.settles = true := by decide +kernel
  have hdigest : digest oversized.source ≠ digest plain.source := by
    intro heq
    have hstart := String.ofList_injective heq
    rw [String.toList_ofList] at hstart
    exact absurd hstart (by decide)
  have hinj : ∀ q ∈ [plain, oversized, plain], ∀ r ∈ [plain, oversized, plain],
      digest q.source = digest r.source → q.source = r.source := by
    have hcases : ∀ q ∈ [plain, oversized, plain], q = plain ∨ q = oversized := by simp
    intro q hq r hr heq
    rcases hcases q hq with rfl | rfl
    · rcases hcases r hr with rfl | rfl
      · rfl
      · exact absurd heq.symm hdigest
    · rcases hcases r hr with rfl | rfl
      · exact absurd heq hdigest
      · rfl
  obtain ⟨hserves, -, hsize⟩ := serves_after hinj
  refine ⟨hserves _ _ (List.prefix_refl _), hfails, ?_, ?_⟩
  · simp [lastSettled?, hfails, hsettles, plain]
  · rw [hsize]
    simp only [settledIdentities, List.filter_cons, hsettles, hfails, if_true,
      Bool.false_eq_true, if_false, List.filter_nil]
    decide

end SchemaCache

end Storefront
