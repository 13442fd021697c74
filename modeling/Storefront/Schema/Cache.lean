import Storefront.Schema.Extraction

/-!
A cache of section schemas by the identity of their source. An entry counts for the sources of the
digest that it was made with; a schema that could not be read leaves the entries as they are.
-/

namespace Storefront

structure SchemaCache.Entry where
  digest : String
  schema : Option SectionSchema

structure SchemaCache where
  entries : Dict SchemaCache.Entry
  hits : Nat
  misses : Nat

namespace SchemaCache

def empty : SchemaCache := { entries := [], hits := 0, misses := 0 }

def size (c : SchemaCache) : Nat := c.entries.length

def contains (c : SchemaCache) (identity : String) : Bool := Dict.contains c.entries identity

/-- The schema that an entry keeps for the sources of a digest. -/
def hit? (c : SchemaCache) (identity digest : String) : Option (Option SectionSchema) :=
  match Dict.get? c.entries identity with
  | some e => if e.digest = digest then some e.schema else none
  | none => none

/-- The schema of a source and the cache after the request, where sources are told apart by their
digests. -/
def getBy (digest : String → String) (c : SchemaCache) (identity source : String) :
    Outcome Schema.Error (Option SectionSchema) × SchemaCache :=
  match c.hit? identity (digest source) with
  | some schema => (pure schema, { c with hits := c.hits + 1 })
  | none =>
    let c := { c with misses := c.misses + 1 }
    let outcome := SectionSchema.extract identity source
    match outcome.result with
    | .ok schema =>
      (outcome, { c with entries := Dict.insert c.entries identity ⟨digest source, schema⟩ })
    | .error _ => (outcome, c)

/-- The schema of a source and the cache after the request, where each source is its own digest. -/
def get (c : SchemaCache) (identity source : String) :
    Outcome Schema.Error (Option SectionSchema) × SchemaCache :=
  c.getBy id identity source

end SchemaCache

end Storefront
