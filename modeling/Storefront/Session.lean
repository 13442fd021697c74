import Storefront.Error
import Storefront.Schema.Cache

/-!
Sessions: work in steps that share a cache of schemas and keep it also when they fail.
-/

namespace Storefront

/-- Work that starts from a cache and leaves one, whether it gives a result or fails. -/
def Session (α : Type) : Type := SchemaCache → Outcome Error α × SchemaCache

namespace Session

variable {α β γ : Type}

def pure (a : α) : Session α := fun cache => (Outcome.pure a, cache)

def bind (x : Session α) (f : α → Session β) : Session β := fun cache =>
  match x cache with
  | (⟨.error e, warnings⟩, cache) => (⟨.error e, warnings⟩, cache)
  | (⟨.ok a, warnings⟩, cache) =>
    let (y, cache) := f a cache
    (⟨y.result, warnings ++ y.warnings⟩, cache)

instance : Monad Session where
  pure := Session.pure
  bind := Session.bind

theorem pure_bind (a : α) (f : α → Session β) : (Session.pure a).bind f = f a := by
  funext cache
  simp only [Session.bind, Session.pure, Outcome.pure, List.nil_append]

theorem bind_pure (x : Session α) : x.bind Session.pure = x := by
  funext cache
  simp only [Session.bind]
  obtain ⟨⟨result, warnings⟩, cache⟩ := x cache
  cases result with
  | error e => rfl
  | ok a => simp only [Session.pure, Outcome.pure, List.append_nil]

theorem bind_assoc (x : Session α) (f : α → Session β) (g : β → Session γ) :
    (x.bind f).bind g = x.bind fun a => (f a).bind g := by
  funext cache
  simp only [Session.bind]
  obtain ⟨⟨result, warnings⟩, cache⟩ := x cache
  cases result with
  | error e => rfl
  | ok a =>
    simp only
    obtain ⟨⟨result, warnings'⟩, cache⟩ := f a cache
    cases result with
    | error e => rfl
    | ok b => simp only [List.append_assoc]

instance : LawfulMonad Session := LawfulMonad.mk' Session bind_pure pure_bind bind_assoc

theorem bind_eq_ok {x : Session α} {f : α → Session β} {cache : SchemaCache} {b : β} :
    ((x >>= f) cache).1.result = .ok b ↔
      ∃ a, (x cache).1.result = .ok a ∧ (f a (x cache).2).1.result = .ok b := by
  show (x.bind f cache).1.result = .ok b ↔ _
  simp only [Session.bind]
  obtain ⟨⟨result, warnings⟩, cache⟩ := x cache
  cases result with
  | error e => simp
  | ok a => simp

/-- Work that has nothing to do with the cache. -/
def lift (x : Outcome Error α) : Session α := fun cache => (x, cache)

end Session

end Storefront
