import Storefront.Proofs.Schema.Demand
import Storefront.Schema.Extraction

/-!
Recovery from what is wrong with the schema of a section file: a malformed schema counts as none,
and only an integer beyond all floating-point numbers can end the reading.
-/

namespace Storefront.SectionSchema

open Schema

/-- The integer that ends the reading of a section file. It is beyond all floating-point numbers
where a finite number is demanded, and every place that is read before it is as demanded. -/
def abortingInteger? (source : String) : Option Int := do
  let body ← findBody? source.toList
  let payload ← (Json.decodeCommented (Text.trim body)).toOption
  let unmet ← firstUnmet? (demands payload)
  unmet.oversized?

/-- Loading fails beyond recovery just at an aborting integer. -/
theorem load_cases (source : String) :
    ((abortingInteger? source).isSome = true ∧ load source = .error .integerTooLarge) ∨
      (abortingInteger? source).isSome = false ∧
        ((∃ schema, load source = .ok schema) ∨
          ∃ fault, load source = .error (.malformed fault)) := by
  rw [abortingInteger?, load]
  cases findBody? source.toList with
  | none => exact .inr ⟨rfl, .inl ⟨none, rfl⟩⟩
  | some body =>
    simp only [Option.bind_eq_bind, Option.bind_some]
    rw [ofBody]
    cases Json.decodeCommented (Text.trim body) with
    | error e => exact .inr ⟨rfl, .inr ⟨.invalidJson e, rfl⟩⟩
    | ok payload =>
      simp only [Except.toOption, Option.bind_some]
      rcases (follows_ofValue payload).aborts_or with ⟨hunmet, hread⟩ | ⟨hunmet, hread⟩
      · refine .inl ⟨hunmet, ?_⟩
        rw [hread]
        rfl
      · refine .inr ⟨hunmet, ?_⟩
        rcases hread with ⟨schema, hread⟩ | ⟨fault, hread⟩
        · exact .inl ⟨some schema, by rw [hread]; rfl⟩
        · exact .inr ⟨fault, by rw [hread]; rfl⟩

/-- Extraction gives the schema that is loaded, or none where loading fails, unless an integer ends
the reading. -/
theorem extract_result (name source : String) :
    (extract name source).result =
      if (abortingInteger? source).isSome then .error .integerTooLarge
      else .ok (load source).toOption.join := by
  rw [extract]
  rcases load_cases source with ⟨haborts, hload⟩ | ⟨haborts, hload⟩
  · rw [haborts, hload]
    rfl
  · rw [haborts]
    rcases hload with ⟨schema, hload⟩ | ⟨fault, hload⟩
    · rw [hload]
      rfl
    · rw [hload]
      rfl

/-- A limit of 309 nines is no reason to ignore the schema: it ends the reading. -/
theorem extract_limit_aborts :
    ¬∀ name source, ∃ schema, (extract name source).result = .ok schema := by
  intro h
  obtain ⟨schema, hschema⟩ := h "" (.ofList ("\x7b% schema %\x7d\x7b\"limit\":".toList ++
    List.replicate 309 '9' ++ "\x7d\x7b% endschema %\x7d".toList))
  have haborts : (abortingInteger? (.ofList ("\x7b% schema %\x7d\x7b\"limit\":".toList ++
      List.replicate 309 '9' ++ "\x7d\x7b% endschema %\x7d".toList))).isSome = true := by
    rw [abortingInteger?, String.toList_ofList]
    decide +kernel
  rw [extract_result, if_pos haborts] at hschema
  cases hschema

end Storefront.SectionSchema
