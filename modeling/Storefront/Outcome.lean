import Storefront.Warning

/-!
Results that come with warnings: those given before a failure are kept.
-/

namespace Storefront

theorem except_bind_eq_ok {ε α β : Type} {x : Except ε α} {f : α → Except ε β} {b : β} :
    x >>= f = .ok b ↔ ∃ a, x = .ok a ∧ f a = .ok b := by
  cases x with
  | error e => simp [bind, Except.bind]
  | ok a => simp [bind, Except.bind]

theorem except_mapError_eq_ok {ε δ α : Type} {x : Except ε α} {f : ε → δ} {a : α} :
    x.mapError f = .ok a ↔ x = .ok a := by
  cases x with
  | error e => exact ⟨nofun, nofun⟩
  | ok b =>
    constructor
    · intro h
      cases h
      rfl
    · intro h
      cases h
      rfl

theorem except_map_eq_ok {ε α β : Type} {x : Except ε α} {f : α → β} {b : β} :
    x.map f = .ok b ↔ ∃ a, x = .ok a ∧ f a = b := by
  cases x with
  | error e => simp [Except.map]
  | ok a => simp [Except.map]

theorem except_eq_ok_of_toOption {ε α : Type} {x : Except ε α} {a : α}
    (h : x.toOption = some a) : x = .ok a := by
  cases x with
  | error e => cases h
  | ok b => exact congrArg _ (Option.some.inj h)

/-- Work that is done for each element of a list has results if it has one for each element. -/
theorem except_mapM_eq_ok_iff {ε α β : Type} {f : α → Except ε β} {as : List α} {bs : List β} :
    as.mapM f = .ok bs ↔ as.map f = bs.map .ok := by
  induction as generalizing bs with
  | nil =>
    rw [List.mapM_nil, List.map_nil, eq_comm, eq_comm (a := []), List.map_eq_nil_iff]
    exact ⟨fun h => Except.ok.inj h, fun h => congrArg Except.ok h⟩
  | cons a as ih =>
    rw [List.mapM_cons, except_bind_eq_ok, List.map_cons]
    constructor
    · rintro ⟨b, hb, h⟩
      obtain ⟨rest, hrest, h⟩ := except_bind_eq_ok.1 h
      cases h
      rw [hb, ih.1 hrest, List.map_cons]
    · intro h
      obtain ⟨b, rest, rfl, hb, hrest⟩ := List.map_eq_cons_iff.1 h.symm
      exact ⟨b, hb.symm, except_bind_eq_ok.2 ⟨rest, ih.2 hrest.symm, rfl⟩⟩

/-- A result, or the error in its place, with the warnings given on the way. -/
structure Outcome (ε α : Type) where
  result : Except ε α
  warnings : List Warning := []

namespace Outcome

variable {ε α β γ : Type}

def pure (a : α) : Outcome ε α := { result := .ok a }

def bind (x : Outcome ε α) (f : α → Outcome ε β) : Outcome ε β :=
  match x.result with
  | .error e => { result := .error e, warnings := x.warnings }
  | .ok a =>
    let y := f a
    { result := y.result, warnings := x.warnings ++ y.warnings }

instance : Monad (Outcome ε) where
  pure := Outcome.pure
  bind := Outcome.bind

theorem pure_bind (a : α) (f : α → Outcome ε β) : (Outcome.pure a).bind f = f a := rfl

theorem bind_pure (x : Outcome ε α) : x.bind Outcome.pure = x := by
  obtain ⟨result, warnings⟩ := x
  cases result with
  | error e => rfl
  | ok a => simp only [Outcome.bind, Outcome.pure, List.append_nil]

theorem bind_assoc (x : Outcome ε α) (f : α → Outcome ε β) (g : β → Outcome ε γ) :
    (x.bind f).bind g = x.bind fun a => (f a).bind g := by
  obtain ⟨result, warnings⟩ := x
  cases result with
  | error e => rfl
  | ok a =>
    simp only [Outcome.bind]
    cases (f a).result with
    | error e => rfl
    | ok b => simp only [List.append_assoc]

instance : LawfulMonad (Outcome ε) :=
  LawfulMonad.mk' (Outcome ε) bind_pure pure_bind bind_assoc

theorem pure_inj {a b : α} : (Pure.pure a : Outcome ε α) = Pure.pure b ↔ a = b :=
  ⟨fun h => Except.ok.inj (congrArg result h), congrArg _⟩

theorem bind_eq_ok {x : Outcome ε α} {f : α → Outcome ε β} {b : β} :
    (x >>= f).result = .ok b ↔ ∃ a, x.result = .ok a ∧ (f a).result = .ok b := by
  show (x.bind f).result = .ok b ↔ _
  obtain ⟨result, warnings⟩ := x
  cases result with
  | error e => simp [Outcome.bind]
  | ok a => simp [Outcome.bind]

theorem result_bind (x : Outcome ε α) (f : α → Outcome ε β) :
    (x >>= f).result = x.result >>= fun a => (f a).result := by
  show (x.bind f).result = _
  obtain ⟨result, warnings⟩ := x
  cases result with
  | error e => rfl
  | ok a => rfl

theorem result_bind_of_error {x : Outcome ε α} {e : ε} (h : x.result = .error e)
    (f : α → Outcome ε β) : (x >>= f).result = .error e := by
  show (x.bind f).result = .error e
  simp only [Outcome.bind, h]

theorem result_bind_of_ok {x : Outcome ε α} {a : α} (h : x.result = .ok a)
    (f : α → Outcome ε β) : (x >>= f).result = (f a).result := by
  show (x.bind f).result = (f a).result
  simp only [Outcome.bind, h]

theorem result_map (f : α → β) (x : Outcome ε α) : (f <$> x).result = x.result.map f := by
  rw [← bind_pure_comp]
  show (x.bind fun a => pure (f a)).result = _
  obtain ⟨result, warnings⟩ := x
  cases result with
  | error e => rfl
  | ok a => rfl

theorem warnings_map (f : α → β) (x : Outcome ε α) : (f <$> x).warnings = x.warnings := by
  rw [← bind_pure_comp]
  show (x.bind fun a => pure (f a)).warnings = _
  obtain ⟨result, warnings⟩ := x
  cases result with
  | error e => rfl
  | ok a => exact List.append_nil _

theorem result_mapM (f : α → Outcome ε β) (xs : List α) :
    (xs.mapM f).result = xs.mapM fun x => (f x).result := by
  induction xs with
  | nil => rfl
  | cons x xs ih =>
    rw [List.mapM_cons, List.mapM_cons, result_bind]
    refine bind_congr fun y => ?_
    rw [result_bind, ih]
    rfl

theorem result_mapM_eq_ok_iff {f : α → Outcome ε β} {xs : List α} {ys : List β} :
    (xs.mapM f).result = .ok ys ↔ xs.map (fun x => (f x).result) = ys.map .ok := by
  rw [result_mapM, except_mapM_eq_ok_iff]

theorem exists_mem_mapM {f : α → Outcome ε β} {xs : List α} {ys : List β}
    (h : (xs.mapM f).result = .ok ys) {x : α} (hx : x ∈ xs) :
    ∃ y ∈ ys, (f x).result = .ok y := by
  have hmem := List.mem_map_of_mem (f := fun x => (f x).result) hx
  rw [result_mapM_eq_ok_iff.1 h] at hmem
  obtain ⟨y, hy, heq⟩ := List.mem_map.1 hmem
  exact ⟨y, hy, heq.symm⟩

theorem exists_of_mem_mapM {f : α → Outcome ε β} {xs : List α} {ys : List β}
    (h : (xs.mapM f).result = .ok ys) {y : β} (hy : y ∈ ys) :
    ∃ x ∈ xs, (f x).result = .ok y := by
  have hmem := List.mem_map_of_mem (f := Except.ok (ε := ε)) hy
  rwa [← result_mapM_eq_ok_iff.1 h, List.mem_map] at hmem

/-- What comes next is the same if it is the same after the result that there is. -/
theorem bind_congr_of_ok {x : Outcome ε α} {f g : α → Outcome ε β}
    (h : ∀ a, x.result = .ok a → f a = g a) : x >>= f = x >>= g := by
  show x.bind f = x.bind g
  obtain ⟨result, warnings⟩ := x
  cases result with
  | error e => rfl
  | ok a => simp only [Outcome.bind, h a rfl]

/-- The result depends on no warning. -/
theorem result_bind_congr {x y : Outcome ε α} {f g : α → Outcome ε β} (h : x.result = y.result)
    (hfg : ∀ a, x.result = .ok a → (f a).result = (g a).result) :
    (x >>= f).result = (y >>= g).result := by
  show (x.bind f).result = (y.bind g).result
  obtain ⟨result, warnings⟩ := x
  cases h
  cases hy : y.result with
  | error e => simp only [Outcome.bind, hy]
  | ok a => simpa only [Outcome.bind, hy] using hfg a hy

def fail (e : ε) : Outcome ε α := { result := .error e }

def warn (w : Warning) : Outcome ε Unit := { result := .ok (), warnings := [w] }

def ofExcept (result : Except ε α) : Outcome ε α := { result }

theorem ofExcept_bind (r : Except ε α) (f : α → Except ε β) :
    ofExcept (r >>= f) = ofExcept r >>= fun a => ofExcept (f a) := by
  cases r with
  | error e => rfl
  | ok a => rfl

def mapError {δ : Type} (f : ε → δ) (x : Outcome ε α) : Outcome δ α :=
  { result := x.result.mapError f, warnings := x.warnings }

end Outcome

end Storefront
