import Storefront.Proofs.Asset.Leftover
import Storefront.Proofs.Condition.Stepwise

/-!
Processing step by step, where each step that is partial can fail in a way of its own: conditions
are evaluated as in `Condition.Stepwise`, an integer is taken of finite numbers only, the channels
of a colour are read without a default, and the branches of a conditional and the values held back
are read by their places. This processing gives what `process` gives, so only the URLs can fail.
-/

namespace Storefront

namespace Outcome

variable {ε δ α β : Type}

theorem mapError_bind (x : Outcome ε α) (f : α → Outcome ε β) (g : ε → δ) :
    (x >>= f).mapError g = x.mapError g >>= fun a => (f a).mapError g := by
  show (x.bind f).mapError g = (x.mapError g).bind fun a => (f a).mapError g
  obtain ⟨result, warnings⟩ := x
  cases result with
  | error e => rfl
  | ok a => rfl

theorem mapError_pure (a : α) (g : ε → δ) :
    (Pure.pure a : Outcome ε α).mapError g = Pure.pure a := rfl

theorem ofExcept_ok (a : α) : (ofExcept (.ok a) : Outcome ε α) = Pure.pure a := rfl

end Outcome

namespace Asset.Stepwise

/-- What ends the processing of an asset. -/
inductive Trap where
  | url (e : UrlError)
  /-- A condition ends in another way than by not being one. -/
  | condition (trap : Condition.Stepwise.Trap)
  /-- A number that is not finite has no integer. -/
  | notFinite
  | missingKey (name : String)
  /-- A list has nothing at a place. -/
  | outOfRange (place : Nat)
  | noNumeral (text : List Char)
  deriving DecidableEq, Repr

def itemAt {α : Type} (items : List α) (place : Nat) : Except Trap α :=
  match items[place]? with
  | some item => .ok item
  | none => .error (.outOfRange place)

theorem itemAt_of_some {α : Type} {items : List α} {place : Nat} {item : α}
    (h : items[place]? = some item) : itemAt items place = .ok item := by
  rw [itemAt, h]

/-! ### Values as text -/

def integerOf : Binary64 → Except Trap Int
  | .finite negative m e => .ok (Binary64.finite negative m e).truncate
  | _ => .error .notFinite

def numberText : Number → Except Trap String
  | .int n => .ok (toString n)
  | .float x => if x.isIntegral then (integerOf x).map toString else .ok x.text

def plainText : Value → Except Trap String
  | .number n => numberText n
  | v => .ok v.text

def valueAt (fields : Dict Value) (key : String) : Except Trap Value :=
  match fields.get? key with
  | some v => .ok v
  | none => .error (.missingKey key)

/-- All channels of a colour are numbers. -/
def isColor (fields : Dict Value) : Bool :=
  ["red", "green", "blue"].all fun name => (channel? fields name).isSome

def renderColor (fields : Dict Value) : Except Trap String := do
  let red ← valueAt fields "red" >>= plainText
  let green ← valueAt fields "green" >>= plainText
  let blue ← valueAt fields "blue" >>= plainText
  let channels := s!"{red}, {green}, {blue}"
  match Value.field fields "alpha" with
  | .null => return s!"rgb({channels})"
  | alpha =>
    if alpha.equals (.int 1) then return s!"rgb({channels})"
    else do
      let opacity ← plainText alpha
      return s!"rgba({channels}, {opacity})"

mutual

def render : Value → Except Trap String
  | .null => .ok ""
  | .bool b => .ok (if b then "true" else "false")
  | .number n => numberText n
  | .str s => .ok s
  | .list items => return ",".intercalate (← renderItems items)
  | .map fields => if isColor fields then renderColor fields else .ok ""

def renderItems : List Value → Except Trap (List String)
  | [] => .ok []
  | v :: vs => do
    let s ← render v
    return s :: (← renderItems vs)

end

/-- What is integral is finite. -/
theorem numberText_eq (n : Number) : numberText n = .ok n.plainText := by
  cases n with
  | int n => rfl
  | float x =>
    rw [numberText, Number.plainText]
    cases x with
    | nan => rfl
    | infinite negative => rfl
    | finite negative m e =>
      split <;> rfl

theorem plainText_eq (v : Value) : plainText v = .ok v.plainText := by
  cases v with
  | number n => exact numberText_eq n
  | _ => rfl

theorem channelText {fields : Dict Value} {name : String} {n : Number}
    (h : channel? fields name = some n) :
    valueAt fields name >>= plainText = .ok n.plainText := by
  have hvalue : valueAt fields name = .ok (.number n) := by
    rw [channel?, Value.field] at h
    rw [valueAt]
    cases hget : fields.get? name with
    | none =>
      rw [hget] at h
      cases h
    | some v =>
      rw [hget] at h
      cases v <;> cases h
      rfl
  rw [hvalue]
  exact numberText_eq n

theorem isColor_iff {fields : Dict Value} : isColor fields = true ↔
    ∃ red green blue, channel? fields "red" = some red ∧ channel? fields "green" = some green ∧
      channel? fields "blue" = some blue := by
  simp [isColor, Option.isSome_iff_exists]

/-- A colour has all of the channels that it is written with. -/
theorem renderColor_eq {fields : Dict Value} (h : isColor fields = true) :
    renderColor fields = .ok ((renderColor? fields).getD "") := by
  obtain ⟨red, green, blue, hred, hgreen, hblue⟩ := isColor_iff.1 h
  rw [renderColor, channelText hred, channelText hgreen, channelText hblue, renderColor?, hred,
    hgreen, hblue]
  cases Value.field fields "alpha" with
  | null => rfl
  | _ =>
    simp only [bind, Except.bind, Option.bind, plainText_eq]
    split <;> rfl

mutual

theorem render_eq (v : Value) : render v = .ok v.render := by
  cases v with
  | number n => exact numberText_eq n
  | list items =>
    rw [render, renderItems_eq items, Value.render]
    rfl
  | map fields =>
    rw [render, Value.render]
    split
    · next h => exact renderColor_eq h
    · next h =>
      cases hcolor : renderColor? fields with
      | none => rfl
      | some s =>
        simp only [renderColor?, bind, Option.bind_eq_some_iff] at hcolor
        obtain ⟨red, hred, green, hgreen, blue, hblue, -⟩ := hcolor
        exact absurd (isColor_iff.2 ⟨red, green, blue, hred, hgreen, hblue⟩) h
  | _ =>
    rw [render, Value.render]

theorem renderItems_eq (vs : List Value) : renderItems vs = .ok (Value.renderItems vs) := by
  cases vs with
  | nil => rw [renderItems, Value.renderItems]
  | cons v vs =>
    rw [renderItems, Value.renderItems, render_eq v, renderItems_eq vs]
    rfl

end

/-! ### Conditionals -/

variable {context : Context}

/-- The verdict on a condition. Only one that cannot be read is recovered from. -/
def verdict (settings : Dict Value) (condition : String) : Outcome Trap Bool :=
  match Condition.Stepwise.evaluate settings condition with
  | .ok b => pure b
  | .error (.refused e) => do
    Outcome.warn (.unsupportedCondition condition e)
    return false
  | .error trap => Outcome.fail (.condition trap)

def branches (c : Conditional) : List (List Char) :=
  match cutBy? (tag? elseWord) c.body with
  | some (before, behind) => [before, behind]
  | none => [c.body]

def resolve (context : Context) (c : Conditional) : Outcome Trap (List Char) :=
  if context.keepBodies then pure c.body
  else do
    let whenTrue ← .ofExcept (itemAt (branches c) 0)
    let whenFalse ←
      if 1 < (branches c).length then .ofExcept (itemAt (branches c) 1) else pure []
    let holds ← verdict context.settings (.ofList c.condition)
    return if holds != c.negated then whenTrue else whenFalse

theorem verdict_eq (settings : Dict Value) (condition : String) :
    verdict settings condition = Asset.verdict settings condition := by
  rw [verdict, Asset.verdict, Condition.Stepwise.evaluate_eq]
  cases Condition.evaluate settings condition <;> rfl

theorem resolve_eq (c : Conditional) : resolve context c = c.resolve context := by
  rw [resolve, Conditional.resolve]
  split
  · rfl
  · rw [verdict_eq, branches, Conditional.branches]
    generalize (Asset.verdict context.settings (.ofList c.condition) : Outcome Trap Bool) = verdict
    cases cutBy? (tag? elseWord) c.body with
    | none => rfl
    | some found => rfl

/-! ### Values that are held back -/

def slotOf (source : List Char) : Except Trap Nat :=
  let digits := (source.drop 1).dropLast
  if Condition.Stepwise.isDigits digits then .ok (Text.natOfDigits digits)
  else .error (.noNumeral digits)

/-- The value that a mark stands for, or the mark itself where there is none. -/
def released (values : List (List Char)) (source : List Char) : Except Trap (List Char) := do
  let slot ← slotOf source
  if slot < values.length then itemAt values slot else return source

def release (values : List (List Char)) : List (Piece Nat) → Except Trap (List Char)
  | [] => .ok []
  | .char c :: pieces => do return c :: (← release values pieces)
  | .directive _ source :: pieces => do
    let s ← released values source
    return s ++ (← release values pieces)

theorem slotOf_eq {s d : List Char} {slot : Nat}
    (h : .directive slot d ∈ Piece.all held? s) : slotOf d = .ok slot := by
  obtain ⟨digits, hne, hdigits, rfl, rfl⟩ := heldSource_eq h
  have hdrop : (('\ue000' :: (digits ++ ['\ue001'])).drop 1).dropLast = digits :=
    List.dropLast_concat
  rw [slotOf, hdrop]
  exact if_pos (Condition.Stepwise.isDigits_iff.2 ⟨hne, hdigits⟩)

theorem released_eq {values : List (List Char)} {s d : List Char} {slot : Nat}
    (h : .directive slot d ∈ Piece.all held? s) :
    released values d = .ok (values[slot]?.getD d) := by
  rw [released, slotOf_eq h]
  show (if slot < values.length then itemAt values slot else .ok d) = _
  split
  · next hlt =>
    rw [itemAt_of_some (List.getElem?_eq_getElem hlt), List.getElem?_eq_getElem hlt]
    rfl
  · next hle =>
    rw [List.getElem?_eq_none (Nat.not_lt.1 hle)]
    rfl

theorem release_eq {values : List (List Char)} {pieces : List (Piece Nat)}
    (h : ∀ slot d, .directive slot d ∈ pieces → released values d = .ok (values[slot]?.getD d)) :
    release values pieces =
      .ok (Piece.text (fun slot source => values[slot]?.getD source) pieces) := by
  induction pieces with
  | nil => rfl
  | cons p pieces ih =>
    have hpieces := ih fun slot d hmem => h slot d (List.mem_cons_of_mem p hmem)
    cases p with
    | char c =>
      rw [release, hpieces]
      rfl
    | directive slot d =>
      rw [release, h slot d List.mem_cons_self, hpieces]
      rfl

theorem release_all (values : List (List Char)) (s : List Char) :
    release values (Piece.all held? s) = .ok (releaseSettings values s) :=
  release_eq fun _ _ h => released_eq h

/-! ### Processing -/

def settingValues (settings : Dict Value) (s : List Char) : Except Trap (List (List Char)) :=
  (Piece.directives (Piece.all settingOutput? s)).mapM fun path =>
    (render (lookupPath settings path)).map String.toList

def process (context : Context) (text : String) : Outcome Trap String := do
  let s ← (resolveUrls context text.toList).mapError .url
  let values ← .ofExcept (settingValues context.settings s)
  let s ← Piece.textM (resolve context) (Piece.all conditional? (holdSettings s))
  let s ← .ofExcept (release values (Piece.all held? (removeOutputs (removeTags s))))
  return .ofList s

theorem settingValues_eq (settings : Dict Value) (s : List Char) :
    settingValues settings s = .ok (Asset.settingValues settings s) := by
  rw [settingValues, Asset.settingValues]
  induction Piece.directives (Piece.all settingOutput? s) with
  | nil => rfl
  | cons path paths ih =>
    rw [List.mapM_cons, ih, render_eq]
    rfl

/-- Of what is put in place of the directives, nothing depends on how failures are told. -/
theorem mapError_textM {α ε δ : Type} {f : α → Outcome ε (List Char)}
    {g : α → Outcome δ (List Char)} {h : ε → δ} (hfg : ∀ a, (f a).mapError h = g a)
    (pieces : List (Piece α)) :
    (Piece.textM f pieces).mapError h = Piece.textM g pieces := by
  induction pieces with
  | nil => rfl
  | cons p pieces ih =>
    cases p with
    | char c => simp only [Piece.textM, Outcome.mapError_bind, Outcome.mapError_pure, ih]
    | directive a d =>
      simp only [Piece.textM, Outcome.mapError_bind, Outcome.mapError_pure, hfg, ih]

/-- A conditional does not fail, so it does not matter how failures are told. -/
theorem mapError_resolve {ε δ : Type} (g : ε → δ) (c : Conditional) :
    (c.resolve context : Outcome ε (List Char)).mapError g = c.resolve context := by
  have hverdict (condition : String) :
      (Asset.verdict context.settings condition : Outcome ε Bool).mapError g =
        Asset.verdict context.settings condition := by
    rw [Asset.verdict, Asset.verdict]
    cases Condition.evaluate context.settings condition <;> rfl
  rw [Conditional.resolve, Conditional.resolve]
  split
  · rfl
  · rw [Outcome.mapError_bind, hverdict]
    rfl

theorem resolveConditionals_eq (context : Context) (s : List Char) :
    Piece.textM (resolve context) (Piece.all conditional? s) =
      (resolveConditionals context s : Outcome UrlError (List Char)).mapError .url := by
  rw [resolveConditionals, mapError_textM]
  intro c
  rw [mapError_resolve, resolve_eq]

theorem process_eq (context : Context) (text : String) :
    process context text = (Asset.process context text).mapError .url := by
  simp only [process, Asset.process, processChars, Outcome.mapError_bind, Outcome.mapError_pure,
    bind_assoc, pure_bind, settingValues_eq, Outcome.ofExcept_ok, release_all,
    resolveConditionals_eq]

end Asset.Stepwise

namespace Asset

theorem exists_result_textM {α ε : Type} {replace : α → Outcome ε (List Char)}
    (h : ∀ a, ∃ s, (replace a).result = .ok s) (pieces : List (Piece α)) :
    ∃ s, (Piece.textM replace pieces).result = .ok s := by
  induction pieces with
  | nil => exact ⟨[], rfl⟩
  | cons p pieces ih =>
    obtain ⟨rest, hrest⟩ := ih
    cases p with
    | char c => exact ⟨_, Outcome.bind_eq_ok.2 ⟨rest, hrest, rfl⟩⟩
    | directive a d =>
      obtain ⟨s, hs⟩ := h a
      exact ⟨_, Outcome.bind_eq_ok.2 ⟨s, hs, Outcome.bind_eq_ok.2 ⟨rest, hrest, rfl⟩⟩⟩

theorem exists_result_resolve {ε : Type} (context : Context) (c : Conditional) :
    ∃ s, (c.resolve context : Outcome ε (List Char)).result = .ok s := by
  rw [Conditional.resolve]
  split
  · exact ⟨c.body, rfl⟩
  · rw [verdict]
    cases Condition.evaluate context.settings (.ofList c.condition) with
    | ok b => exact ⟨_, rfl⟩
    | error e => exact ⟨_, rfl⟩

/-- Where all URLs can be resolved, every asset can be processed. -/
theorem exists_result_process {context : Context}
    (hresolve : ∀ name, ∃ url, context.resolveUrl name = .ok url) (text : String) :
    ∃ s, (process context text).result = .ok s := by
  have hurls : ∃ s, (resolveUrls context text.toList).result = .ok s := by
    apply exists_result_textM
    intro name
    obtain ⟨url, hurl⟩ := hresolve (.ofList name)
    exact ⟨url.toList, by rw [hurl]; rfl⟩
  obtain ⟨u, hu⟩ := hurls
  obtain ⟨s, hs⟩ : ∃ s, (resolveConditionals context (holdSettings u) :
      Outcome UrlError (List Char)).result = .ok s :=
    exists_result_textM (exists_result_resolve context) _
  exact ⟨_, Outcome.bind_eq_ok.2 ⟨_, Outcome.bind_eq_ok.2 ⟨u, hu,
    Outcome.bind_eq_ok.2 ⟨s, hs, rfl⟩⟩, rfl⟩⟩

/-- No step of the processing fails: where all URLs can be resolved every asset is processed to
the end. A condition has a value or is refused as one that cannot be read, and every value has a
text. -/
theorem process_total (context : Context)
    (hresolve : ∀ name, ∃ url, context.resolveUrl name = .ok url) :
    (∀ text, ∃ s, (process context text).result = .ok s ∧
        (Stepwise.process context text).result = .ok s) ∧
      (∀ settings expression,
        (∃ b, Condition.evaluate settings expression = .ok b ∧
          Condition.Stepwise.evaluate settings expression = .ok b) ∨
        ∃ e, Condition.evaluate settings expression = .error e ∧
          Condition.Stepwise.evaluate settings expression = .error (.refused e)) ∧
      ∀ v : Value, Stepwise.render v = .ok v.render := by
  refine ⟨?_, ?_, Stepwise.render_eq⟩
  · intro text
    obtain ⟨s, hs⟩ := exists_result_process hresolve text
    refine ⟨s, hs, ?_⟩
    rw [Stepwise.process_eq, Outcome.mapError, hs]
    rfl
  · intro settings expression
    rw [Condition.Stepwise.evaluate_eq]
    cases Condition.evaluate settings expression with
    | ok b => exact .inl ⟨b, rfl, rfl⟩
    | error e => exact .inr ⟨e, rfl, rfl⟩

/-- A number is compared with a list, and a condition is none. -/
theorem process_total_unordered :
    (Stepwise.process
        { settings := [("size", .int 1), ("items", .list [.str "x"])]
          resolveUrl := fun name => .ok name
          keepBodies := false }
        ("\x7b% if settings.size < settings.items %\x7da\x7b% else %\x7db\x7b% endif %\x7d" ++
          "\x7b% if == %\x7dc\x7b% endif %\x7d")).result = .ok "b" := by
  obtain ⟨s, hs, hstep⟩ := (process_total
    { settings := [("size", .int 1), ("items", .list [.str "x"])]
      resolveUrl := fun name => .ok name
      keepBodies := false } fun name => ⟨name, rfl⟩).1
    ("\x7b% if settings.size < settings.items %\x7da\x7b% else %\x7db\x7b% endif %\x7d" ++
      "\x7b% if == %\x7dc\x7b% endif %\x7d")
  have hb : s = "b" := by
    refine Except.ok.inj (hs.symm.trans ?_)
    decide +kernel
  rw [hstep, hb]

end Asset

end Storefront
