import Storefront.Json.Decode
import Storefront.Json.Encode

/-!
Strings in JSON text read back as what they were written from: each character from its escape, a
character beyond 16 bits from the escapes of its two units.
-/

namespace Storefront.Json

/-! ### Units of 16 bits -/

theorem hexValue?_digitChar {n : Nat} (h : n < 16) : hexValue? (Nat.digitChar n) = some n := by
  have hall : ∀ n < 16, hexValue? (Nat.digitChar n) = some n := by decide
  exact hall n h

/-- Four digits are read back if something follows them. -/
theorem codeUnit?_hex {u : Nat} (hu : u < 0x10000) {s : List Char} (hs : s ≠ []) :
    codeUnit? (Text.hex 4 u ++ s) = some (u, s) := by
  cases s with
  | nil => exact absurd rfl hs
  | cons e s =>
    have hdigit (n : Nat) : hexValue? (Nat.digitChar (n % 16)) = some (n % 16) :=
      hexValue?_digitChar (Nat.mod_lt n (by decide))
    have hsum : ((u / 16 / 16 / 16 % 16 * 16 + u / 16 / 16 % 16) * 16 + u / 16 % 16) * 16 + u % 16 =
        u := by omega
    show codeUnit? (Nat.digitChar (u / 16 / 16 / 16 % 16) :: Nat.digitChar (u / 16 / 16 % 16) ::
      Nat.digitChar (u / 16 % 16) :: Nat.digitChar (u % 16) :: e :: s) = _
    rw [codeUnit?, hdigit, hdigit, hdigit, hdigit]
    simp only [Option.bind_eq_bind, Option.bind_some, hsum]
    rfl

theorem toNat_cases (c : Char) : c.toNat < 0xd800 ∨ 0xdfff < c.toNat ∧ c.toNat < 0x110000 := by
  rcases c.valid with h | ⟨h, h'⟩
  · exact .inl h
  · exact .inr ⟨h, h'⟩

theorem charOfUnit_toNat (c : Char) : charOfUnit c.toNat = c := by
  have hcases := toNat_cases c
  rw [charOfUnit, if_neg (by simp; omega), Char.ofNat_toNat]

theorem unicodeEscape_hex {c : Char} (hc : c.toNat < 0x10000) {s : List Char} (hs : s ≠ []) :
    unicodeEscape (Text.hex 4 c.toNat ++ s) = .ok (c, s) := by
  have hcases := toNat_cases c
  rw [unicodeEscape, codeUnit?_hex hc hs]
  simp only
  rw [if_neg (by simp; omega), charOfUnit_toNat]

/-- A character beyond 16 bits is read back from its two units. -/
theorem unicodeEscape_pair {c : Char} (hc : 0x10000 ≤ c.toNat) {s : List Char} (hs : s ≠ []) :
    unicodeEscape (Text.hex 4 (0xd800 + (c.toNat - 0x10000) / 0x400) ++
      (unitEscape (0xdc00 + (c.toNat - 0x10000) % 0x400) ++ s)) = .ok (c, s) := by
  have hlt : c.toNat < 0x110000 := by
    rcases toNat_cases c with h | h <;> omega
  obtain ⟨high, hhigh⟩ : ∃ high, high = 0xd800 + (c.toNat - 0x10000) / 0x400 := ⟨_, rfl⟩
  obtain ⟨low, hlow⟩ : ∃ low, low = 0xdc00 + (c.toNat - 0x10000) % 0x400 := ⟨_, rfl⟩
  have hjoin : joinUnits high low = c := by
    rw [joinUnits, show 0x10000 + (high - 0xd800) * 0x400 + (low - 0xdc00) = c.toNat by omega,
      Char.ofNat_toNat]
  have hrest : ((Text.hex 4 low ++ s).drop 4).isEmpty = false := by
    rw [List.isEmpty_eq_false_iff]
    exact hs
  rw [← hhigh, ← hlow]
  show unicodeEscape (Text.hex 4 high ++ '\\' :: 'u' :: (Text.hex 4 low ++ s)) = _
  rw [unicodeEscape, codeUnit?_hex (by omega) (List.cons_ne_nil _ _)]
  simp only
  rw [if_pos (by simp; omega), hrest, if_neg Bool.false_ne_true, codeUnit?_hex (by omega) hs]
  simp only
  rw [if_pos (by simp; omega), hjoin]

/-! ### Escapes -/

/-- How a character is written in a string: after a backslash as the letter that stands for it, as
it is, or by its code units of 16 bits. -/
inductive Escapes (c : Char) : List Char → Prop
  | letter {a : Char} (hu : a ≠ 'u') (h : escaped? a = some c) : Escapes c ['\\', a]
  | plain (hquote : c ≠ '"') (hbackslash : c ≠ '\\') (hcontrol : 0x20 ≤ c.toNat) : Escapes c [c]
  | unit (h : c.toNat < 0x10000) : Escapes c (unitEscape c.toNat)
  | pair (h : 0x10000 ≤ c.toNat) :
    Escapes c (unitEscape (0xd800 + (c.toNat - 0x10000) / 0x400) ++
      unitEscape (0xdc00 + (c.toNat - 0x10000) % 0x400))

theorem escapes_charEscape (c : Char) : Escapes c (charEscape c) := by
  have hletter {a d : Char} (hd : c = d) (hu : a ≠ 'u') (h : escaped? a = some d) :
      Escapes c ['\\', a] := .letter hu (hd ▸ h)
  rw [charEscape]
  split
  · next hc => exact hletter hc (by decide) rfl
  split
  · next hc => exact hletter hc (by decide) rfl
  split
  · next hc => exact hletter hc (by decide) rfl
  split
  · next hc => exact hletter hc (by decide) rfl
  split
  · next hc => exact hletter hc (by decide) rfl
  split
  · next hc => exact hletter hc (by decide) rfl
  split
  · next hc => exact hletter hc (by decide) rfl
  next hquote hbackslash _ _ _ _ _ =>
    split
    · next h =>
      simp only [Bool.and_eq_true, decide_eq_true_eq] at h
      exact .plain hquote hbackslash h.1
    split
    · next h => exact .unit h
    · next h => exact .pair (Nat.le_of_not_lt h)

theorem Escapes.ne_nil {c : Char} {e : List Char} (h : Escapes c e) : e ≠ [] := by
  cases h <;> exact List.cons_ne_nil _ _

/-! ### Characters and strings -/

section characters

variable {opening s : List Char}

theorem characters_unicode (fuel : Nat) {c : Char} {r : List Char}
    (h : unicodeEscape r = .ok (c, s)) :
    characters opening (fuel + 1) ('\\' :: 'u' :: r) =
      (characters opening fuel s).map fun found => (c :: found.1, found.2) := by
  rw [characters, h]
  simp only [bind, Except.bind]
  cases characters opening fuel s <;> rfl

theorem characters_letter (fuel : Nat) {a c : Char} (ha : a ≠ 'u') (h : escaped? a = some c) :
    characters opening (fuel + 1) ('\\' :: a :: s) =
      (characters opening fuel s).map fun found => (c :: found.1, found.2) := by
  rw [characters, h]
  · cases characters opening fuel s <;> rfl
  · exact ha

theorem characters_plain (fuel : Nat) {c : Char} (hquote : c ≠ '"') (hbackslash : c ≠ '\\')
    (hcontrol : 0x20 ≤ c.toNat) :
    characters opening (fuel + 1) (c :: s) =
      (characters opening fuel s).map fun found => (c :: found.1, found.2) := by
  rw [characters, if_neg (Nat.not_lt.2 hcontrol)]
  · cases characters opening fuel s <;> rfl
  · exact hquote
  · exact hbackslash

/-- The escape of a character is read back as that character. -/
theorem Escapes.characters {c : Char} {e : List Char} (h : Escapes c e) (fuel : Nat)
    (hs : s ≠ []) :
    characters opening (fuel + 1) (e ++ s) =
      (characters opening fuel s).map fun found => (c :: found.1, found.2) := by
  cases h with
  | letter hu h => exact characters_letter fuel hu h
  | plain hquote hbackslash hcontrol => exact characters_plain fuel hquote hbackslash hcontrol
  | unit h => exact characters_unicode fuel (unicodeEscape_hex h hs)
  | pair h =>
    rw [List.append_assoc]
    exact characters_unicode fuel (unicodeEscape_pair h hs)

theorem characters_flatMap_charEscape (opening : List Char) {fuel : Nat} {cs : List Char}
    (hfuel : cs.length < fuel) (rest : List Char) :
    characters opening fuel (cs.flatMap charEscape ++ '"' :: rest) = .ok (cs, rest) := by
  induction cs generalizing fuel with
  | nil =>
    obtain ⟨fuel, rfl⟩ := Nat.exists_eq_succ_of_ne_zero (Nat.ne_of_gt hfuel)
    rfl
  | cons c cs ih =>
    obtain ⟨fuel, rfl⟩ := Nat.exists_eq_succ_of_ne_zero (Nat.ne_of_gt (Nat.zero_lt_of_lt hfuel))
    have hne : cs.flatMap charEscape ++ '"' :: rest ≠ [] :=
      List.append_ne_nil_of_right_ne_nil _ (List.cons_ne_nil _ _)
    rw [List.flatMap_cons, List.append_assoc, Nat.succ_eq_add_one,
      (escapes_charEscape c).characters fuel hne, ih (Nat.lt_of_succ_lt_succ hfuel)]
    rfl

end characters

theorem length_le_length_flatMap_charEscape (cs : List Char) :
    cs.length ≤ (cs.flatMap charEscape).length := by
  induction cs with
  | nil => exact Nat.le_refl _
  | cons c cs ih =>
    have hpos := List.length_pos_iff.2 (escapes_charEscape c).ne_nil
    rw [List.flatMap_cons, List.length_append, List.length_cons]
    omega

/-- A string in JSON text is read back, whatever follows it. -/
theorem string_encodeString (s : String) (rest : List Char) :
    ∃ t, encodeString s ++ rest = '"' :: t ∧ string t = .ok (s, rest) := by
  refine ⟨s.toList.flatMap charEscape ++ '"' :: rest, by simp [encodeString], ?_⟩
  have hlength := length_le_length_flatMap_charEscape s.toList
  rw [string, characters_flatMap_charEscape _ ?_ rest]
  · show Except.ok (String.ofList s.toList, rest) = _
    rw [String.ofList_toList]
  · rw [List.length_append]
    omega

end Storefront.Json
