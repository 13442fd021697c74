import Storefront.Condition.Evaluation
import Storefront.Proofs.Condition.Grammar
import Storefront.Proofs.Condition.Lexing

/-!
Conditions that are put together as texts. A comparison with a combinator and a condition behind it
is the condition that joins the two, so a chain of comparisons groups to the right: each holds
together with all that follows it, as its combinator tells.
-/

namespace Storefront.Condition

open Text Token

/-! ### Joined texts -/

/-- Two expressions with a combinator between them. -/
def joinText (e₁ : String) (k : Combinator) (e₂ : String) : String :=
  e₁ ++ " " ++ k.text ++ " " ++ e₂

theorem lexes_combinator (k : Combinator) : Lexes k.text.toList [k.token] := by
  refine .cons ?_ .nil
  cases k <;> rfl

/-- The tokens of a joined text are those of its parts, with the combinator between them. -/
theorem tokenize_joinText {e₁ e₂ : String} {tokens more : List Token} (k : Combinator)
    (h₁ : tokenize e₁ = .ok tokens) (h₂ : tokenize e₂ = .ok more) (hmore : more ≠ []) :
    tokenize (joinText e₁ k e₂) = .ok (tokens ++ k.token :: more) := by
  rw [tokenize_eq_ok_iff] at h₁ h₂ ⊢
  obtain ⟨t, more, rfl⟩ := List.exists_cons_of_ne_nil hmore
  obtain ⟨blanks, hsplit, hblanks⟩ := exists_blanks_of_trimRight e₁.toList
  have hspace : ∀ c ∈ [' '], isBlank c = true := by
    intro c hc
    rw [List.mem_singleton.1 hc]
    rfl
  have hright : Lexes (k.text.toList ++ ([' '] ++ trimRight e₂.toList)) (k.token :: t :: more) :=
    (lexes_combinator k).append_blanks (List.cons_ne_nil _ _) hspace h₂
  have hgap : blanks ++ [' '] ≠ [] := by simp
  have hall := h₁.append_blanks hgap (List.forall_mem_append.2 ⟨hblanks, hspace⟩) hright
  -- The blanks that end the first text are dropped from it alone, but not from the joined text.
  have htrim : trimRight (joinText e₁ k e₂).toList = trimRight e₁.toList ++
      (blanks ++ [' '] ++ (k.text.toList ++ ([' '] ++ trimRight e₂.toList))) := by
    have hne : trimRight e₂.toList ≠ [] := by
      intro hnil
      rw [hnil] at h₂
      cases h₂ with
      | cons h hr => cases h
    have hsplits : (joinText e₁ k e₂).toList =
        trimRight e₁.toList ++ blanks ++ [' '] ++ k.text.toList ++ [' '] ++ e₂.toList := by
      rw [← hsplit]
      simp [joinText]
    rw [hsplits, trimRight_append hne]
    simp only [List.append_assoc]
  rwa [htrim]

theorem parse_joinText {e₁ e₂ : String} {first : Comparison} {c : Condition} (k : Combinator)
    (h₁ : parse e₁ = .ok ⟨first, []⟩) (h₂ : parse e₂ = .ok c) :
    parse (joinText e₁ k e₂) = .ok (join first k c) := by
  obtain ⟨htokens, hfits⟩ := parse_eq_ok_iff.1 h₁
  obtain ⟨hmore, hmorefits⟩ := parse_eq_ok_iff.1 h₂
  rw [tokens_single] at htokens
  rw [fits_single] at hfits
  rw [parse_eq_ok_iff, tokens_join, fits_join]
  exact ⟨tokenize_joinText k htokens hmore (tokens_ne_nil c), hfits, hmorefits⟩

/-! ### Joined values -/

section values

variable {settings : Dict Value}

theorem holds_join (first : Comparison) (k : Combinator) (c : Condition) :
    (join first k c).holds settings = k.apply (first.holds settings) (c.holds settings) := rfl

theorem evaluate_of_parse {e : String} {c : Condition} (h : parse e = .ok c) :
    evaluate settings e = .ok (c.holds settings) := by
  rw [evaluate, h]
  rfl

/-- A joined text holds as its combinator tells of its two parts. -/
theorem evaluate_joinText {e₁ e₂ : String} {first : Comparison} {c : Condition} {b₁ b₂ : Bool}
    (k : Combinator) (h₁ : parse e₁ = .ok ⟨first, []⟩) (h₂ : parse e₂ = .ok c)
    (hb₁ : evaluate settings e₁ = .ok b₁) (hb₂ : evaluate settings e₂ = .ok b₂) :
    evaluate settings (joinText e₁ k e₂) = .ok (k.apply b₁ b₂) := by
  rw [evaluate_of_parse h₁] at hb₁
  rw [evaluate_of_parse h₂] at hb₂
  cases hb₁
  cases hb₂
  rw [evaluate_of_parse (parse_joinText k h₁ h₂), holds_join]
  rfl

/-! ### Chains -/

/-- An expression that is put before another one, and the combinator between the two. -/
structure Link where
  expression : String
  combinator : Combinator

/-- All links one before the other, and then the last expression. -/
def chainText (links : List Link) (last : String) : String :=
  links.foldr (fun link text => joinText link.expression link.combinator text) last

/-- The value of a chain of expressions that have the values given. -/
def chainValue (value : String → Bool) (links : List Link) (last : String) : Bool :=
  links.foldr (fun link b => link.combinator.apply (value link.expression) b) (value last)

/-- Each link is a single comparison. -/
def AreComparisons (links : List Link) : Prop :=
  ∀ link ∈ links, ∃ first, parse link.expression = .ok ⟨first, []⟩

theorem exists_parse_chainText {links : List Link} {last : String} {c : Condition}
    (hlinks : AreComparisons links) (hlast : parse last = .ok c) :
    ∃ c, parse (chainText links last) = .ok c := by
  induction links with
  | nil => exact ⟨c, hlast⟩
  | cons link links ih =>
    obtain ⟨⟨first, hfirst⟩, hlinks⟩ := List.forall_mem_cons.1 hlinks
    obtain ⟨more, hmore⟩ := ih hlinks
    exact ⟨_, parse_joinText link.combinator hfirst hmore⟩

theorem evaluate_chainText {links : List Link} {last : String} {c : Condition}
    {value : String → Bool} (hlinks : AreComparisons links) (hlast : parse last = .ok c)
    (hvalues : ∀ link ∈ links, evaluate settings link.expression = .ok (value link.expression))
    (hvalue : evaluate settings last = .ok (value last)) :
    evaluate settings (chainText links last) = .ok (chainValue value links last) := by
  induction links with
  | nil => exact hvalue
  | cons link links ih =>
    obtain ⟨⟨first, hfirst⟩, hlinks⟩ := List.forall_mem_cons.1 hlinks
    obtain ⟨hlink, hvalues⟩ := List.forall_mem_cons.1 hvalues
    obtain ⟨more, hmore⟩ := exists_parse_chainText hlinks hlast
    exact evaluate_joinText link.combinator hfirst hmore hlink (ih hlinks hvalues)

/-- A comparison joined to any condition holds just if the two hold as `and` or `or` tells. So a
chain of comparisons groups to the right: the first one is joined to all of the chain behind it. -/
theorem evaluate_joined (settings : Dict Value) :
    (∀ e₁ e₂ first c, parse e₁ = .ok ⟨first, []⟩ → parse e₂ = .ok c →
      ∃ b₁ b₂, evaluate settings e₁ = .ok b₁ ∧ evaluate settings e₂ = .ok b₂ ∧
        evaluate settings (e₁ ++ " and " ++ e₂) = .ok (b₁ && b₂) ∧
        evaluate settings (e₁ ++ " or " ++ e₂) = .ok (b₁ || b₂)) ∧
      ∀ links last c, AreComparisons links → parse last = .ok c →
        ∃ value : String → Bool,
          (∀ link ∈ links, evaluate settings link.expression = .ok (value link.expression)) ∧
          evaluate settings last = .ok (value last) ∧
          evaluate settings (chainText links last) = .ok (chainValue value links last) := by
  constructor
  · intro e₁ e₂ first c h₁ h₂
    have hb₁ : evaluate settings e₁ = .ok (Condition.holds settings ⟨first, []⟩) :=
      evaluate_of_parse h₁
    have hb₂ : evaluate settings e₂ = .ok (c.holds settings) := evaluate_of_parse h₂
    have hand : e₁ ++ " and " ++ e₂ = joinText e₁ .and e₂ := by
      simp [joinText, Combinator.text, String.append_assoc]
    have hor : e₁ ++ " or " ++ e₂ = joinText e₁ .or e₂ := by
      simp [joinText, Combinator.text, String.append_assoc]
    rw [hand, hor]
    exact ⟨_, _, hb₁, hb₂, evaluate_joinText .and h₁ h₂ hb₁ hb₂,
      evaluate_joinText .or h₁ h₂ hb₁ hb₂⟩
  · intro links last c hlinks hlast
    have hvalues : ∀ link ∈ links, evaluate settings link.expression =
        .ok ((evaluate settings link.expression).toOption.getD false) := by
      intro link hlink
      obtain ⟨first, hfirst⟩ := hlinks link hlink
      rw [evaluate_of_parse hfirst]
      rfl
    have hvalue : evaluate settings last =
        .ok ((evaluate settings last).toOption.getD false) := by
      rw [evaluate_of_parse hlast]
      rfl
    exact ⟨fun e => (evaluate settings e).toOption.getD false, hvalues, hvalue,
      evaluate_chainText hlinks hlast hvalues hvalue⟩

/-- Grouped to the left the same chain would hold. -/
theorem evaluate_joined_hidden :
    evaluate [("hidden", .bool false), ("badge", .str "new")]
      "settings.hidden and settings.badge or settings.badge" = .ok false := by
  have hhidden : parse "settings.hidden" = .ok ⟨⟨⟨.word, "settings.hidden"⟩, none⟩, []⟩ := by
    rfl
  have hbadge : parse "settings.badge" = .ok ⟨⟨⟨.word, "settings.badge"⟩, none⟩, []⟩ := by
    rfl
  have hlinks : AreComparisons [⟨"settings.hidden", .and⟩, ⟨"settings.badge", .or⟩] := by
    intro link hlink
    simp only [List.mem_cons, List.not_mem_nil, or_false] at hlink
    rcases hlink with rfl | rfl
    · exact ⟨_, hhidden⟩
    · exact ⟨_, hbadge⟩
  obtain ⟨value, hvalues, -, h⟩ :=
    (evaluate_joined [("hidden", .bool false), ("badge", .str "new")]).2 _ _ _ hlinks hbadge
  have hvalue : value "settings.hidden" = false := by
    have hlink := hvalues ⟨"settings.hidden", .and⟩ List.mem_cons_self
    exact (Except.ok.inj hlink).symm
  rw [chainValue, List.foldr_cons, hvalue] at h
  exact h

end values

end Storefront.Condition
