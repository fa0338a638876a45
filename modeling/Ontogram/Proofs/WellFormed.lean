import Ontogram.Expression.Lower
import Ontogram.Proofs.ParseTree

set_option autoImplicit false

namespace Ontogram.Expression

/-- The parts of a restriction go together, where `tokens` may be its property. -/
structure IsFitting (tokens : List String) (property : String) (quantifier : Quantifier)
    (filler : Option Expression) (number : Option Int) (reflexive : Bool) : Prop where
  token : property ∈ tokens
  plain : isParen property = false
  /-- A restriction to the thing itself has neither a filler nor a number. -/
  marked : reflexive = true →
    (quantifier = .self ∨ quantifier = .some) ∧ filler = none ∧ number = none
  self : quantifier = .self → reflexive = true
  counted : ∀ n ∈ number, quantifier ∈ [.min, .max, .exactly] ∧ 0 ≤ n
  value : quantifier = .value → ∃ text, filler = some (raw text)

/-- Well-formed expressions, with properties from a list of tokens. -/
inductive IsWellFormed (tokens : List String) : Expression → Prop where
  | name (token : String) : IsWellFormed tokens (name token)
  | inter {operands : List Expression} (several : 2 ≤ operands.length)
      (each : ∀ e ∈ operands, IsWellFormed tokens e) : IsWellFormed tokens (inter operands)
  | union {operands : List Expression} (several : 2 ≤ operands.length)
      (each : ∀ e ∈ operands, IsWellFormed tokens e) : IsWellFormed tokens (union operands)
  | compl {operand : Expression} (inner : IsWellFormed tokens operand) :
      IsWellFormed tokens (compl operand)
  /-- Of the values that are held as text only the quantifier `value` knows. -/
  | restrict {property : String} {quantifier : Quantifier} {filler : Option Expression}
      {number : Option Int} {reflexive : Bool}
      (fitting : IsFitting tokens property quantifier filler number reflexive)
      (filled : quantifier ≠ .value → ∀ e ∈ filler, IsWellFormed tokens e) :
      IsWellFormed tokens (restrict property quantifier filler number reflexive)

theorem mem_of_counts {quantifier : Quantifier} (h : quantifier.counts = true) :
    quantifier ∈ [.min, .max, .exactly] := by
  revert h
  cases quantifier <;> decide

/-- Each way of making a tree from the tokens of a list makes well-formed trees. -/
theorem kept_isWellFormed (tokens : List String) :
    Kept (fun t => t ∈ tokens) (IsWellFormed tokens) where
  name _ _ := .name _
  inter _ several each := .inter several each
  union _ several each := .union several each
  compl _ inner := .compl inner
  reflexive property quantifier token plain kind := by
    have other : quantifier ≠ .value := by
      rintro rfl
      rcases kind with kind | kind <;> cases kind
    exact .restrict ⟨token, plain, fun _ => ⟨kind, rfl, rfl⟩, fun _ => rfl, nofun,
      fun value => absurd value other⟩ fun _ => nofun
  value property args token plain _ :=
    .restrict ⟨token, plain, nofun, nofun, nofun, fun _ => ⟨joinWords args, rfl⟩⟩
      fun other => absurd rfl other
  restrict property quantifier filler number token plain noSelf noValue counts each := by
    have counted : ∀ n ∈ number.map Int.ofNat, quantifier ∈ [.min, .max, .exactly] ∧ 0 ≤ n := by
      intro n hn
      obtain ⟨m, rfl, rfl⟩ := Option.map_eq_some_iff.1 hn
      exact ⟨mem_of_counts (counts rfl), Int.natCast_nonneg m⟩
    exact .restrict ⟨token, plain, nofun, fun self => absurd self noSelf, counted,
      fun value => absurd value noValue⟩ fun _ => each

theorem wellFormed_parse (s : String) : IsWellFormed (tokens s) (parse s) :=
  (kept_isWellFormed (tokens s)).parse fun _ ht => ht

theorem faultIn?_eq_none {es : List Expression} (h : ∀ e ∈ es, fault? e = none) :
    faultIn? es = none := by
  induction es with
  | nil => rfl
  | cons e es ih =>
    have head := h e List.mem_cons_self
    have tail := ih fun f hf => h f (List.mem_cons_of_mem e hf)
    simp only [faultIn?, head, tail]

theorem IsWellFormed.fault?_eq_none {tokens : List String} {e : Expression}
    (h : IsWellFormed tokens e) : fault? e = none := by
  induction h with
  | name token => rfl
  | inter _ _ ih => exact faultIn?_eq_none ih
  | union _ _ ih => exact faultIn?_eq_none ih
  | compl _ ih => exact ih
  | @restrict property quantifier filler number reflexive fitting _ ih =>
    have marked (self : quantifier = .self) : reflexive = true := fitting.self self
    cases filler with
    | none =>
      rw [fault?]
      grind
    | some filler =>
      have inner : quantifier ≠ .value → fault? filler = none := fun other => ih other filler rfl
      rw [fault?]
      grind

/-- Every tree that is read has triples. -/
theorem fault?_parse (s : String) : fault? (parse s) = none :=
  (wellFormed_parse s).fault?_eq_none

end Ontogram.Expression
