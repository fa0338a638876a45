import Ontogram.Encoding
import Ontogram.Proofs.Canonical
import Ontogram.Proofs.ExpressionSpacing
import Ontogram.Proofs.Operands

set_option autoImplicit false

namespace Ontogram

namespace Expression

/-- Balanced tokens keep what follows them balanced as it is. -/
theorem Balanced.balance_append {ts : List String} (ht : Balanced ts) (us : List String) :
    balance (ts ++ us) = ts ++ balance us := by
  rw [balance, ht.dropClosers_append, ht.dropOpeners_append]
  rfl

section Front

variable {name value : String} (named : Text.IsIdentifier name)
  (clean : ∀ token ∈ tokensOf value.toList, '\t' ∉ token)
include named

theorem isParen_of_isIdentifier : isParen name = false :=
  isParen_eq_false ⟨named.notMem (by decide), named.notMem (by decide)⟩

include clean

/-- What is read from a value behind an identifier and `some`. -/
theorem parse_some : parse (name ++ " some " ++ Text.strip value) =
    parseTokens (name :: "some" :: balance (tokens value)) := by
  have front : Balanced [name, "some"] :=
    .token (isParen_of_isIdentifier named) (.token (by decide) .nil)
  have balanced := front.balance_append (tokens value)
  rw [parse, tokens_some named clean]
  exact congrArg parseTokens balanced

end Front

/-- A text with tokens is not blank. -/
theorem strip_ne_empty {s : String} (some : tokensOf s.toList ≠ []) : Text.strip s ≠ "" := by
  intro empty
  refine some ?_
  rw [← tokensOf_stripBoth, String.ofList_eq_empty_iff.1 empty, tokenizes.nil]

end Expression

namespace Encoding

open Expression (tokens tokensOf balance IsSingle IsSeveral)
open Vocabulary (owl)

/-- The restriction of a property to something that a value describes, tied to a subject: the node
of the restriction has the next number, and those of the value follow. -/
def existential (r : Resolver) (subject : Term) (property value : String) (n : Int) : Emission :=
  let filler := Expression.lowerText r value (n + 1)
  .ofTriples
    ([⟨subject, Vocabulary.subClassOf, blankNode n⟩,
      ⟨blankNode n, Vocabulary.type, owl "Restriction"⟩,
      ⟨blankNode n, owl "onProperty", r.resolve property⟩] ++ filler.triples ++
      [⟨blankNode n, owl "someValuesFrom", filler.ref⟩]) filler.next

theorem restrictionText_eq {property value : String}
    (bare : ∀ w ∈ (Text.words value).head?, quantifierOf? w = none) :
    restrictionText property value = property ++ " some " ++ Text.strip value := by
  unfold restrictionText
  cases words : Text.words value with
  | nil => rfl
  | cons w ws =>
    have none : quantifierOf? w = none := bare w (by rw [words]; rfl)
    simp only [none]

/-- An axiom on a class or an individual that is named after a property, by one word that is no
keyword in front of its value, and whose value starts with no quantifier. -/
structure IsUnquantified (e : Entity) (a : Axiom) : Prop where
  thing : e.isProperty = false
  named : Text.IsIdentifier a.name
  free : Text.lower a.name ∉ ["or", "and", "not"]
  implicit : AxiomKind.ofName a.name = .implicitRestriction
  bare : ∀ w ∈ (Text.words a.expression).head?, quantifierOf? w = none

section Unquantified

variable (r : Resolver) {e : Entity} (subject : Term) {a : Axiom} (n : Int)

/-- The axiom links its subject to what is read from the name, `some` and the value. -/
theorem IsUnquantified.emitAxiom_eq (h : IsUnquantified e a)
    (clean : ∀ token ∈ tokensOf a.expression.toList, '\t' ∉ token)
    (some : tokens a.expression ≠ []) :
    emitAxiom r e subject a n =
      let lowered := Expression.lower r
        (Expression.parseTokens (a.name :: "some" :: balance (tokens a.expression))) n
      .ofTriples (⟨subject, Vocabulary.subClassOf, lowered.ref⟩ :: lowered.triples)
        lowered.next := by
  have read : emitAxiom r e subject a n = emitLink r subject Vocabulary.subClassOf
      (a.name ++ " some " ++ Text.strip a.expression) n := by
    have visible : tokensOf a.expression.toList ≠ [] := fun none =>
      some (by rw [Expression.tokens_eq_tokensOf clean, none, List.map_nil])
    rw [emitAxiom, if_neg (Expression.strip_ne_empty visible)]
    simp only [h.implicit, AxiomKind.isPropertyOnly, AxiomKind.isClassOnly, emitKind,
      emitRestriction, h.thing, h.named.underscored_eq, h.named.ne_empty, restrictionText_eq h.bare,
      Bool.false_and, Bool.false_eq_true, if_false]
  rw [read, emitLink, Expression.lowerText, Expression.parse_some h.named clean]

/-- An axiom that is named after a property and has a single operand as its value, with no tab in a
token, is an existential restriction to the whole value. -/
theorem emitAxiom_existential (h : IsUnquantified e a)
    (clean : ∀ token ∈ tokensOf a.expression.toList, '\t' ∉ token)
    (single : IsSingle (balance (tokens a.expression))) :
    emitAxiom r e subject a n = existential r subject a.name a.expression n := by
  have some : tokens a.expression ≠ [] := by
    intro none
    rw [none] at single
    exact single.ne_nil rfl
  rw [h.emitAxiom_eq r subject n clean some,
    Expression.parseTokens_some (Expression.isParen_of_isIdentifier h.named) h.free single]
  rfl

/-- On several operands it is none: the node that its subject is linked to is that of the junction,
and the last triple describes it as such. -/
theorem emitAxiom_ne_existential (h : IsUnquantified e a)
    (clean : ∀ token ∈ tokensOf a.expression.toList, '\t' ∉ token)
    (several : IsSeveral (balance (tokens a.expression))) :
    (emitAxiom r e subject a n).triples ≠
      (existential r subject a.name a.expression n).triples := by
  have some : tokens a.expression ≠ [] := by
    intro none
    rw [none] at several
    exact several.ne_nil rfl
  have whole : (existential r subject a.name a.expression n).triples.getLast? =
      Option.some ⟨blankNode n, owl "someValuesFrom",
        (Expression.lowerText r a.expression (n + 1)).ref⟩ :=
    List.getLast?_concat
  have behind (x y : Triple) (xs : List Triple) :
      (x :: (xs ++ [y])).getLast? = Option.some y := by
    rw [← List.cons_append, List.getLast?_concat]
  have plain := Expression.isParen_of_isIdentifier h.named
  intro same
  have ends := congrArg List.getLast? same
  rw [whole, h.emitAxiom_eq r subject n clean some] at ends
  cases several with
  | or parts more =>
    have read := Expression.parseTokens_some_or plain h.free parts more
    simp [read, Expression.lower_union, statements, Emission.ofTriples, behind] at ends
  | and or parts more =>
    have read := Expression.parseTokens_some_and plain h.free or parts more
    simp [read, Expression.lower_inter, statements, Emission.ofTriples, behind] at ends

end Unquantified

/-- A class of people, who eat something. -/
def eater : Entity :=
  { id := "1", label := "Person", iri := none, description := none, annotations := []
    body := .concept [] [] }

theorem isIdentifier_eats : Text.IsIdentifier "eats" :=
  ⟨⟨'e', rfl, by decide⟩, List.all_eq_true.1 rfl⟩

theorem implicit_eats : AxiomKind.ofName "eats" = .implicitRestriction := by
  decide +kernel

theorem isUnquantified_eats {value : String}
    (bare : ∀ w ∈ (Text.words value).head?, quantifierOf? w = none) :
    IsUnquantified eater ⟨"eats", value⟩ where
  thing := rfl
  named := isIdentifier_eats
  free := show Text.lower "eats" ∉ ["or", "and", "not"] by decide
  implicit := implicit_eats
  bare

theorem emitAxiom_existential_notDogOrCat :
    let r := Resolver.default
    let subject := subjectOf r eater
    let value := "not (Dog or Cat)"
    IsUnquantified eater ⟨"eats", value⟩ ∧ (∀ token ∈ tokensOf value.toList, '\t' ∉ token) ∧
      IsSingle (balance (tokens value)) ∧
      emitAxiom r eater subject ⟨"eats", value⟩ 0 = existential r subject "eats" value 0 := by
  intro r subject value
  have unquantified : IsUnquantified eater ⟨"eats", value⟩ := isUnquantified_eats (by decide)
  have clean : ∀ token ∈ tokensOf value.toList, '\t' ∉ token := by decide +kernel
  have whole : balance (tokens value) = ["not", "(", "Dog", "or", "Cat", ")"] := by decide +kernel
  have single : IsSingle (balance (tokens value)) := by
    rw [whole]
    exact ⟨_, _, ⟨[], rfl, by simp⟩, ⟨[], rfl, by simp⟩, by simp, by decide⟩
  exact ⟨unquantified, clean, single, emitAxiom_existential r subject 0 unquantified clean single⟩

/-- Of two operands only the first is eaten: the other one is a thing that people may be. -/
theorem not_existential_dogOrCat :
    let r := Resolver.default
    let subject := subjectOf r eater
    let value := "Dog or Cat"
    IsUnquantified eater ⟨"eats", value⟩ ∧
      (emitAxiom r eater subject ⟨"eats", value⟩ 0).triples ≠
        (existential r subject "eats" value 0).triples := by
  exact ⟨isUnquantified_eats (by decide), by decide +kernel⟩

end Encoding

end Ontogram
