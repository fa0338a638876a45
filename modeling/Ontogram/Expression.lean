set_option autoImplicit false

namespace Ontogram

/-- The word that follows the property of a restriction. -/
inductive Quantifier where
  | some
  | only
  | value
  | self
  | min
  | max
  | exactly
deriving DecidableEq

namespace Quantifier

def word : Quantifier → String
  | some => "some"
  | only => "only"
  | value => "value"
  | self => "self"
  | min => "min"
  | max => "max"
  | exactly => "exactly"

def all : List Quantifier :=
  [some, only, value, self, min, max, exactly]

def ofWord? (word : String) : Option Quantifier :=
  all.find? fun q => q.word == word

/-- Whether a number belongs to the quantifier. -/
def counts : Quantifier → Bool
  | min | max | exactly => true
  | _ => false

end Quantifier

/-- A class expression. -/
inductive Expression where
  /-- A class, an individual, a datatype or a literal, as it was written. -/
  | name (token : String)
  /-- A value that a restriction holds as text. -/
  | raw (text : String)
  | inter (operands : List Expression)
  | union (operands : List Expression)
  | compl (operand : Expression)
  /-- A restriction of a property. `reflexive` when it relates a thing to itself; the number is
  absent when it is missing or not a number. -/
  | restrict (property : String) (quantifier : Quantifier) (filler : Option Expression)
      (number : Option Int) (reflexive : Bool)

namespace Expression

mutual

def text : Expression → String
  | name token => token
  | raw text => text
  | inter operands => "(" ++ String.intercalate " and " (texts operands) ++ ")"
  | union operands => "(" ++ String.intercalate " or " (texts operands) ++ ")"
  | compl operand => "not " ++ operand.text
  | restrict property quantifier filler number reflexive =>
    String.intercalate " "
      ([property, quantifier.word] ++ (number.map toString).toList ++
        (if reflexive && quantifier = .some then ["Self"]
        else
          match filler with
          | none => []
          | some filler => [filler.text]))

/-- The operands in text form. -/
def texts : List Expression → List String
  | [] => []
  | e :: es => e.text :: texts es

end

end Expression

end Ontogram
