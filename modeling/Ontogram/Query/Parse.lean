import Ontogram.Query.Clause
import Ontogram.Text.Quoted
import Ontogram.Vocabulary

set_option autoImplicit false

namespace Ontogram

/-- Why a query has no answer. -/
inductive QueryError where
  /-- The text holds no choice of variables. -/
  | noSelect
  /-- The text holds no pattern block. -/
  | noBlock
  /-- The time that a query may take, as it was given. -/
  | timeout (limit : String)
  /-- The number of solutions and the number that a query may have, as it was given. -/
  | tooManySolutions (count : Int) (limit : String)
  /-- Two columns of one name. -/
  | duplicateColumn (name : String)
  /-- A column on which tables are joined has a pattern of columns as its name. -/
  | patternAsKey (name : String)
  /-- A choice of columns is no readable pattern. -/
  | badPattern
  /-- A limit of the budget is no number. -/
  | badBudget
  /-- The limit is no number of rows. -/
  | limitTooLarge

namespace QueryError

/-- The wording of an error. -/
def message : QueryError → String
  | noSelect => "Invalid query: missing SELECT clause"
  | noBlock => "Invalid query: missing pattern block \x7b ... \x7d"
  | timeout limit => "Query exceeded timeout of " ++ limit ++ "s"
  | tooManySolutions count limit =>
    "Query produced " ++ toString count ++ " solutions, over the budget of " ++ limit
  | duplicateColumn name => "the name " ++ Text.quoted name ++ " is duplicate"
  | patternAsKey name => "the name " ++ Text.quoted name ++ " is no key"
  | badPattern => "a choice of columns cannot be read"
  | badBudget => "a limit of the budget is no number"
  | limitTooLarge => "int too big to convert"

end QueryError

namespace Query

open Text

/-- Whether a token is a number: a sign, digits, and a fraction. -/
def isNumeral (token : List Char) : Bool :=
  match numeral? token with
  | some (_, rest) => rest.isEmpty
  | none => false

def isBracketed (token : List Char) : Bool :=
  token.head? == some '<' && token.getLast? == some '>'

/-- The literal of a token that starts with a quote. Without a closing quote, the token without the
quotes at its ends is the value. -/
def literalOf (token : List Char) : Literal :=
  match quotedText? token with
  | some (body, mark) =>
    let value := String.ofList (unescapeQuotes body.tail.dropLast)
    match mark with
    | '@' :: tag => ⟨value, some (String.ofList tag), none⟩
    | '^' :: '^' :: name =>
      let name := if isBracketed name then name.tail.dropLast else name
      ⟨value, none, some (String.ofList name)⟩
    | _ => ⟨value, none, none⟩
  | none => ⟨String.ofList (stripBoth (· == '"') token), none, none⟩

/-- The term of a token. The word `a` is the predicate between a thing and its type. -/
def termOf (token : List Char) : PatternTerm :=
  match token with
  | '?' :: name => .var (String.ofList name)
  | '$' :: name => .var (String.ofList name)
  | ['a'] => .iri (Namespace.rdf ++ "type")
  | '"' :: _ => .literal (literalOf token)
  | _ =>
    if isBracketed token then .iri (String.ofList token.tail.dropLast)
    else if isNumeral token then .literal ⟨String.ofList token, none, none⟩
    else .iri (String.ofList token)

/-- A token put in front of the first statement. -/
def consFirst (token : List Char) : List (List (List Char)) → List (List (List Char))
  | [] => [[token]]
  | s :: ss => (token :: s) :: ss

/-- The statements that full stops separate. -/
def statements : List (List Char) → List (List (List Char))
  | [] => [[]]
  | t :: ts => if t = ['.'] then [] :: statements ts else consFirst t (statements ts)

def patternOf? : List (List Char) → Option TriplePattern
  | [s, p, o] => some ⟨termOf s, termOf p, termOf o⟩
  | _ => none

/-- A query and the statements of its block that were dropped. -/
structure Parsed where
  query : SelectQuery
  dropped : List (List String)

/-- The wording of the warning about a dropped statement. -/
def droppedMessage (terms : List String) : String :=
  "Dropping statement with " ++ toString terms.length ++ " terms: " ++
    Text.quoted (String.intercalate " " terms)

/-- The clause in a text, and the text behind it as it was written. -/
def clauseIn? {α : Type} (reader : Option Char → List Char → Option (α × List Char))
    (cs : List Char) : Option (α × List Char) :=
  let expanded := expandTabs cs
  (find? reader none expanded).map fun (a, rest) => (a, cs.drop (expanded.length - rest.length))

/-- The prefixes of a query: the standard ones, those of its surroundings, and its own. -/
def prefixesOf (surroundings : List (String × String)) (cs : List Char) : Table String :=
  ((Table.ofList Namespace.standard).insertAll surroundings).insertAll
    (prefixClauses (expandTabs cs))

/-- Reads a query. -/
def parse (surroundings : List (String × String)) (s : String) : Except QueryError Parsed :=
  let cs := stripComments s.toList
  match clauseIn? selectClause? cs with
  | none => .error .noSelect
  | some (choice, rest) =>
    match clauseIn? blockClause? rest with
    | none => .error .noBlock
    | some (body, rest) =>
      let found := (statements (tokensOf body)).filter (!·.isEmpty)
      .ok {
        query := {
          projection := choice.projection
          patterns := found.filterMap patternOf?
          prefixes := prefixesOf surroundings cs
          distinct := choice.distinct
          limit := (clauseIn? limitClause? rest).map fun found => (found.1 : Int) }
        dropped := (found.filter fun s => (patternOf? s).isNone).map (·.map String.ofList) }

end Query

end Ontogram
