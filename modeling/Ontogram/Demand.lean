import Ontogram.Diagram.Read
import Ontogram.Encoding
import Ontogram.Query.Parse

set_option autoImplicit false

namespace Ontogram

/-- What an input asks for. -/
structure Demand where
  /-- The digits of the longest number that is converted. -/
  digits : Nat := 0
  nesting : Nat := 0

/-- What a machine has room for; without a bound there is room for all. -/
structure Room where
  digits : Option Nat := none
  /-- The levels that there is room for, whatever is nested in them. -/
  nesting : Option Nat := none

/-- Whether there is room for a demand. -/
def Room.fits (room : Room) (d : Demand) : Bool :=
  room.digits.all (d.digits ≤ ·) && room.nesting.all (d.nesting ≤ ·)

namespace Demand

def max (a b : Demand) : Demand :=
  ⟨Nat.max a.digits b.digits, Nat.max a.nesting b.nesting⟩

/-- The demand of what holds something else. -/
def deeper (d : Demand) : Demand :=
  { d with nesting := d.nesting + 1 }

end Demand

namespace Value

mutual

def demand : Value → Demand
  | scalar (.int n) => { digits := (toString n.natAbs).length }
  | scalar _ => {}
  | list items => (demandOfItems items).deeper
  | map entries => (demandOfEntries entries).deeper

def demandOfItems : List Value → Demand
  | [] => {}
  | v :: vs => v.demand.max (demandOfItems vs)

def demandOfEntries : List (Scalar × Value) → Demand
  | [] => {}
  | (_, v) :: rest => v.demand.max (demandOfEntries rest)

end

end Value

namespace Expression

/-- The digits of the number that the restriction in a list of tokens converts, if it has one. -/
def countDigits (tokens : List String) : Nat :=
  match shapeOf (stripOuter tokens) with
  | .restrict _ quantifier args =>
    if (number? quantifier args).isSome then (args.head?.map String.length).getD 0 else 0
  | _ => 0

mutual

/-- What reading and lowering the lists of a tree of calls asks for. -/
def CallTree.demand : CallTree → Demand
  | .node tokens calls => (Demand.max { digits := countDigits tokens } (demandOfCalls calls)).deeper

def demandOfCalls : List CallTree → Demand
  | [] => {}
  | t :: ts => t.demand.max (demandOfCalls ts)

end

def demand (s : String) : Demand :=
  (callTree (balance (tokens s))).demand

end Expression

namespace Query

/-- The most braces that are open at once, up to the one that closes `depth` open ones. -/
def openBraces (depth : Nat) : List Char → Nat
  | [] => depth
  | c :: cs =>
    match _h : quotedRest? (c :: cs) with
    | some rest => openBraces depth rest
    | none =>
      if c = '\x7b' then openBraces (depth + 1) cs
      else if c = '\x7d' then if depth ≤ 1 then depth else Nat.max depth (openBraces (depth - 1) cs)
      else openBraces depth cs
termination_by cs => cs.length
decreasing_by
  · exact length_quotedRest?_lt _h
  · simp
  · simp
  · simp

/-- The most braces that are open at once in the search for a block, which begins at every brace
until one of them is closed. -/
def searchBraces : List Char → Nat
  | [] => 0
  | c :: cs =>
    if c = '\x7b' then
      if (closeBraces 1 cs).isSome then openBraces 1 cs
      else Nat.max (openBraces 1 cs) (searchBraces cs)
    else searchBraces cs

/-- What reading a query asks for. Without a choice of variables no block is looked for, and without
a block no limit. -/
def demand (s : String) : Demand :=
  match clauseIn? selectClause? (stripComments s.toList) with
  | none => {}
  | some (_, rest) =>
    let nesting := searchBraces (Text.expandTabs rest)
    match (clauseIn? blockClause? rest).bind fun found => clauseIn? limitDigits? found.2 with
    | none => { nesting }
    | some (digits, _) => { nesting, digits := digits.length }

end Query

namespace Encoding

/-- The class expression that an axiom of a kind that fits its entity is read as, if it is read as
one. -/
def kindExpression? (e : Entity) (a : Axiom) : Option String :=
  let property := Text.underscored a.name
  match AxiomKind.ofName a.name with
  | .unionOf | .intersectionOf | .oneOf | .disjointUnionOf | .hasKey | .propertyChain => none
  | .range =>
    if e.kind = .dataProperty && (Text.words a.expression).length == 1 then none
    else some a.expression
  | .implicitRestriction =>
    if e.isProperty then none
    else if property = "" then none
    else some (restrictionText property a.expression)
  | _ => some a.expression

/-- The class expression that an axiom is read as, if it is read as one. -/
def expressionOf? (e : Entity) (a : Axiom) : Option String :=
  let kind := AxiomKind.ofName a.name
  if Text.strip a.expression = "" then none
  else if kind.isPropertyOnly && !e.isProperty then none
  else if kind.isClassOnly && e.isProperty then none
  else kindExpression? e a

/-- A contribution that starts with node `n` is one triple more than the expression of a text, or
takes no node where there is no text. -/
def Stems (r : Resolver) (n : Int) (m : Emission) : Option String → Prop
  | none => m.next = n
  | some text => ∃ link, m = .ofTriples (link :: (Expression.lowerText r text n).triples)
      (Expression.lowerText r text n).next

theorem stems_emitKind (r : Resolver) (e : Entity) (subject : Term) (a : Axiom) (n : Int) :
    Stems r n (emitKind r e subject a n) (kindExpression? e a) := by
  unfold emitKind kindExpression?
  cases AxiomKind.ofName a.name with
  | unionOf | intersectionOf | oneOf | disjointUnionOf | hasKey | propertyChain => rfl
  | range =>
    unfold emitRange
    dsimp only
    split
    · rfl
    · exact ⟨_, rfl⟩
  | implicitRestriction =>
    unfold emitRestriction
    dsimp only
    split
    · rfl
    · split
      · rfl
      · exact ⟨_, rfl⟩
  | _ => exact ⟨_, rfl⟩

/-- What an axiom contributes stems from the expression that it is read as. -/
theorem stems_emitAxiom (r : Resolver) (e : Entity) (subject : Term) (a : Axiom) (n : Int) :
    Stems r n (emitAxiom r e subject a n) (expressionOf? e a) := by
  unfold emitAxiom expressionOf?
  dsimp only
  split
  · rfl
  split
  · rfl
  split
  · rfl
  · exact stems_emitKind r e subject a n

/-- What reading the axioms of entities asks for. -/
def demands (entities : List Entity) : List Demand :=
  entities.flatMap fun e => (e.axioms.filterMap (expressionOf? e)).map Expression.demand

end Encoding

end Ontogram
