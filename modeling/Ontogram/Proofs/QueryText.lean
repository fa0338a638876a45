import Ontogram.Proofs.Ascii
import Ontogram.Query.Parse

set_option autoImplicit false

namespace Ontogram.Query

open Text (isPlainChar)

/-- An item is a keyword in some case. -/
def Spells (item : List Char) (word : String) : Prop :=
  item.map Char.toUpper = word.toList

instance (item : List Char) (word : String) : Decidable (Spells item word) :=
  inferInstanceAs (Decidable (_ = _))

/-- A letter, then letters, digits and underscores. -/
structure IsIdentifier (name : List Char) : Prop where
  letter : name.head?.any Char.isAlpha = true
  chars : name.all isPlainChar = true

def isIriText (c : Char) : Bool :=
  c.isAlphanum || [':', '/', '#', '_', '.', '-'].contains c

def isQuotedText (c : Char) : Bool :=
  c.isAlphanum || [' ', '.', ',', ';', '#', '\x7b', '\x7d'].contains c

def bracket (iri : List Char) : List Char :=
  '<' :: (iri ++ ['>'])

/-- A name with a prefix. -/
def qualified (space name : List Char) : List Char :=
  space ++ ':' :: name

/-- The language or the datatype of a literal, and what is written for it behind the quotes. -/
inductive MarkText : Option String → Option String → List Char → Prop where
  | none : MarkText none none []
  | language {c : Char} {tag : List Char} (letter : c.isAlpha = true)
      (chars : (tag.all fun d => d.isAlphanum || d == '-') = true) :
      MarkText (some (String.ofList (c :: tag))) none ('@' :: c :: tag)
  | iri {iri : List Char} (chars : iri.all isIriText = true) :
      MarkText none (some (String.ofList iri)) ('^' :: '^' :: bracket iri)
  | qualified {space name : List Char} (hs : IsIdentifier space) (hn : IsIdentifier name) :
      MarkText none (some (String.ofList (qualified space name)))
        ('^' :: '^' :: qualified space name)

/-- A variable and what is written for it. -/
inductive VariableText : String → List Char → Prop where
  | var {mark : Char} {name : List Char} (marked : mark = '?' ∨ mark = '$') (nonempty : name ≠ [])
      (chars : name.all isPlainChar = true) : VariableText (String.ofList name) (mark :: name)

/-- A term and what is written for it. Unlike the keywords, `a` has one case only. -/
inductive TermText : PatternTerm → List Char → Prop where
  | var {name : String} {text : List Char} (h : VariableText name text) : TermText (.var name) text
  | iri {iri : List Char} (chars : iri.all isIriText = true) :
      TermText (.iri (String.ofList iri)) (bracket iri)
  | qualified {space name : List Char} (hs : IsIdentifier space) (hn : IsIdentifier name) :
      TermText (.iri (String.ofList (qualified space name))) (qualified space name)
  | type : TermText (.iri (Namespace.rdf ++ "type")) ['a']
  | integer {sign digits : List Char} (signed : sign = [] ∨ sign = ['+'] ∨ sign = ['-'])
      (nonempty : digits ≠ []) (hd : digits.all Char.isDigit = true) :
      TermText (.literal ⟨String.ofList (sign ++ digits), none, none⟩) (sign ++ digits)
  | literal {text mark : List Char} {language datatype : Option String}
      (chars : text.all isQuotedText = true) (marked : MarkText language datatype mark) :
      TermText (.literal ⟨String.ofList text, language, datatype⟩)
        ('"' :: (text ++ '"' :: mark))

/-- The items of prefix declarations. -/
inductive DeclarationItems : List (String × String) → List (List Char) → Prop where
  | nil : DeclarationItems [] []
  | cons {word name iri : List Char} {declared : List (String × String)}
      {items : List (List Char)} (spelled : Spells word "PREFIX") (named : IsIdentifier name)
      (chars : iri.all isIriText = true) (rest : DeclarationItems declared items) :
      DeclarationItems ((String.ofList name, String.ofList iri) :: declared)
        (word :: (name ++ [':']) :: bracket iri :: items)

/-- The items for whether equal rows count once. -/
inductive DistinctItems : Bool → List (List Char) → Prop where
  | no : DistinctItems false []
  | yes {word : List Char} (spelled : Spells word "DISTINCT") : DistinctItems true [word]

/-- The items of the variables: a star for all, or at least one. -/
inductive ProjectionItems : List String → List (List Char) → Prop where
  | all : ProjectionItems [] [['*']]
  | one {name : String} {text : List Char} (h : VariableText name text) :
      ProjectionItems [name] [text]
  | more {name other : String} {text : List Char} {names : List String}
      {items : List (List Char)} (h : VariableText name text)
      (rest : ProjectionItems (other :: names) items) :
      ProjectionItems (name :: other :: names) (text :: items)

/-- The item in front of the block, which may be missing. -/
inductive WhereItems : List (List Char) → Prop where
  | none : WhereItems []
  | word {word : List Char} (spelled : Spells word "WHERE") : WhereItems [word]

/-- The items of a pattern block: three for each pattern and a full stop between each two, which may
also follow the last. -/
inductive BlockItems : List TriplePattern → List (List Char) → Prop where
  | nil : BlockItems [] []
  | last {p : TriplePattern} {s q o : List Char} (hs : TermText p.subject s)
      (hq : TermText p.predicate q) (ho : TermText p.object o) : BlockItems [p] [s, q, o]
  | cons {p : TriplePattern} {s q o : List Char} {patterns : List TriplePattern}
      {items : List (List Char)} (hs : TermText p.subject s) (hq : TermText p.predicate q)
      (ho : TermText p.object o) (rest : BlockItems patterns items) :
      BlockItems (p :: patterns) (s :: q :: o :: ['.'] :: items)

/-- The items of the limit. -/
inductive LimitItems : Option Nat → List (List Char) → Prop where
  | none : LimitItems none []
  | some {word digits : List Char} (spelled : Spells word "LIMIT") (nonempty : digits ≠ [])
      (hd : digits.all Char.isDigit = true) :
      LimitItems (some (Nat.ofDigitChars 10 digits 0)) [word, digits]

/-- The parts of a query as they are written. -/
structure Written where
  declared : List (String × String)
  distinct : Bool
  projection : List String
  patterns : List TriplePattern
  limit : Option Nat

/-- The items of a query. -/
inductive QueryItems : Written → List (List Char) → Prop where
  | query {q : Written} {word : List Char} {declarations distinct projection whereWord block
      limit : List (List Char)} (hd : DeclarationItems q.declared declarations)
      (spelled : Spells word "SELECT") (hu : DistinctItems q.distinct distinct)
      (hv : ProjectionItems q.projection projection) (hw : WhereItems whereWord)
      (hb : BlockItems q.patterns block) (hl : LimitItems q.limit limit) :
      QueryItems q (declarations ++ word :: (distinct ++ (projection ++ (whereWord ++
        ['\x7b'] :: (block ++ ['\x7d'] :: limit)))))

/-- Blanks and line feeds. -/
def Blank (gap : List Char) : Prop :=
  ∀ c ∈ gap, c = ' ' ∨ c = '\n'

/-- Blanks, line feeds and comments. -/
inductive Gap : List Char → Prop where
  | nil : Gap []
  | blank {c : Char} {gap : List Char} (h : c = ' ' ∨ c = '\n') (rest : Gap gap) : Gap (c :: gap)
  | comment {body gap : List Char} (line : '\n' ∉ body) (rest : Gap gap) :
      Gap ('#' :: (body ++ '\n' :: gap))

/-- A gap at the end of a text, where a comment needs no line feed. -/
inductive LastGap : List Char → Prop where
  | gap {gap : List Char} (h : Gap gap) : LastGap gap
  | comment {gap body : List Char} (h : Gap gap) (line : '\n' ∉ body) :
      LastGap (gap ++ '#' :: body)

/-- A character at which an item ends. -/
def isBreak (c : Char) : Bool :=
  [' ', '\n', '\x7b', '\x7d'].contains c

/-- A character at which an item or a comment behind it starts or ends. -/
def isStop (c : Char) : Bool :=
  c == '#' || isBreak c

/-- An item ends in front of a stop, or of a full stop with a stop behind it. -/
def Ends (stop : Char → Bool) (rest : List Char) : Prop :=
  ∀ c ∈ rest.head?, stop c = true ∨ c = '.' ∧ ∀ d ∈ rest.tail.head?, stop d = true

/-- Items with gaps around them. Only braces may touch what follows them. -/
inductive LaidOut (gap last : List Char → Prop) (stop : Char → Bool) :
    List (List Char) → List Char → Prop where
  | nil {cs : List Char} (h : last cs) : LaidOut gap last stop [] cs
  | cons {item cs rest : List Char} {items : List (List Char)} (h : gap cs)
      (apart : item = ['\x7b'] ∨ item = ['\x7d'] ∨ Ends stop rest)
      (others : LaidOut gap last stop items rest) :
      LaidOut gap last stop (item :: items) (cs ++ (item ++ rest))

def IsTextOf (q : Written) (s : String) : Prop :=
  ∃ items, QueryItems q items ∧ LaidOut Gap LastGap isStop items s.toList

/-- The query that the parts stand for, with its prefixes over those of its surroundings. -/
def Written.query (q : Written) (surroundings : List (String × String)) : SelectQuery where
  projection := q.projection
  patterns := q.patterns
  prefixes := ((Table.ofList Namespace.standard).insertAll surroundings).insertAll q.declared
  distinct := q.distinct
  limit := q.limit.map Int.ofNat

end Ontogram.Query
