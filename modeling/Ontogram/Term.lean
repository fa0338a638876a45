import Ontogram.Text.Escape

/-!
Terms and triples. A term is a named resource, an anonymous node, a literal or an ordered list of
terms. Each term has a display text, under which a store of triples holds it.
-/

set_option autoImplicit false

namespace Ontogram

/-- A value with at most a language tag or a datatype. An empty tag or datatype is shown as none. -/
structure Literal where
  value : String
  language : Option String := none
  datatype : Option String := none
deriving DecidableEq

/-- A resource reference. -/
inductive Term where
  /-- A resource named by an IRI. -/
  | iri (value : String)
  /-- An anonymous node. -/
  | blank (label : String)
  | literal (l : Literal)
  /-- An ordered list. -/
  | list (items : List Term)

/-- A statement. -/
structure Triple where
  subject : Term
  predicate : Term
  object : Term

namespace Literal

/-- What follows the closing quote of a literal: its tag, or else its datatype as `showType` writes
it. -/
def suffix (showType : String → String) (l : Literal) : String :=
  match l.language.filter (· ≠ ""), l.datatype.filter (· ≠ "") with
  | some language, _ => "@" ++ language
  | none, some datatype => "^^" ++ showType datatype
  | none, none => ""

/-- The display text: the escaped value in double quotes, then the tag or the datatype. -/
def display (l : Literal) : String :=
  String.ofList ('"' :: Text.escape l.value.toList ++ ['"']) ++
    l.suffix fun datatype => "<" ++ datatype ++ ">"

end Literal

namespace Term

mutual

/-- Whether two terms are the same. -/
def beq : Term → Term → Bool
  | iri a, iri b => a == b
  | blank a, blank b => a == b
  | literal a, literal b => a == b
  | list as, list bs => beqItems as bs
  | _, _ => false

/-- Whether two lists hold the same terms in the same order. -/
def beqItems : List Term → List Term → Bool
  | [], [] => true
  | a :: as, b :: bs => a.beq b && beqItems as bs
  | _, _ => false

end

mutual

theorem eq_of_beq : (a b : Term) → a.beq b = true → a = b
  | iri _, iri _, h => by simpa [beq] using h
  | blank _, blank _, h => by simpa [beq] using h
  | literal _, literal _, h => by simpa [beq] using h
  | list as, list bs, h => congrArg list (eq_of_beqItems as bs (by simpa [beq] using h))
  | iri _, blank _, h => by simp [beq] at h
  | iri _, literal _, h => by simp [beq] at h
  | iri _, list _, h => by simp [beq] at h
  | blank _, iri _, h => by simp [beq] at h
  | blank _, literal _, h => by simp [beq] at h
  | blank _, list _, h => by simp [beq] at h
  | literal _, iri _, h => by simp [beq] at h
  | literal _, blank _, h => by simp [beq] at h
  | literal _, list _, h => by simp [beq] at h
  | list _, iri _, h => by simp [beq] at h
  | list _, blank _, h => by simp [beq] at h
  | list _, literal _, h => by simp [beq] at h

theorem eq_of_beqItems : (as bs : List Term) → beqItems as bs = true → as = bs
  | [], [], _ => rfl
  | a :: as, b :: bs, h => by
    simp only [beqItems, Bool.and_eq_true] at h
    rw [eq_of_beq a b h.1, eq_of_beqItems as bs h.2]
  | [], _ :: _, h => by simp [beqItems] at h
  | _ :: _, [], h => by simp [beqItems] at h

end

mutual

theorem beq_refl : (a : Term) → a.beq a = true
  | iri _ => by simp [beq]
  | blank _ => by simp [beq]
  | literal _ => by simp [beq]
  | list as => by simpa [beq] using beqItems_refl as

theorem beqItems_refl : (as : List Term) → beqItems as as = true
  | [] => rfl
  | a :: as => by simp [beqItems, beq_refl a, beqItems_refl as]

end

instance : DecidableEq Term := fun a b =>
  if h : a.beq b = true then isTrue (eq_of_beq a b h)
  else isFalse fun e => h (e ▸ beq_refl a)

mutual

/-- The text under which a store holds the term. -/
def display : Term → String
  | iri value => value
  | blank label => "_:" ++ label
  | literal l => l.display
  | list [] => "()"
  | list (t :: ts) => "( " ++ String.intercalate " " (displays (t :: ts)) ++ " )"

def displays : List Term → List String
  | [] => []
  | t :: ts => t.display :: displays ts

end

/-- The text of a term in a printed statement: an IRI stands in angle brackets. -/
def printed : Term → String
  | iri value => "<" ++ value ++ ">"
  | t => t.display

end Term

namespace Triple

instance : DecidableEq Triple := fun a b =>
  if h : a.subject = b.subject ∧ a.predicate = b.predicate ∧ a.object = b.object then
    isTrue (by cases a; cases b; simp_all)
  else isFalse fun e => h (by subst e; simp)

def displays (t : Triple) : List String :=
  [t.subject.display, t.predicate.display, t.object.display]

/-- The statement with a full stop. -/
def printed (t : Triple) : String :=
  String.intercalate " " [t.subject.printed, t.predicate.printed, t.object.printed, "."]

end Triple

end Ontogram
