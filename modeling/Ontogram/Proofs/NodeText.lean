import Ontogram.Proofs.Identifier

set_option autoImplicit false

namespace Ontogram

open Text (isBlank stripBoth)

/-- Whether a text starts as the display text of an anonymous node does. -/
def isNodeText (s : String) : Bool :=
  ['_', ':'].isPrefixOf s.toList

/-- Whether no text that starts with a given one looks like a node. -/
def StaysApart (s : String) : Prop :=
  ∀ rest, isNodeText (s ++ rest) = false

theorem isNodeText_ofList_iff {cs : List Char} :
    isNodeText (String.ofList cs) = true ↔ ∃ rest, cs = '_' :: ':' :: rest := by
  rw [isNodeText, String.toList_ofList, List.isPrefixOf_iff_prefix]
  exact ⟨fun ⟨rest, text⟩ => ⟨rest, text.symm⟩, fun ⟨rest, text⟩ => ⟨rest, text.symm⟩⟩

theorem isNodeText_iff {s : String} :
    isNodeText s = true ↔ ∃ rest, s.toList = '_' :: ':' :: rest := by
  rw [← isNodeText_ofList_iff, String.ofList_toList]

theorem isNodeText_of_prefix {cs ds : List Char} (front : cs <+: ds)
    (h : isNodeText (String.ofList cs) = true) : isNodeText (String.ofList ds) = true := by
  obtain ⟨rest, rfl⟩ := isNodeText_ofList_iff.1 h
  obtain ⟨more, rfl⟩ := front
  exact isNodeText_ofList_iff.2 ⟨rest ++ more, rfl⟩

/-- A text that looks like a node starts with one, or with nothing or an underscore alone. -/
theorem eq_of_isNodeText_append {s rest : String} (plain : isNodeText s = false)
    (h : isNodeText (s ++ rest) = true) :
    s = "" ∧ isNodeText rest = true ∨ s = "_" ∧ rest.toList.head? = some ':' := by
  obtain ⟨behind, text⟩ := isNodeText_iff.1 h
  rw [String.toList_append] at text
  cases front : s.toList with
  | nil =>
    rw [front] at text
    exact Or.inl ⟨String.toList_inj.1 (front.trans rfl), isNodeText_iff.2 ⟨behind, text⟩⟩
  | cons c cs =>
    rw [front, List.cons_append] at text
    obtain ⟨first, more⟩ := List.cons.inj text
    subst first
    cases cs with
    | nil =>
      have colon : rest.toList = ':' :: behind := more
      exact Or.inr ⟨String.toList_inj.1 (front.trans rfl), by rw [colon]; rfl⟩
    | cons d cs =>
      obtain ⟨second, -⟩ := List.cons.inj more
      subst second
      rw [isNodeText_iff.2 ⟨cs, front⟩] at plain
      cases plain

theorem staysApart_of {s : String} (plain : isNodeText s = false) (filled : s ≠ "")
    (more : s ≠ "_") : StaysApart s := by
  intro rest
  refine Bool.eq_false_iff.2 fun h => ?_
  rcases eq_of_isNodeText_append plain h with ⟨none, -⟩ | ⟨one, -⟩
  · exact filled none
  · exact more one

theorem StaysApart.isNodeText_eq_false {s : String} (h : StaysApart s) : isNodeText s = false := by
  simpa using h ""

/-- A base ends in a mark, so what is appended to it cannot make it look like a node. -/
theorem staysApart_closed {base : String} (plain : isNodeText (Namespace.closed base) = false) :
    StaysApart (Namespace.closed base) := by
  unfold Namespace.closed at plain ⊢
  split
  · exact staysApart_of (by decide) (by decide) (by decide)
  rename_i filled
  rw [if_neg filled] at plain
  split
  · rename_i closed
    rw [if_pos closed] at plain
    refine staysApart_of plain filled ?_
    rintro rfl
    revert closed
    decide
  · rename_i opened
    rw [if_neg opened] at plain
    have last : (base ++ "#").toList.getLast? = some '#' := by simp
    refine staysApart_of plain ?_ ?_ <;> intro same <;> rw [same] at last <;> revert last <;> decide

theorem staysApart_vocabulary : ∀ space ∈ [Namespace.rdf, Namespace.rdfs, Namespace.owl,
    Namespace.skos, Namespace.xsd], StaysApart space := by
  have each : ∀ space ∈ [Namespace.rdf, Namespace.rdfs, Namespace.owl, Namespace.skos,
      Namespace.xsd], isNodeText space = false ∧ space ≠ "" ∧ space ≠ "_" := by decide
  exact fun space mem => staysApart_of (each space mem).1 (each space mem).2.1 (each space mem).2.2

/-! Terms. -/

/-- Whether a term is an IRI that looks like a node. -/
def Term.isNodeName : Term → Bool
  | .iri value => isNodeText value
  | _ => false

theorem Term.isNodeText_of_isNodeName {t : Term} (h : t.isNodeName = true) :
    isNodeText t.display = true := by
  cases t with
  | iri value => exact h
  | blank label => cases h
  | literal l => cases h
  | list items => cases h

theorem Term.isNodeText_blank (label : String) : isNodeText (Term.blank label).display = true :=
  isNodeText_iff.2 ⟨label.toList, by simp [Term.display]⟩

theorem isNodeText_quoted (cs : List Char) (s : String) :
    isNodeText (String.ofList ('"' :: cs) ++ s) = false := by
  refine Bool.eq_false_iff.2 fun h => ?_
  obtain ⟨rest, text⟩ := isNodeText_iff.1 h
  simp at text

/-- Only nodes and IRIs look like nodes. -/
theorem Term.isNodeText_display {t : Term} (h : isNodeText t.display = true) :
    t.isNodeName = true ∨ ∃ label, t = .blank label := by
  cases t with
  | iri value => exact Or.inl h
  | blank label => exact Or.inr ⟨label, rfl⟩
  | literal l =>
    rw [Term.display, Literal.display, List.cons_append, isNodeText_quoted] at h
    cases h
  | list items =>
    obtain ⟨rest, text⟩ := isNodeText_iff.1 h
    cases items <;> simp [Term.display] at text

/-! Names. -/

namespace Resolver

/-- Whether neither the base of a resolver nor a namespace in its table looks like a node. -/
structure IsPlain (r : Resolver) : Prop where
  base : isNodeText r.base = false
  spaces : ∀ entry ∈ r.prefixes.entries, isNodeText entry.2 = false

/-- Whether, moreover, nothing that starts with the base does. -/
structure StaysApart (r : Resolver) : Prop where
  base : Ontogram.StaysApart r.base
  spaces : ∀ entry ∈ r.prefixes.entries, isNodeText entry.2 = false

theorem IsPlain.staysApart {base baseName : String} {more : List (String × String)}
    (h : (create base baseName more).IsPlain) : (create base baseName more).StaysApart :=
  ⟨staysApart_closed h.base, h.spaces⟩

/-- A text that is looked up in the table of prefixes, if it has a colon. -/
structure IsLookedUp (cs : List Char) : Prop where
  unquoted : cs.head? ≠ some '"'
  unbracketed : isBracketed cs = false
  relative : isAbsolute cs = false
  solid : ∀ c ∈ cs, isBlank c = false

/-- The names that are read as a term that looks like a node: in brackets, or with the prefix of a
namespace that is empty or an underscore. -/
inductive WritesNode (r : Resolver) : List Char → Prop where
  | bracketed (name : List Char) : WritesNode r ('<' :: '_' :: ':' :: (name ++ ['>']))
  | expanded {name rest : List Char} {space : String} (looked : IsLookedUp (name ++ ':' :: rest))
    (first : ':' ∉ name) (other : name ≠ ['_'])
    (known : r.prefixes.get? (String.ofList name) = some space)
    (node : space = "" ∧ isNodeText (String.ofList rest) = true ∨
      space = "_" ∧ rest.head? = some ':') :
    WritesNode r (name ++ ':' :: rest)

/-- Whether a token is such a name, whatever blanks stand around it. -/
def WritesNodeAs (r : Resolver) (token : String) : Prop :=
  r.WritesNode (stripBoth isBlank token.toList)

theorem takeWhile_colon {name rest : List Char} (first : ':' ∉ name) :
    (name ++ ':' :: rest).takeWhile (· ≠ ':') = name :=
  congrArg Prod.fst (PatternTerm.span_colon first rest)

theorem exists_eq_of_colon {cs : List Char} (h : ':' ∈ cs) :
    ∃ rest, cs = cs.takeWhile (· ≠ ':') ++ ':' :: rest ∧ ':' ∉ cs.takeWhile (· ≠ ':') := by
  obtain ⟨name, rest, rfl, first⟩ := List.eq_append_cons_of_mem h
  rw [takeWhile_colon first]
  exact ⟨rest, rfl, first⟩

variable {r : Resolver}

theorem isNodeText_eq_false_of_isAbsolute {cs : List Char} (absolute : isAbsolute cs = true) :
    isNodeText (String.ofList cs) = false := by
  refine Bool.eq_false_iff.2 fun h => ?_
  obtain ⟨rest, rfl⟩ := isNodeText_ofList_iff.1 h
  simp [isAbsolute, schemes] at absolute

theorem exists_of_isBracketed {cs : List Char} (h : isBracketed cs = true) :
    cs = '<' :: (inner cs ++ ['>']) := by
  simp only [isBracketed, Bool.and_eq_true, beq_iff_eq] at h
  obtain ⟨opening, closing⟩ := h
  obtain ⟨t, rfl⟩ := List.head?_eq_some_iff.1 opening
  cases t with
  | nil => cases closing
  | cons c t =>
    rw [List.getLast?_cons_cons] at closing
    rw [inner, List.tail_cons, List.dropLast_append_getLast? '>' closing]

theorem iriOf_of_isLookedUp {name rest : List Char} {space : String}
    (looked : IsLookedUp (name ++ ':' :: rest)) (first : ':' ∉ name) (other : name ≠ ['_'])
    (known : r.prefixes.get? (String.ofList name) = some space) :
    r.iriOf (name ++ ':' :: rest) = space ++ String.ofList rest := by
  have plain : (name ++ ':' :: rest).any isBlank = false :=
    List.any_eq_false.2 fun c mem => by simp [looked.solid c mem]
  have unmarked : ¬ "_:".toList.isPrefixOf (name ++ ':' :: rest) = true := fun marked =>
    other (PatternTerm.eq_of_isPrefixOf (by decide : ':' ∉ ['_']) first marked).1
  have behind : (name ++ ':' :: rest).drop (name.length + 1) = rest := by simp
  unfold iriOf
  rw [if_neg (by simp), if_neg (by simp [looked.unbracketed]), if_neg (by simp [looked.relative]),
    if_neg unmarked, if_pos (by simp [plain])]
  simp only [takeWhile_colon first, known, behind]

theorem WritesNode.isNodeText_iriOf {cs : List Char} (h : r.WritesNode cs) :
    isNodeText (r.iriOf cs) = true ∧ cs.head? ≠ some '"' := by
  cases h with
  | bracketed name =>
    have bracketed : isBracketed ('<' :: '_' :: ':' :: (name ++ ['>'])) = true := by
      have last : ('<' :: '_' :: ':' :: (name ++ ['>'])).getLast? = some '>' := by
        rw [← List.cons_append, ← List.cons_append, ← List.cons_append, List.getLast?_concat]
      rw [isBracketed, last]
      rfl
    refine ⟨?_, by simp⟩
    unfold iriOf
    rw [if_neg (by simp), if_pos bracketed, isNodeText_ofList_iff, inner, List.tail_cons,
      ← List.cons_append, ← List.cons_append, List.dropLast_concat]
    exact ⟨name, rfl⟩
  | @expanded name rest space looked first other known node =>
    refine ⟨?_, looked.unquoted⟩
    rw [iriOf_of_isLookedUp looked first other known]
    rcases node with ⟨rfl, node⟩ | ⟨rfl, next⟩
    · rwa [String.empty_append]
    · obtain ⟨more, rfl⟩ := List.head?_eq_some_iff.1 next
      exact isNodeText_iff.2 ⟨more, by simp⟩

theorem not_writesNodeAs_of {token : String} (h : isNodeText (r.resolve token).display = false) :
    ¬ r.WritesNodeAs token := by
  intro node
  obtain ⟨text, unquoted⟩ := WritesNode.isNodeText_iriOf node
  rw [resolve, termOf, if_neg unquoted, Term.display, text] at h
  cases h

section Apart

variable (apart : r.StaysApart)
include apart

theorem isNodeText_atBase (cs : List Char) : isNodeText (r.atBase cs) = false :=
  apart.base _

theorem writesNode_of_known {name rest : List Char} {space : String}
    (looked : IsLookedUp (name ++ ':' :: rest)) (first : ':' ∉ name) (other : name ≠ ['_'])
    (known : r.prefixes.get? (String.ofList name) = some space)
    (h : isNodeText (space ++ String.ofList rest) = true) : r.WritesNode (name ++ ':' :: rest) := by
  refine .expanded looked first other known ?_
  have plain := apart.spaces _ (Table.mem_of_valueIn known)
  rcases eq_of_isNodeText_append plain h with none | ⟨one, next⟩
  · exact Or.inl none
  · exact Or.inr ⟨one, by rwa [String.toList_ofList] at next⟩

/-- What a name is read as looks like a node only if it is one of those names. -/
theorem writesNode_of_iriOf {cs : List Char} (unquoted : cs.head? ≠ some '"')
    (h : isNodeText (r.iriOf cs) = true) : r.WritesNode cs := by
  have base (cs : List Char) : ¬ isNodeText (r.atBase cs) = true := by
    simp [isNodeText_atBase apart cs]
  unfold iriOf at h
  split at h
  · exact absurd h (base cs)
  split at h
  · rename_i bracketed
    obtain ⟨name, inside⟩ := isNodeText_ofList_iff.1 h
    rw [exists_of_isBracketed bracketed, inside]
    exact .bracketed name
  rename_i unbracketed
  split at h
  · rename_i absolute
    rw [isNodeText_eq_false_of_isAbsolute absolute] at h
    cases h
  rename_i relative
  split at h
  · exact absurd h (base _)
  rename_i other
  split at h
  · rename_i colon
    simp only [Bool.and_eq_true, List.contains_iff_mem, Bool.not_eq_true', List.any_eq_false,
      Bool.not_eq_true] at colon
    obtain ⟨rest, text, first⟩ := exists_eq_of_colon colon.1
    simp only at h
    generalize cs.takeWhile (· ≠ ':') = name at h text first
    subst text
    have another : name ≠ ['_'] := by
      rintro rfl
      exact other rfl
    split at h
    · rename_i space known
      have behind : (name ++ ':' :: rest).drop (name.length + 1) = rest := by simp
      rw [behind] at h
      have looked : IsLookedUp (name ++ ':' :: rest) :=
        ⟨unquoted, by simpa using unbracketed, by simpa using relative, colon.2⟩
      exact writesNode_of_known apart looked first another known h
    · obtain ⟨more, text⟩ := isNodeText_ofList_iff.1 h
      rw [text] at other
      exact absurd rfl other
  split at h
  · have spaces := staysApart_vocabulary Namespace.owl (by simp)
    rw [spaces] at h
    cases h
  · exact absurd h (base cs)

/-- Exactly those names are read as what looks like a node. -/
theorem isNodeText_resolve_iff (token : String) :
    isNodeText (r.resolve token).display = true ↔ r.WritesNodeAs token := by
  unfold resolve termOf WritesNodeAs
  generalize stripBoth isBlank token.toList = cs
  by_cases quoted : cs.head? = some '"'
  · rw [if_pos quoted, Term.display, Literal.display, List.cons_append, isNodeText_quoted]
    refine iff_of_false (by simp) fun h => h.isNodeText_iriOf.2 quoted
  · rw [if_neg quoted]
    exact ⟨writesNode_of_iriOf apart quoted, fun h => h.isNodeText_iriOf.1⟩

end Apart

end Resolver

end Ontogram
