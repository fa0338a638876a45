import Ontogram.Outline
import Ontogram.Proofs.BareName

set_option autoImplicit false

namespace Ontogram

namespace Table

variable {α β : Type}

/-- Values that are mapped before they are written are found mapped. -/
theorem get?_ofList_map (f : α → β) (pairs : List (String × α)) (key : String) :
    (ofList (pairs.map fun p => (p.1, f p.2))).get? key = ((ofList pairs).get? key).map f := by
  have written (t : Table α) (u : Table β) (same : ∀ k, u.get? k = (t.get? k).map f) :
      (u.insertAll (pairs.map fun p => (p.1, f p.2))).get? key =
        ((t.insertAll pairs).get? key).map f := by
    induction pairs generalizing t u with
    | nil => exact same key
    | cons p pairs ih =>
      refine ih (t.insert p.1 p.2) (u.insert p.1 (f p.2)) fun k => ?_
      rw [get?_insert, get?_insert, same]
      split <;> rfl
  exact written ⟨[]⟩ ⟨[]⟩ fun _ => rfl

/-- A key that is written is there. -/
theorem isSome_get?_insertAll {pairs : List (String × α)} {key : String} (t : Table α)
    (h : key ∈ pairs.map Prod.fst ∨ (t.get? key).isSome = true) :
    ((t.insertAll pairs).get? key).isSome = true := by
  induction pairs generalizing t with
  | nil => exact h.resolve_left List.not_mem_nil
  | cons p pairs ih =>
    refine ih (t.insert p.1 p.2) ?_
    rw [get?_insert]
    split
    · exact Or.inr rfl
    · rename_i other
      exact h.imp_left fun there => (List.mem_cons.1 there).resolve_left other

end Table

namespace Emission

variable {α : Type} {t : Triple}

theorem mem_each {f : α → Int → Emission} {xs : List α} {x : α} (hx : x ∈ xs)
    (part : ∀ n, t ∈ (f x n).triples) (n : Int) : t ∈ (each f xs n).triples := by
  induction xs generalizing n with
  | nil => cases hx
  | cons y xs ih =>
    rcases List.mem_cons.1 hx with rfl | hx
    · exact List.mem_append_left _ (part n)
    · exact List.mem_append_right _ (ih hx _)

end Emission

namespace Resolver

variable (r : Resolver)

/-- An absolute IRI resolves to itself. -/
theorem resolve_of_isAbsolute {s : String} (absolute : isAbsolute s.toList = true)
    (ends : Text.strip s = s) : r.resolve s = .iri s := by
  have ends : Text.stripBoth Text.isBlank s.toList = s.toList := by
    have same := congrArg String.toList ends
    rwa [Text.strip, String.toList_ofList] at same
  obtain ⟨c, cs, shape, unquoted, unbracketed⟩ :
      ∃ c cs, s.toList = c :: cs ∧ c ≠ '"' ∧ c ≠ '<' := by
    obtain ⟨scheme, known, front⟩ := List.any_eq_true.1 absolute
    obtain ⟨rest, whole⟩ := List.isPrefixOf_iff_prefix.1 front
    simp only [schemes, List.mem_cons, List.not_mem_nil, or_false] at known
    rcases known with rfl | rfl | rfl <;> exact ⟨_, _, whole.symm, by decide, by decide⟩
  have token : isQuoted s = false := by
    rw [isQuoted, ends, shape]
    simpa using unquoted
  have there : s.toList.isEmpty = false := by rw [shape]; rfl
  have unmarked : isBracketed s.toList = false := by simp [isBracketed, shape, unbracketed]
  rw [r.resolve_of_not_isQuoted token, ends, iriOf, there, unmarked, absolute,
    String.ofList_toList]
  rfl

end Resolver

open Encoding (subjectOf declaration)

/-- Whether the name of an entity is simple: its label is a simple name, and its own IRI, if it has
one, is absolute and without blanks at its ends. -/
structure Entity.IsSimplyNamed (e : Entity) : Prop where
  label : Resolver.IsSimpleName e.label
  iri : ∀ iri, e.iri.bind Text.nonEmpty = some iri →
    Resolver.isAbsolute iri.toList = true ∧ Text.strip iri = iri

/-- The labels of relations that are simple among given entities. -/
inductive Relation.IsSimpleLabel (entities : List Entity) : String → Prop where
  | type : IsSimpleLabel entities "type"
  | subClassOf : IsSimpleLabel entities "subClassOf"
  | property {p : Entity} (mem : p ∈ entities) (property : p.isProperty = true) :
    IsSimpleLabel entities p.label
  | name {label : String} (simple : Resolver.IsSimpleName label)
    (word : "http".toList.isPrefixOf label.toList = false) : IsSimpleLabel entities label

theorem Resolver.IsSimpleName.ne_empty {s : String} (h : IsSimpleName s) : s ≠ "" := by
  rintro rfl
  obtain ⟨c, first, -⟩ := h.first
  cases first

theorem Relation.IsSimpleLabel.ne_empty {entities : List Entity} {label : String}
    (h : IsSimpleLabel entities label) (labels : ∀ e ∈ entities, e.label ≠ "") : label ≠ "" := by
  cases h with
  | type => decide
  | subClassOf => decide
  | property mem _ => exact labels _ mem
  | name simple _ => exact simple.ne_empty

/-- A simply named entity has one IRI in the outline and in the encoding. -/
theorem Encoding.subjectOf_of_isSimplyNamed (r : Resolver) {e : Entity} (h : e.IsSimplyNamed) :
    subjectOf r e = .iri (Outline.iriOf r.base e) := by
  have name : r.resolve (Text.orElse e.iri e.label) = .iri (Outline.iriOf r.base e) := by
    unfold Text.orElse Outline.iriOf
    cases own : e.iri.bind Text.nonEmpty with
    | some iri => exact r.resolve_of_isAbsolute (h.iri iri own).1 (h.iri iri own).2
    | none => exact r.resolve_of_isBareName h.label.isBareName
  rw [subjectOf, name]

namespace Encoding

section Encoded

variable {r : Resolver} {language : String} {inferred : Bool} {entities : List Entity}
  {relations : List Relation} {metadata : Option Metadata} {t : Triple}

/-- What an entity contributes whatever the number of its first node is part of an encoding. -/
theorem mem_withResolver_of_mem_emitEntity {e : Entity} (he : e ∈ entities)
    (part : ∀ n, t ∈ (emitEntity r language e n).triples) :
    t ∈ (withResolver r language inferred entities relations metadata).triples :=
  mem_firsts.2 (List.mem_append_left _ (List.mem_append_right _ (Emission.mem_each he part _)))

/-- The declarations of entities are part of an encoding. -/
theorem mem_withResolver_of_mem_declaration {e : Entity} (he : e ∈ entities)
    (ht : t ∈ declaration (subjectOf r e) language e) :
    t ∈ (withResolver r language inferred entities relations metadata).triples :=
  mem_withResolver_of_mem_emitEntity he fun _ => List.mem_append_left _ (List.mem_append_left _
    (List.mem_append_left _ (List.mem_append_left _ ht)))

end Encoded

namespace Canvas

variable {c : Canvas} {t : Triple}

/-- What a relation draws whatever was declared before it is drawn among all relations. -/
theorem mem_relations {e : Relation} {es : List Relation} (he : e ∈ es)
    (part : ∀ declared, t ∈ (c.relation declared e).1) (declared : List String) :
    t ∈ (c.relations declared es).1 := by
  induction es generalizing declared with
  | nil => cases he
  | cons d es ih =>
    rcases List.mem_cons.1 he with rfl | he
    · exact List.mem_append_left _ (part declared)
    · exact List.mem_append_right _ (ih he _)

/-- A relation that is kept draws its edge. -/
theorem edge_mem_relation {e : Relation} {source target : Entity} {predicate : Term}
    (kept : c.inferred = true) (atSource : c.byId.get? e.source = some source)
    (atTarget : c.byId.get? e.target = some target)
    (named : (Vocabulary.structural? e.label).or (c.predicate? e.label) = some predicate)
    (declared : List String) :
    (⟨subjectOf c.resolver source, predicate, subjectOf c.resolver target⟩ : Triple) ∈
      (c.relation declared e).1 := by
  rw [relation, kept, atSource, atTarget]
  simp only [Bool.not_true, Bool.and_false, Bool.false_eq_true, if_false]
  cases structural : Vocabulary.structural? e.label with
  | some p =>
    rw [structural, Option.some_or] at named
    obtain rfl := Option.some.inj named
    simp
  | none =>
    rw [structural, Option.none_or] at named
    simp only [named]
    split <;> simp

end Canvas

end Encoding

namespace Outline

open Encoding (Canvas)

/-- The IRIs of the outline are those of the entities with the same ids. -/
theorem get?_iris (base : String) (entities : List Entity) (id : String) :
    (iris base entities).get? id = ((Entity.byId entities).get? id).map (iriOf base) := by
  have mapped := Table.get?_ofList_map (iriOf base) (entities.map fun e => (e.id, e)) id
  rwa [List.map_map] at mapped

/-- Where no id is given twice, the IRI at the id of an entity is its own. -/
theorem get?_iris_of_mem (base : String) {entities : List Entity}
    (once : (entities.map Entity.id).Nodup) {e : Entity} (he : e ∈ entities) :
    (iris base entities).get? e.id = some (iriOf base e) := by
  have keys : ((entities.map fun e => (e.id, e)).map Prod.fst).Nodup := by
    rwa [List.map_map]
  have found : (Entity.byId entities).get? e.id = some e :=
    (Table.get?_ofList_eq_some_iff keys).2 (List.mem_map_of_mem he)
  rw [get?_iris, found]
  rfl

/-- The properties of an outline: their ids by their labels. -/
def propertyIds (entities : List Entity) : Table String :=
  Table.ofList ((entities.filter Entity.isProperty).map fun e => (e.label, e.id))

/-- The triples of an outline that name the attributes of a class. -/
inductive NamesAttribute (base : String) (entities : List Entity) : Triple → Prop where
  | mk {e : Entity} (mem : e ∈ entities) {a : Attribute} (row : a ∈ e.attributes) :
    NamesAttribute base entities
      ⟨.iri (iriOf base e), .iri (base ++ "hasAttribute"), Encoding.textLiteral a.name none⟩

section Simple

variable {entities : List Entity} (simple : ∀ e ∈ entities, e.IsSimplyNamed)
include simple

/-- What the outline says of an entity is declared by the encoding or names an attribute. -/
theorem mem_declaration_of_mem_ofEntity (r : Resolver) (language : String)
    (once : (entities.map Entity.id).Nodup) {e : Entity} (he : e ∈ entities) {t : Triple}
    (ht : t ∈ ofEntity r.base (iris r.base entities) e) :
    t ∈ declaration (subjectOf r e) language e ∨ NamesAttribute r.base entities t := by
  have own : ((iris r.base entities).get? e.id).getD (iriOf r.base e) = iriOf r.base e := by
    rw [get?_iris_of_mem r.base once he, Option.getD_some]
  have subject := Encoding.subjectOf_of_isSimplyNamed r (simple e he)
  rw [ofEntity, own] at ht
  rcases List.mem_append.1 ht with ht | ht
  · rw [subject, declaration, if_neg (simple e he).label.ne_empty]
    exact Or.inl (List.mem_append_left _ ht)
  · obtain ⟨a, ha, rfl⟩ := List.mem_map.1 ht
    exact Or.inr (.mk he ha)

/-- The outline and the encoding look up the same properties. -/
theorem get?_propertyIds (r : Resolver) (inferred : Bool) (label : String) :
    (propertyIds entities).get? label =
      ((Canvas.of r inferred entities).properties.get? label).map Entity.id := by
  have labelled : (entities.filter fun e => e.isProperty && e.label ≠ "") =
      entities.filter Entity.isProperty := by
    refine List.filter_congr fun e he => ?_
    simp [(simple e he).label.ne_empty]
  have mapped := Table.get?_ofList_map Entity.id
    ((entities.filter Entity.isProperty).map fun e => (e.label, e)) label
  rw [List.map_map] at mapped
  rw [Canvas.of, labelled]
  exact mapped

/-- The outline and the encoding read a simple label as one predicate. -/
theorem predicate_of_isSimpleLabel (r : Resolver) (inferred : Bool)
    (once : (entities.map Entity.id).Nodup) {label : String}
    (known : Relation.IsSimpleLabel entities label) :
    (Vocabulary.structural? label).or ((Canvas.of r inferred entities).predicate? label) =
      some (predicateOf r.base (iris r.base entities) (propertyIds entities) label) := by
  unfold predicateOf
  cases structural : Vocabulary.structural? label with
  | some predicate => rfl
  | none =>
    rw [Option.none_or, get?_propertyIds simple r inferred]
    unfold Canvas.predicate?
    cases found : (Canvas.of r inferred entities).properties.get? label with
    | some p =>
      have mem := Canvas.mem_of_properties found
      have iri : (iris r.base entities).get? p.id = some (iriOf r.base p) :=
        get?_iris_of_mem r.base once mem
      simp only [Option.map_some, iri, Option.getD_some]
      rw [← Encoding.subjectOf_of_isSimplyNamed r (simple p mem)]
      rfl
    | none =>
      cases known with
      | type => exact absurd structural (by decide +kernel)
      | subClassOf => exact absurd structural (by decide +kernel)
      | @property p mem property =>
        have key : p.label ∈ ((entities.filter fun e => e.isProperty && e.label ≠ "").map
            fun e => (e.label, e)).map Prod.fst := by
          rw [List.map_map]
          exact List.mem_map_of_mem (List.mem_filter.2
            ⟨mem, by simp [property, (simple p mem).label.ne_empty]⟩)
        have there : ((Canvas.of r inferred entities).properties.get? p.label).isSome = true :=
          Table.isSome_get?_insertAll ⟨[]⟩ (Or.inl key)
        rw [found] at there
        cases there
      | name plain word =>
        simp only [Option.map_none, word, Bool.false_eq_true, if_false]
        rw [Canvas.of]
        simp only [r.resolve_of_isBareName plain.isBareName]

/-- The edge that the outline draws for a relation with a simple label is one that the encoding
draws, if it keeps inferred relations. -/
theorem mem_relation_of_ofRelation? (r : Resolver) {inferred : Bool} (kept : inferred = true)
    (once : (entities.map Entity.id).Nodup) {e : Relation}
    (known : Relation.IsSimpleLabel entities e.label) {t : Triple}
    (drawn : ofRelation? r.base (iris r.base entities) (propertyIds entities) e = some t)
    (declared : List String) : t ∈ ((Canvas.of r inferred entities).relation declared e).1 := by
  unfold ofRelation? at drawn
  rw [get?_iris, get?_iris] at drawn
  cases atSource : (Entity.byId entities).get? e.source with
  | none => simp [atSource] at drawn
  | some source =>
    cases atTarget : (Entity.byId entities).get? e.target with
    | none => simp [atSource, atTarget] at drawn
    | some target =>
      have labelled := known.ne_empty fun e he => (simple e he).label.ne_empty
      simp only [atSource, atTarget, Option.map_some, if_neg labelled, Option.some.injEq] at drawn
      have named := predicate_of_isSimpleLabel simple r inferred once known
      have edge := Canvas.edge_mem_relation (c := Canvas.of r inferred entities) kept atSource
        atTarget named declared
      have byName (id : String) (e : Entity)
          (found : (Canvas.of r inferred entities).byId.get? id = some e) : e.IsSimplyNamed :=
        simple e (Canvas.mem_of_byId found)
      have ofSource := Encoding.subjectOf_of_isSimplyNamed r (byName e.source source atSource)
      have ofTarget := Encoding.subjectOf_of_isSimplyNamed r (byName e.target target atTarget)
      rw [← drawn, ← ofSource, ← ofTarget]
      exact edge

end Simple

/-- The outline at the base of a naming is the outline at the base of its resolver. -/
theorem triples_of (d : Naming) (entities : List Entity) (relations : List Relation) :
    (Outline.of d.base entities relations).triples =
      entities.flatMap (ofEntity d.resolver.base (iris d.resolver.base entities)) ++
        relations.filterMap (ofRelation? d.resolver.base (iris d.resolver.base entities)
          (propertyIds entities)) :=
  rfl

/-- An outline agrees with the encoding of simply named entities and relations at the same base: if
inferred relations are kept, each triple of the outline is encoded or names an attribute. -/
theorem mem_build_of_mem (d : Naming) (kept : d.inferred = true) {entities : List Entity}
    {relations : List Relation} (once : (entities.map Entity.id).Nodup)
    (simple : ∀ e ∈ entities, e.IsSimplyNamed)
    (labels : ∀ e ∈ relations, Relation.IsSimpleLabel entities e.label) {t : Triple}
    (ht : t ∈ (Outline.of d.base entities relations).triples) :
    t ∈ (Encoding.build d entities relations none).triples ∨
      NamesAttribute (Namespace.closed d.base) entities t := by
  have base : Namespace.closed d.base = d.resolver.base := rfl
  rw [triples_of] at ht
  rw [base]
  rcases List.mem_append.1 ht with ht | ht
  · obtain ⟨e, he, ht⟩ := List.mem_flatMap.1 ht
    have said := mem_declaration_of_mem_ofEntity simple d.resolver d.language once he ht
    exact said.imp_left fun ht => Encoding.mem_withResolver_of_mem_declaration he ht
  · obtain ⟨e, he, drawn⟩ := List.mem_filterMap.1 ht
    refine Or.inl (mem_firsts.2 (List.mem_append_right _ ?_))
    refine Canvas.mem_relations he (fun declared => ?_) _
    exact mem_relation_of_ofRelation? simple d.resolver kept once (labels e he) drawn declared

/-- A class with a space in its label. -/
def redCar : Entity :=
  { id := "1", label := "Red Car", iri := none, description := none, annotations := []
    body := .concept [⟨"wheels", "integer"⟩] [] }

/-- A property with an IRI of its own. -/
def drives : Entity :=
  { id := "2", label := "drives", iri := some "urn:drives", description := none, annotations := []
    body := .objectProperty [] [] }

/-- An edge that is labelled with the property. -/
def drivesItself : Relation :=
  { source := "1", target := "1", label := "drives", inferred := true }

/-- The edge of the outline between red cars is in the encoding. -/
theorem mem_build_drivesItself :
    let t : Triple := ⟨.iri "http://example.org/ontology#Red_Car", .iri "urn:drives",
      .iri "http://example.org/ontology#Red_Car"⟩
    t ∈ (Encoding.build { inferred := true } [redCar, drives] [drivesItself] none).triples ∨
      NamesAttribute "http://example.org/ontology#" [redCar, drives] t := by
  have simple : ∀ e ∈ [redCar, drives], e.IsSimplyNamed := by
    have red : Resolver.IsSimpleName "Red Car" :=
      ⟨⟨'R', rfl, rfl⟩, by decide, by decide, by decide +kernel⟩
    have verb : Resolver.IsSimpleName "drives" :=
      ⟨⟨'d', rfl, rfl⟩, by decide, by decide, by decide +kernel⟩
    refine List.forall_mem_cons.2 ⟨⟨red, ?_⟩, List.forall_mem_singleton.2 ⟨verb, ?_⟩⟩
    · intro iri own
      cases own
    · intro iri own
      obtain rfl : "urn:drives" = iri := by simpa [drives, Text.nonEmpty] using own
      decide
  have labels : ∀ e ∈ [drivesItself], Relation.IsSimpleLabel [redCar, drives] e.label :=
    List.forall_mem_singleton.2 (.property (p := drives) (by simp) rfl)
  exact mem_build_of_mem { inferred := true } rfl (by decide) simple labels (by decide +kernel)

end Outline

end Ontogram
