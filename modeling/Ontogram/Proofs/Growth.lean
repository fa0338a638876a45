import Ontogram.Encoding

set_option autoImplicit false

namespace Ontogram

namespace Emission

variable {α : Type}

theorem andThen_assoc (a : Emission) (f g : Int → Emission) :
    (a.andThen f).andThen g = a.andThen fun n => (f n).andThen g := by
  simp [andThen]

/-- Parts that follow start with the next node and come behind. -/
theorem each_append (f : α → Int → Emission) (xs ys : List α) (n : Int) :
    each f (xs ++ ys) n = (each f xs n).andThen (each f ys) := by
  induction xs generalizing n with
  | nil => simp [each, andThen, ofTriples]
  | cons x xs ih =>
    have rest : each f (xs ++ ys) = fun n => (each f xs n).andThen (each f ys) := funext ih
    rw [List.cons_append, each, each, andThen_assoc, rest]

end Emission

namespace Encoding

namespace Canvas

variable (c : Canvas)

def declaredAfter (declared : List String) (es : List Relation) : List String :=
  es.foldl (fun known e => (c.relation known e).2.2) declared

/-- Relations that follow are read with what the earlier ones declare and come behind. -/
theorem relations_append (declared : List String) (es fs : List Relation) :
    (c.relations declared (es ++ fs)).1 =
      (c.relations declared es).1 ++ (c.relations (c.declaredAfter declared es) fs).1 := by
  induction es generalizing declared with
  | nil => rfl
  | cons e es ih =>
    have rest := ih (c.relation declared e).2.2
    rw [List.cons_append, relations, relations, declaredAfter, List.foldl_cons]
    simp only [rest, List.append_assoc]
    rfl

end Canvas

/-- The contributions of a diagram before its relations: its settings, if it has any, and its
entities. -/
def ground (r : Resolver) (language : String) (entities : List Entity)
    (metadata : Option Metadata) : Emission :=
  let header :=
    match metadata with
    | some m => emitHeader r language m 0
    | none => .ofTriples [] 0
  header.andThen (Emission.each (emitEntity r language) entities)

/-- The names that count as declared before the first relation. -/
def declaredNames (r : Resolver) (entities : List Entity) : List String :=
  (entities.filter Entity.isProperty).map fun e => nameOf (subjectOf r e)

section Parts

variable (r : Resolver) (language : String) (inferred : Bool) (entities : List Entity)
  (relations : List Relation) (metadata : Option Metadata)

/-- An encoding is made of what the entities and then the relations contribute. -/
theorem triples_withResolver :
    (withResolver r language inferred entities relations metadata).triples =
      firsts ((ground r language entities metadata).triples ++
        ((Canvas.of r inferred entities).relations (declaredNames r entities) relations).1) :=
  rfl

theorem triples_withResolver_nil :
    (withResolver r language inferred entities [] metadata).triples =
      firsts (ground r language entities metadata).triples := by
  rw [triples_withResolver, Canvas.relations, List.append_nil]

/-- Relations that follow add their new triples to the encoding. -/
theorem triples_withResolver_append (further : List Relation) :
    let c := Canvas.of r inferred entities
    (withResolver r language inferred entities (relations ++ further) metadata).triples =
      appendNew (withResolver r language inferred entities relations metadata).triples
        (c.relations (c.declaredAfter (declaredNames r entities) relations) further).1 := by
  intro c
  rw [triples_withResolver, triples_withResolver, Canvas.relations_append, ← List.append_assoc]
  exact appendNew_append [] _ _

/-- Entities that follow on the canvas leave the contributions of the others as they are. -/
theorem ground_append (more : List Entity) :
    (ground r language (entities ++ more) metadata).triples =
      (ground r language entities metadata).triples ++
        (Emission.each (emitEntity r language) more
          (ground r language entities metadata).next).triples := by
  have parts : Emission.each (emitEntity r language) (entities ++ more) = fun n =>
      (Emission.each (emitEntity r language) entities n).andThen
        (Emission.each (emitEntity r language) more) :=
    funext (Emission.each_append _ entities more)
  unfold ground
  rw [parts, ← Emission.andThen_assoc]
  rfl

end Parts

/-- The encoding of a diagram goes on, unchanged, where entities or relations follow: its entities
by themselves are the start of it with further entities and any relations, and with some of its
relations they are the start of it with all. -/
theorem build_prefix (d : Naming) (metadata : Option Metadata) (entities more : List Entity)
    (relations further : List Relation) :
    (build d entities [] metadata).triples <+:
        (build d (entities ++ more) relations metadata).triples ∧
      (build d entities relations metadata).triples <+:
        (build d entities (relations ++ further) metadata).triples := by
  simp only [build]
  generalize (metadata.map d.withMetadata).getD d = own
  constructor
  · rw [triples_withResolver_nil, triples_withResolver, ground_append, List.append_assoc]
    exact firsts_prefix_append _ _
  · rw [triples_withResolver_append]
    exact prefix_appendNew _ _

end Encoding

end Ontogram
