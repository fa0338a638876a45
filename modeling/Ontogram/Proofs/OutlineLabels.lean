import Ontogram.Proofs.ConstantNames

set_option autoImplicit false

namespace Ontogram

namespace Outline

open Service (car)

variable (base : String)

/-- A key that an entity writes for its label: its IRI, the label itself, or its id. -/
def Writes (key : String) (e : Entity) : Prop :=
  iriOf base e = key ∨ e.label = key ∨ e.id = key

/-- A key that an entity writes beside its id. -/
def IsSpoken (key : String) (e : Entity) : Prop :=
  iriOf base e = key ∨ e.label = key

instance (key : String) (e : Entity) : Decidable (Writes base key e) :=
  inferInstanceAs (Decidable (_ ∨ _ ∨ _))

instance (key : String) (e : Entity) : Decidable (IsSpoken base key e) :=
  inferInstanceAs (Decidable (_ ∨ _))

/-- The last entity whose IRI or label is the text. -/
def lastSpoken? (key : String) (entities : List Entity) : Option Entity :=
  (entities.filter fun e => decide (IsSpoken base key e)).getLast?

/-- The keys of one entity all have its label. -/
theorem get?_ofList_keys (key : String) (e : Entity) :
    (Table.ofList [(iriOf base e, e.label), (e.label, e.label), (e.id, e.label)]).get? key =
      if Writes base key e then some e.label else none := by
  simp only [Table.ofList, Table.insertAll, List.foldl_cons, List.foldl_nil, Table.get?_insert,
    Writes, eq_comm (a := key)]
  by_cases id : e.id = key
  · simp [id]
  · by_cases label : e.label = key
    · simp [label]
    · by_cases iri : iriOf base e = key <;> simp [id, label, iri, Table.get?, Table.valueIn]

/-- A key has the label of the last entity that writes it. -/
theorem get?_labelsOf (key : String) (entities : List Entity) :
    (labelsOf base entities).get? key =
      (entities.filter fun e => decide (Writes base key e)).getLast?.map Entity.label := by
  induction entities using List.reverseRecOn with
  | nil => rfl
  | append_singleton entities e ih =>
    have step : (labelsOf base (entities ++ [e])).get? key =
        (if Writes base key e then some e.label else none).or
          ((labelsOf base entities).get? key) := by
      rw [labelsOf, List.flatMap_append, Table.ofList, Table.insertAll, List.foldl_append]
      exact (Table.get?_insertAll _ _ key).trans
        (congrArg (Option.or · _) (get?_ofList_keys base key e))
    rw [step, ih, List.filter_append]
    by_cases writes : Writes base key e
    · simp [writes]
    · simp [writes]

variable {base}

/-- Behind an entity only an IRI or a label can be its id, where no id is given twice. -/
theorem filter_writes_of_nodup {e : Entity} {back : List Entity}
    (once : e.id ∉ back.map Entity.id) :
    (back.filter fun other => decide (Writes base e.id other)) =
      back.filter fun other => decide (IsSpoken base e.id other) := by
  refine List.filter_congr fun other there => ?_
  have apart : other.id ≠ e.id := fun same => once (same ▸ List.mem_map_of_mem there)
  exact decide_eq_decide.2 (by simp only [Writes, IsSpoken, apart, or_false])

/-- What the id of an entity is answered with. -/
theorem get?_labelsOf_id {front back : List Entity} {e : Entity}
    (once : ((front ++ e :: back).map Entity.id).Nodup) :
    (labelsOf base (front ++ e :: back)).get? e.id =
      some ((lastSpoken? base e.id back).getD e).label := by
  have behind : e.id ∉ back.map Entity.id := by
    rw [List.map_append, List.map_cons] at once
    exact (List.nodup_cons.1 (List.nodup_append.1 once).2.1).1
  have own : Writes base e.id e := Or.inr (Or.inr rfl)
  rw [get?_labelsOf, List.filter_append, List.filter_cons, if_pos (decide_eq_true own),
    filter_writes_of_nodup behind, List.getLast?_append_cons, List.getLast?_cons, Option.map_some,
    lastSpoken?]

/-- Where no id is given twice, the id of an entity is answered with the label of the last later
entity of which it is the IRI or the label, and with the entity's own label otherwise. So all ids
are answered with the labels of their own entities exactly if each such later entity has the label
of the entity whose id it takes. -/
theorem labels_ids (base : String) {entities : List Entity} (relations : List Relation)
    (once : (entities.map Entity.id).Nodup) :
    (∀ front e back, entities = front ++ e :: back →
      (Outline.of base entities relations).labels.get? e.id =
        some ((lastSpoken? (Namespace.closed base) e.id back).getD e).label) ∧
    ((∀ e ∈ entities, (Outline.of base entities relations).labels.get? e.id = some e.label) ↔
      ∀ front e back, entities = front ++ e :: back →
        ∀ other ∈ lastSpoken? (Namespace.closed base) e.id back, other.label = e.label) := by
  have answered (front : List Entity) (e : Entity) (back : List Entity)
      (place : entities = front ++ e :: back) :
      (Outline.of base entities relations).labels.get? e.id =
        some ((lastSpoken? (Namespace.closed base) e.id back).getD e).label := by
    subst place
    exact get?_labelsOf_id once
  refine ⟨answered, fun own front e back place other there => ?_, fun taken e known => ?_⟩
  · have same := (answered front e back place).symm.trans
      (own e (place ▸ List.mem_append_right front List.mem_cons_self))
    rw [Option.mem_def.1 there] at same
    exact Option.some.inj same
  · obtain ⟨front, back, place⟩ := List.append_of_mem known
    rw [answered front e back place]
    rcases found : lastSpoken? (Namespace.closed base) e.id back with - | other
    · rfl
    · exact congrArg some (taken front e back place other found)

/-- A class whose id is the label of another. -/
def vehicle : Entity :=
  { id := "Car", label := "Vehicle", iri := none, description := none, annotations := []
    body := .concept [] [] }

/-- The label of the second class takes the id of the first. -/
theorem labels_ids_car :
    ([vehicle, car].map Entity.id).Nodup ∧
      (Outline.of "" [vehicle, car] []).labels.get? "Car" = some "Car" ∧
      (Outline.of "" [vehicle, car] []).labels.get? "1" = some "Car" :=
  have once : ([vehicle, car].map Entity.id).Nodup := by decide
  ⟨once, ((labels_ids "" [] once).1 [] vehicle [car] rfl).trans (by decide +kernel),
    ((labels_ids "" [] once).1 [vehicle] car [] rfl).trans (by decide +kernel)⟩

/-- Ids that differ do not keep the labels of their entities. -/
theorem not_labels_ids_own :
    ¬ ∀ (base : String) (entities : List Entity) (relations : List Relation),
      (entities.map Entity.id).Nodup → ∀ e ∈ entities,
        (Outline.of base entities relations).labels.get? e.id = some e.label := by
  intro own
  have kept := own "" [vehicle, car] [] (by decide) vehicle List.mem_cons_self
  exact absurd kept (by decide +kernel)

end Outline

end Ontogram
