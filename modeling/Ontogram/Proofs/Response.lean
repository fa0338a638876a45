import Ontogram.Proofs.Lookup
import Ontogram.Service

set_option autoImplicit false

namespace Ontogram

/-- Whether an error is a refusal: a field is missing, or it holds what it must not. -/
def DocumentError.isRefusal : DocumentError → Bool
  | .notMap => false
  | .missing _ | .notText _ _ | .notRecords _ | .notScalar _ | .unknownKind _ | .badNamespaces =>
    true

/-- Whether every error that reading may come to is a refusal. -/
def Refuses {α : Type} (reading : Except DocumentError α) : Prop :=
  ∀ e, reading = .error e → e.isRefusal = true

namespace Refuses

variable {α β : Type}

theorem ok (a : α) : Refuses (.ok a) := fun _ h => nomatch h

theorem error {e : DocumentError} (h : e.isRefusal = true) :
    Refuses (.error e : Except DocumentError α) := fun _ same => Except.error.inj same ▸ h

theorem bind {x : Except DocumentError α} {f : α → Except DocumentError β} (first : Refuses x)
    (next : ∀ a, Refuses (f a)) : Refuses (x >>= f) := by
  cases x with
  | error e => exact error (first e rfl)
  | ok a => exact next a

theorem mapM {f : α → Except DocumentError β} (each : ∀ a, Refuses (f a)) (xs : List α) :
    Refuses (xs.mapM f) := by
  induction xs with
  | nil => exact ok []
  | cons x xs ih =>
    rw [List.mapM_cons]
    exact (each x).bind fun b => ih.bind fun bs => ok (b :: bs)

end Refuses

namespace Diagram

theorem refuses_text? (fields : Fields) (keys : List String) : Refuses (fields.text? keys) := by
  fun_induction Fields.text? fields keys with
  | case1 => exact .ok none
  | case2 | case3 | case4 => assumption
  | case5 => exact .ok _
  | case6 => exact .error rfl

theorem refuses_text (fields : Fields) (keys : List String) : Refuses (fields.text keys) :=
  (refuses_text? fields keys).bind fun _ => .ok _

theorem refuses_records (fields : Fields) (keys : List String) :
    Refuses (fields.records keys) := by
  fun_induction Fields.records fields keys with
  | case1 => exact .ok []
  | case2 | case3 => assumption
  | case4 => exact .ok _
  | case5 | case6 => exact .error rfl

theorem refuses_written (fields : Fields) (key : String) : Refuses (fields.written key) := by
  unfold Fields.written
  split
  · exact .ok _
  · exact .error rfl

theorem refuses_readAnnotation (fields : Fields) : Refuses ( readAnnotation fields) := by
  unfold readAnnotation
  dsimp only
  split
  · refine (refuses_text? fields _).bind fun property => ?_
    cases property with
    | none => exact .error rfl
    | some property => exact (refuses_text? fields _).bind fun _ => .ok _
  · exact .error rfl

theorem refuses_readAnnotations (fields : Fields) : Refuses (readAnnotations fields) :=
  (refuses_records fields _).bind fun records => .mapM refuses_readAnnotation records

theorem refuses_readAttribute (fields : Fields) : Refuses (readAttribute fields) :=
  (refuses_text fields _).bind fun _ => (refuses_text fields _).bind fun _ => .ok _

theorem refuses_readAxiom (fields : Fields) : Refuses (readAxiom fields) :=
  (refuses_text fields _).bind fun _ => (refuses_text fields _).bind fun _ => .ok _

theorem refuses_readEntity (fields : Fields) : Refuses (readEntity fields) := by
  refine (refuses_text fields _).bind fun kindName => ?_
  split
  · exact .error rfl
  · exact (refuses_written fields _).bind fun _ => (refuses_text fields _).bind fun _ =>
      (refuses_text? fields _).bind fun _ => (refuses_text? fields _).bind fun _ =>
      (refuses_readAnnotations fields).bind fun _ =>
      (refuses_records fields _).bind fun attributes =>
      (Refuses.mapM refuses_readAttribute attributes).bind fun _ =>
      (refuses_records fields _).bind fun axioms =>
      (Refuses.mapM refuses_readAxiom axioms).bind fun _ => .ok _

theorem refuses_readRelation (fields : Fields) : Refuses (readRelation fields) :=
  (refuses_written fields _).bind fun _ => (refuses_written fields _).bind fun _ =>
    (refuses_text fields _).bind fun _ => .ok _

theorem refuses_readNamespaces (fields : Fields) : Refuses (readNamespaces fields) := by
  unfold readNamespaces
  split
  · exact .ok _
  · split
    · exact .ok _
    · split
      · split
        · exact .ok _
        · exact .error rfl
      · exact .error rfl

theorem refuses_readMetadata (fields : Fields) : Refuses (readMetadata fields) := by
  have text (keys : List String) : Refuses (fields.text? keys) := refuses_text? fields keys
  exact (refuses_readNamespaces fields).bind fun _ => (text _).bind fun _ => (text _).bind fun _ =>
    (text _).bind fun _ => (text _).bind fun _ => (text _).bind fun _ => (text _).bind fun _ =>
    (text _).bind fun _ => (refuses_readAnnotations fields).bind fun _ => .ok _

/-- Reading a document whose settings are a map, if it has any, comes to no other error. -/
theorem refuses_read {fields : Fields}
    (settings : ∀ v ∈ fields.get? "metadata", ∃ entries, v = .map entries) :
    Refuses (read (.map fields)) := by
  have metadata : Refuses (metadataOf fields) := by
    unfold metadataOf
    cases own : fields.get? "metadata" with
    | none => exact refuses_readMetadata []
    | some v =>
      obtain ⟨entries, rfl⟩ := settings v own
      exact refuses_readMetadata entries
  exact (refuses_records fields _).bind fun entities =>
    (Refuses.mapM refuses_readEntity entities).bind fun _ =>
    (refuses_records fields _).bind fun relations =>
    (Refuses.mapM refuses_readRelation relations).bind fun _ => metadata.bind fun _ => .ok _

end Diagram

namespace Service

theorem mapField?_eq_some {fields : Fields} {key : String} {v : Value}
    (h : mapField? fields key = some v) : ∃ entries, v = .map entries := by
  unfold mapField? at h
  split at h
  · exact ⟨[], (Option.some.inj h).symm⟩
  · exact ⟨_, (Option.some.inj h).symm⟩
  · cases h

/-- The settings in a request of the right shape are a map. -/
theorem graph?_eq_some {body document : Value} (shape : graph? body = some document) :
    ∃ fields : Fields, document = .map fields ∧
      ∀ v ∈ fields.get? "metadata", ∃ entries, v = .map entries := by
  simp only [graph?, Option.bind_eq_bind, Option.bind_eq_some_iff, Option.pure_def,
    Option.some.injEq] at shape
  obtain ⟨_, _, entities, _, relations, _, metadata, settings, rfl⟩ := shape
  refine ⟨_, rfl, fun v mem => ?_⟩
  obtain rfl : metadata = v := by
    simpa [Fields.get?, Value.entry?, Value.text, Scalar.same] using mem
  exact mapField?_eq_some settings

theorem encode_ok (d : Naming) (limits : QuerySettings) {document : Value} {diagram : Diagram}
    (read : Diagram.read document = .ok diagram) :
    let t := Encoding.build d diagram.entities diagram.relations (some diagram.metadata)
    ∃ language, encode ⟨.ofNaming d, limits⟩ document =
      .ok (.encoded ⟨t, .ofTable t.prefixes, language⟩ (Turtle.format t.prefixes t.triples)) := by
  let own := (some diagram.metadata).map d.withMetadata
  refine ⟨.text (own.getD d).language, ?_⟩
  simp only [encode, withDiagram, read, encoding, NamingSettings.encode_ofNaming, fromSettings,
    bind, Except.bind, Prefixes.turtle_ofTable]
  rfl

/-- A request of the right shape has a reply: a refusal of its graph exactly when reading refuses
it, and otherwise the encoding, in which no look-up was in vain, with the number of its triples. -/
theorem respond_graph (d : Naming) (limits : QuerySettings) (seconds : Float)
    (body document : Value) (shape : graph? body = some document) :
    (∀ e, Diagram.read document = .error e → e.isRefusal = true) ∧
    ∃ reply, respond ⟨.ofNaming d, limits⟩ seconds ⟨"POST", "/translate", some body⟩ = .ok reply ∧
      (reply.status = 400 ↔ ∃ e, Diagram.read document = .error e ∧ e.isRefusal = true) ∧
      ∀ diagram, Diagram.read document = .ok diagram →
        ∃ t content items,
          Encoding.tryBuild d diagram.entities diagram.relations (some diagram.metadata) = .ok t ∧
          reply.status = 200 ∧ reply.body? = some (.map content) ∧
          Fields.get? content "triples" = some (.list items) ∧
          Fields.get? content "triple_count" = some (.scalar (.int items.length)) ∧
          items = t.triples.map (fun t => Reply.texts t.displays) ∧
          Fields.get? content "turtle" = some (.text (Turtle.format t.prefixes t.triples)) := by
  obtain ⟨fields, rfl, settings⟩ := graph?_eq_some shape
  have refuses := Diagram.refuses_read settings
  have routed : respond ⟨.ofNaming d, limits⟩ seconds ⟨"POST", "/translate", some body⟩ =
      encode ⟨.ofNaming d, limits⟩ (.map fields) := by
    have route : routeOf? "/translate" = some .encode := by decide
    simp only [respond, respondBy, route, Route.method, if_true, Route.reply, shaped,
      Option.bind_some, shape]
  refine ⟨refuses, ?_⟩
  cases read : Diagram.read (.map fields) with
  | error e =>
    have refusal : e ≠ .notMap := by
      rintro rfl
      exact absurd (refuses _ read) (by decide)
    refine ⟨.badGraph e, routed.trans (encode_badGraph_iff.2 ⟨read, refusal⟩), ?_, ?_⟩
    · exact ⟨fun _ => ⟨e, rfl, refuses e read⟩, fun _ => rfl⟩
    · rintro _ ⟨⟩
  | ok diagram =>
    obtain ⟨language, encoded⟩ := encode_ok d limits read
    refine ⟨_, routed.trans encoded, ⟨nofun, ?_⟩, ?_⟩
    · rintro ⟨_, ⟨⟩, _⟩
    · rintro _ ⟨⟩
      refine ⟨_, _, _, Encoding.tryBuild_eq d _ _ _, rfl, rfl, rfl, ?_, rfl, rfl⟩
      rw [List.length_map]
      rfl

/-- The entity of a class with an axiom named after a property. -/
def vehicle : Value :=
  .map [(.text "id", .scalar (.int 1)), (.text "kind", .text "class"),
    (.text "label", .text "Vehicle"),
    (.text "axioms", .list [.map [(.text "name", .text "has part"),
      (.text "expression", .text "min 2 (Wheel or Engine)")]])]

/-- A graph without relations. -/
def fleet : Value :=
  .map [(.text "entities", .list [vehicle]), (.text "relations", .list []),
    (.text "metadata", .map [])]

theorem respond_graph_fleet :
    graph? fleet = some fleet ∧
    ∃ reply, respond ⟨.ofNaming {}, {}⟩ 0 ⟨"POST", "/translate", some fleet⟩ = .ok reply ∧
      reply.status = 200 := by
  have shape : graph? fleet = some fleet := rfl
  obtain ⟨-, reply, replied, -, listed⟩ := respond_graph {} {} 0 fleet fleet shape
  have accepted : ∃ diagram, Diagram.read fleet = .ok diagram := ⟨_, rfl⟩
  obtain ⟨diagram, read⟩ := accepted
  obtain ⟨_, _, _, _, status, _⟩ := listed diagram read
  exact ⟨shape, reply, replied, status⟩

end Service

end Ontogram
