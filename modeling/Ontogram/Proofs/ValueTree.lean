import Ontogram.Proofs.ValueTokens

set_option autoImplicit false

namespace Ontogram.Yaml

def scalarNode (s : Scalar) : Node :=
  .scalar (Sheet.ofScalar s).tag (String.ofList (Sheet.ofScalar s).text)

mutual

/-- The tree of a value; lists are left out. -/
def nodeOf : Value → Node
  | .scalar s => scalarNode s
  | .list _ => Node.empty
  | .map es => .mapping .map (entryNodes es)

def entryNodes : List (Scalar × Value) → List (Node × Node)
  | [] => []
  | (k, v) :: es => (scalarNode k, nodeOf v) :: entryNodes es

end

namespace Composer

theorem run_bind_of_ok {α β : Type} {x : Composer α} {c d : Composition} {a : α}
    (h : x.run c = .ok (a, d)) (f : α → Composer β) : (x >>= f).run c = (f a).run d := by
  rw [StateT.run_bind, h]
  rfl

variable (handles : List (String × String)) (anchors : List (String × Node)) (fuel : Nat)

theorem node_scalar (inBlock unindented : Bool) (s : Scalar) (rest : List Token) :
    (node handles (fuel + 1) inBlock unindented).run ⟨(Sheet.ofScalar s).token :: rest, anchors⟩ =
      .ok (scalarNode s, ⟨rest, anchors⟩) := by
  rw [node]
  rfl

theorem node_flowMapping (inBlock unindented : Bool) (rest : List Token) :
    (node handles (fuel + 2) inBlock unindented).run
      ⟨.flowMapping :: .flowMappingEnd :: rest, anchors⟩ =
      .ok (.mapping .map [], ⟨rest, anchors⟩) := by
  rw [node]
  rfl

variable {handles anchors fuel}

theorem node_blockMapping (unindented : Bool) {ts : List Token} {es : List (Node × Node)}
    {c : Composition} (inner : (blockEntries handles fuel).run ⟨ts, anchors⟩ = .ok (es, c)) :
    (node handles (fuel + 1) true unindented).run ⟨.blockMapping :: ts, anchors⟩ =
      .ok (.mapping .map es, c) := by
  have entries : (do
      let es ← blockEntries handles fuel
      return Node.mapping .map es : Composer Node).run ⟨ts, anchors⟩ = .ok (.mapping .map es, c) :=
    run_bind_of_ok inner _
  rw [node, ← entries]
  rfl

theorem blockEntries_blockEnd (rest : List Token) :
    (blockEntries handles (fuel + 1)).run ⟨.blockEnd :: rest, anchors⟩ =
      .ok ([], ⟨rest, anchors⟩) := by
  rw [blockEntries]
  rfl

def IsLeftOut (t : Token) : Prop :=
  t ∈ [.key, .value, .blockEnd]

theorem blockValue_value {t : Token} (starts : ¬ IsLeftOut t) (known : ∀ f, t ≠ .broken f)
    (ts : List Token) : (blockValue handles (fuel + 1)).run ⟨.value :: t :: ts, anchors⟩ =
      (node handles fuel true true).run ⟨t :: ts, anchors⟩ := by
  have peeked : peek.run ⟨t :: ts, anchors⟩ = .ok (t, ⟨t :: ts, anchors⟩) := by
    cases t with
    | broken f => exact absurd rfl (known f)
    | _ => rfl
  have read : (orEmpty [.key, .value, .blockEnd] (node handles fuel true true)).run
      ⟨t :: ts, anchors⟩ = (node handles fuel true true).run ⟨t :: ts, anchors⟩ := by
    refine (run_bind_of_ok peeked _).trans ?_
    exact congrArg (StateT.run · _) (if_neg starts)
  rw [blockValue, ← read]
  rfl

theorem blockEntries_key {k : Scalar} {ts us : List Token} {v : Node} {es : List (Node × Node)}
    {c : Composition}
    (value : (blockValue handles (fuel + 1)).run ⟨.value :: ts, anchors⟩ = .ok (v, ⟨us, anchors⟩))
    (others : (blockEntries handles (fuel + 1)).run ⟨us, anchors⟩ = .ok (es, c)) :
    (blockEntries handles (fuel + 2)).run
        ⟨.key :: (Sheet.ofScalar k).token :: .value :: ts, anchors⟩ =
      .ok ((scalarNode k, v) :: es, c) := by
  have entries : (do
      let key ← node handles (fuel + 1) true true
      let value ← blockValue handles (fuel + 1)
      return (key, value) :: (← blockEntries handles (fuel + 1)) : Composer _).run
        ⟨(Sheet.ofScalar k).token :: .value :: ts, anchors⟩ =
      .ok ((scalarNode k, v) :: es, c) := by
    refine (run_bind_of_ok (node_scalar handles anchors fuel true true k _) _).trans ?_
    refine (run_bind_of_ok value _).trans ?_
    exact run_bind_of_ok others _
  rw [blockEntries, ← entries]
  rfl

/-- The first token of a value shows that it is there. -/
theorem exists_cons_tokensOf {v : Value} (visible : v.isVisible = true) :
    ∃ t ts, tokensOf v = t :: ts ∧ ¬ IsLeftOut t ∧ ∀ f, t ≠ .broken f := by
  cases v with
  | scalar s => exact ⟨_, _, rfl, by simp [IsLeftOut, Sheet.token], by simp [Sheet.token]⟩
  | list items => cases visible
  | map es =>
    cases es with
    | nil => exact ⟨_, _, rfl, by simp [IsLeftOut], by simp⟩
    | cons e es => exact ⟨_, _, tokensOf_map e es, by simp [IsLeftOut], by simp⟩

mutual

/-- The tokens of a value are composed to its tree. -/
theorem node_tokensOf (v : Value) (visible : v.isVisible = true) {fuel : Nat}
    (enough : (tokensOf v).length ≤ fuel) (unindented : Bool) (rest : List Token) :
    (node handles fuel true unindented).run ⟨tokensOf v ++ rest, anchors⟩ =
      .ok (nodeOf v, ⟨rest, anchors⟩) := by
  cases v with
  | scalar s =>
    obtain ⟨fuel, rfl⟩ := Nat.exists_eq_add_of_le' enough
    exact node_scalar handles anchors fuel true unindented s rest
  | list items => cases visible
  | map es =>
    cases es with
    | nil =>
      obtain ⟨fuel, rfl⟩ := Nat.exists_eq_add_of_le' enough
      exact node_flowMapping handles anchors fuel true unindented rest
    | cons e es =>
      rw [tokensOf_map] at enough ⊢
      simp only [List.length_cons, List.length_append, List.length_nil, Nat.zero_add] at enough
      obtain ⟨fuel, rfl⟩ := Nat.exists_eq_add_of_le' (Nat.le_of_add_left_le enough)
      have long : (entryTokens (e :: es)).length < fuel := by omega
      have inner := blockEntries_entryTokens (e :: es) visible long rest
      rw [List.cons_append, List.append_assoc]
      exact node_blockMapping unindented inner

theorem blockEntries_entryTokens (es : List (Scalar × Value))
    (visible : Value.areVisible es = true) {fuel : Nat} (enough : (entryTokens es).length < fuel)
    (rest : List Token) :
    (blockEntries handles fuel).run ⟨entryTokens es ++ .blockEnd :: rest, anchors⟩ =
      .ok (entryNodes es, ⟨rest, anchors⟩) := by
  cases es with
  | nil =>
    obtain ⟨fuel, rfl⟩ := Nat.exists_eq_add_of_le' enough
    rw [entryTokens, entryNodes]
    exact blockEntries_blockEnd rest
  | cons e es =>
    obtain ⟨k, v⟩ := e
    obtain ⟨-, -, inner, -, others⟩ := areVisible_cons visible
    obtain ⟨t, ts, text, starts, known⟩ := exists_cons_tokensOf inner
    rw [entryTokens_cons] at enough ⊢
    simp only [List.length_cons, List.length_append, List.length_nil, Nat.zero_add] at enough
    -- Every token takes one step at most, so the fuel lasts for the entry and for those behind it.
    obtain ⟨fuel, rfl⟩ := Nat.exists_eq_add_of_le' (show 2 ≤ fuel by omega)
    have long : (tokensOf v).length ≤ fuel ∧ (entryTokens es).length < fuel + 1 := by omega
    have value := node_tokensOf v inner long.1 true (entryTokens es ++ .blockEnd :: rest)
    have rests := blockEntries_entryTokens es others long.2 rest
    rw [text, List.cons_append, ← blockValue_value starts known] at value
    rw [text, entryNodes]
    simp only [List.cons_append, List.nil_append, List.append_assoc]
    exact blockEntries_key value rests

end

end Composer

namespace Node

/-- The tokens of a document are composed to the tree of its value. -/
theorem ofTokens_tokensOf {es : List (Scalar × Value)} (filled : es ≠ [])
    (visible : Value.areVisible es = true) :
    ofTokens (tokensOf (.map es) ++ [.streamEnd]) = .ok (some (nodeOf (.map es))) := by
  obtain ⟨e, es, rfl⟩ := List.exists_cons_of_ne_nil filled
  have long : (tokensOf (.map (e :: es))).length ≤
      3 * (tokensOf (.map (e :: es)) ++ [Token.streamEnd]).length + 3 := by
    rw [List.length_append]
    omega
  have composed : (Composer.node ownHandles
      (3 * (tokensOf (.map (e :: es)) ++ [Token.streamEnd]).length + 3) true false).run
        ⟨tokensOf (.map (e :: es)) ++ [.streamEnd], []⟩ = _ :=
    Composer.node_tokensOf (.map (e :: es)) visible long false [.streamEnd]
  rw [tokensOf_map, List.cons_append] at composed ⊢
  rw [ofTokens]
  · simp only [composed, bind, Except.bind]
    rfl
  · simp
  · simp
  · simp

/-! Values. -/

/-- A tag under which a scalar is read asks for one. -/
theorem asksScalar_of_ok {tag : Tag} {text : String} {s : Scalar} (h : scalarOf tag text = .ok s) :
    asksScalar tag = true ∧ tag.hasParts = false ∧ tag ≠ .merge ∧ tag ≠ .value := by
  cases tag with
  | null | truth | integer | real | octets | moment | text =>
    exact ⟨rfl, rfl, by simp, by simp⟩
  | _ => cases h

section Scalar

variable {s : Scalar} (visible : s.isVisible = true)
include visible

theorem tag_scalarNode : asksScalar (scalarNode s).tag = true ∧
    (scalarNode s).tag.hasParts = false ∧ (scalarNode s).tag ≠ .merge ∧
      (scalarNode s).tag ≠ .value :=
  asksScalar_of_ok (scalarOf_tag visible)

theorem valueAt_scalarNode (fuel depth : Nat) :
    (scalarNode s).valueAt (fuel + 1) depth = .ok (.scalar s) := by
  obtain ⟨asks, whole, -, -⟩ := tag_scalarNode visible
  have value : (scalarNode s).scalarValue (fuel + 1) = .ok s := by
    rw [scalarValue, if_pos asks]
    exact scalarOf_tag visible
  have start : (scalarNode s).valueAt (fuel + 1) depth =
      if (scalarNode s).tag.hasParts then .error (depth + 1, .badShape)
      else Layered.ofLayer depth (((scalarNode s).scalarValue (fuel + 1)).map .scalar) := rfl
  rw [start, whole, value]
  rfl

end Scalar

/-- Entries none of which is merged are kept. -/
theorem flatten_eq_self {ns : List (Node × Node)}
    (own : ∀ e ∈ ns, e.1.tag ≠ .merge ∧ e.1.tag ≠ .value) (fuel : Nat) :
    flatten fuel ns = .ok ns := by
  cases fuel with
  | zero => rfl
  | succ fuel =>
    have merged : (ns.mapM fun e =>
        if e.1.tag = .merge then mergedOf (flatten fuel) e.2 else .ok []) =
          (.ok (ns.map fun _ => []) : Except Fault (List (List (Node × Node)))) := by
      induction ns with
      | nil => rfl
      | cons n ns ih =>
        rw [List.mapM_cons, if_neg (own n List.mem_cons_self).1,
          ih fun e he => own e (List.mem_cons_of_mem n he)]
        rfl
    have kept : (ns.filter fun e => e.1.tag ≠ .merge) = ns :=
      List.filter_eq_self.2 fun e he => by simpa using (own e he).1
    have nothing : (ns.map fun _ => ([] : List (Node × Node))).flatten = [] := by
      simp
    rw [flatten, merged]
    simp only [bind, Except.bind, kept, nothing, List.nil_append]
    refine congrArg Except.ok ((List.map_congr_left fun e he => ?_).trans (List.map_id ns))
    split
    · exact absurd rfl (own _ he).2
    · rfl

theorem tag_of_mem_entryNodes {es : List (Scalar × Value)} (visible : Value.areVisible es = true)
    {e : Node × Node} (h : e ∈ entryNodes es) : e.1.tag ≠ .merge ∧ e.1.tag ≠ .value := by
  induction es with
  | nil =>
    rw [entryNodes] at h
    cases h
  | cons f es ih =>
    obtain ⟨key, -, -, -, others⟩ := areVisible_cons visible
    rw [entryNodes] at h
    rcases List.mem_cons.1 h with rfl | mem
    · exact (tag_scalarNode key).2.2
    · exact ih others mem

theorem putEntry_of_apart {k : Scalar} {v : Value} {front : List (Scalar × Value)}
    (apart : ∀ f ∈ front, k.same f.1 = false) : Value.putEntry k v front = front ++ [(k, v)] := by
  induction front with
  | nil => rfl
  | cons f front ih =>
    rw [Value.putEntry, apart f List.mem_cons_self, if_neg (by decide),
      ih fun g hg => apart g (List.mem_cons_of_mem f hg)]
    rfl

/-- Entries with distinct keys stay as they are when they are put one behind the other. -/
theorem foldl_putEntry {es : List (Scalar × Value)} (visible : Value.areVisible es = true)
    {front : List (Scalar × Value)} (apart : ∀ e ∈ es, ∀ f ∈ front, e.1.same f.1 = false) :
    es.foldl (fun es e => Value.putEntry e.1 e.2 es) front = front ++ es := by
  induction es generalizing front with
  | nil => simp
  | cons e es ih =>
    obtain ⟨k, v⟩ := e
    obtain ⟨-, -, -, distinct, others⟩ := areVisible_cons visible
    have put : Value.putEntry k v front = front ++ [(k, v)] :=
      putEntry_of_apart (apart (k, v) List.mem_cons_self)
    rw [List.foldl_cons, put, ih others, List.append_assoc, List.singleton_append]
    intro e he f hf
    rcases List.mem_append.1 hf with earlier | last
    · exact apart e (List.mem_cons_of_mem _ he) f earlier
    · rw [List.mem_singleton.1 last]
      exact distinct e he

theorem valueAt_mapping {ns : List (Node × Node)} {fuel depth : Nat}
    (flat : flatten (fuel + 1) ns = .ok ns) {es : List (Scalar × Value)}
    (inner : Layered.all (ns.map (entryOf (depth + 1) (valueAt fuel (depth + 1)))) = .ok es) :
    (mapping .map ns).valueAt (fuel + 1) depth = .ok (Value.ofEntries es) := by
  rw [valueAt]
  simp only [flat, inner]
  rfl

mutual

/-- The tree of a value has that value. -/
theorem valueAt_nodeOf (v : Value) (visible : v.isVisible = true) {fuel : Nat}
    (enough : (nodeOf v).height < fuel) (depth : Nat) : (nodeOf v).valueAt fuel depth = .ok v := by
  obtain ⟨fuel, rfl⟩ := Nat.exists_eq_add_of_le' (Nat.one_le_of_lt enough)
  cases v with
  | scalar s => exact valueAt_scalarNode visible fuel depth
  | list items => cases visible
  | map es =>
    rw [nodeOf, height] at enough
    have inner := all_entryNodes es visible (Nat.lt_of_succ_lt_succ enough) (depth + 1)
    have flat := flatten_eq_self (fun _ he => tag_of_mem_entryNodes visible he) (fuel + 1)
    have distinct : es.foldl (fun es e => Value.putEntry e.1 e.2 es) [] = [] ++ es :=
      foldl_putEntry visible fun _ _ _ hf => by cases hf
    have value := valueAt_mapping flat inner
    rwa [Value.ofEntries, distinct, List.nil_append] at value

theorem all_entryNodes (es : List (Scalar × Value)) (visible : Value.areVisible es = true)
    {fuel : Nat} (enough : heightEntries (entryNodes es) < fuel) (depth : Nat) :
    Layered.all ((entryNodes es).map (entryOf depth (valueAt fuel depth))) = .ok es := by
  cases es with
  | nil => rw [entryNodes]; rfl
  | cons e es =>
    obtain ⟨k, v⟩ := e
    obtain ⟨key, -, inner, -, others⟩ := areVisible_cons visible
    rw [entryNodes, heightEntries] at enough
    have tall : (nodeOf v).height < fuel ∧ heightEntries (entryNodes es) < fuel := by omega
    have value := valueAt_nodeOf v inner tall.1 depth
    have rest := all_entryNodes es others tall.2 depth
    have whole := (tag_scalarNode key).2.1
    have first : valueAt fuel depth (scalarNode k) = .ok (.scalar k) := by
      obtain ⟨fuel, rfl⟩ := Nat.exists_eq_add_of_le' (show 1 ≤ fuel by omega)
      exact valueAt_scalarNode key fuel depth
    have entry : entryOf depth (valueAt fuel depth) (scalarNode k, nodeOf v) = .ok (k, v) := by
      simp only [entryOf, whole, first, value]
      rfl
    rw [entryNodes, List.map_cons, Layered.all, entry, rest]
    rfl

end

end Node

/-- What is written is read back. -/
theorem read_write {es : List (Scalar × Value)} (filled : es ≠ [])
    (visible : Value.areVisible es = true) : read (write (.map es)) = .ok (.map es) := by
  have allowed : (write (.map es)).toList.all isAllowed = true :=
    List.all_eq_true.2 fun c hc =>
      isAllowed_of_isDirect (isDirect_of_isOfSheet (isOfSheet_write filled visible hc))
  have value : (nodeOf (.map es)).value = .ok (.map es) := by
    rw [Node.value, Node.valueAt_nodeOf (.map es) visible (Nat.lt_succ_self _)]
    rfl
  have composed := Node.ofTokens_tokensOf filled visible
  rw [read, allowed, tokens_write filled visible]
  simp only [composed, bind, Except.bind, value, Bool.not_true]
  rfl

end Ontogram.Yaml
