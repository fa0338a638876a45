import Ontogram.Proofs.LongestBalanced
import Ontogram.Proofs.ParseTree

set_option autoImplicit false

namespace Ontogram.Expression

namespace CallTree

/-- The list that is entered first. -/
def entered : CallTree → List String
  | node tokens _ => tokens

/-- Every list that is entered is balanced, and shorter than the list that it is entered from. From
a list are entered the parts of its shape, or the filler of its restriction, and no others. -/
inductive IsSettled : CallTree → Prop where
  | node {tokens : List String} {calls : List CallTree} (balanced : Balanced tokens)
      (made : calls.map entered = callsOf tokens)
      (shorter : ∀ call ∈ calls, call.entered.length < tokens.length)
      (each : ∀ call ∈ calls, IsSettled call) : IsSettled (node tokens calls)

end CallTree

theorem callTree_eq (tokens : List String) :
    callTree tokens = .node tokens ((callsOf tokens).map callTree) := by
  rw [callTree]
  exact congrArg (CallTree.node tokens) (List.attach_map_val (f := callTree))

/-- Reads tokens whose parentheses are balanced, and keeps a record of the calls. -/
def parseTraced (tokens : List String) : Expression × CallTree :=
  match _h : shapeOf (stripOuter tokens) with
  | .union parts =>
    let operands := parts.attach.map fun ⟨part, _⟩ => parseTraced part
    (junction .union (stripOuter tokens) (operands.map Prod.fst),
      .node tokens (operands.map Prod.snd))
  | .inter parts =>
    let operands := parts.attach.map fun ⟨part, _⟩ => parseTraced part
    (junction .inter (stripOuter tokens) (operands.map Prod.fst),
      .node tokens (operands.map Prod.snd))
  | .compl rest =>
    let operand := parseTraced rest
    (.compl operand.1, .node tokens [operand.2])
  | .restrict property quantifier args =>
    if isReflexive quantifier args then
      (.restrict property quantifier none none true, .node tokens [])
    else if quantifier = .value then
      (.restrict property quantifier (some (.raw (joinWords args))) none false, .node tokens [])
    else
      let number := (number? quantifier args).map Int.ofNat
      if (fillerTokens quantifier args).isEmpty then
        (.restrict property quantifier none number false, .node tokens [])
      else
        let filler := parseTraced (fillerTokens quantifier args)
        (.restrict property quantifier (some filler.1) number false, .node tokens [filler.2])
  | .other => (.name (joinWords (stripOuter tokens)), .node tokens [])
termination_by tokens.length
decreasing_by
  · exact length_lt_of_shapeOf_stripOuter _h ‹_›
  · exact length_lt_of_shapeOf_stripOuter _h ‹_›
  · exact length_lt_of_shapeOf_stripOuter _h List.mem_cons_self
  · exact Nat.lt_of_le_of_lt (length_fillerTokens_le quantifier args)
      (length_lt_of_shapeOf_stripOuter _h List.mem_cons_self)

/-- The record changes nothing. -/
theorem parseTraced_fst (tokens : List String) : (parseTraced tokens).1 = parseTokens tokens := by
  have operands {parts : List (List String)}
      (ih : ∀ part ∈ parts, (parseTraced part).1 = parseTokens part) :
      (parts.attach.map fun ⟨part, _⟩ => parseTraced part).map Prod.fst =
        parts.map parseTokens := by
    rw [List.map_map, ← List.attach_map_val (f := parseTokens)]
    exact List.map_congr_left fun part _ => ih part.1 part.2
  fun_induction parseTraced tokens with
  | case1 tokens parts hs read ih => rw [parseTokens_union hs, ← operands ih]
  | case2 tokens parts hs read ih => rw [parseTokens_inter hs, ← operands ih]
  | case3 tokens rest hs read ih => rw [parseTokens_compl hs, ← ih]
  | case4 tokens property quantifier args hs self =>
    rw [parseTokens_restrict hs, restriction, if_pos self]
  | case5 tokens property args hs self =>
    rw [parseTokens_restrict hs, restriction, if_neg self, if_pos rfl]
  | case6 tokens property quantifier args hs self value number empty =>
    rw [parseTokens_restrict hs, restriction, if_neg self, if_neg value]
    exact (if_pos empty).symm
  | case7 tokens property quantifier args hs self value number filled read ih =>
    rw [parseTokens_restrict hs, restriction, if_neg self, if_neg value, ← ih]
    exact (if_neg filled).symm
  | case8 tokens hs => rw [parseTokens_other hs]

theorem callsOf_eq_parts {tokens : List String} {shape : Shape}
    (hs : shapeOf (stripOuter tokens) = shape)
    (junction : ∀ property quantifier args, shape ≠ .restrict property quantifier args) :
    callsOf tokens = shape.parts := by
  rw [callsOf, hs]
  cases shape with
  | restrict property quantifier args => exact absurd rfl (junction property quantifier args)
  | union | inter | compl | other => rfl

theorem callsOf_restrict {tokens args : List String} {property : String} {quantifier : Quantifier}
    (hs : shapeOf (stripOuter tokens) = .restrict property quantifier args) :
    callsOf tokens =
      if isReflexive quantifier args || quantifier == .value ||
          (fillerTokens quantifier args).isEmpty then []
      else [fillerTokens quantifier args] := by
  rw [callsOf, hs]

/-- The record is the tree of calls. -/
theorem parseTraced_snd (tokens : List String) : (parseTraced tokens).2 = callTree tokens := by
  have operands {parts : List (List String)}
      (ih : ∀ part ∈ parts, (parseTraced part).2 = callTree part) :
      (parts.attach.map fun ⟨part, _⟩ => parseTraced part).map Prod.snd = parts.map callTree := by
    rw [List.map_map, ← List.attach_map_val (f := callTree)]
    exact List.map_congr_left fun part _ => ih part.1 part.2
  fun_induction parseTraced tokens with
  | case1 tokens parts hs read ih =>
    rw [callTree_eq, callsOf_eq_parts hs (by rintro _ _ _ ⟨⟩), Shape.parts, ← operands ih]
  | case2 tokens parts hs read ih =>
    rw [callTree_eq, callsOf_eq_parts hs (by rintro _ _ _ ⟨⟩), Shape.parts, ← operands ih]
  | case3 tokens rest hs read ih =>
    rw [callTree_eq, callsOf_eq_parts hs (by rintro _ _ _ ⟨⟩), Shape.parts, List.map_singleton,
      ← ih]
  | case4 tokens property quantifier args hs self =>
    rw [callTree_eq, callsOf_restrict hs, self]
    rfl
  | case5 tokens property args hs self =>
    rw [callTree_eq, callsOf_restrict hs, if_pos (by simp)]
    rfl
  | case6 tokens property quantifier args hs self value number empty =>
    rw [callTree_eq, callsOf_restrict hs, if_pos (by simp [empty])]
    rfl
  | case7 tokens property quantifier args hs self value number filled read ih =>
    rw [callTree_eq, callsOf_restrict hs, if_neg (by simp [self, value, filled]),
      List.map_singleton, ← ih]
  | case8 tokens hs => rw [callTree_eq, callsOf_eq_parts hs (by rintro _ _ _ ⟨⟩)]; rfl

/-! Taking parentheses off. -/

section Balance

variable {ts us : List String} {t word : String}

theorem Balanced.tail (h : Balanced (t :: ts)) (plain : isParen t = false) : Balanced ts := by
  cases h with
  | token _ rest => exact rest
  | group _ _ => cases plain

/-- What one pair of parentheses encloses is balanced by itself. -/
theorem Balanced.inside (h : Balanced ("(" :: (ts ++ [")"])))
    (enclosed : isEnclosed ("(" :: (ts ++ [")"])) = true) : Balanced ts := by
  generalize whole : "(" :: (ts ++ [")"]) = us at h
  cases h with
  | nil => cases whole
  | token plain _ =>
    obtain ⟨rfl, -⟩ := List.cons.inj whole
    cases plain
  | @group inner rest balanced behind =>
    obtain ⟨-, same⟩ := List.cons.inj whole
    by_cases more : rest = []
    · subst more
      exact (List.append_inj_left' same rfl) ▸ balanced
    · -- Two groups side by side are not enclosed by one pair.
      have apart := balanced.parens.isEnclosed_append (List.cons_ne_nil _ _) more
      rw [List.cons_append, List.append_assoc, List.cons_append, List.nil_append, ← whole,
        enclosed] at apart
      cases apart

/-- Parentheses around the whole are taken off in pairs. -/
theorem balanced_stripOuter (h : Balanced ts) : Balanced (stripOuter ts) ∧
    ∃ pairs, ts = List.replicate pairs "(" ++ (stripOuter ts ++ List.replicate pairs ")") := by
  fun_induction stripOuter ts with
  | case1 ts enclosed ih =>
    have whole := eq_of_isEnclosed enclosed
    rw [whole] at h enclosed
    obtain ⟨balanced, pairs, inner⟩ := ih (h.inside enclosed)
    refine ⟨balanced, pairs + 1, ?_⟩
    rw [List.replicate_succ, List.replicate_succ', List.cons_append, ← List.append_assoc,
      ← List.append_assoc, List.append_assoc _ _ (List.replicate pairs ")"), ← inner]
    exact whole
  | case2 ts _ => exact ⟨h, 0, by simp⟩

/-! Cutting. -/

theorem forall_mem_prepend {front : List String} (clear : Clear word front)
    {parts : List (List String)} (some : parts ≠ []) (each : ∀ part ∈ parts, Clear word part) :
    ∀ part ∈ prepend front parts, Clear word part := by
  obtain ⟨first, others, rfl⟩ := List.exists_cons_of_ne_nil some
  rw [prepend_cons]
  obtain ⟨head, tail⟩ := List.forall_mem_cons.1 each
  exact List.forall_mem_cons.2 ⟨clear.append head, tail⟩

/-- The parts of a balanced list are balanced, and hold the word in groups only. -/
theorem Balanced.clear_splitTop (h : Balanced ts) (word : String) :
    ∀ part ∈ splitTop word ts, Clear word part := by
  have kept {front us : List String} (clear : Clear word front)
      (each : ∀ part ∈ splitTop word us, Clear word part) :
      ∀ part ∈ splitTop word (front ++ us), Clear word part := by
    rw [splitTop, clear.splitFrom_append]
    exact forall_mem_prepend clear (splitFrom_ne_nil word 0 us) each
  induction h with
  | nil => exact List.forall_mem_singleton.2 .nil
  | @token t ts plain _ ih =>
    by_cases same : Text.lower t = word
    · have cuts := Clear.nil.splitTop_append plain same ts
      rw [List.nil_append] at cuts
      rw [cuts]
      exact List.forall_mem_cons.2 ⟨.nil, ih⟩
    · exact kept (.token plain same .nil) ih
  | @group inner rest balanced _ _ ih =>
    have groups := kept (Clear.parens balanced) ih
    rwa [List.cons_append, List.append_assoc] at groups

/-- The parts and the words between them, put together again, are the whole. -/
theorem exists_cuts (word : String) (depth : Nat) (ts : List String) :
    ∃ first others cuts, splitFrom word depth ts = first :: others ∧
      cuts.length = others.length ∧ (∀ t ∈ cuts, Text.lower t = word) ∧
      ts = first ++ (List.zipWith List.cons cuts others).flatten := by
  have put (t : String) {ts : List String} {parts : List (List String)}
      (h : ∃ first others cuts, parts = first :: others ∧ cuts.length = others.length ∧
        (∀ t ∈ cuts, Text.lower t = word) ∧
        ts = first ++ (List.zipWith List.cons cuts others).flatten) :
      ∃ first others cuts, consFirst t parts = first :: others ∧ cuts.length = others.length ∧
        (∀ t ∈ cuts, Text.lower t = word) ∧
        t :: ts = first ++ (List.zipWith List.cons cuts others).flatten := by
    obtain ⟨first, others, cuts, rfl, lengths, same, whole⟩ := h
    exact ⟨t :: first, others, cuts, rfl, lengths, same, by rw [whole, List.cons_append]⟩
  fun_induction splitFrom word depth ts with
  | case1 => exact ⟨[], [], [], rfl, rfl, List.forall_mem_nil _, rfl⟩
  | case2 depth ts ih => exact put "(" ih
  | case3 depth ts _ ih => exact put ")" ih
  | case4 depth t ts _ _ found ih =>
    obtain ⟨first, others, cuts, parts, lengths, same, whole⟩ := ih
    refine ⟨[], first :: others, t :: cuts, by rw [parts], by simp [lengths],
      List.forall_mem_cons.2 ⟨found.2, same⟩, ?_⟩
    rw [List.zipWith_cons_cons, List.flatten_cons, List.nil_append, List.cons_append, ← whole]
  | case5 depth t ts _ _ _ ih => exact put t ih

/-! Dropping tokens from the front. -/

theorem isParen_of_count? (h : (count? t).isSome = true) : isParen t = false := by
  refine plain_of_ne ?_ ?_ <;> rintro rfl <;> exact absurd h (by decide)

/-- A shape holds balanced lists, where the tokens are balanced. -/
theorem Balanced.of_mem_shapeOf {part : List String} (h : Balanced ts)
    (hp : part ∈ (shapeOf ts).parts) : Balanced part := by
  have operands {word : String} {parts : List (List String)}
      (found : operands? word ts = some parts) (hp : part ∈ parts) : Balanced part := by
    unfold operands? at found
    dsimp only at found
    split at found
    · cases found
    · obtain rfl := Option.some.inj found
      exact (h.clear_splitTop word part (List.mem_filter.1 hp).1).balanced
  have shape := hasShape ts
  generalize shapeOf ts = held at hp shape
  cases shape with
  | union found => exact operands found hp
  | inter found => exact operands found hp
  | @compl t rest tokens word =>
    rw [tokens] at h
    rw [List.mem_singleton.1 hp]
    exact h.tail (isParen_of_lower (by rw [word]; decide))
  | restrict tokens plain word =>
    rw [tokens] at h
    rw [List.mem_singleton.1 hp]
    exact (h.tail plain).tail (isParen_of_quantifier (eq_word_of_ofWord? word))
  | other => cases hp

theorem Balanced.of_fillerTokens {args : List String} (h : Balanced args)
    (quantifier : Quantifier) : Balanced (fillerTokens quantifier args) := by
  rcases fillerTokens_eq_or quantifier args with same | ⟨t, whole, number⟩
  · rwa [same]
  · rw [whole] at h
    exact h.tail (isParen_of_count? number)

end Balance

/-! Calls. -/

theorem Balanced.of_mem_callsOf {tokens part : List String} (h : Balanced tokens)
    (hp : part ∈ callsOf tokens) : Balanced part := by
  have inside := (balanced_stripOuter h).1
  unfold callsOf at hp
  split at hp
  · rename_i quantifier args hs
    dsimp only at hp
    split at hp
    · cases hp
    · rw [List.mem_singleton.1 hp]
      exact (inside.of_mem_shapeOf (hs ▸ List.mem_cons_self)).of_fillerTokens quantifier
  · exact inside.of_mem_shapeOf hp

/-- The lists that reading a balanced list enters are balanced and get shorter. -/
theorem isSettled_callTree {tokens : List String} (h : Balanced tokens) :
    (callTree tokens).IsSettled := by
  rw [callTree_eq]
  have entered (part : List String) : (callTree part).entered = part := by rw [callTree_eq]; rfl
  refine .node h ?_ ?_ ?_
  · rw [List.map_map]
    exact (List.map_congr_left fun part _ => entered part).trans (List.map_id _)
  · refine List.forall_mem_map.2 fun part hp => ?_
    rw [entered]
    exact length_lt_of_mem_callsOf hp
  · exact List.forall_mem_map.2 fun part hp => isSettled_callTree (h.of_mem_callsOf hp)
termination_by tokens.length
decreasing_by exact length_lt_of_mem_callsOf hp

/-- Reading a text enters balanced lists only, and each list that is entered from another is
shorter. Cut at one of the keywords of junctions, a balanced list has balanced parts that hold the
keyword in groups only, and the parts with the keywords between them are the list. Without the
parentheses around the whole it is still balanced, and with so many pairs of them put back it is the
list. -/
theorem isSettled_parse :
    (∀ s, (parseTraced (balance (tokens s))).1 = parse s ∧
      (parseTraced (balance (tokens s))).2.IsSettled) ∧
    (∀ ts, Balanced ts → ∀ word ∈ ["or", "and"],
      (∀ part ∈ splitTop word ts, Clear word part) ∧
      ∃ first others cuts, splitTop word ts = first :: others ∧ cuts.length = others.length ∧
        (∀ t ∈ cuts, Text.lower t = word) ∧
        ts = first ++ (List.zipWith List.cons cuts others).flatten) ∧
    (∀ ts, Balanced ts → Balanced (stripOuter ts) ∧
      ∃ pairs, ts = List.replicate pairs "(" ++ (stripOuter ts ++ List.replicate pairs ")")) := by
  refine ⟨fun s => ⟨parseTraced_fst _, ?_⟩, fun ts h word _ => ⟨h.clear_splitTop word, ?_⟩,
    fun ts => balanced_stripOuter⟩
  · rw [parseTraced_snd]
    exact isSettled_callTree (balanced_iff_isMatched.2 (isMatched_balance (tokens s)))
  · exact exists_cuts word 0 ts

/-- Of two groups in a group each keeps its keyword. -/
theorem isSettled_parse_groups :
    let ts := ["(", "(", "A", "or", "B", ")", "OR", "not", "(", "C", "or", "D", ")", ")"]
    Balanced ts ∧ "or" ∈ ["or", "and"] ∧ (∀ part ∈ splitTop "or" ts, Clear "or" part) ∧
      Balanced (stripOuter ts) ∧
      (parseTraced (balance (tokens "((A or B) OR not (C or D))"))).2.IsSettled := by
  intro ts
  have group {a b : String} (ha : isParen a = false) (hb : isParen b = false) :
      Balanced [a, "or", b] := .token ha (.token (by decide) (.token hb .nil))
  have balanced : Balanced ts :=
    .group (.group (group (by decide) (by decide))
      (.token (by decide) (.token (by decide) (.group (group (by decide) (by decide)) .nil)))) .nil
  have junction : "or" ∈ ["or", "and"] := by decide
  obtain ⟨read, cut, stripped⟩ := isSettled_parse
  exact ⟨balanced, junction, (cut ts balanced "or" junction).1, (stripped ts balanced).1,
    (read "((A or B) OR not (C or D))").2⟩

end Ontogram.Expression
