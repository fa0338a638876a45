import Ontogram.Proofs.ParseTree

set_option autoImplicit false

namespace Ontogram

/-- A class expression with lists of tokens in the place of names and texts. -/
inductive TokenTree where
  | name (tokens : List String)
  | raw (tokens : List String)
  | inter (operands : List TokenTree)
  | union (operands : List TokenTree)
  | compl (operand : TokenTree)
  | restrict (property : String) (quantifier : Quantifier) (filler : Option TokenTree)
      (number : Option Int) (reflexive : Bool)

namespace TokenTree

open Expression (shapeOf stripOuter isParen isReflexive number? fillerTokens KeepsContent)

mutual

/-- The expression with a space between each two tokens of a name. -/
def joined : TokenTree → Expression
  | name tokens => .name (String.intercalate " " tokens)
  | raw tokens => .raw (String.intercalate " " tokens)
  | inter operands => .inter (joinedAll operands)
  | union operands => .union (joinedAll operands)
  | compl operand => .compl operand.joined
  | restrict property quantifier none number reflexive =>
    .restrict property quantifier none number reflexive
  | restrict property quantifier (some filler) number reflexive =>
    .restrict property quantifier (some filler.joined) number reflexive

/-- The expressions of several trees. -/
def joinedAll : List TokenTree → List Expression
  | [] => []
  | e :: es => e.joined :: joinedAll es

end

mutual

/-- The tokens of a tree from left to right, that of a property before those of its filler. -/
def tokens : TokenTree → List String
  | name tokens => tokens
  | raw tokens => tokens
  | inter operands => tokensIn operands
  | union operands => tokensIn operands
  | compl operand => operand.tokens
  | restrict property _ none _ _ => [property]
  | restrict property _ (some filler) _ _ => property :: filler.tokens

def tokensIn : List TokenTree → List String
  | [] => []
  | e :: es => e.tokens ++ tokensIn es

end

/-- A junction of operands. One operand stands for itself, and without operands the tokens are a
name. -/
def junction (join : List TokenTree → TokenTree) (tokens : List String) :
    List TokenTree → TokenTree
  | [] => .name (tokens.filter fun t => !isParen t)
  | [e] => e
  | es => join es

/-- The tree of tokens whose parentheses are balanced. -/
def ofTokens (tokens : List String) : TokenTree :=
  match _h : shapeOf (stripOuter tokens) with
  | .union parts =>
    junction .union (stripOuter tokens) (parts.attach.map fun ⟨part, _⟩ => ofTokens part)
  | .inter parts =>
    junction .inter (stripOuter tokens) (parts.attach.map fun ⟨part, _⟩ => ofTokens part)
  | .compl rest => .compl (ofTokens rest)
  | .restrict property quantifier args =>
    if isReflexive quantifier args then .restrict property quantifier none none true
    else if quantifier = .value then
      .restrict property quantifier (some (.raw (args.filter fun t => !isParen t))) none false
    else
      let number := (number? quantifier args).map Int.ofNat
      if (fillerTokens quantifier args).isEmpty then
        .restrict property quantifier none number false
      else
        .restrict property quantifier (some (ofTokens (fillerTokens quantifier args))) number false
  | .other => .name ((stripOuter tokens).filter fun t => !isParen t)
termination_by tokens.length
decreasing_by
  · exact Expression.length_lt_of_shapeOf_stripOuter _h ‹_›
  · exact Expression.length_lt_of_shapeOf_stripOuter _h ‹_›
  · exact Expression.length_lt_of_shapeOf_stripOuter _h List.mem_cons_self
  · exact Nat.lt_of_le_of_lt (Expression.length_fillerTokens_le quantifier args)
      (Expression.length_lt_of_shapeOf_stripOuter _h List.mem_cons_self)

def ofText (s : String) : TokenTree :=
  ofTokens (Expression.balance (Expression.tokens s))

/-! Joining. -/

theorem joinedAll_eq_map (es : List TokenTree) : joinedAll es = es.map joined := by
  induction es with
  | nil => rfl
  | cons e es ih => rw [joinedAll, ih, List.map_cons]

theorem joined_junction {join : List TokenTree → TokenTree}
    {join' : List Expression → Expression} (same : ∀ es, (join es).joined = join' (es.map joined))
    (tokens : List String) (es : List TokenTree) :
    (junction join tokens es).joined = Expression.junction join' tokens (es.map joined) := by
  match es with
  | [] => rfl
  | [e] => rfl
  | e :: f :: es => exact same _

/-- Names may be joined when the whole tree is known. -/
theorem joined_ofTokens (tokens : List String) :
    (ofTokens tokens).joined = Expression.parseTokens tokens := by
  have operands {parts : List (List String)}
      (ih : ∀ part ∈ parts, (ofTokens part).joined = Expression.parseTokens part) :
      (parts.attach.map fun ⟨part, _⟩ => ofTokens part).map joined =
        parts.map Expression.parseTokens := by
    rw [List.map_map, ← List.attach_map_val (f := Expression.parseTokens)]
    exact List.map_congr_left fun part _ => ih part.1 part.2
  fun_induction ofTokens tokens with
  | case1 tokens parts hs ih =>
    rw [Expression.parseTokens_union hs, ← operands ih]
    exact joined_junction (fun es => by rw [joined, joinedAll_eq_map]) _ _
  | case2 tokens parts hs ih =>
    rw [Expression.parseTokens_inter hs, ← operands ih]
    exact joined_junction (fun es => by rw [joined, joinedAll_eq_map]) _ _
  | case3 tokens rest hs ih => rw [Expression.parseTokens_compl hs, joined, ih]
  | case4 tokens property quantifier args hs self =>
    rw [Expression.parseTokens_restrict hs, Expression.restriction, if_pos self, joined]
  | case5 tokens property args hs self =>
    rw [Expression.parseTokens_restrict hs, Expression.restriction, if_neg self, if_pos rfl,
      joined, joined]
    rfl
  | case6 tokens property quantifier args hs self value number empty =>
    rw [Expression.parseTokens_restrict hs, Expression.restriction, if_neg self, if_neg value,
      joined]
    exact (if_pos empty).symm
  | case7 tokens property quantifier args hs self value number filled ih =>
    rw [Expression.parseTokens_restrict hs, Expression.restriction, if_neg self, if_neg value,
      joined, ih]
    exact (if_neg filled).symm
  | case8 tokens hs =>
    rw [Expression.parseTokens_other hs, joined]
    rfl

theorem joined_ofText (s : String) : (ofText s).joined = Expression.parse s :=
  joined_ofTokens _

/-! Content. -/

theorem tokens_junction {join : List TokenTree → TokenTree}
    (same : ∀ es, (join es).tokens = tokensIn es) {us ts : List String} {es : List TokenTree}
    (named : KeepsContent us ts) (keeps : KeepsContent (tokensIn es) ts) :
    KeepsContent (junction join us es).tokens ts := by
  match es with
  | [] =>
    rw [junction, tokens]
    exact named.trans (Expression.keepsContent_filter us)
  | [e] =>
    rw [tokensIn, tokensIn, List.append_nil] at keeps
    exact keeps
  | e :: f :: es =>
    have several : (junction join us (e :: f :: es)).tokens = tokensIn (e :: f :: es) := same _
    rw [several]
    exact keeps

theorem keepsContent_tokensIn {α : Type} (f : α → TokenTree) (g : α → List String) (xs : List α)
    (each : ∀ x ∈ xs, KeepsContent (f x).tokens (g x)) :
    KeepsContent (tokensIn (xs.map f)) (xs.map g).flatten := by
  induction xs with
  | nil => exact .refl []
  | cons x xs ih =>
    rw [List.map_cons, List.map_cons, tokensIn, List.flatten_cons]
    exact (each x List.mem_cons_self).append (ih fun y hy => each y (List.mem_cons_of_mem x hy))

/-- Reading keeps the content of tokens among which the word `self` is not. -/
theorem keepsContent_ofTokens {tokens : List String}
    (other : ∀ t ∈ tokens, Text.lower t ≠ "self") :
    KeepsContent (ofTokens tokens).tokens tokens := by
  have operands {parts : List (List String)} (other : ∀ t ∈ parts.flatten, Text.lower t ≠ "self")
      (ih : ∀ part ∈ parts, (∀ t ∈ part, Text.lower t ≠ "self") →
        KeepsContent (ofTokens part).tokens part) :
      KeepsContent (tokensIn (parts.attach.map fun ⟨part, _⟩ => ofTokens part)) parts.flatten := by
    have keeps := keepsContent_tokensIn (fun part : { part // part ∈ parts } => ofTokens part.1)
      Subtype.val parts.attach fun part _ =>
        ih part.1 part.2 fun t ht => other t (List.mem_flatten_of_mem part.2 ht)
    rw [List.attach_map_subtype_val] at keeps
    exact keeps
  fun_induction ofTokens tokens with
  | case1 tokens parts hs ih =>
    have keeps := Expression.keepsContent_of_union hs
    have inner := operands (keeps.forall_mem other) ih
    exact tokens_junction (fun es => by rw [TokenTree.tokens])
      (Expression.keepsContent_stripOuter tokens) (keeps.trans inner)
  | case2 tokens parts hs ih =>
    have keeps := Expression.keepsContent_of_inter hs
    have inner := operands (keeps.forall_mem other) ih
    exact tokens_junction (fun es => by rw [TokenTree.tokens])
      (Expression.keepsContent_stripOuter tokens) (keeps.trans inner)
  | case3 tokens rest hs ih =>
    have keeps := Expression.keepsContent_of_compl hs
    exact keeps.trans (ih (keeps.forall_mem other))
  | case4 tokens property quantifier args hs self =>
    -- Only the word itself makes a restriction reflexive.
    obtain ⟨keeps, ne⟩ := Expression.keepsContent_of_restrict hs other
    have rest := keeps.forall_mem other
    rw [Expression.isReflexive_eq_false ne fun t ht => rest t (List.mem_cons_of_mem _ ht)] at self
    cases self
  | case5 tokens property args hs self =>
    obtain ⟨keeps, -⟩ := Expression.keepsContent_of_restrict hs other
    exact keeps.trans ((Expression.keepsContent_filter args).cons property)
  | case6 tokens property quantifier args hs self value number empty =>
    obtain ⟨keeps, -⟩ := Expression.keepsContent_of_restrict hs other
    have filler := Expression.keepsContent_fillerTokens quantifier args
    rw [List.isEmpty_iff.1 empty] at filler
    exact keeps.trans (filler.cons property)
  | case7 tokens property quantifier args hs self value number filled ih =>
    obtain ⟨keeps, -⟩ := Expression.keepsContent_of_restrict hs other
    have filler := keeps.trans
      ((Expression.keepsContent_fillerTokens quantifier args).cons property)
    have inner := ih fun t ht => filler.forall_mem other t (List.mem_cons_of_mem _ ht)
    exact filler.trans (inner.cons property)
  | case8 tokens hs =>
    exact (Expression.keepsContent_stripOuter tokens).trans (Expression.keepsContent_filter _)

/-- Reading a text neither loses nor invents nor reorders what says something of its own. -/
theorem content_ofText {s : String} (other : ∀ t ∈ Expression.tokens s, Text.lower t ≠ "self") :
    (ofText s).joined = Expression.parse s ∧
      (ofText s).tokens.Sublist (Expression.tokens s) ∧
      (ofText s).tokens.filter Expression.isContent =
        (Expression.tokens s).filter Expression.isContent := by
  have balanced := Expression.keepsContent_balance (Expression.tokens s)
  have keeps := balanced.trans (keepsContent_ofTokens (balanced.forall_mem other))
  exact ⟨joined_ofText s, keeps.sublist, keeps.content⟩

/-- Also where parentheses and keywords are out of place. -/
theorem content_ofText_brokenGroup :
    let s := "not ) Person and or ( eats MIN 2 (Dog or \"a b\") only"
    (∀ t ∈ Expression.tokens s, Text.lower t ≠ "self") ∧
      (ofText s).joined = Expression.parse s ∧
      (ofText s).tokens.filter Expression.isContent = ["Person", "eats", "Dog", "\"a b\""] := by
  intro s
  have words : Expression.tokens s = ["not", ")", "Person", "and", "or", "(", "eats", "MIN", "2",
      "(", "Dog", "or", "\"a b\"", ")", "only"] := by
    decide +kernel
  have other : ∀ t ∈ Expression.tokens s, Text.lower t ≠ "self" := by
    rw [words]
    decide
  obtain ⟨joined, -, content⟩ := content_ofText other
  refine ⟨other, joined, content.trans ?_⟩
  rw [words]
  decide

end TokenTree

end Ontogram
