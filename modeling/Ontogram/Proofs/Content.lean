import Ontogram.Expression.Parse
import Ontogram.Proofs.Balanced

set_option autoImplicit false

namespace Ontogram.Expression

/-- The keywords whose place in a tree tells that they were there. -/
def structureWords : List String :=
  ["or", "and", "not", "some", "only", "value", "min", "max", "exactly"]

/-- Whether a token says something of its own: it is no parenthesis, no number and no keyword. -/
def isContent (token : String) : Bool :=
  !isParen token && !token.toList.all Text.isAsciiDigit &&
    !structureWords.contains (Text.lower token)

theorem isContent_of_isParen {t : String} (h : isParen t = true) : isContent t = false := by
  simp [isContent, h]

theorem isContent_of_keyword {t : String} (h : Text.lower t ∈ structureWords) :
    isContent t = false := by
  simp [isContent, h]

theorem isContent_of_count? {t : String} (h : (count? t).isSome = true) :
    isContent t = false := by
  unfold count? at h
  dsimp only at h
  split at h
  · cases h
  · rename_i digits
    simp only [Bool.or_eq_true, not_or, Bool.not_eq_true'] at digits
    simp [isContent, digits.2]

/-- Tokens are others without some that say nothing of their own. -/
structure KeepsContent (us ts : List String) : Prop where
  sublist : us.Sublist ts
  content : us.filter isContent = ts.filter isContent

namespace KeepsContent

variable {ts us vs ts' us' : List String}

theorem refl (ts : List String) : KeepsContent ts ts :=
  ⟨List.Sublist.refl ts, rfl⟩

theorem forall_mem {P : String → Prop} (h : KeepsContent us ts) (each : ∀ t ∈ ts, P t) :
    ∀ t ∈ us, P t :=
  fun t ht => each t (h.sublist.subset ht)

theorem trans (h : KeepsContent us ts) (h' : KeepsContent vs us) : KeepsContent vs ts :=
  ⟨h'.sublist.trans h.sublist, h'.content.trans h.content⟩

theorem append (h : KeepsContent us ts) (h' : KeepsContent us' ts') :
    KeepsContent (us ++ us') (ts ++ ts') :=
  ⟨h.sublist.append h'.sublist,
    by rw [List.filter_append, List.filter_append, h.content, h'.content]⟩

theorem cons (t : String) (h : KeepsContent us ts) : KeepsContent (t :: us) (t :: ts) :=
  (refl [t]).append h

theorem drop {t : String} (mark : isContent t = false) (h : KeepsContent us ts) :
    KeepsContent us (t :: ts) :=
  ⟨h.sublist.cons t, by rw [List.filter_cons_of_neg (by simp [mark]), h.content]⟩

end KeepsContent

/-! Parentheses. -/

theorem keepsContent_dropClosers (depth : Nat) (ts : List String) :
    KeepsContent (dropClosers depth ts) ts := by
  fun_induction dropClosers depth ts with
  | case1 => exact .refl []
  | case2 depth ts ih => exact ih.cons "("
  | case3 ts _ ih => exact ih.drop (isContent_of_isParen rfl)
  | case4 depth ts _ _ ih => exact ih.cons ")"
  | case5 depth t ts _ _ ih => exact ih.cons t

theorem keepsContent_dropOpeners (ts : List String) : KeepsContent (dropOpeners ts).1 ts := by
  fun_induction dropOpeners ts with
  | case1 => exact .refl []
  | case2 ts kept read ih =>
    rw [read] at ih
    exact ih.drop (isContent_of_isParen rfl)
  | case3 ts kept waiting read _ ih =>
    rw [read] at ih
    exact ih.cons "("
  | case4 ts kept waiting read _ ih =>
    rw [read] at ih
    exact ih.cons ")"
  | case5 t ts kept waiting read _ _ ih =>
    rw [read] at ih
    exact ih.cons t

theorem keepsContent_balance (ts : List String) : KeepsContent (balance ts) ts :=
  (keepsContent_dropClosers 0 ts).trans (keepsContent_dropOpeners _)

/-- What is enclosed has a parenthesis at each end. -/
theorem eq_of_isEnclosed {ts : List String} (h : isEnclosed ts = true) :
    ts = "(" :: (ts.tail.dropLast ++ [")"]) := by
  cases ts with
  | nil => cases h
  | cons t ts =>
    simp only [isEnclosed, Bool.and_eq_true, beq_iff_eq] at h
    obtain ⟨⟨rfl, last⟩, -⟩ := h
    obtain ⟨front, rfl⟩ := List.getLast?_eq_some_iff.1 last
    simp

theorem keepsContent_stripOuter (ts : List String) : KeepsContent (stripOuter ts) ts := by
  fun_induction stripOuter ts with
  | case1 ts enclosed ih =>
    have inner : KeepsContent ts.tail.dropLast ("(" :: (ts.tail.dropLast ++ [")"])) := by
      have closed := (KeepsContent.refl ts.tail.dropLast).append
        ((KeepsContent.refl []).drop (isContent_of_isParen (t := ")") rfl))
      rw [List.append_nil] at closed
      exact closed.drop (isContent_of_isParen rfl)
    rw [← eq_of_isEnclosed enclosed] at inner
    exact inner.trans ih
  | case2 ts _ => exact .refl ts

theorem keepsContent_filter (ts : List String) :
    KeepsContent (ts.filter fun t => !isParen t) ts := by
  refine ⟨List.filter_sublist, ?_⟩
  rw [List.filter_filter]
  refine List.filter_congr fun t _ => ?_
  cases paren : isParen t with
  | true => simp [isContent_of_isParen paren]
  | false => simp

/-! Operands. -/

theorem flatten_consFirst (t : String) (parts : List (List String)) :
    (consFirst t parts).flatten = t :: parts.flatten := by
  cases parts <;> rfl

theorem keepsContent_splitFrom {word : String} (keyword : word ∈ structureWords) (depth : Nat)
    (ts : List String) : KeepsContent (splitFrom word depth ts).flatten ts := by
  fun_induction splitFrom word depth ts with
  | case1 => exact .refl []
  | case2 depth ts ih =>
    rw [flatten_consFirst]
    exact ih.cons "("
  | case3 depth ts _ ih =>
    rw [flatten_consFirst]
    exact ih.cons ")"
  | case4 depth t ts _ _ cuts ih => exact ih.drop (isContent_of_keyword (cuts.2 ▸ keyword))
  | case5 depth t ts _ _ _ ih =>
    rw [flatten_consFirst]
    exact ih.cons t

theorem keepsContent_operands? {word : String} (keyword : word ∈ structureWords)
    {ts : List String} {parts : List (List String)} (h : operands? word ts = some parts) :
    KeepsContent parts.flatten ts := by
  unfold operands? at h
  dsimp only at h
  split at h
  · cases h
  · obtain rfl := Option.some.inj h
    rw [List.flatten_filter_not_isEmpty]
    exact keepsContent_splitFrom keyword 0 ts

/-! Shapes. -/

/-- How a list of tokens comes by its shape. -/
inductive HasShape (ts : List String) : Shape → Prop where
  | union {parts : List (List String)} (operands : operands? "or" ts = some parts) :
      HasShape ts (.union parts)
  | inter {parts : List (List String)} (operands : operands? "and" ts = some parts) :
      HasShape ts (.inter parts)
  | compl {t : String} {rest : List String} (tokens : ts = t :: rest)
      (word : Text.lower t = "not") : HasShape ts (.compl rest)
  | restrict {property u : String} {quantifier : Quantifier} {rest : List String}
      (tokens : ts = property :: u :: rest) (plain : isParen property = false)
      (word : Quantifier.ofWord? (Text.lower u) = some quantifier) :
      HasShape ts (.restrict property quantifier rest)
  | other : HasShape ts .other

theorem hasShape_unaryShape (ts : List String) : HasShape ts (unaryShape ts) := by
  unfold unaryShape
  split
  · rename_i t u us
    split
    · rename_i word
      exact .compl rfl word
    split
    · rename_i found
      obtain ⟨v, tokens, plain, word⟩ := restriction?_eq_some found
      exact .restrict tokens plain word
    · exact .other
  · exact .other

theorem hasShape (ts : List String) : HasShape ts (shapeOf ts) := by
  unfold shapeOf
  split
  · rename_i parts operands
    exact .union operands
  split
  · rename_i parts operands
    exact .inter operands
  · exact hasShape_unaryShape ts

theorem eq_word_of_ofWord? {word : String} {quantifier : Quantifier}
    (h : Quantifier.ofWord? word = some quantifier) : word = quantifier.word := by
  unfold Quantifier.ofWord? at h
  have same := List.find?_some h
  exact (eq_of_beq same).symm

/-- Parentheses are no quantifiers. -/
theorem isParen_of_quantifier {word : String} {quantifier : Quantifier}
    (spelled : Text.lower word = quantifier.word) : isParen word = false := by
  refine isParen_of_lower ?_
  rw [spelled]
  cases quantifier <;> decide

theorem word_mem_structureWords {quantifier : Quantifier} (h : quantifier ≠ .self) :
    quantifier.word ∈ structureWords := by
  cases quantifier <;> first | exact absurd rfl h | decide

section Parts

variable {ts rest : List String} {parts : List (List String)} {property : String}
  {quantifier : Quantifier}

theorem keepsContent_of_union (h : shapeOf (stripOuter ts) = .union parts) :
    KeepsContent parts.flatten ts := by
  cases h ▸ hasShape (stripOuter ts) with
  | union operands =>
    exact (keepsContent_stripOuter ts).trans (keepsContent_operands? (by decide) operands)

theorem keepsContent_of_inter (h : shapeOf (stripOuter ts) = .inter parts) :
    KeepsContent parts.flatten ts := by
  cases h ▸ hasShape (stripOuter ts) with
  | inter operands =>
    exact (keepsContent_stripOuter ts).trans (keepsContent_operands? (by decide) operands)

theorem keepsContent_of_compl (h : shapeOf (stripOuter ts) = .compl rest) :
    KeepsContent rest ts := by
  cases h ▸ hasShape (stripOuter ts) with
  | compl tokens word =>
    have bare := keepsContent_stripOuter ts
    rw [tokens] at bare
    exact bare.trans ((KeepsContent.refl rest).drop (isContent_of_keyword (by rw [word]; decide)))

/-- Of a restriction only its quantifier is dropped, which is `self` if that word is there. -/
theorem keepsContent_of_restrict
    (h : shapeOf (stripOuter ts) = .restrict property quantifier rest)
    (other : ∀ t ∈ ts, Text.lower t ≠ "self") :
    KeepsContent (property :: rest) ts ∧ quantifier ≠ .self := by
  cases h ▸ hasShape (stripOuter ts) with
  | @restrict _ u _ _ tokens _ word =>
    have bare := keepsContent_stripOuter ts
    rw [tokens] at bare
    have spelled : Text.lower u = quantifier.word := eq_word_of_ofWord? word
    have ne : quantifier ≠ .self := by
      rintro rfl
      exact bare.forall_mem other u (by simp) spelled
    have keyword : Text.lower u ∈ structureWords := spelled ▸ word_mem_structureWords ne
    have dropped := (KeepsContent.refl rest).drop (isContent_of_keyword keyword)
    exact ⟨bare.trans (dropped.cons property), ne⟩

end Parts

theorem isReflexive_eq_false {quantifier : Quantifier} {args : List String}
    (ne : quantifier ≠ .self) (other : ∀ t ∈ args, Text.lower t ≠ "self") :
    isReflexive quantifier args = false := by
  refine Bool.eq_false_iff.2 fun reflexive => ?_
  simp only [isReflexive, Bool.or_eq_true, Bool.and_eq_true, beq_iff_eq, List.all_eq_true]
    at reflexive
  rcases reflexive with self | ⟨⟨-, one⟩, words⟩
  · exact ne self
  · obtain ⟨t, rfl⟩ := List.length_eq_one_iff.1 one
    exact other t List.mem_cons_self (words t List.mem_cons_self)

/-- Of the arguments of a restriction only a number in front is dropped. -/
theorem fillerTokens_eq_or (quantifier : Quantifier) (args : List String) :
    fillerTokens quantifier args = args ∨
      ∃ t, args = t :: fillerTokens quantifier args ∧ (count? t).isSome = true := by
  unfold fillerTokens
  split
  · rename_i numbered
    unfold number? at numbered
    split at numbered
    · cases args with
      | nil => cases numbered
      | cons t ts => exact Or.inr ⟨t, rfl, numbered⟩
    · cases numbered
  · exact Or.inl rfl

/-- The number of a restriction is dropped from its arguments. -/
theorem keepsContent_fillerTokens (quantifier : Quantifier) (args : List String) :
    KeepsContent (fillerTokens quantifier args) args := by
  rcases fillerTokens_eq_or quantifier args with same | ⟨t, whole, number⟩
  · rw [same]
    exact .refl args
  · have kept := (KeepsContent.refl (fillerTokens quantifier args)).drop
      (isContent_of_count? number)
    rwa [← whole] at kept

end Ontogram.Expression
