import Ontogram.Proofs.Keyword
import Ontogram.Proofs.ParseTree

set_option autoImplicit false

namespace Ontogram.Expression

section Clearness

variable {word : String} {ts : List String}

theorem IsName.clear {token : String} (h : IsName token) (hw : word ∈ keywords)
    (rest : Clear word ts) : Clear word (token :: ts) :=
  .token h.plain (h.lower_ne hw) rest

theorem Spells.clear {t other : String} (h : Spells t other) (ho : other ∈ keywords)
    (apart : other ≠ word) (rest : Clear word ts) : Clear word (t :: ts) := by
  obtain ⟨plain, same⟩ := h.keyword ho
  exact .token plain (same ▸ apart) rest

theorem ValueTokens.balanced {text : String} (h : ValueTokens text ts) : Balanced ts := by
  induction h with
  | name named => exact .token named.plain .nil
  | quoted quoted => exact .token quoted.plain .nil
  | parens _ ih => exact ih.parens

theorem ValueTokens.clear {text : String} (h : ValueTokens text ts) (hw : word ∈ keywords) :
    Clear word ts := by
  cases h with
  | name named => exact named.clear hw .nil
  | quoted quoted => exact .token quoted.plain (quoted.lower_ne hw) .nil
  | parens inner => exact .parens inner.balanced

theorem NumberTokens.clear {number : Option Nat} (h : NumberTokens number ts)
    (hw : word ∈ keywords) : Clear word ts := by
  cases h with
  | none => exact .nil
  | some number => exact .token number.plain (number.lower_ne hw) .nil

theorem Joined.balanced {parts : List (List String)} (h : Joined word parts ts)
    (hw : word ∈ keywords) (each : ∀ p ∈ parts, Balanced p) : Balanced ts := by
  induction h with
  | one ts => exact each ts List.mem_cons_self
  | more ts spelled _ ih =>
    have first := each ts List.mem_cons_self
    have others := ih fun p hp => each p (List.mem_cons_of_mem ts hp)
    exact first.append (.token (spelled.keyword hw).1 others)

theorem Joined.clear {other : String} {parts : List (List String)} (h : Joined other parts ts)
    (ho : other ∈ keywords) (apart : other ≠ word) (each : ∀ p ∈ parts, Clear word p) :
    Clear word ts := by
  induction h with
  | one ts => exact each ts List.mem_cons_self
  | more ts spelled _ ih =>
    have first := each ts List.mem_cons_self
    have others := ih fun p hp => each p (List.mem_cons_of_mem ts hp)
    exact first.append (spelled.clear ho apart others)

/-- A list that words join is cut into what they join. -/
theorem Joined.splitTop_eq {parts : List (List String)} (h : Joined word parts ts)
    (hw : word ∈ keywords) (each : ∀ p ∈ parts, Clear word p) : splitTop word ts = parts := by
  induction h with
  | one ts => exact (each ts List.mem_cons_self).splitTop_eq
  | more ts spelled _ ih =>
    obtain ⟨plain, same⟩ := spelled.keyword hw
    have first := each ts List.mem_cons_self
    rw [first.splitTop_append plain same, ih fun p hp => each p (List.mem_cons_of_mem ts hp)]

end Clearness

/-- The words that do not stand outside groups where an expression of a level is written. -/
def Level.words : Level → List String
  | .union => []
  | .inter => ["or"]
  | .unary => ["or", "and"]

theorem Level.words_sub (level : Level) : ∀ word ∈ level.words, word ∈ ["or", "and"] := by
  cases level <;> decide

/-- The first token of an expression. -/
def Starts (t : String) : Prop :=
  t = "(" ∨ IsName t ∨ Spells t "not"

theorem isToken_parens {ts : List String} (h : ∀ t ∈ ts, IsToken t) :
    ∀ t ∈ "(" :: (ts ++ [")"]), IsToken t := by
  intro t ht
  rcases List.mem_cons.1 ht with rfl | ht
  · exact .paren (by decide)
  · rcases List.mem_append.1 ht with ht | ht
    · exact h t ht
    · obtain rfl := List.mem_singleton.1 ht
      exact .paren (by decide)

theorem ValueTokens.isToken {text : String} {ts : List String} (h : ValueTokens text ts) :
    ∀ t ∈ ts, IsToken t := by
  induction h with
  | name named => simpa using named.isToken
  | quoted quoted => simpa using IsToken.quoted quoted
  | parens _ ih => exact isToken_parens ih

theorem NumberTokens.isToken {number : Option Nat} {ts : List String}
    (h : NumberTokens number ts) : ∀ t ∈ ts, IsToken t := by
  cases h with
  | none => simp
  | some written => simpa using written.isToken

theorem Joined.isToken {word : String} {parts : List (List String)} {ts : List String}
    (h : Joined word parts ts) (hw : word ∈ keywords)
    (each : ∀ p ∈ parts, ∀ t ∈ p, IsToken t) : ∀ t ∈ ts, IsToken t := by
  induction h with
  | one ts => exact each ts List.mem_cons_self
  | more ts spelled _ ih =>
    have others := ih fun p hp => each p (List.mem_cons_of_mem ts hp)
    have first := each ts List.mem_cons_self
    exact List.forall_mem_append.2 ⟨first, List.forall_mem_cons.2 ⟨spelled.isToken hw, others⟩⟩

namespace Written

variable {level : Level} {e : Expression} {ts : List String}

theorem starts_joined {word : String} {parts : List (List String)} (h : Joined word parts ts)
    (each : ∀ p ∈ parts, ∃ t us, p = t :: us ∧ Starts t) : ∃ t us, ts = t :: us ∧ Starts t := by
  cases h with
  | one ts => exact each ts List.mem_cons_self
  | more ts _ _ =>
    obtain ⟨t, us, rfl, first⟩ := each _ List.mem_cons_self
    exact ⟨t, _, rfl, first⟩

theorem starts (h : Written level e ts) : ∃ t us, ts = t :: us ∧ Starts t := by
  induction h with
  | name named => exact ⟨_, _, rfl, .inr (.inl named)⟩
  | parens _ _ => exact ⟨_, _, rfl, .inl rfl⟩
  | compl spelled _ _ => exact ⟨_, _, rfl, .inr (.inr spelled)⟩
  | reflexive named _ => exact ⟨_, _, rfl, .inr (.inl named)⟩
  | someSelf named _ _ => exact ⟨_, _, rfl, .inr (.inl named)⟩
  | value named _ _ => exact ⟨_, _, rfl, .inr (.inl named)⟩
  | restrict _ named _ _ _ _ _ => exact ⟨_, _, rfl, .inr (.inl named)⟩
  | inter operands _ _ joined ih =>
    exact starts_joined joined (List.forall_mem_map.2 ih)
  | union operands _ _ joined ih =>
    exact starts_joined joined (List.forall_mem_map.2 ih)
  | unary _ ih => exact ih
  | single _ ih => exact ih

/-- What is written at a level is balanced, and the words that join looser operands stand in groups
only. -/
theorem clear (h : Written level e ts) :
    Balanced ts ∧ ∀ word ∈ level.words, Clear word ts := by
  have unary {ts : List String} (clear : ∀ word ∈ ["or", "and"], Clear word ts) :
      Balanced ts ∧ ∀ word ∈ Level.unary.words, Clear word ts :=
    ⟨(clear "or" (by decide)).balanced, clear⟩
  induction h with
  | name named => exact unary fun word hw => named.clear (keyword_of_junction hw) .nil
  | parens _ ih => exact unary fun word _ => .parens ih.1
  | compl spelled _ ih =>
    have apart : ∀ word ∈ ["or", "and"], "not" ≠ word := by decide
    exact unary fun word hw => spelled.clear (by decide) (apart word hw) (ih.2 word hw)
  | reflexive named spelled =>
    exact unary fun word hw => named.clear (keyword_of_junction hw)
      (spelled.clear (by decide) (word_ne_junction .self word hw) .nil)
  | someSelf named spelled self =>
    exact unary fun word hw => named.clear (keyword_of_junction hw)
      (spelled.clear (by decide) (word_ne_junction .some word hw)
        (self.clear (by decide) (word_ne_junction .self word hw) .nil))
  | value named spelled value =>
    exact unary fun word hw => named.clear (keyword_of_junction hw)
      (spelled.clear (by decide) (word_ne_junction .value word hw)
        (value.clear (keyword_of_junction hw)))
  | @restrict property t quantifier number ns filler named spelled counts numbered _ ih =>
    apply unary
    intro word hw
    have hk := keyword_of_junction hw
    have arguments : Clear word ((filler.map Prod.snd).getD []) := by
      cases filler with
      | none => exact .nil
      | some f => exact (ih f rfl).2 word hw
    exact named.clear hk (spelled.clear (word_mem_keywords quantifier)
      (word_ne_junction quantifier word hw) ((numbered.clear hk).append arguments))
  | inter operands _ _ joined ih =>
    have parts : ∀ p ∈ operands.map Prod.snd, Clear "or" p :=
      List.forall_mem_map.2 fun o ho => (ih o ho).2 "or" (by decide)
    have whole : Clear "or" _ := joined.clear (by decide) (by decide) parts
    refine ⟨whole.balanced, ?_⟩
    intro word hw
    obtain rfl : word = "or" := by simpa [Level.words] using hw
    exact whole
  | union operands _ _ joined ih =>
    have parts : ∀ p ∈ operands.map Prod.snd, Balanced p :=
      List.forall_mem_map.2 fun o ho => (ih o ho).1
    exact ⟨joined.balanced (by decide) parts, nofun⟩
  | unary _ ih => exact ⟨ih.1, fun word hw => ih.2 word (List.mem_append_left ["and"] hw)⟩
  | single _ ih => exact ⟨ih.1, nofun⟩

end Written

theorem shapeOf_clear {ts : List String} (h : ∀ word ∈ ["or", "and"], Clear word ts) :
    shapeOf ts = unaryShape ts := by
  have single (word : String) (hw : word ∈ ["or", "and"]) : operands? word ts = none := by
    rw [operands?, (h word hw).splitTop_eq]
    rfl
  rw [shapeOf, single "or" (by decide), single "and" (by decide)]

/-- Several operands are the shape of a list that a word joins. -/
theorem Joined.operands?_eq {word : String} {parts : List (List String)} {ts : List String}
    (h : Joined word parts ts) (hw : word ∈ keywords) (several : 2 ≤ parts.length)
    (each : ∀ p ∈ parts, Clear word p ∧ p ≠ []) : operands? word ts = some parts := by
  have kept : parts.filter (!·.isEmpty) = parts := by
    apply List.filter_eq_self.2
    intro p hp
    simpa using (each p hp).2
  rw [operands?, h.splitTop_eq hw fun p hp => (each p hp).1, kept]
  exact if_neg (by omega)

theorem Joined.isEnclosed_eq {word : String} {parts : List (List String)} {ts : List String}
    (h : Joined word parts ts) (several : 2 ≤ parts.length)
    (each : ∀ p ∈ parts, Balanced p ∧ p ≠ []) : isEnclosed ts = false := by
  cases h with
  | one ts => simp at several
  | more ts _ _ =>
    obtain ⟨balanced, some⟩ := each ts List.mem_cons_self
    exact balanced.isEnclosed_append some (List.cons_ne_nil _ _)

theorem junction_eq {join : List Expression → Expression} (tokens : List String)
    {es : List Expression} (several : 2 ≤ es.length) : junction join tokens es = join es := by
  match es with
  | [] => simp at several
  | [e] => simp at several
  | e :: f :: es => rfl

/-- A token that starts an expression is neither the word `self` nor a number. -/
theorem Starts.plain {t : String} (h : Starts t) : Text.lower t ≠ "self" ∧ count? t = none := by
  rcases h with rfl | named | spelled
  · exact ⟨by decide, by decide⟩
  · obtain ⟨c, cs, hc, letter⟩ := named.letter
    exact ⟨named.lower_ne (by decide), count?_eq_none hc (Text.isDigit_eq_false letter)⟩
  · obtain ⟨_, same⟩ := spelled.keyword (by decide)
    refine ⟨by rw [same]; decide, ?_⟩
    cases ht : t.toList with
    | nil => simp [Spells, ht] at spelled
    | cons c cs =>
      have first : c.toLower = 'n' := by
        simp [Spells, ht] at spelled
        exact spelled.1
      apply count?_eq_none ht
      apply Text.isDigit_eq_false
      rw [← Char.isAlpha_toLower_eq_isAlpha, first]
      decide

theorem joinWords_value {text : String} {ts : List String} (h : ValueTokens text ts) :
    joinWords ts = text := by
  have kept : ts.filter (fun t => !isParen t) = [text] := by
    induction h with
    | name named => simp [named.plain]
    | quoted quoted => simp [quoted.plain]
    | parens _ ih =>
      rw [List.filter_cons_of_neg (by decide), List.filter_append, ih]
      rfl
  rw [joinWords, kept]
  rfl

section Arguments

variable {quantifier : Quantifier} {number : Option Nat} {ns ts : List String}

theorem number?_append (counts : quantifier.counts = true ∨ number = none)
    (numbered : NumberTokens number ns) (first : ∀ t ∈ ts.head?, count? t = none) :
    number? quantifier (ns ++ ts) = number := by
  cases numbered with
  | none =>
    have head : ts.head?.bind count? = none := by
      cases ts with
      | nil => rfl
      | cons t ts => exact first t rfl
    simp [number?, head]
  | some written =>
    rcases counts with counts | missing
    · simp [number?, counts, written.count?_eq]
    · contradiction

/-- What follows the number is the filler. -/
theorem fillerTokens_append (counts : quantifier.counts = true ∨ number = none)
    (numbered : NumberTokens number ns) (first : ∀ t ∈ ts.head?, count? t = none) :
    fillerTokens quantifier (ns ++ ts) = ts := by
  rw [fillerTokens, number?_append counts numbered first]
  cases numbered with
  | none => rfl
  | some _ => rfl

theorem isReflexive_append (other : quantifier ≠ .self)
    (numbered : NumberTokens number ns) (bare : quantifier = .some → number = none)
    (first : ∀ t ∈ ts.head?, Text.lower t ≠ "self") :
    isReflexive quantifier (ns ++ ts) = false := by
  by_cases hs : quantifier = .some
  · obtain rfl := bare hs
    cases numbered
    cases ts with
    | nil => simp [isReflexive, hs]
    | cons t ts => simp [isReflexive, hs, first t rfl]
  · simp [isReflexive, hs, other]

end Arguments

namespace Written

theorem parseTokens_restriction {property t : String} (quantifier : Quantifier)
    {args : List String} (named : IsName property) (spelled : Spells t quantifier.word)
    (clear : ∀ word ∈ ["or", "and"], Clear word (property :: t :: args)) :
    parseTokens (property :: t :: args) = restriction property quantifier args := by
  have whole : stripOuter (property :: t :: args) = property :: t :: args := by
    apply stripOuter_eq
    simp [isEnclosed, (ne_of_plain named.plain).1]
  have shape : unaryShape (property :: t :: args) = .restrict property quantifier args := by
    have word : Quantifier.ofWord? (Text.lower t) = some quantifier := by
      rw [(spelled.keyword (word_mem_keywords quantifier)).2, ofWord?_word]
    have other : Text.lower property ≠ "not" := named.lower_ne (by decide)
    simp [unaryShape, other, restriction?, named.plain, word]
  apply parseTokens_restrict
  rw [whole, shapeOf_clear clear, shape]

/-- Operands that a word joins are not enclosed as a whole, and cut at the word they are themselves
again. -/
theorem operands?_joined {word : String} {level : Level} {ts : List String}
    {operands : List (Expression × List String)} (hw : word ∈ level.words)
    (several : 2 ≤ operands.length) (each : ∀ o ∈ operands, Written level o.1 o.2)
    (joined : Joined word (operands.map Prod.snd) ts) :
    stripOuter ts = ts ∧ operands? word ts = some (operands.map Prod.snd) := by
  have nonempty (o : Expression × List String) (ho : o ∈ operands) : o.2 ≠ [] := by
    obtain ⟨t, us, ht, _⟩ := (each o ho).starts
    simp [ht]
  have length : 2 ≤ (operands.map Prod.snd).length := by
    rwa [List.length_map]
  constructor
  · apply stripOuter_eq
    apply joined.isEnclosed_eq length
    exact List.forall_mem_map.2 fun o ho => ⟨(each o ho).clear.1, nonempty o ho⟩
  · apply joined.operands?_eq (keyword_of_junction (level.words_sub word hw)) length
    exact List.forall_mem_map.2 fun o ho => ⟨(each o ho).clear.2 word hw, nonempty o ho⟩

theorem map_parseTokens {operands : List (Expression × List String)}
    (ih : ∀ o ∈ operands, parseTokens o.2 = o.1) :
    (operands.map Prod.snd).map parseTokens = operands.map Prod.fst := by
  rw [List.map_map]
  exact List.map_congr_left ih

theorem parseTokens_name {token : String} (named : IsName token) :
    parseTokens [token] = .name token := by
  have clear := (Written.name named).clear.2
  have whole : stripOuter [token] = [token] := by
    apply stripOuter_eq
    simp [isEnclosed]
  rw [parseTokens_other (by rw [whole, shapeOf_clear clear]; rfl), whole,
    joinWords_value (.name named)]

theorem parseTokens_not {t : String} {e : Expression} {ts : List String} (spelled : Spells t "not")
    (operand : Written .unary e ts) : parseTokens (t :: ts) = .compl (parseTokens ts) := by
  have clear := (Written.compl spelled operand).clear.2
  obtain ⟨plain, same⟩ := spelled.keyword (by decide)
  have whole : stripOuter (t :: ts) = t :: ts := by
    apply stripOuter_eq
    simp [isEnclosed, (ne_of_plain plain).1]
  obtain ⟨u, us, rfl, _⟩ := operand.starts
  have shape : unaryShape (t :: u :: us) = .compl (u :: us) := by
    simp [unaryShape, same]
  exact parseTokens_compl (by rw [whole, shapeOf_clear clear, shape])

/-- The arguments of a restriction are a number and a filler, either of which may be missing. -/
theorem restriction_append {property : String} {quantifier : Quantifier} {number : Option Nat}
    {ns : List String} {filler : Option (Expression × List String)}
    (counts : quantifier.counts = true ∨
      (quantifier = .some ∨ quantifier = .only) ∧ number = none)
    (numbered : NumberTokens number ns) (starts : ∀ f ∈ filler, ∃ u us, f.2 = u :: us ∧ Starts u)
    (read : ∀ f ∈ filler, parseTokens f.2 = f.1) :
    restriction property quantifier (ns ++ (filler.map Prod.snd).getD []) =
      .restrict property quantifier (filler.map Prod.fst) (number.map Int.ofNat) false := by
  have first : ∀ u ∈ ((filler.map Prod.snd).getD []).head?, Starts u := by
    cases filler with
    | none => simp
    | some f =>
      obtain ⟨u, us, hu, start⟩ := starts f rfl
      simpa [hu] using start
  have number := number?_append (counts.imp_right And.right) numbered
    fun u hu => (first u hu).plain.2
  have rest := fillerTokens_append (counts.imp_right And.right) numbered
    fun u hu => (first u hu).plain.2
  have notSelf : isReflexive quantifier (ns ++ (filler.map Prod.snd).getD []) = false := by
    apply isReflexive_append _ numbered _ fun u hu => (first u hu).plain.1
    · rintro rfl
      simp [Quantifier.counts] at counts
    · rintro rfl
      simpa [Quantifier.counts] using counts
  have notValue : quantifier ≠ .value := by
    rintro rfl
    simp [Quantifier.counts] at counts
  rw [restriction, notSelf, number, rest]
  cases filler with
  | none => simp [notValue]
  | some f =>
    obtain ⟨u, us, hu, _⟩ := starts f rfl
    have read : parseTokens f.2 = f.1 := read f rfl
    simp [notValue, ← read, hu]

section Junctions

variable {ts : List String} {operands : List (Expression × List String)}
  (several : 2 ≤ operands.length)
include several

theorem parseTokens_joinedAnd (each : ∀ o ∈ operands, Written .unary o.1 o.2)
    (joined : Joined "and" (operands.map Prod.snd) ts) :
    parseTokens ts = .inter ((operands.map Prod.snd).map parseTokens) := by
  have clear := (Written.inter operands several each joined).clear.2
  obtain ⟨whole, parts⟩ := operands?_joined (by decide) several each joined
  have union : operands? "or" ts = none := by
    rw [operands?, (clear "or" (by decide)).splitTop_eq]
    rfl
  have shape : shapeOf (stripOuter ts) = .inter (operands.map Prod.snd) := by
    rw [whole, shapeOf, union, parts]
  rw [parseTokens_inter shape, junction_eq _ (by simpa using several)]

theorem parseTokens_joinedOr (each : ∀ o ∈ operands, Written .inter o.1 o.2)
    (joined : Joined "or" (operands.map Prod.snd) ts) :
    parseTokens ts = .union ((operands.map Prod.snd).map parseTokens) := by
  obtain ⟨whole, parts⟩ := operands?_joined (by decide) several each joined
  have shape : shapeOf (stripOuter ts) = .union (operands.map Prod.snd) := by
    rw [whole, shapeOf, parts]
  rw [parseTokens_union shape, junction_eq _ (by simpa using several)]

end Junctions

/-- What the grammar writes for an expression is read as that expression. -/
theorem parseTokens_eq {level : Level} {e : Expression} {ts : List String}
    (h : Written level e ts) : parseTokens ts = e := by
  induction h with
  | name named => exact parseTokens_name named
  | parens inner ih => rw [parseTokens_congr inner.clear.1.stripOuter_parens, ih]
  | compl spelled operand ih => rw [parseTokens_not spelled operand, ih]
  | reflexive named spelled =>
    rw [parseTokens_restriction .self named spelled (Written.reflexive named spelled).clear.2]
    rfl
  | someSelf named spelled self =>
    rw [parseTokens_restriction .some named spelled (Written.someSelf named spelled self).clear.2]
    simp [restriction, isReflexive, (self.keyword (by decide)).2]
  | value named spelled value =>
    rw [parseTokens_restriction .value named spelled (Written.value named spelled value).clear.2]
    simp [restriction, isReflexive, joinWords_value value]
  | @restrict property t quantifier number ns filler named spelled counts numbered filled ih =>
    have clear := (Written.restrict filler named spelled counts numbered filled).clear.2
    rw [parseTokens_restriction quantifier named spelled clear]
    exact restriction_append counts numbered (fun f hf => (filled f hf).starts) ih
  | inter operands several each joined ih =>
    rw [parseTokens_joinedAnd several each joined, map_parseTokens ih]
  | union operands several each joined ih =>
    rw [parseTokens_joinedOr several each joined, map_parseTokens ih]
  | unary _ ih => exact ih
  | single _ ih => exact ih

/-- The grammar uses parentheses, words and quoted texts. -/
theorem isToken {level : Level} {e : Expression} {ts : List String} (h : Written level e ts) :
    ∀ t ∈ ts, IsToken t := by
  induction h with
  | name named => simpa using named.isToken
  | parens _ ih => exact isToken_parens ih
  | compl spelled _ ih => exact List.forall_mem_cons.2 ⟨spelled.isToken (by decide), ih⟩
  | reflexive named spelled =>
    simpa using ⟨named.isToken, spelled.isToken (by decide)⟩
  | someSelf named spelled self =>
    simpa using ⟨named.isToken, spelled.isToken (by decide), self.isToken (by decide)⟩
  | value named spelled value =>
    exact List.forall_mem_cons.2 ⟨named.isToken,
      List.forall_mem_cons.2 ⟨spelled.isToken (by decide), value.isToken⟩⟩
  | @restrict property t quantifier number ns filler named spelled _ numbered _ ih =>
    have arguments : ∀ u ∈ (filler.map Prod.snd).getD [], IsToken u := by
      cases filler with
      | none => simp
      | some f => exact ih f rfl
    have keyword := spelled.isToken (word_mem_keywords quantifier)
    exact List.forall_mem_cons.2 ⟨named.isToken, List.forall_mem_cons.2 ⟨keyword,
      List.forall_mem_append.2 ⟨numbered.isToken, arguments⟩⟩⟩
  | inter operands _ _ joined ih => exact joined.isToken (by decide) (List.forall_mem_map.2 ih)
  | union operands _ _ joined ih => exact joined.isToken (by decide) (List.forall_mem_map.2 ih)
  | unary _ ih => exact ih
  | single _ ih => exact ih

end Written

/-- A text that the grammar generates for an expression is read as that expression. -/
theorem parse_eq {e : Expression} {s : String} (h : IsTextOf e s) : parse s = e := by
  obtain ⟨ts, written, laid⟩ := h
  rw [parse, tokens_eq laid written.isToken, written.clear.1.balance_eq, written.parseTokens_eq]

/-- `A` as a group, or what has only things outside `B` for `p`. -/
theorem parse_groupOrRestriction : parse " ( A ) or p ONLY not B" =
    union [name "A", restrict "p" .only (some (compl (name "B"))) none false] := by
  have group : Written .inter (name "A") ["(", "A", ")"] :=
    .unary (.parens (.single (.unary (.name (by decide)))))
  have filler : Written .unary (compl (name "B")) ["not", "B"] :=
    .compl (by decide) (.name (by decide))
  have restriction : Written .inter (restrict "p" .only (some (compl (name "B"))) none false)
      ["p", "ONLY", "not", "B"] :=
    .unary (.restrict (some (_, ["not", "B"])) (by decide) (by decide) (.inr ⟨.inr rfl, rfl⟩)
      .none fun f hf => Option.some.inj hf ▸ filler)
  have written : Written .union
      (union [name "A", restrict "p" .only (some (compl (name "B"))) none false])
      ["(", "A", ")", "or", "p", "ONLY", "not", "B"] := by
    apply Written.union [(name "A", ["(", "A", ")"]),
      (restrict "p" .only (some (compl (name "B"))) none false, ["p", "ONLY", "not", "B"])]
    · decide
    · simpa using ⟨group, restriction⟩
    · exact .more _ (by decide) (.one _)
  have text : " ( A ) or p ONLY not B".toList =
      spaced ["(", "A", ")", "or", "p", "ONLY", "not", "B"] := by
    decide
  exact parse_eq ⟨_, written, text ▸ laidOut_spaced _⟩

end Ontogram.Expression
