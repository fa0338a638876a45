import Ontogram.Proofs.Reading

set_option autoImplicit false

namespace Ontogram.Expression

section Parts

variable {word : String} {ts p : List String} {qs : List (List String)}

/-- A token cuts whatever follows off, or is put in front of the first part of it. -/
theorem splitFrom_cons (word : String) (depth : Nat) (t : String) :
    (∀ ts, splitFrom word depth (t :: ts) = [] :: splitFrom word 0 ts) ∨
      ∃ behind, ∀ ts,
        splitFrom word depth (t :: ts) = consFirst t (splitFrom word behind ts) := by
  by_cases left : t = "("
  · exact Or.inr ⟨depth + 1, fun ts => by rw [splitFrom, if_pos left]⟩
  by_cases right : t = ")"
  · exact Or.inr ⟨depth - 1, fun ts => by rw [splitFrom, if_neg left, if_pos right]⟩
  by_cases cuts : depth = 0 ∧ Text.lower t = word
  · exact Or.inl fun ts => by rw [splitFrom, if_neg left, if_neg right, if_pos cuts]
  · exact Or.inr ⟨depth, fun ts => by rw [splitFrom, if_neg left, if_neg right, if_neg cuts]⟩

/-- The first part is the front of the whole, and it is not cut further. -/
theorem splitFrom_first (depth : Nat) (h : splitFrom word depth ts = p :: qs) :
    splitFrom word depth p = [p] ∧ p <+: ts ∧ (qs = [] → p = ts) := by
  induction ts generalizing depth p with
  | nil =>
    obtain ⟨rfl, rfl⟩ := List.cons.inj h
    exact ⟨rfl, List.prefix_rfl, fun _ => rfl⟩
  | cons t ts ih =>
    rcases splitFrom_cons word depth t with cuts | ⟨behind, kept⟩
    · rw [cuts] at h
      obtain ⟨rfl, rfl⟩ := List.cons.inj h
      exact ⟨rfl, List.nil_prefix, fun alone => absurd alone (splitFrom_ne_nil word 0 ts)⟩
    · obtain ⟨p', qs', parts⟩ := List.exists_cons_of_ne_nil (splitFrom_ne_nil word behind ts)
      rw [kept, parts] at h
      obtain ⟨rfl, rfl⟩ := List.cons.inj h
      obtain ⟨uncut, front, whole⟩ := ih behind parts
      refine ⟨?_, List.cons_prefix_cons.2 ⟨rfl, front⟩, fun alone => by rw [whole alone]⟩
      rw [kept, uncut]
      rfl

theorem eq_of_splitTop (h : splitTop word ts = [p]) : p = ts :=
  (splitFrom_first 0 h).2.2 rfl

/-- What is not cut has no front that is cut. -/
theorem length_splitFrom_of_front (depth : Nat) (h : (splitFrom word depth ts).length = 1)
    (front : p <+: ts) : (splitFrom word depth p).length = 1 := by
  induction p generalizing depth ts with
  | nil => rfl
  | cons t p ih =>
    obtain ⟨ts', rfl, behindFront⟩ := List.cons_prefix_iff.1 front
    rcases splitFrom_cons word depth t with cuts | ⟨behind, kept⟩
    · have some := List.length_pos_iff.2 (splitFrom_ne_nil word 0 ts')
      rw [cuts, List.length_cons] at h
      omega
    · rw [kept, (length_consFirst t (splitFrom_ne_nil word behind _)).1] at h ⊢
      exact ih behind h behindFront

theorem splitTop_of_front (h : splitTop word ts = [ts]) (front : p <+: ts) :
    splitTop word p = [p] := by
  obtain ⟨q, one⟩ := List.length_eq_one_iff.1
    (length_splitFrom_of_front 0 (congrArg List.length h) front)
  rw [splitTop, one, eq_of_splitTop one]

/-- A group that is closed by the last token is not cut. -/
theorem length_splitFrom_of_closesAtEnd (word : String) (depth : Nat)
    (h : closesAtEnd (depth + 1) ts = true) : (splitFrom word (depth + 1) ts).length = 1 := by
  have put (t : String) {behind : Nat} {us : List String}
      (one : (splitFrom word behind us).length = 1) :
      (consFirst t (splitFrom word behind us)).length = 1 := by
    rw [(length_consFirst t (splitFrom_ne_nil word behind us)).1, one]
  induction ts generalizing depth with
  | nil => rfl
  | cons t ts ih =>
    rw [splitFrom]
    by_cases last : ts = []
    · subst last
      split
      · exact put t rfl
      · split
        · exact put t rfl
        · rw [if_neg (by simp)]
          exact put t rfl
    rw [closesAtEnd_cons last] at h
    split at h
    · rename_i left
      rw [if_pos left]
      exact put t (ih (depth + 1) h)
    · rename_i left
      rw [if_neg left]
      split at h
      · rename_i right
        simp only [Bool.and_eq_true, bne_iff_ne] at h
        obtain ⟨outer, rfl⟩ := Nat.exists_eq_succ_of_ne_zero (n := depth) (by omega)
        rw [if_pos right]
        exact put t (ih outer h.2)
      · rename_i right
        rw [if_neg right, if_neg (by simp)]
        exact put t (ih depth h)

/-- Nothing is cut in parentheses around the whole. -/
theorem isEnclosed_eq_false (h : splitTop word ts = p :: qs) (more : qs ≠ []) :
    isEnclosed ts = false := by
  refine Bool.eq_false_iff.2 fun enclosed => ?_
  cases ts with
  | nil => cases enclosed
  | cons t ts =>
    simp only [isEnclosed, Bool.and_eq_true, beq_iff_eq] at enclosed
    obtain ⟨⟨rfl, -⟩, closes⟩ := enclosed
    have one := length_splitFrom_of_closesAtEnd word 0 closes
    have whole : splitTop word ("(" :: ts) = consFirst "(" (splitFrom word 1 ts) := by
      rw [splitTop, splitFrom, if_pos rfl]
    have lengths := congrArg List.length h
    rw [whole, (length_consFirst "(" (splitFrom_ne_nil word 1 ts)).1, one,
      List.length_cons] at lengths
    exact more (List.length_eq_zero_iff.1 (by omega))

theorem operands?_eq_none (h : splitTop word ts = [p]) : operands? word ts = none := by
  rw [operands?, h]
  rfl

theorem operands?_eq_some (h : splitTop word ts = p :: qs) (more : qs ≠ []) :
    operands? word ts = some ((p :: qs).filter (!·.isEmpty)) := by
  have several := List.length_pos_iff.2 more
  rw [operands?, h]
  exact if_neg (by rw [List.length_cons]; omega)

end Parts

/-! Junctions. -/

section Junctions

variable {ts p : List String} {qs : List (List String)}

theorem parseTokens_or (h : splitTop "or" ts = p :: qs) (more : qs ≠ []) :
    parseTokens ts = junction .union ts (((p :: qs).filter (!·.isEmpty)).map parseTokens) := by
  have bare := stripOuter_eq (isEnclosed_eq_false h more)
  have shape : shapeOf (stripOuter ts) = .union ((p :: qs).filter (!·.isEmpty)) := by
    rw [bare, shapeOf, operands?_eq_some h more]
  rw [parseTokens_union shape, bare]

theorem parseTokens_and (single : splitTop "or" ts = [ts]) (h : splitTop "and" ts = p :: qs)
    (more : qs ≠ []) :
    parseTokens ts = junction .inter ts (((p :: qs).filter (!·.isEmpty)).map parseTokens) := by
  have bare := stripOuter_eq (isEnclosed_eq_false h more)
  have shape : shapeOf (stripOuter ts) = .inter ((p :: qs).filter (!·.isEmpty)) := by
    rw [bare, shapeOf, operands?_eq_none single, operands?_eq_some h more]
  rw [parseTokens_inter shape, bare]

/-- A keyword leaves one part of a list of tokens: behind it stand at most further keywords. -/
def IsOnly (word : String) (ts p : List String) : Prop :=
  ∃ qs, splitTop word ts = p :: qs ∧ ∀ q ∈ qs, q = []

theorem IsOnly.uncut {word : String} (h : IsOnly word ts p) : splitTop word p = [p] := by
  obtain ⟨qs, parts, -⟩ := h
  exact (splitFrom_first 0 parts).1

theorem IsOnly.front {word : String} (h : IsOnly word ts p) : p <+: ts := by
  obtain ⟨qs, parts, -⟩ := h
  exact (splitFrom_first 0 parts).2.1

theorem filter_eq_nil (none : ∀ q ∈ qs, q = []) : qs.filter (!·.isEmpty) = [] := by
  rw [List.filter_eq_nil_iff]
  intro q hq
  simp [none q hq]

theorem parseTokens_of_onlyOr (h : IsOnly "or" ts p) (some : p ≠ []) :
    parseTokens ts = parseTokens p := by
  obtain ⟨qs, parts, none⟩ := h
  by_cases more : qs = []
  · subst more
    rw [eq_of_splitTop parts]
  · rw [parseTokens_or parts more, List.filter_cons_of_pos (by simp [some]), filter_eq_nil none]
    rfl

theorem parseTokens_of_onlyAnd (single : splitTop "or" ts = [ts]) (h : IsOnly "and" ts p)
    (some : p ≠ []) : parseTokens ts = parseTokens p := by
  obtain ⟨qs, parts, none⟩ := h
  by_cases more : qs = []
  · subst more
    rw [eq_of_splitTop parts]
  · rw [parseTokens_and single parts more, List.filter_cons_of_pos (by simp [some]),
      filter_eq_nil none]
    rfl

theorem ne_nil_of_several (several : ∃ q ∈ qs, q ≠ []) : qs ≠ [] := by
  obtain ⟨q, mem, -⟩ := several
  exact List.ne_nil_of_mem mem

/-- Several operands make a junction. -/
theorem junction_cons {join : List Expression → Expression} {e : Expression}
    (several : ∃ q ∈ qs, q ≠ []) :
    junction join ts (e :: (qs.filter (!·.isEmpty)).map parseTokens) =
      join (e :: (qs.filter (!·.isEmpty)).map parseTokens) := by
  obtain ⟨q, mem, nonempty⟩ := several
  have kept : q ∈ qs.filter (!·.isEmpty) := List.mem_filter.2 ⟨mem, by simp [nonempty]⟩
  refine junction_eq ts ?_
  rw [List.length_cons, List.length_map]
  have := List.length_pos_of_mem kept
  omega

/-- Whether tokens hold several operands of a junction. -/
inductive IsSeveral (ts : List String) : Prop where
  | or {p : List String} {qs : List (List String)} (parts : splitTop "or" ts = p :: qs)
    (more : ∃ q ∈ qs, q ≠ [])
  | and {conjunct p : List String} {qs : List (List String)} (or : IsOnly "or" ts conjunct)
    (parts : splitTop "and" conjunct = p :: qs) (more : ∃ q ∈ qs, q ≠ [])

/-- Whether tokens are a single operand of junctions, other than the word `self`. -/
def IsSingle (ts : List String) : Prop :=
  ∃ conjunct operand, IsOnly "or" ts conjunct ∧ IsOnly "and" conjunct operand ∧ operand ≠ [] ∧
    isReflexive .some operand = false

theorem IsSingle.ne_nil (h : IsSingle ts) : ts ≠ [] := by
  obtain ⟨conjunct, operand, or, and, nonempty, -⟩ := h
  rintro rfl
  exact nonempty (List.prefix_nil.1 (and.front.trans or.front))

theorem IsSeveral.ne_nil (h : IsSeveral ts) : ts ≠ [] := by
  rintro rfl
  cases h with
  | or parts more =>
    obtain ⟨-, rfl⟩ := List.cons.inj parts
    exact ne_nil_of_several more rfl
  | and or parts more =>
    rw [List.prefix_nil.1 or.front] at parts
    obtain ⟨-, rfl⟩ := List.cons.inj parts
    exact ne_nil_of_several more rfl

end Junctions

/-! A restriction in front. -/

/-- A junction of operands, one of them at least, does not look at its tokens. -/
theorem junction_tokens (join : List Expression → Expression) (ts us : List String)
    (e : Expression) (es : List Expression) :
    junction join ts (e :: es) = junction join us (e :: es) := by
  cases es <;> rfl

theorem lower_some : Text.lower "some" = Quantifier.some.word := by decide

section Front

variable {name : String} (plain : isParen name = false)
  (free : Text.lower name ∉ ["or", "and", "not"])
include plain free

section Quantifier

variable {u : String} {quantifier : Quantifier} (spelled : Text.lower u = quantifier.word)
  {ts p : List String} {qs : List (List String)}
include spelled

theorem clear_quantifier {word : String} (junction : word ∈ ["or", "and"]) :
    Clear word [name, u] := by
  have other : Text.lower name ≠ word := by
    rintro rfl
    exact free (List.mem_append_left ["not"] junction)
  have keyword : Text.lower u ≠ word := spelled ▸ word_ne_junction quantifier word junction
  exact .token plain other (.token (isParen_of_quantifier spelled) keyword .nil)

theorem splitTop_quantifier {word : String} (junction : word ∈ ["or", "and"])
    (h : splitTop word ts = p :: qs) :
    splitTop word (name :: u :: ts) = (name :: u :: p) :: qs := by
  have front := (clear_quantifier plain free spelled junction).splitFrom_append ts
  rw [splitTop] at h
  rw [h, prepend_cons] at front
  exact front

theorem IsOnly.restricted {word : String} (junction : word ∈ ["or", "and"])
    (h : IsOnly word ts p) : IsOnly word (name :: u :: ts) (name :: u :: p) := by
  obtain ⟨qs, parts, none⟩ := h
  exact ⟨qs, splitTop_quantifier plain free spelled junction parts, none⟩

/-- An operand of neither junction is what the property is restricted to. -/
theorem parseTokens_quantifier_operand (or : splitTop "or" ts = [ts])
    (and : splitTop "and" ts = [ts]) :
    parseTokens (name :: u :: ts) = restriction name quantifier ts := by
  have bare : stripOuter (name :: u :: ts) = name :: u :: ts :=
    stripOuter_eq (by simp [isEnclosed, (ne_of_plain plain).1])
  have keyword : Quantifier.ofWord? (Text.lower u) = some quantifier := by
    rw [spelled, ofWord?_word]
  have no : Text.lower name ≠ "not" := by
    rintro same
    exact free (by simp [same])
  have shape : shapeOf (stripOuter (name :: u :: ts)) = .restrict name quantifier ts := by
    rw [bare, shapeOf, operands?_eq_none (splitTop_quantifier plain free spelled (by decide) or),
      operands?_eq_none (splitTop_quantifier plain free spelled (by decide) and)]
    simp [unaryShape, no, restriction?, plain, keyword]
  rw [parseTokens_restrict shape]

end Quantifier

/-- The case that a quantifier is written in does not matter. -/
theorem parseTokens_quantifier {u v : String} {quantifier : Quantifier}
    (hu : Text.lower u = quantifier.word) (hv : Text.lower v = quantifier.word)
    (ts : List String) : parseTokens (name :: u :: ts) = parseTokens (name :: v :: ts) := by
  -- Without a junction both are one restriction; a junction leaves it as its first operand.
  have conjunct {ts : List String} (or : splitTop "or" ts = [ts]) :
      parseTokens (name :: u :: ts) = parseTokens (name :: v :: ts) := by
    obtain ⟨p, qs, parts⟩ := List.exists_cons_of_ne_nil (splitFrom_ne_nil "and" 0 ts)
    change splitTop "and" ts = p :: qs at parts
    by_cases more : qs = []
    · subst more
      obtain rfl := eq_of_splitTop parts
      rw [parseTokens_quantifier_operand plain free hu or parts,
        parseTokens_quantifier_operand plain free hv or parts]
    · have first := splitTop_of_front or (splitFrom_first 0 parts).2.1
      have alone : splitTop "and" p = [p] := (splitFrom_first 0 parts).1
      have split {w : String} (hw : Text.lower w = quantifier.word) :=
        parseTokens_and (splitTop_quantifier plain free hw (by decide) or)
          (splitTop_quantifier plain free hw (by decide) parts) more
      rw [split hu, split hv, List.filter_cons_of_pos (by simp), List.filter_cons_of_pos (by simp),
        List.map_cons, List.map_cons, parseTokens_quantifier_operand plain free hu first alone,
        parseTokens_quantifier_operand plain free hv first alone]
      exact junction_tokens _ _ _ _ _
  obtain ⟨p, qs, parts⟩ := List.exists_cons_of_ne_nil (splitFrom_ne_nil "or" 0 ts)
  change splitTop "or" ts = p :: qs at parts
  by_cases more : qs = []
  · subst more
    obtain rfl := eq_of_splitTop parts
    exact conjunct parts
  · have split {w : String} (hw : Text.lower w = quantifier.word) :=
      parseTokens_or (splitTop_quantifier plain free hw (by decide) parts) more
    rw [split hu, split hv, List.filter_cons_of_pos (by simp), List.filter_cons_of_pos (by simp),
      List.map_cons, List.map_cons, conjunct (splitFrom_first 0 parts).1]
    exact junction_tokens _ _ _ _ _

/-! The quantifier `some`. -/

variable {ts p : List String} {qs : List (List String)}

theorem parseTokens_some_operand (or : splitTop "or" ts = [ts]) (and : splitTop "and" ts = [ts])
    (nonempty : ts ≠ []) (other : isReflexive .some ts = false) :
    parseTokens (name :: "some" :: ts) =
      restrict name .some (some (parseTokens ts)) none false := by
  have filler : fillerTokens .some ts = ts := rfl
  rw [parseTokens_quantifier_operand plain free lower_some or and, restriction, other, filler]
  simp [nonempty, number?, Quantifier.counts]

/-- A property and `some` in front of a single operand restrict all that is read from it. -/
theorem parseTokens_some (single : IsSingle ts) : parseTokens (name :: "some" :: ts) =
    restrict name .some (some (parseTokens ts)) none false := by
  obtain ⟨conjunct, operand, or, and, nonempty, other⟩ := single
  have some : conjunct ≠ [] := by
    rintro rfl
    exact nonempty (List.prefix_nil.1 and.front)
  calc
    parseTokens (name :: "some" :: ts)
    _ = parseTokens (name :: "some" :: conjunct) :=
      parseTokens_of_onlyOr (or.restricted plain free lower_some (by decide)) (List.cons_ne_nil _ _)
    _ = parseTokens (name :: "some" :: operand) :=
      parseTokens_of_onlyAnd (splitTop_quantifier plain free lower_some (by decide) or.uncut)
        (and.restricted plain free lower_some (by decide)) (List.cons_ne_nil _ _)
    _ = restrict name .some (Option.some (parseTokens operand)) none false :=
      parseTokens_some_operand plain free (splitTop_of_front or.uncut and.front) and.uncut
        nonempty other
    _ = restrict name .some (Option.some (parseTokens ts)) none false := by
      rw [parseTokens_of_onlyOr or some, parseTokens_of_onlyAnd or.uncut and nonempty]

/-- A property and `some` in front of several operands of `or` restrict the first. -/
theorem parseTokens_some_or (parts : splitTop "or" ts = p :: qs) (more : ∃ q ∈ qs, q ≠ []) :
    parseTokens (name :: "some" :: ts) =
      union (parseTokens (name :: "some" :: p) :: (qs.filter (!·.isEmpty)).map parseTokens) := by
  rw [parseTokens_or (splitTop_quantifier plain free lower_some (by decide) parts)
      (ne_nil_of_several more),
    List.filter_cons_of_pos (by simp), List.map_cons]
  exact junction_cons more

/-- So they do in front of several operands of `and`. -/
theorem parseTokens_some_and {conjunct : List String} (or : IsOnly "or" ts conjunct)
    (parts : splitTop "and" conjunct = p :: qs) (more : ∃ q ∈ qs, q ≠ []) :
    parseTokens (name :: "some" :: ts) =
      inter (parseTokens (name :: "some" :: p) :: (qs.filter (!·.isEmpty)).map parseTokens) := by
  rw [parseTokens_of_onlyOr (or.restricted plain free lower_some (by decide))
      (List.cons_ne_nil _ _),
    parseTokens_and (splitTop_quantifier plain free lower_some (by decide) or.uncut)
      (splitTop_quantifier plain free lower_some (by decide) parts) (ne_nil_of_several more),
    List.filter_cons_of_pos (by simp), List.map_cons]
  exact junction_cons more

end Front

end Ontogram.Expression
