import Ontogram.Proofs.Content

set_option autoImplicit false

namespace Ontogram.Expression

section Shapes

variable {tokens rest args : List String} {parts : List (List String)} {property : String}
  {quantifier : Quantifier}

theorem parseTokens_union (h : shapeOf (stripOuter tokens) = .union parts) :
    parseTokens tokens = junction .union (stripOuter tokens) (parts.map parseTokens) := by
  rw [parseTokens]
  split <;> simp_all

theorem parseTokens_inter (h : shapeOf (stripOuter tokens) = .inter parts) :
    parseTokens tokens = junction .inter (stripOuter tokens) (parts.map parseTokens) := by
  rw [parseTokens]
  split <;> simp_all

theorem parseTokens_compl (h : shapeOf (stripOuter tokens) = .compl rest) :
    parseTokens tokens = compl (parseTokens rest) := by
  rw [parseTokens]
  split <;> simp_all

/-- The tree of a restriction with the arguments of its quantifier. -/
def restriction (property : String) (quantifier : Quantifier) (args : List String) : Expression :=
  if isReflexive quantifier args then restrict property quantifier none none true
  else if quantifier = .value then
    restrict property quantifier (some (raw (joinWords args))) none false
  else
    let number := (number? quantifier args).map Int.ofNat
    if (fillerTokens quantifier args).isEmpty then restrict property quantifier none number false
    else
      restrict property quantifier (some (parseTokens (fillerTokens quantifier args))) number false

theorem parseTokens_restrict
    (h : shapeOf (stripOuter tokens) = .restrict property quantifier args) :
    parseTokens tokens = restriction property quantifier args := by
  rw [parseTokens]
  split <;> simp_all [restriction]

theorem parseTokens_other (h : shapeOf (stripOuter tokens) = .other) :
    parseTokens tokens = name (joinWords (stripOuter tokens)) := by
  rw [parseTokens]
  split <;> simp_all

/-- Parentheses around the whole do not matter. -/
theorem parseTokens_congr {us : List String} (h : stripOuter tokens = stripOuter us) :
    parseTokens tokens = parseTokens us := by
  cases shape : shapeOf (stripOuter us) with
  | union parts => rw [parseTokens_union shape, parseTokens_union (h ▸ shape), h]
  | inter parts => rw [parseTokens_inter shape, parseTokens_inter (h ▸ shape), h]
  | compl rest => rw [parseTokens_compl shape, parseTokens_compl (h ▸ shape)]
  | restrict property quantifier args =>
    rw [parseTokens_restrict shape, parseTokens_restrict (h ▸ shape)]
  | other => rw [parseTokens_other shape, parseTokens_other (h ▸ shape), h]

end Shapes

/-- What is kept by each way in which reading makes a tree, where `Q` holds of the tokens that are
read. -/
structure Kept (Q : String → Prop) (P : Expression → Prop) : Prop where
  name : ∀ tokens, (∀ t ∈ tokens, Q t) → P (name (joinWords tokens))
  inter : ∀ es, 2 ≤ es.length → (∀ e ∈ es, P e) → P (inter es)
  union : ∀ es, 2 ≤ es.length → (∀ e ∈ es, P e) → P (union es)
  compl : ∀ e, P e → P (compl e)
  /-- A restriction to the thing itself has neither a filler nor a number. -/
  reflexive : ∀ property quantifier, Q property → isParen property = false →
    quantifier = .self ∨ quantifier = .some → P (restrict property quantifier none none true)
  value : ∀ property args, Q property → isParen property = false → (∀ t ∈ args, Q t) →
    P (restrict property .value (some (raw (joinWords args))) none false)
  /-- Of the other restrictions only those of number have one. -/
  restrict : ∀ property quantifier filler, ∀ number : Option Nat, Q property →
    isParen property = false → quantifier ≠ .self → quantifier ≠ .value →
    (number.isSome = true → quantifier.counts = true) → (∀ e ∈ filler, P e) →
    P (restrict property quantifier filler (number.map Int.ofNat) false)

theorem Kept.junction {Q : String → Prop} {P : Expression → Prop} (kept : Kept Q P)
    {join : List Expression → Expression}
    (joined : ∀ es, 2 ≤ es.length → (∀ e ∈ es, P e) → P (join es)) {tokens : List String}
    (each : ∀ t ∈ tokens, Q t) {es : List Expression} (operands : ∀ e ∈ es, P e) :
    P (junction join tokens es) := by
  match es with
  | [] => exact kept.name tokens each
  | [e] => exact operands e List.mem_cons_self
  | e :: f :: es =>
    have two : 2 ≤ (e :: f :: es).length := by
      simp only [List.length_cons]
      omega
    exact joined _ two operands

theorem counts_of_number? {quantifier : Quantifier} {args : List String}
    (h : (number? quantifier args).isSome = true) : quantifier.counts = true := by
  unfold number? at h
  split at h
  · assumption
  · simp at h

/-- A shape holds tokens of the list it is taken from. -/
theorem mem_of_mem_part {ts part : List String} {t : String}
    (hp : part ∈ (shapeOf ts).parts) (ht : t ∈ part) : t ∈ ts := by
  have shape := hasShape ts
  generalize shapeOf ts = held at hp shape
  cases shape with
  | union operands =>
    exact (keepsContent_operands? (by decide) operands).sublist.subset
      (List.mem_flatten_of_mem hp ht)
  | inter operands =>
    exact (keepsContent_operands? (by decide) operands).sublist.subset
      (List.mem_flatten_of_mem hp ht)
  | compl tokens _ =>
    rw [tokens, ← List.mem_singleton.1 hp]
    exact List.mem_cons_of_mem _ ht
  | restrict tokens _ _ =>
    rw [tokens, ← List.mem_singleton.1 hp]
    exact List.mem_cons_of_mem _ (List.mem_cons_of_mem _ ht)
  | other => cases hp

/-- What each way of making a tree keeps holds of every tree that is read. -/
theorem Kept.parseTokens {Q : String → Prop} {P : Expression → Prop} (kept : Kept Q P)
    {tokens : List String} (each : ∀ t ∈ tokens, Q t) : P (parseTokens tokens) := by
  have outer {ts : List String} (each : ∀ t ∈ ts, Q t) : ∀ t ∈ stripOuter ts, Q t :=
    fun t ht => each t ((keepsContent_stripOuter ts).sublist.subset ht)
  have inside {ts part : List String} {shape : Shape} (each : ∀ t ∈ ts, Q t)
      (hs : shapeOf (stripOuter ts) = shape) (hp : part ∈ shape.parts) : ∀ t ∈ part, Q t := by
    subst hs
    exact fun t ht => outer each t (mem_of_mem_part hp ht)
  have named {ts rest : List String} {property : String} {quantifier : Quantifier}
      (each : ∀ t ∈ ts, Q t)
      (hs : shapeOf (stripOuter ts) = .restrict property quantifier rest) :
      Q property ∧ isParen property = false := by
    cases hs ▸ hasShape (stripOuter ts) with
    | restrict tokens plain _ =>
      exact ⟨outer each property (tokens ▸ List.mem_cons_self), plain⟩
  fun_induction Expression.parseTokens tokens with
  | case1 tokens parts hs ih =>
    apply kept.junction kept.union (outer each)
    intro e he
    obtain ⟨⟨part, hp⟩, _, rfl⟩ := List.mem_map.1 he
    exact ih part hp (inside each hs hp)
  | case2 tokens parts hs ih =>
    apply kept.junction kept.inter (outer each)
    intro e he
    obtain ⟨⟨part, hp⟩, _, rfl⟩ := List.mem_map.1 he
    exact ih part hp (inside each hs hp)
  | case3 tokens rest hs ih => exact kept.compl _ (ih (inside each hs List.mem_cons_self))
  | case4 tokens property quantifier args hs hr =>
    obtain ⟨given, plain⟩ := named each hs
    apply kept.reflexive property quantifier given plain
    simp only [isReflexive, Bool.or_eq_true, Bool.and_eq_true, beq_iff_eq] at hr
    rcases hr with hr | hr
    · exact Or.inl hr
    · exact Or.inr hr.1.1
  | case5 tokens property args hs hr =>
    obtain ⟨given, plain⟩ := named each hs
    exact kept.value property args given plain (inside each hs List.mem_cons_self)
  | case6 tokens property quantifier args hs hr hv number empty =>
    obtain ⟨given, plain⟩ := named each hs
    apply kept.restrict property quantifier none _ given plain _ hv
    · exact counts_of_number?
    · simp
    · rintro rfl
      simp [isReflexive] at hr
  | case7 tokens property quantifier args hs hr hv number rest ih =>
    obtain ⟨given, plain⟩ := named each hs
    have filler := ih fun t ht => inside each hs List.mem_cons_self t
      ((keepsContent_fillerTokens quantifier args).sublist.subset ht)
    apply kept.restrict property quantifier (some _) _ given plain _ hv
    · exact counts_of_number?
    · simpa using filler
    · rintro rfl
      simp [isReflexive] at hr
  | case8 tokens hs => exact kept.name _ (outer each)

/-- So it does of the tree of a text, where `Q` holds of its tokens. -/
theorem Kept.parse {Q : String → Prop} {P : Expression → Prop} (kept : Kept Q P) {s : String}
    (each : ∀ t ∈ tokens s, Q t) : P (parse s) :=
  kept.parseTokens fun t ht => each t ((keepsContent_balance (tokens s)).sublist.subset ht)

end Ontogram.Expression
