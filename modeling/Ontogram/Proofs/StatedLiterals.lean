import Ontogram.Proofs.LexicalForms
import Ontogram.Proofs.NodeStatement
import Ontogram.Proofs.ParseTree

set_option autoImplicit false

namespace Ontogram

namespace Expression

open Vocabulary (owl)
open Literal (IsLexical)
open Resolver (IsForeignNumber literals_resolve literals_resolveDatatype)

/-- What a restriction states by literals. -/
inductive Stated where
  /-- That a thing is related to itself. -/
  | truth
  /-- How many things. -/
  | number (n : Int)
  /-- A value, as text. -/
  | value (text : String)
deriving DecidableEq

/-- Numbers of things are not negative, and values have no quotes. -/
def Stated.IsPlain : Stated → Prop
  | truth => True
  | number n => 0 ≤ n
  | value text => '"' ∉ text.toList

def Stated.term (r : Resolver) : Stated → Term
  | truth => trueLiteral
  | number n => countLiteral n
  | value text => r.resolveValue text

mutual

/-- What the restrictions in an expression state by literals, in their order. -/
def stated : Expression → List Stated
  | name _ => []
  | raw _ => []
  | inter operands => statedIn operands
  | union operands => statedIn operands
  | compl operand => operand.stated
  | restrict _ quantifier filler number reflexive =>
    if reflexive then [.truth]
    else if quantifier = .value then [.value ((filler.map Expression.text).getD "")]
    else
      (number.map Stated.number).toList ++
        match filler with
        | none => []
        | some filler => filler.stated

/-- What the restrictions in a list of operands state. -/
def statedIn : List Expression → List Stated
  | [] => []
  | e :: es => e.stated ++ statedIn es

end

def literalsOf (triples : List Triple) : List Literal :=
  triples.flatMap Triple.literals

def literalsStated (r : Resolver) (facts : List Stated) : List Literal :=
  facts.flatMap fun s => (s.term r).literals

/-- The triples of an expression have the literals of what it states, and the term that stands for
it has none. -/
structure States (r : Resolver) (e : Expression) : Prop where
  ref : ∀ n, (lower r e n).ref.literals = []
  triples : ∀ n, literalsOf (lower r e n).triples = literalsStated r e.stated
  plain : ∀ s ∈ e.stated, s.IsPlain

section Statements

variable (r : Resolver) (n : Int)

theorem literalsOf_append (xs ys : List Triple) :
    literalsOf (xs ++ ys) = literalsOf xs ++ literalsOf ys :=
  List.flatMap_append

theorem literalsStated_append (xs ys : List Stated) :
    literalsStated r (xs ++ ys) = literalsStated r xs ++ literalsStated r ys :=
  List.flatMap_append

theorem statements_append (node : Term) (front back : List (Term × Term)) :
    statements node (front ++ back) = statements node front ++ statements node back :=
  List.map_append

/-- What is said of a node has the literals of the objects, as no predicate has one. -/
theorem literalsOf_statements {pairs : List (Term × Term)}
    (named : ∀ p ∈ pairs, p.1.literals = []) :
    literalsOf (statements (blankNode n) pairs) = pairs.flatMap fun p => p.2.literals := by
  rw [literalsOf, statements, List.flatMap_map]
  refine List.flatMap_congr fun p mem => ?_
  rw [Triple.literals, named p mem]
  rfl

theorem literalsOf_single (word : String) (object : Term) :
    literalsOf (statements (blankNode n) [(owl word, object)]) = object.literals := by
  rw [literalsOf_statements n (List.forall_mem_singleton.2 rfl), List.flatMap_singleton]

/-- What every restriction says first has no literals. -/
theorem literalsOf_restriction {property : String} (plain : '"' ∉ property.toList)
    (back : List (Term × Term)) :
    literalsOf (statements (blankNode n) (restrictionPairs (r.resolve property) ++ back)) =
      literalsOf (statements (blankNode n) back) := by
  have first :
      literalsOf (statements (blankNode n) (restrictionPairs (r.resolve property))) = [] := by
    have named : ∀ p ∈ restrictionPairs (r.resolve property), p.1.literals = [] :=
      List.forall_mem_cons.2 ⟨rfl, List.forall_mem_singleton.2 rfl⟩
    rw [literalsOf_statements n named, restrictionPairs, List.flatMap_cons, List.flatMap_singleton,
      literals_resolve plain]
    rfl
  rw [statements_append, literalsOf_append, first, List.nil_append]

/-- The number of things is a literal. -/
theorem literalsOf_count (quantifier : Quantifier) (qualified : Bool) (number : Option Int) :
    literalsOf (statements (blankNode n) (countPairs quantifier qualified number)) =
      literalsStated r (number.map Stated.number).toList := by
  cases number with
  | none => rfl
  | some m => exact literalsOf_single n _ (countLiteral m)

end Statements

theorem quote_notMem_joinWords {tokens : List String} (plain : ∀ t ∈ tokens, '"' ∉ t.toList) :
    '"' ∉ (joinWords tokens).toList := by
  intro quote
  rw [joinWords, String.toList_intercalate] at quote
  rcases Text.mem_intercalate quote with space | ⟨part, word, inside⟩
  · exact absurd space (by decide)
  · obtain ⟨t, known, rfl⟩ := List.mem_map.1 word
    exact plain t (List.mem_filter.1 known).1 inside

section Stating

variable {r : Resolver}

theorem mem_statedIn {s : Stated} {es : List Expression} (h : s ∈ statedIn es) :
    ∃ e ∈ es, s ∈ e.stated := by
  induction es with
  | nil => cases h
  | cons e es ih =>
    rcases List.mem_append.1 h with own | later
    · exact ⟨e, List.mem_cons_self, own⟩
    · obtain ⟨f, known, own⟩ := ih later
      exact ⟨f, List.mem_cons_of_mem e known, own⟩

theorem literals_lowerAll {es : List Expression} (each : ∀ e ∈ es, States r e) (n : Int) :
    Term.literalsIn (lowerAll r es n).1 = [] ∧
      literalsOf (lowerAll r es n).2.1 = literalsStated r (statedIn es) := by
  induction es generalizing n with
  | nil => exact ⟨rfl, rfl⟩
  | cons e es ih =>
    obtain ⟨first, rest⟩ := List.forall_mem_cons.1 each
    obtain ⟨refs, triples⟩ := ih rest (lower r e n).next
    rw [lowerAll, Term.literalsIn, statedIn, literalsOf_append, literalsStated_append]
    exact ⟨by rw [first.ref n, refs, List.append_nil], by rw [first.triples n, triples]⟩

/-- A junction states what its operands state. -/
theorem states_junction {e : Expression} {es : List Expression} (each : ∀ e ∈ es, States r e)
    {word : String} (stated : e.stated = statedIn es)
    (lowered : ∀ n, lower r e n =
      ⟨blankNode n,
        statements (blankNode n) [] ++ (lowerAll r es (n + 1)).2.1 ++
          statements (blankNode n) [(owl word, .list (lowerAll r es (n + 1)).1)],
        (lowerAll r es (n + 1)).2.2⟩) : States r e where
  ref n := by
    rw [lowered]
    rfl
  triples n := by
    obtain ⟨refs, triples⟩ := literals_lowerAll each (n + 1)
    rw [lowered, stated, literalsOf_append, literalsOf_append, triples, literalsOf_single,
      Term.literals, refs, List.append_nil]
    rfl
  plain s known := by
    obtain ⟨e, operand, own⟩ := mem_statedIn (stated ▸ known)
    exact (each e operand).plain s own

theorem states_compl {e : Expression} (inner : States r e) : States r (compl e) where
  ref _ := rfl
  triples n := by
    rw [lower_compl, literalsOf_append, literalsOf_append, inner.triples, literalsOf_single,
      inner.ref, List.append_nil]
    rfl
  plain := inner.plain

theorem eq_name_of_datatypeName? {e : Expression} {token : String}
    (h : datatypeName? e = some token) : e = name token := by
  cases e with
  | name written =>
    rw [datatypeName?] at h
    split at h
    · rw [Option.some.inj h]
    · cases h
  | raw _ | inter _ | union _ | compl _ | restrict _ _ _ _ _ => cases h

section Restriction

variable {property : String} (plain : '"' ∉ property.toList) {quantifier : Quantifier}
include plain

/-- A restriction to the thing itself. -/
theorem states_reflexive : States r (restrict property quantifier none none true) where
  ref n := by
    rw [lower_reflexive]
    rfl
  triples n := by
    rw [lower_reflexive, literalsOf_restriction r n plain, literalsOf_single]
    rfl
  plain s known := by
    obtain rfl := List.mem_singleton.1 known
    trivial

/-- A restriction to a value. -/
theorem states_value {text : String} (unquoted : '"' ∉ text.toList) :
    States r (restrict property .value (some (raw text)) none false) where
  ref n := by
    rw [lower_value]
    rfl
  triples n := by
    rw [lower_value, literalsOf_restriction r n plain, literalsOf_single]
    exact (List.flatMap_singleton _ _).symm
  plain s known := by
    obtain rfl := List.mem_singleton.1 known
    exact unquoted

variable {filler : Option Expression} (each : ∀ e ∈ filler, States r e)
include each

/-- A restriction to some or only things of a class. -/
theorem states_filler (kind : quantifier = .some ∨ quantifier = .only) :
    States r (restrict property quantifier filler none false) := by
  have other : quantifier ≠ .value := by rcases kind with rfl | rfl <;> decide
  cases filler with
  | none =>
    refine ⟨fun n => ?_, fun n => ?_, fun s known => ?_⟩
    · rw [lower_filler_none r property none n kind]
      rfl
    · rw [lower_filler_none r property none n kind, literalsOf_restriction r n plain,
        literalsOf_single]
      simp [stated, other, literalsStated]
      rfl
    · simp [stated, other] at known
  | some filler =>
    have inner := each filler rfl
    have same : (restrict property quantifier (some filler) none false).stated = filler.stated := by
      simp [stated, other]
    refine ⟨fun n => ?_, fun n => ?_, fun s known => inner.plain s (same ▸ known)⟩
    · rw [lower_filler r property none n kind]
      rfl
    · have first := literalsOf_restriction r n plain []
      rw [List.append_nil] at first
      rw [lower_filler r property none n kind, same, literalsOf_append, literalsOf_append,
        inner.triples, literalsOf_single, inner.ref, first, List.append_nil]
      rfl

/-- A restriction by the number of things. -/
theorem states_count (kind : IsCount quantifier) {number : Option Int}
    (natural : ∀ n ∈ number, 0 ≤ n) :
    States r (restrict property quantifier filler number false) := by
  have other : quantifier ≠ .value := by cases kind <;> decide
  have counted : ∀ s ∈ (number.map Stated.number).toList, s.IsPlain := by
    intro s known
    obtain ⟨m, given, rfl⟩ := Option.map_eq_some_iff.1 (Option.mem_toList.1 known)
    exact natural m given
  cases filler with
  | none =>
    have same : (restrict property quantifier none number false).stated =
        (number.map Stated.number).toList := by simp [stated, other]
    refine ⟨fun n => ?_, fun n => ?_, same ▸ counted⟩
    · rw [lower_count_none r property number n kind]
      rfl
    · rw [lower_count_none r property number n kind, literalsOf_restriction r n plain,
        literalsOf_count r, same]
  | some filler =>
    have inner := each filler rfl
    have same : (restrict property quantifier (some filler) number false).stated =
        (number.map Stated.number).toList ++ filler.stated := by simp [stated, other]
    refine ⟨fun n => ?_, fun n => ?_, same ▸ List.forall_mem_append.2 ⟨counted, inner.plain⟩⟩
    · rw [ref_lower_restrict]
      rfl
    · have front := literalsOf_restriction r n plain (countPairs quantifier true number)
      rw [literalsOf_count r] at front
      cases data : datatypeName? filler with
      | some token =>
        obtain rfl := eq_name_of_datatypeName? data
        have range := literals_resolveDatatype (inner.ref n)
        rw [lower_count_data r property number n kind data, statements_append, literalsOf_append,
          front, literalsOf_single, range, same, literalsStated_append]
        rfl
      | none =>
        rw [lower_count_class r property number n kind data, literalsOf_append, literalsOf_append,
          front, inner.triples, literalsOf_single, inner.ref, List.append_nil, same,
          literalsStated_append]

end Restriction

end Stating

/-- Every tree from tokens without quotes has the literals that it states. -/
theorem kept_states (r : Resolver) : Kept (fun t => '"' ∉ t.toList) (States r) where
  name tokens plain :=
    ⟨fun _ => literals_resolve (quote_notMem_joinWords plain), fun _ => rfl, nofun⟩
  inter es _ each := states_junction each rfl (lower_inter r · es)
  union es _ each := states_junction each rfl (lower_union r · es)
  compl e inner := states_compl inner
  reflexive property quantifier token _ _ := states_reflexive token
  value property args token _ plain := states_value token (quote_notMem_joinWords plain)
  restrict property quantifier filler number token _ _ noValue counts each := by
    have natural : ∀ n ∈ number.map Int.ofNat, 0 ≤ n := by
      intro n known
      obtain ⟨m, -, rfl⟩ := Option.map_eq_some_iff.1 known
      exact Int.natCast_nonneg m
    rcases quantifier_kind quantifier with kind | kind | kind
    · have none : number = none := by
        rcases known : number with - | m
        · rfl
        · have counted := counts (by rw [known]; rfl)
          rcases kind with rfl | rfl <;> cases counted
      subst none
      exact states_filler token each kind
    · exact absurd kind noValue
    · exact states_count token each kind natural

/-! The literals of a text. -/

/-- Tab stops add spaces only. -/
theorem mem_of_mem_expandFrom {cs : List Char} {column : Nat} {c : Char} (solid : c ≠ ' ')
    (mem : c ∈ Text.expandFrom column cs) : c ∈ cs := by
  induction cs generalizing column with
  | nil => cases mem
  | cons d cs ih =>
    rw [Text.expandFrom] at mem
    split at mem
    · rcases List.mem_append.1 mem with space | later
      · exact absurd (List.eq_of_mem_replicate space) solid
      · exact List.mem_cons_of_mem d (ih later)
    · split at mem
      all_goals
        rcases List.mem_cons.1 mem with rfl | later
        · exact List.mem_cons_self
        · exact List.mem_cons_of_mem d (ih later)

theorem quote_notMem_of_mem_tokens {s : String} (plain : '"' ∉ s.toList) :
    ∀ t ∈ tokens s, '"' ∉ t.toList := by
  intro t known quote
  obtain ⟨token, read, rfl⟩ := List.mem_map.1 known
  rw [String.toList_ofList] at quote
  exact plain (mem_of_mem_expandFrom (by decide) (tokenizes.mem_of_mem read quote))

theorem states_parse (r : Resolver) {s : String} (plain : '"' ∉ s.toList) : States r (parse s) :=
  (kept_states r).parse (quote_notMem_of_mem_tokens plain)

theorem isLexical_countLiteral {n : Int} (natural : 0 ≤ n) {l : Literal}
    (h : l ∈ (countLiteral n).literals) : l.IsLexical := by
  obtain rfl := List.mem_singleton.1 h
  obtain ⟨m, rfl⟩ := Int.eq_ofNat_of_zero_le natural
  refine .count Nat.toDigits_ne_nil fun c mem => ?_
  exact Nat.isDigit_of_mem_toDigits (by decide) (by decide) mem

/-- A value that is read as a literal is that literal. -/
theorem resolveValue_eq_of_mem {r : Resolver} {text : String} {l : Literal}
    (h : l ∈ (r.resolveValue text).literals) : r.resolveValue text = .literal l := by
  rcases r.resolveValue_cases text with ⟨read, same⟩ | ⟨iri, same⟩
  · rw [same] at h ⊢
    rw [List.mem_singleton.1 h]
  · rw [same] at h
    cases h

/-- Of what is stated only foreign numbers have no form of their datatype. -/
theorem Stated.isLexical_iff {r : Resolver} {fact : Stated} (plain : fact.IsPlain) {l : Literal}
    (stated : l ∈ (fact.term r).literals) :
    l.IsLexical ↔ ¬ ∃ text, fact = .value text ∧ IsForeignNumber text := by
  cases fact with
  | truth =>
    obtain rfl := List.mem_singleton.1 stated
    exact iff_of_true (.truth (Or.inl rfl)) (by simp)
  | number n => exact iff_of_true (isLexical_countLiteral plain stated) (by simp)
  | value text =>
    have form := Resolver.isLexical_iff_of_resolveValue plain (resolveValue_eq_of_mem stated)
    simpa using form

/-- Where a text has no quotes, the literals without a form of their datatype are those of the
values that read as numbers and have characters outside ASCII. So all literals have such forms
exactly if there is no such value. -/
theorem literals_lowerText (r : Resolver) {s : String} (plain : '"' ∉ s.toList) (n : Int) :
    (∀ l, (∃ t ∈ (lowerText r s n).triples, l ∈ t.literals) ∧ ¬ l.IsLexical ↔
      ∃ text, .value text ∈ (parse s).stated ∧ IsForeignNumber text ∧
        r.resolveValue text = .literal l) ∧
    ((∀ t ∈ (lowerText r s n).triples, ∀ l ∈ t.literals, l.IsLexical) ↔
      ∀ text, .value text ∈ (parse s).stated → ¬ IsForeignNumber text) := by
  have states := states_parse r plain
  have stated (l : Literal) : (∃ t ∈ (lowerText r s n).triples, l ∈ t.literals) ↔
      ∃ fact ∈ (parse s).stated, l ∈ (fact.term r).literals := by
    rw [← List.mem_flatMap, ← List.mem_flatMap]
    exact iff_of_eq (congrArg (l ∈ ·) (states.triples n))
  have wrong (l : Literal) : (∃ t ∈ (lowerText r s n).triples, l ∈ t.literals) ∧ ¬ l.IsLexical ↔
      ∃ text, .value text ∈ (parse s).stated ∧ IsForeignNumber text ∧
        r.resolveValue text = .literal l := by
    rw [stated]
    constructor
    · rintro ⟨⟨fact, known, given⟩, wrong⟩
      rw [Stated.isLexical_iff (states.plain fact known) given, not_not] at wrong
      obtain ⟨text, rfl, foreign⟩ := wrong
      exact ⟨text, known, foreign, resolveValue_eq_of_mem given⟩
    · rintro ⟨text, known, foreign, read⟩
      have given : l ∈ ((Stated.value text).term r).literals := by
        rw [Stated.term, read]
        exact List.mem_singleton_self l
      refine ⟨⟨.value text, known, given⟩, fun lexical => ?_⟩
      exact (Stated.isLexical_iff (states.plain _ known) given).1 lexical ⟨text, rfl, foreign⟩
  refine ⟨wrong, fun all text known foreign => ?_, fun native t mem l given => ?_⟩
  · obtain ⟨l, read⟩ := r.exists_literal_of_isForeignNumber foreign
    obtain ⟨⟨t, mem, given⟩, other⟩ := (wrong l).2 ⟨text, known, foreign, read⟩
    exact other (all t mem l given)
  · by_contra other
    obtain ⟨text, known, foreign, -⟩ := (wrong l).1 ⟨⟨t, mem, given⟩, other⟩
    exact native text known foreign

/-- Numbers, a value and truth in the forms of their datatypes. -/
theorem literals_lowerText_wheels :
    let s := "has min 3 Wheel and price value -4.50 and drives some Self"
    '"' ∉ s.toList ∧ ∀ t ∈ (lowerText .default s 0).triples, ∀ l ∈ t.literals, l.IsLexical := by
  intro s
  have plain : '"' ∉ s.toList := by decide +kernel
  have facts : (parse s).stated = [.number 3, .value "-4.50", .truth] := by decide +kernel
  refine ⟨plain, (literals_lowerText .default plain 0).2.2 fun text known foreign => ?_⟩
  rw [facts] at known
  obtain rfl : text = "-4.50" := by simpa using known
  have ascii :
      (Text.stripBoth Text.isBlank "-4.50".toList).all fun c => decide (c.toNat < 128) := by
    decide +kernel
  obtain ⟨-, c, mem, high⟩ := foreign
  have low := of_decide_eq_true (List.all_eq_true.1 ascii c mem)
  omega

/-- The digits of a value may be Arabic, those of a literal may not. -/
theorem not_literals_lowerText :
    ¬ ∀ (r : Resolver) (s : String) (n : Int), '"' ∉ s.toList →
      ∀ t ∈ (lowerText r s n).triples, ∀ l ∈ t.literals, l.IsLexical := by
  intro all
  let l : Literal := ⟨"\u0663", none, some (Namespace.xsd ++ "integer")⟩
  let s := "hasAge value \u0663"
  have there : ((lowerText .default s 0).triples.any fun t => t.literals.contains l) = true := by
    decide +kernel
  obtain ⟨t, mem, given⟩ := List.any_eq_true.1 there
  have lexical := all .default s 0 (by decide +kernel) t mem l (List.contains_iff_mem.1 given)
  exact absurd (lexical.lt '\u0663' (by decide +kernel)) (by decide)

end Expression

end Ontogram
