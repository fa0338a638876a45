import Mathlib.Data.List.Basic
import Ontogram.Proofs.Join
import Ontogram.Query.Run

set_option autoImplicit false

namespace Ontogram

/-- The variables that are bound, in the order in which they were, with their texts. -/
abbrev Solution : Type := List (String × String)

namespace Solution

/-- The variables that are bound. -/
def names (s : Solution) : List String :=
  s.map Prod.fst

/-- The texts to which they are bound. -/
def texts (s : Solution) : List String :=
  s.map Prod.snd

/-- Gives a variable a text; one that has another text already is in the way. -/
def assign (s : Solution) (name text : String) : Option Solution :=
  match s.lookup name with
  | none => some (s ++ [(name, text)])
  | some bound => if bound = text then some s else none

/-- Meets one position of a fact: a variable takes its text, and a constant must be the same. -/
def meet (prefixes : Table String) (term : PatternTerm) (text : String) (same : String → Bool)
    (s : Solution) : Option Solution :=
  match term with
  | .var name => s.assign name text
  | term => if (term.constant? prefixes).all same then some s else none

/-- The solution that a fact makes of another under a pattern. The object may also be met by its
lexical value, to which the constant is compared without a double quote at each end. -/
def extend (prefixes : Table String) (p : TriplePattern) (s : Solution) (f : Fact) :
    Option Solution := do
  let s ← s.meet prefixes p.subject f.subject (· == f.subject)
  let s ← s.meet prefixes p.predicate f.predicate (· == f.predicate)
  s.meet prefixes p.object f.object fun c => c == f.object || TriplePattern.unquoted c == f.lexical

end Solution

/-- The solutions that patterns make of others. -/
def nestedLoops (prefixes : Table String) (store : Store) :
    List TriplePattern → List Solution → List Solution
  | [], ss => ss
  | p :: ps, ss =>
    nestedLoops prefixes store ps (ss.flatMap fun s => store.filterMap (s.extend prefixes p))

namespace SelectQuery

def solutions (q : SelectQuery) (store : Store) : List Solution :=
  nestedLoops q.prefixes store q.patterns [[]]

/-- The variables of an answer: those that are asked for, or else all that some solution binds, in
the order in which they first occur. -/
def answerColumns (q : SelectQuery) (store : Store) : List String :=
  if q.asksAll then firsts ((q.solutions store).flatMap Solution.names) else q.projection

/-- The rows of an answer. A solution that lacks a variable of the answer gives none. -/
def answerRows (q : SelectQuery) (store : Store) : List (List String) :=
  let rows := (q.solutions store).filterMap fun s =>
    (q.answerColumns store).mapM fun name => s.lookup name
  let rows := if q.distinct then firsts rows else rows
  match q.limit with
  | none => rows
  | some limit => rows.take limit.toNat

end SelectQuery

theorem appendNew_eq {α : Type} [DecidableEq α] (seen xs : List α) :
    appendNew seen xs = seen ++ (firsts xs).filter (· ∉ seen) := by
  induction xs generalizing seen with
  | nil => simp [appendNew, firsts]
  | cons x xs ih =>
    have head : firsts (x :: xs) = x :: (firsts xs).filter (· ∉ [x]) := by
      simpa [firsts, appendNew] using ih [x]
    rw [appendNew, ih, head]
    by_cases h : x ∈ seen
    · have kept : (firsts xs).filter (· ∉ seen) =
          ((firsts xs).filter (· ∉ [x])).filter (· ∉ seen) := by
        rw [List.filter_filter]
        refine List.filter_congr fun y _ => ?_
        by_cases hy : y = x
        · simp [hy, h]
        · simp [hy]
      rw [if_pos h, List.filter_cons_of_neg (by simp [h]), kept]
    · rw [if_neg h, List.filter_cons_of_pos (by simp [h]), List.append_assoc, List.singleton_append,
        List.filter_filter]
      simp [not_or, Bool.decide_and]

theorem firsts_cons {α : Type} [DecidableEq α] (x : α) (xs : List α) :
    firsts (x :: xs) = x :: (firsts xs).filter (· ≠ x) := by
  have := appendNew_eq [x] xs
  simpa [firsts, appendNew] using this

namespace Solution

@[simp] theorem names_nil : names [] = [] := rfl

@[simp] theorem names_cons (b : String × String) (s : Solution) :
    names (b :: s) = b.1 :: names s := rfl

@[simp] theorem names_append (s t : Solution) : names (s ++ t) = s.names ++ t.names :=
  List.map_append

theorem lookup_isSome_iff {s : Solution} {name : String} :
    (s.lookup name).isSome ↔ name ∈ s.names := by
  induction s with
  | nil => simp
  | cons b s ih =>
    obtain ⟨bound, text⟩ := b
    by_cases h : name = bound
    · simp [h]
    · have other : (name == bound) = false := by simpa using h
      simp only [List.lookup_cons, other, ih, names_cons, List.mem_cons, h, false_or]

/-- Gives variables texts, one after the other. -/
def assignAll (s : Solution) : List (String × String) → Option Solution
  | [] => some s
  | b :: bs => (s.assign b.1 b.2).bind fun t => t.assignAll bs

theorem assignAll_append (s : Solution) (bs cs : List (String × String)) :
    s.assignAll (bs ++ cs) = (s.assignAll bs).bind fun t => t.assignAll cs := by
  induction bs generalizing s with
  | nil => rfl
  | cons b bs ih => cases h : s.assign b.1 b.2 <;> simp [assignAll, h, ih]

/-- What a position gives to the variables of a pattern. -/
def bindingsAt (term : PatternTerm) (text : String) : List (String × String) :=
  (term.name?.map fun name => (name, text)).toList

theorem meet_eq (prefixes : Table String) (term : PatternTerm) (text : String)
    (same : String → Bool) (s : Solution) :
    s.meet prefixes term text same =
      if (term.constant? prefixes).all same then s.assignAll (bindingsAt term text) else none := by
  cases term with
  | var name =>
    have : (s.assign name text).bind some = s.assign name text := by simp
    simp [meet, PatternTerm.constant?, PatternTerm.name?, bindingsAt, assignAll, this]
  | iri _ => simp [meet, PatternTerm.name?, bindingsAt, assignAll]
  | literal _ => simp [meet, PatternTerm.name?, bindingsAt, assignAll]

theorem bindings_eq (p : TriplePattern) (f : Fact) :
    p.bindings f = bindingsAt p.subject f.subject ++
      (bindingsAt p.predicate f.predicate ++ bindingsAt p.object f.object) := by
  cases hs : p.subject.name? <;> cases hp : p.predicate.name? <;> cases ho : p.object.name? <;>
    simp [TriplePattern.bindings, TriplePattern.terms, Fact.texts, bindingsAt, hs, hp, ho]

def constantsMeet (prefixes : Table String) (p : TriplePattern) (f : Fact) : Bool :=
  TriplePattern.meets (p.subject.constant? prefixes) f.subject &&
    TriplePattern.meets (p.predicate.constant? prefixes) f.predicate &&
    TriplePattern.meetsObject (p.object.constant? prefixes) f

/-- A fact extends a solution when the constants meet and the variables can take their texts. -/
theorem extend_eq (prefixes : Table String) (p : TriplePattern) (s : Solution) (f : Fact) :
    s.extend prefixes p f =
      if constantsMeet prefixes p f then s.assignAll (p.bindings f) else none := by
  have meets (constant : Option String) (text : String) :
      TriplePattern.meets constant text = constant.all (· == text) := by
    cases constant <;> rfl
  have meetsObject (constant : Option String) : TriplePattern.meetsObject constant f =
      constant.all fun c => c == f.object || TriplePattern.unquoted c == f.lexical := by
    cases constant <;> rfl
  simp only [extend, constantsMeet, meets, meetsObject, meet_eq, bindings_eq, assignAll_append]
  cases (p.subject.constant? prefixes).all (· == f.subject)
  · rfl
  cases (p.predicate.constant? prefixes).all (· == f.predicate)
  · cases s.assignAll (bindingsAt p.subject f.subject) <;> rfl
  cases (p.object.constant? prefixes).all fun c =>
    c == f.object || TriplePattern.unquoted c == f.lexical
  · cases s.assignAll (bindingsAt p.subject f.subject) with
    | none => rfl
    | some t => cases t.assignAll (bindingsAt p.predicate f.predicate) <;> simp
  · rfl

/-- Whether variables can take texts: none has another text already, and none is given two. -/
structure Fits (s : Solution) (bs : List (String × String)) : Prop where
  kept : ∀ b ∈ bs, ∀ text, s.lookup b.1 = some text → text = b.2
  single : ∀ b ∈ bs, ∀ c ∈ bs, b.1 = c.1 → b.2 = c.2

/-- The variables that are not bound yet. -/
def fresh (s : Solution) (bs : List (String × String)) : List String :=
  (firsts (bs.map Prod.fst)).filter (· ∉ s.names)

/-- The variables that are not bound yet, with the first texts that they are given. -/
def gained (s : Solution) (bs : List (String × String)) : Solution :=
  (s.fresh bs).map fun name => (name, (bs.lookup name).getD "")

theorem fits_cons_of_bound {s : Solution} {b : String × String} {bs : List (String × String)}
    (h : s.lookup b.1 = some b.2) : s.Fits (b :: bs) ↔ s.Fits bs := by
  constructor
  · intro fits
    exact ⟨fun c hc => fits.kept c (List.mem_cons_of_mem b hc),
      fun c hc d hd => fits.single c (List.mem_cons_of_mem b hc) d (List.mem_cons_of_mem b hd)⟩
  · intro fits
    have head (c : String × String) (hc : c ∈ bs) (same : b.1 = c.1) : b.2 = c.2 :=
      fits.kept c hc b.2 (same ▸ h)
    refine ⟨?_, ?_⟩
    · intro c hc text found
      rcases List.mem_cons.1 hc with rfl | hc
      · exact Option.some.inj (found.symm.trans h)
      · exact fits.kept c hc text found
    · intro c hc d hd same
      rcases List.mem_cons.1 hc with rfl | inTail
      · rcases List.mem_cons.1 hd with rfl | inTail
        · rfl
        · exact head d inTail same
      · rcases List.mem_cons.1 hd with rfl | inTail'
        · exact (head c inTail same.symm).symm
        · exact fits.single c inTail d inTail' same

theorem fits_cons_of_new {s : Solution} {b : String × String} {bs : List (String × String)}
    (h : s.lookup b.1 = none) : s.Fits (b :: bs) ↔ Solution.Fits (s ++ [b]) bs := by
  have extended : (s ++ [b]).lookup b.1 = some b.2 := by
    rw [List.lookup_append, h, List.lookup_cons_self, Option.none_or]
  rw [← fits_cons_of_bound extended]
  constructor
  · intro fits
    refine ⟨?_, fits.single⟩
    intro c hc text found
    rw [List.lookup_append, List.lookup_singleton] at found
    cases bound : s.lookup c.1 with
    | some old =>
      rw [bound, Option.some_or] at found
      exact Option.some.inj found ▸ fits.kept c hc old bound
    | none =>
      rw [bound, Option.none_or] at found
      split at found
      · rename_i same
        have same : c.1 = b.1 := by simpa using same
        rw [← Option.some.inj found]
        exact fits.single b List.mem_cons_self c hc same.symm
      · cases found
  · intro fits
    refine ⟨?_, fits.single⟩
    intro c hc text found
    exact fits.kept c hc text (by rw [List.lookup_append, found, Option.some_or])

theorem fresh_cons_of_bound {s : Solution} {b : String × String} (bs : List (String × String))
    (h : b.1 ∈ s.names) : s.fresh (b :: bs) = s.fresh bs := by
  unfold fresh
  rw [List.map_cons, firsts_cons, List.filter_cons_of_neg (by simp [h]), List.filter_filter]
  refine List.filter_congr fun name _ => ?_
  by_cases same : name = b.1
  · simp [same, h]
  · simp [same]

theorem fresh_cons_of_new {s : Solution} {b : String × String} (bs : List (String × String))
    (h : b.1 ∉ s.names) : s.fresh (b :: bs) = b.1 :: Solution.fresh (s ++ [b]) bs := by
  unfold fresh
  rw [List.map_cons, firsts_cons, List.filter_cons_of_pos (by simp [h]), List.filter_filter]
  refine congrArg (b.1 :: ·) (List.filter_congr fun name _ => ?_)
  simp [not_or, Bool.decide_and]

theorem lookup_cons_of_ne {b : String × String} {bs : List (String × String)} {name : String}
    (h : name ≠ b.1) : (b :: bs).lookup name = bs.lookup name := by
  obtain ⟨first, text⟩ := b
  have : (name == first) = false := by simpa using h
  rw [List.lookup_cons, this]

theorem gained_cons_of_bound {s : Solution} {b : String × String} (bs : List (String × String))
    (h : b.1 ∈ s.names) : s.gained (b :: bs) = s.gained bs := by
  unfold gained
  rw [fresh_cons_of_bound bs h]
  refine List.map_congr_left fun name hn => ?_
  have lacking : name ∉ s.names := by simpa using (List.mem_filter.1 hn).2
  have other : name ≠ b.1 := by
    rintro rfl
    exact lacking h
  rw [lookup_cons_of_ne other]

theorem gained_cons_of_new {s : Solution} {b : String × String} (bs : List (String × String))
    (h : b.1 ∉ s.names) : s.gained (b :: bs) = b :: Solution.gained (s ++ [b]) bs := by
  unfold gained
  rw [fresh_cons_of_new bs h, List.map_cons, List.lookup_cons_self]
  refine congrArg (b :: ·) (List.map_congr_left fun name hn => ?_)
  have lacking : name ∉ Solution.names (s ++ [b]) := by simpa using (List.mem_filter.1 hn).2
  have other : name ≠ b.1 := by
    rintro rfl
    exact lacking (by simp)
  rw [lookup_cons_of_ne other]

theorem assignAll_of_fits {s : Solution} {bs : List (String × String)} (h : s.Fits bs) :
    s.assignAll bs = some (s ++ s.gained bs) := by
  induction bs generalizing s with
  | nil => simp [assignAll, gained, fresh, firsts, appendNew]
  | cons b bs ih =>
    cases bound : s.lookup b.1 with
    | none =>
      have lacking : b.1 ∉ s.names := by
        rw [← lookup_isSome_iff, bound]
        exact Bool.false_ne_true
      rw [assignAll, assign, bound, Option.bind_some, ih ((fits_cons_of_new bound).1 h),
        gained_cons_of_new bs lacking, List.append_assoc, List.singleton_append]
    | some text =>
      obtain rfl : text = b.2 := h.kept b List.mem_cons_self text bound
      have there : b.1 ∈ s.names := lookup_isSome_iff.1 (by rw [bound]; rfl)
      rw [assignAll, assign, bound]
      simp only [if_true, Option.bind_some]
      rw [ih ((fits_cons_of_bound bound).1 h), gained_cons_of_bound bs there]

theorem assignAll_of_not_fits {s : Solution} {bs : List (String × String)} (h : ¬ s.Fits bs) :
    s.assignAll bs = none := by
  induction bs generalizing s with
  | nil => exact absurd ⟨by simp, by simp⟩ h
  | cons b bs ih =>
    cases bound : s.lookup b.1 with
    | none =>
      rw [assignAll, assign, bound, Option.bind_some]
      exact ih fun fits => h ((fits_cons_of_new bound).2 fits)
    | some text =>
      rw [assignAll, assign, bound]
      by_cases same : text = b.2
      · subst same
        simp only [if_true, Option.bind_some]
        exact ih fun fits => h ((fits_cons_of_bound bound).2 fits)
      · simp only [same, if_false, Option.bind_none]

end Solution

end Ontogram
