import Mathlib.Data.Multiset.Bind
import Mathlib.Logic.Function.Basic
import Ontogram.Proofs.Budget

set_option autoImplicit false

namespace Ontogram

/-- The texts of the variables that are bound. -/
abbrev Assignment : Type := String → Option String

namespace Assignment

/-- Gives a variable a text; one that has another text already is in the way. -/
def assign (m : Assignment) (name text : String) : Option Assignment :=
  match m name with
  | none => some (Function.update m name (some text))
  | some bound => if bound = text then some m else none

/-- Gives variables texts, one after the other. -/
def assignAll (m : Assignment) : List (String × String) → Option Assignment
  | [] => some m
  | b :: bs => (m.assign b.1 b.2).bind fun n => n.assignAll bs

/-- The assignment that a fact makes of another under a pattern. -/
def extend (prefixes : Table String) (p : TriplePattern) (m : Assignment) (f : Fact) :
    Option Assignment :=
  if Solution.constantsMeet prefixes p f then m.assignAll (p.bindings f) else none

section Commute

variable (m : Assignment)

theorem assignAll_append (bs cs : List (String × String)) :
    m.assignAll (bs ++ cs) = (m.assignAll bs).bind fun n => n.assignAll cs := by
  induction bs generalizing m with
  | nil => rfl
  | cons b bs ih => cases h : m.assign b.1 b.2 <;> simp [assignAll, h, ih]

theorem assign_of_bound {name text bound : String} (h : m name = some bound) :
    m.assign name text = if bound = text then some m else none := by
  rw [assign, h]

theorem assign_of_new {name text : String} (h : m name = none) :
    m.assign name text = some (Function.update m name (some text)) := by
  rw [assign, h]

/-- A variable that is bound is checked before or after another takes its text. -/
theorem assign_comm_of_bound {x y t u v : String} (bound : m x = some v) :
    ((m.assign x t).bind fun n => n.assign y u) = (m.assign y u).bind fun n => n.assign x t := by
  have kept (n : Assignment) (found : m.assign y u = some n) : n x = some v := by
    cases other : m y with
    | none =>
      have apart : x ≠ y := by
        rintro rfl
        rw [bound] at other
        cases other
      rw [assign_of_new m other] at found
      rw [← Option.some.inj found, Function.update_of_ne apart, bound]
    | some w =>
      rw [assign_of_bound m other] at found
      split at found
      · rw [← Option.some.inj found, bound]
      · cases found
  rw [assign_of_bound m bound]
  cases found : m.assign y u with
  | none => split <;> simp [found]
  | some n =>
    rw [Option.bind_some, assign_of_bound n (kept n found)]
    split <;> simp [found]

/-- A variable takes a text before or after another. -/
theorem assign_comm (x t y u : String) :
    ((m.assign x t).bind fun n => n.assign y u) = (m.assign y u).bind fun n => n.assign x t := by
  cases first : m x with
  | some v => exact assign_comm_of_bound m first
  | none =>
    cases second : m y with
    | some v => exact (assign_comm_of_bound m second).symm
    | none =>
      rw [assign_of_new m first, assign_of_new m second, Option.bind_some, Option.bind_some]
      by_cases same : x = y
      · subst same
        rw [assign_of_bound _ (Function.update_self x _ m),
          assign_of_bound _ (Function.update_self x _ m)]
        by_cases equal : t = u
        · rw [equal]
        · rw [if_neg equal, if_neg (Ne.symm equal)]
      · rw [assign_of_new _ ((Function.update_of_ne (Ne.symm same) _ m).trans second),
          assign_of_new _ ((Function.update_of_ne same _ m).trans first),
          Function.update_comm same]

theorem assignAll_perm {bs cs : List (String × String)} (perm : bs.Perm cs) :
    m.assignAll bs = m.assignAll cs := by
  induction perm generalizing m with
  | nil => rfl
  | cons b _ ih => simp only [assignAll, ih]
  | swap b c bs =>
    simp only [assignAll, ← Option.bind_assoc, assign_comm]
  | trans _ _ first second => exact (first m).trans (second m)

/-- Two facts extend an assignment in either order. -/
theorem extend_comm (prefixes : Table String) (p q : TriplePattern) (f g : Fact) :
    ((m.extend prefixes p f).bind fun n => n.extend prefixes q g) =
      (m.extend prefixes q g).bind fun n => n.extend prefixes p f := by
  have both : ((m.assignAll (p.bindings f)).bind fun n => n.assignAll (q.bindings g)) =
      (m.assignAll (q.bindings g)).bind fun n => n.assignAll (p.bindings f) := by
    rw [← assignAll_append, ← assignAll_append]
    exact assignAll_perm m List.perm_append_comm
  unfold extend
  cases Solution.constantsMeet prefixes p f <;> cases Solution.constantsMeet prefixes q g
  · rfl
  · simp
  · simp
  · simpa using both

end Commute

end Assignment

namespace Solution

def assignment (s : Solution) : Assignment :=
  fun name => s.lookup name

theorem assignment_assign (s : Solution) (name text : String) :
    (s.assign name text).map assignment = s.assignment.assign name text := by
  have value : s.assignment name = s.lookup name := rfl
  cases bound : s.lookup name with
  | some old => by_cases same : old = text <;> simp [assign, Assignment.assign, value, bound, same]
  | none =>
    simp only [assign, Assignment.assign, value, bound, Option.map_some, Option.some.injEq]
    funext other
    rw [assignment, List.lookup_append, List.lookup_singleton]
    by_cases same : other = name
    · subst same
      simp [bound]
    · have : (other == name) = false := by simpa using same
      simp [this, same, assignment]

theorem assignment_assignAll (s : Solution) (bs : List (String × String)) :
    (s.assignAll bs).map assignment = s.assignment.assignAll bs := by
  induction bs generalizing s with
  | nil => rfl
  | cons b bs ih =>
    rw [assignAll, Assignment.assignAll, ← assignment_assign, Option.bind_map, Option.map_bind]
    exact congrArg (s.assign b.1 b.2).bind (funext ih)

theorem assignment_extend (prefixes : Table String) (p : TriplePattern) (s : Solution) (f : Fact) :
    (s.extend prefixes p f).map assignment = s.assignment.extend prefixes p f := by
  rw [extend_eq, Assignment.extend]
  split
  · exact assignment_assignAll s (p.bindings f)
  · rfl

end Solution

/-- What solutions assign to variables, each assignment as often as it is found. -/
def assignments (ss : List Solution) : Multiset Assignment :=
  (ss.map Solution.assignment : List Assignment)

theorem filterMap_bind {α β γ : Type} (xs : Multiset α) (f : α → Option β) (g : β → Multiset γ) :
    (xs.filterMap f).bind g = xs.bind fun x => (f x).elim 0 g := by
  induction xs using Multiset.induction_on with
  | empty => rfl
  | cons x xs ih =>
    cases h : f x with
    | none =>
      rw [Multiset.filterMap_cons_none x xs h, ih, Multiset.cons_bind, h]
      exact (zero_add _).symm
    | some y =>
      rw [Multiset.filterMap_cons_some f x xs h, Multiset.cons_bind, ih, Multiset.cons_bind, h]
      rfl

/-- An assignment, if there is one. -/
def Assignment.single (m : Option Assignment) : Multiset Assignment :=
  (m.toList : List Assignment)

section Order

variable (prefixes : Table String) (store : Store)

/-- The assignments that the facts make of another under a pattern. -/
def Assignment.extensions (p : TriplePattern) (m : Assignment) : Multiset Assignment :=
  (store : Multiset Fact).filterMap (m.extend prefixes p)

theorem extensions_eq_bind (p : TriplePattern) (m : Assignment) :
    Assignment.extensions prefixes store p m =
      (store : Multiset Fact).bind fun f => Assignment.single (m.extend prefixes p f) := by
  rw [Assignment.extensions, Multiset.filterMap_coe, List.filterMap_eq_flatMap_toList]
  exact (Multiset.coe_bind store fun f => (m.extend prefixes p f).toList).symm

theorem assignments_extended (p : TriplePattern) (ss : List Solution) :
    assignments (extended prefixes store p ss) =
      (assignments ss).bind (Assignment.extensions prefixes store p) := by
  have one (s : Solution) : (store.filterMap (s.extend prefixes p)).map Solution.assignment =
      store.filterMap (s.assignment.extend prefixes p) := by
    rw [List.map_filterMap]
    exact congrArg (store.filterMap ·) (funext fun f => Solution.assignment_extend prefixes p s f)
  rw [assignments, extended, List.map_flatMap]
  simp only [one]
  rw [assignments, ← Multiset.map_coe, Multiset.bind_map]
  exact (Multiset.coe_bind ss fun s => store.filterMap (s.assignment.extend prefixes p)).symm

/-- What two patterns make of an assignment, fact by fact. -/
theorem extensions_extensions (p q : TriplePattern) (m : Assignment) :
    (Assignment.extensions prefixes store p m).bind (Assignment.extensions prefixes store q) =
      (store : Multiset Fact).bind fun f => (store : Multiset Fact).bind fun g =>
        Assignment.single ((m.extend prefixes p f).bind fun n => n.extend prefixes q g) := by
  rw [Assignment.extensions, filterMap_bind]
  refine Multiset.bind_congr fun f _ => ?_
  cases m.extend prefixes p f with
  | none => exact (Multiset.bind_zero _).symm
  | some n => exact extensions_eq_bind prefixes store q n

/-- Two patterns extend assignments in either order. -/
theorem extensions_comm (p q : TriplePattern) (m : Assignment) :
    (Assignment.extensions prefixes store p m).bind (Assignment.extensions prefixes store q) =
      (Assignment.extensions prefixes store q m).bind (Assignment.extensions prefixes store p) := by
  rw [extensions_extensions, Multiset.bind_bind, extensions_extensions]
  simp only [Assignment.extend_comm]

/-- Solutions that assign the same find solutions that assign the same. -/
theorem assignments_nestedLoops_congr (ps : List TriplePattern) {ss tt : List Solution}
    (same : assignments ss = assignments tt) :
    assignments (nestedLoops prefixes store ps ss) =
      assignments (nestedLoops prefixes store ps tt) := by
  induction ps generalizing ss tt with
  | nil => exact same
  | cons p ps ih =>
    refine ih ?_
    rw [← extended, ← extended, assignments_extended, assignments_extended, same]

/-- Patterns in another order find the same assignments, each as often. -/
theorem assignments_nestedLoops_perm {ps qs : List TriplePattern} (perm : ps.Perm qs)
    (ss : List Solution) : assignments (nestedLoops prefixes store ps ss) =
      assignments (nestedLoops prefixes store qs ss) := by
  induction perm generalizing ss with
  | nil => rfl
  | cons p _ ih => exact ih _
  | swap p q ps =>
    refine assignments_nestedLoops_congr prefixes store ps ?_
    rw [← extended, ← extended, ← extended, ← extended]
    simp only [assignments_extended, Multiset.bind_assoc, extensions_comm prefixes store p q]
  | trans _ _ first second => exact (first ss).trans (second ss)

end Order

/-- A row as an assignment of its cells to the columns. -/
def QueryResult.assignments (r : QueryResult) : Multiset Assignment :=
  (r.rows.map (Frame.cell? r.columns) : List Assignment)

namespace SelectQuery

open Ontogram.Frame

/-- What the answer of a query tells of an assignment. One that lacks a variable which is asked for
is left out. -/
def shown (q : SelectQuery) (m : Assignment) : Option Assignment :=
  if ∀ name ∈ q.projection, (m name).isSome then
    some fun name => if q.asksAll || name ∈ q.projection then m name else none
  else none

/-- The row of a solution that binds all columns. -/
theorem mapM_lookup {s : Solution} {columns : List String}
    (bound : ∀ name ∈ columns, name ∈ s.names) :
    (columns.mapM fun name => s.lookup name) =
      some (columns.map fun name => (s.lookup name).getD "") := by
  induction columns with
  | nil => rfl
  | cons name columns ih =>
    have there := Solution.lookup_isSome_iff.2 (bound name List.mem_cons_self)
    obtain ⟨text, found⟩ := Option.isSome_iff_exists.1 there
    rw [List.mapM_cons, ih fun name hn => bound name (List.mem_cons_of_mem _ hn), found,
      List.map_cons, found]
    rfl

/-- What the row of a solution tells. -/
theorem cell?_mapM {s : Solution} {columns : List String}
    (bound : ∀ name ∈ columns, name ∈ s.names) :
    (columns.mapM fun name => s.lookup name).map (cell? columns) =
      some fun name => if name ∈ columns then s.assignment name else none := by
  rw [mapM_lookup bound, Option.map_some]
  congr 1
  funext name
  rw [cell?, lookup_zip_map]
  split
  · rename_i there
    obtain ⟨text, found⟩ := Option.isSome_iff_exists.1
      (Solution.lookup_isSome_iff.2 (bound name there))
    rw [Solution.assignment, found, Option.getD_some]
  · rfl

theorem assignment_isSome_iff {s : Solution} {name : String} :
    (s.assignment name).isSome ↔ name ∈ s.names :=
  Solution.lookup_isSome_iff

/-- The row that an answer has for a solution, if it has one, tells what the answer of the query
tells of its assignment. -/
theorem row_eq_shown (q : SelectQuery) (store : Store) {names : List String}
    (same : ∀ found ∈ q.solutions store, found.names = names) {s : Solution}
    (hs : s ∈ q.solutions store) :
    ((q.answerColumns store).mapM fun name => s.lookup name).map (cell? (q.answerColumns store)) =
      q.shown s.assignment := by
  cases all : q.asksAll with
  | true =>
    have columns (name : String) : name ∈ q.answerColumns store ↔ name ∈ s.names := by
      rw [answerColumns, all, if_pos rfl, mem_firsts, List.mem_flatMap]
      constructor
      · rintro ⟨t, ht, there⟩
        rwa [same s hs, ← same t ht]
      · exact fun there => ⟨s, hs, there⟩
    have none : q.projection = [] := List.isEmpty_iff.1 all
    rw [cell?_mapM fun name hn => (columns name).1 hn, shown, none, if_pos (by simp)]
    congr 1
    funext name
    rw [all, Bool.true_or, if_pos rfl]
    split
    · rfl
    · rename_i lacking
      rw [columns, ← assignment_isSome_iff, Option.not_isSome_iff_eq_none] at lacking
      exact lacking.symm
  | false =>
    have columns : q.answerColumns store = q.projection := by
      rw [answerColumns, all, if_neg Bool.false_ne_true]
    rw [columns, shown]
    by_cases bound : ∀ name ∈ q.projection, name ∈ s.names
    · rw [cell?_mapM bound, if_pos fun name hn => assignment_isSome_iff.2 (bound name hn)]
      simp [all]
    · rw [if_neg fun shown => bound fun name hn => assignment_isSome_iff.1 (shown name hn)]
      push Not at bound
      obtain ⟨name, asked, lacking⟩ := bound
      rw [mapM_lookup_eq_none asked lacking, Option.map_none]

/-- The rows of an answer tell, of each assignment that the solutions make, what the query asks for,
as often as it is made. -/
theorem run_assignments (q : SelectQuery) (store : Store) (seconds : Float) (s : Session)
    (unlimited : s.budget = {})
    (named : ∀ p ∈ q.patterns, ∀ name ∈ variablesOf p, isPrivate name = false)
    (once : q.projection.Nodup) (plain : q.PlainColumns) (all : q.distinct = false)
    (unbounded : q.limit = none) :
    ∃ r, (q.run store seconds s).2 = .ok r ∧
      r.assignments = (assignments (q.solutions store)).filterMap q.shown := by
  obtain ⟨⟨names, same⟩, returned⟩ :=
    run_all q store seconds s unlimited named once plain all unbounded
  refine ⟨_, returned, ?_⟩
  rw [QueryResult.assignments, assignments, Multiset.filterMap_coe, List.filterMap_map,
    List.map_filterMap]
  exact congrArg _ (List.filterMap_congr fun s hs => row_eq_shown q store same hs)

theorem plainColumns_perm {q : SelectQuery} {ps : List TriplePattern} (perm : q.patterns.Perm ps)
    (plain : q.PlainColumns) : { q with patterns := ps }.PlainColumns := by
  refine ⟨fun name hn => plain.chosen name ?_, ?_⟩
  · change name ∈ if q.asksAll then ps.flatMap variablesOf else q.projection at hn
    rw [namedColumns]
    split
    · rename_i all
      rw [if_pos all] at hn
      exact (perm.flatMap_right variablesOf).mem_iff.2 hn
    · rename_i some
      rwa [if_neg some] at hn
  · refine (List.Perm.pairwise_iff ?_ perm).1 plain.joined
    intro p p' apart name there here
    exact apart name here there

/-- Patterns in another order give the same rows, each read as what it assigns to the variables and
each as often. -/
theorem run_perm (q : SelectQuery) {ps : List TriplePattern} (store : Store) (seconds : Float)
    (s t : Session) (perm : q.patterns.Perm ps) (unlimited : s.budget = {} ∧ t.budget = {})
    (named : ∀ p ∈ q.patterns, ∀ name ∈ variablesOf p, isPrivate name = false)
    (once : q.projection.Nodup) (all : q.distinct = false) (unbounded : q.limit = none)
    (plain : q.PlainColumns) :
    ∃ r r', (q.run store seconds s).2 = .ok r ∧
      ({ q with patterns := ps }.run store seconds t).2 = .ok r' ∧
      r.assignments = r'.assignments := by
  obtain ⟨r, returned, rows⟩ :=
    run_assignments q store seconds s unlimited.1 named once plain all unbounded
  obtain ⟨r', returned', rows'⟩ :=
    run_assignments { q with patterns := ps } store seconds t unlimited.2
      (fun p hp => named p (perm.mem_iff.2 hp)) once (plainColumns_perm perm plain) all unbounded
  refine ⟨r, r', returned, returned', ?_⟩
  rw [rows, rows', solutions, solutions,
    assignments_nestedLoops_perm q.prefixes store perm [[]]]
  rfl

/-- All who know Ann and are known to her, and which of the two is Ann. -/
def knownToAnn : SelectQuery :=
  { patterns := [⟨.var "x", .iri "e:knows", .var "y"⟩, ⟨.var "y", .iri "e:knows", .var "x"⟩,
      ⟨.var "x", .iri "e:name", .literal ⟨"Ann", none, none⟩⟩]
    prefixes := Table.ofList [("e", "http://e/")] }

/-- The columns stand in another order, and the rows tell the same. -/
theorem run_perm_knownToAnn :
    ∃ r r', (knownToAnn.run acquaintances 0 {}).2 = .ok r ∧
      ({ knownToAnn with patterns := knownToAnn.patterns.rotate 1 }.run acquaintances 0 {}).2 =
        .ok r' ∧ r.assignments = r'.assignments ∧ r.columns = ["x", "y"] ∧
      r'.columns = ["y", "x"] := by
  have columns : (knownToAnn.run acquaintances 0 {}).2.toOption.map QueryResult.columns =
      some ["x", "y"] := by decide +kernel
  have columns' : ({ knownToAnn with patterns := knownToAnn.patterns.rotate 1 }.run
      acquaintances 0 {}).2.toOption.map QueryResult.columns = some ["y", "x"] := by decide +kernel
  have plain : knownToAnn.PlainColumns := ⟨by decide +kernel, by unfold PlainJoins; decide +kernel⟩
  obtain ⟨r, r', returned, returned', same⟩ := run_perm knownToAnn acquaintances 0 {} {}
    (List.rotate_perm knownToAnn.patterns 1).symm ⟨rfl, rfl⟩ (by decide +kernel) (by decide) rfl rfl
    plain
  rw [returned] at columns
  rw [returned'] at columns'
  exact ⟨r, r', returned, returned', same, Option.some.inj columns, Option.some.inj columns'⟩

/-- One order of the patterns ends before they are joined on a star, and the other does not. -/
theorem run_starredJoin_orders :
    (starredJoin.run [Fact.ofTexts "a" "p" "b"] 0 {}).2.toOption.isNone = true ∧
      ({ starredJoin with patterns := starredJoin.patterns.reverse }.run
        [Fact.ofTexts "a" "p" "b"] 0 {}).2.toOption.map QueryResult.rows = some [] := by
  decide +kernel

/-- Without the condition on names a query may return in one order of its patterns and fail in
another. -/
theorem not_run_perm_starredJoin :
    ¬ ∀ (q : SelectQuery) (ps : List TriplePattern) (store : Store) (seconds : Float)
      (s t : Session), q.patterns.Perm ps → s.budget = {} ∧ t.budget = {} →
      (∀ p ∈ q.patterns, ∀ name ∈ variablesOf p, isPrivate name = false) →
      q.projection.Nodup → q.distinct = false → q.limit = none →
      ∃ r r', (q.run store seconds s).2 = .ok r ∧
        ({ q with patterns := ps }.run store seconds t).2 = .ok r' ∧
        r.assignments = r'.assignments := by
  intro claim
  obtain ⟨r, r', returned, -, -⟩ := claim starredJoin starredJoin.patterns.reverse
    [Fact.ofTexts "a" "p" "b"] 0 {} {} (List.reverse_perm _).symm ⟨rfl, rfl⟩ (by decide +kernel)
    (by decide) rfl rfl
  have failed := run_starredJoin_orders.1
  rw [returned] at failed
  cases failed

end SelectQuery

end Ontogram
