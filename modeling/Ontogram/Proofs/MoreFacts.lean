import Mathlib.Data.List.Flatten
import Ontogram.Proofs.Budget

set_option autoImplicit false

namespace Ontogram

section Loops

variable (prefixes : Table String) {store larger : Store} {ss tt : List Solution}

/-- More facts extend more solutions to what was made of them before, and to more. -/
theorem extended_sublist (more : store.Sublist larger) (kept : ss.Sublist tt) (p : TriplePattern) :
    (extended prefixes store p ss).Sublist (extended prefixes larger p tt) := by
  have each : (extended prefixes store p ss).Sublist (extended prefixes larger p ss) :=
    List.Sublist.flatMap_right ss fun s _ => more.filterMap (s.extend prefixes p)
  exact each.trans (kept.flatMap fun s => larger.filterMap (s.extend prefixes p))

/-- More facts and solutions to start from keep all solutions that are found, in their order. -/
theorem nestedLoops_sublist (more : store.Sublist larger) (kept : ss.Sublist tt)
    (ps : List TriplePattern) :
    (nestedLoops prefixes store ps ss).Sublist (nestedLoops prefixes larger ps tt) := by
  induction ps generalizing ss tt with
  | nil => exact kept
  | cons p ps ih => exact ih (extended_sublist prefixes more kept p)

end Loops

namespace SelectQuery

open Ontogram.Frame

/-- More facts keep all rows that are returned for variables that are asked for, in their order. -/
theorem run_sublist (q : SelectQuery) {store larger : Store} (seconds : Float) (s t : Session)
    (more : store.Sublist larger) (unlimited : s.budget = {} ∧ t.budget = {})
    (named : ∀ p ∈ q.patterns, ∀ name ∈ variablesOf p, isPrivate name = false)
    (asked : q.asksAll = false) (once : q.projection.Nodup) (all : q.distinct = false)
    (unbounded : q.limit = none) (plain : q.PlainColumns) :
    ∃ r r', (q.run store seconds s).2 = .ok r ∧ (q.run larger seconds t).2 = .ok r' ∧
      r.columns = q.projection ∧ r'.columns = q.projection ∧ r.rows.Sublist r'.rows := by
  have columns (facts : Store) : q.answerColumns facts = q.projection := by
    rw [answerColumns, asked, if_neg Bool.false_ne_true]
  obtain ⟨-, returned⟩ := run_all q store seconds s unlimited.1 named once plain all unbounded
  obtain ⟨-, returned'⟩ := run_all q larger seconds t unlimited.2 named once plain all unbounded
  rw [columns] at returned returned'
  refine ⟨_, _, returned, returned', rfl, rfl, ?_⟩
  exact (nestedLoops_sublist q.prefixes more (List.Sublist.refl [[]]) q.patterns).filterMap _

/-- Who knows a person by the name of Ann. -/
def acquaintancesOfAnn : SelectQuery :=
  { projection := ["x"]
    patterns := [⟨.var "x", .iri "e:knows", .var "y"⟩,
      ⟨.var "y", .iri "e:name", .literal ⟨"Ann", none, none⟩⟩]
    prefixes := Table.ofList [("e", "http://e/")] }

/-- A fact is added between others, and its row stands between theirs. -/
theorem run_sublist_acquaintancesOfAnn :
    ∃ r r', (acquaintancesOfAnn.run (acquaintances.eraseIdx 2) 0 {}).2 = .ok r ∧
      (acquaintancesOfAnn.run acquaintances 0 {}).2 = .ok r' ∧ r.rows.Sublist r'.rows ∧
      r.rows = [["http://e/b"], ["http://e/b"]] ∧
      r'.rows = [["http://e/b"], ["http://e/a"], ["http://e/b"]] := by
  have few : (acquaintancesOfAnn.run (acquaintances.eraseIdx 2) 0 {}).2.toOption.map
      QueryResult.rows = some [["http://e/b"], ["http://e/b"]] := by decide +kernel
  have many : (acquaintancesOfAnn.run acquaintances 0 {}).2.toOption.map QueryResult.rows =
      some [["http://e/b"], ["http://e/a"], ["http://e/b"]] := by decide +kernel
  have plain : acquaintancesOfAnn.PlainColumns :=
    ⟨by decide +kernel, by unfold PlainJoins; decide +kernel⟩
  obtain ⟨r, r', returned, returned', -, -, kept⟩ := run_sublist acquaintancesOfAnn 0 {} {}
    (List.eraseIdx_sublist acquaintances 2) ⟨rfl, rfl⟩ (by decide +kernel) rfl (by decide) rfl rfl
    plain
  rw [returned] at few
  rw [returned'] at many
  exact ⟨r, r', returned, returned', kept, Option.some.inj few, Option.some.inj many⟩

/-- Without the condition on names a query that returns may fail when facts are added. -/
theorem not_run_sublist_starredJoin :
    ¬ ∀ (q : SelectQuery) (store larger : Store) (seconds : Float) (s t : Session),
      store.Sublist larger → s.budget = {} ∧ t.budget = {} →
      (∀ p ∈ q.patterns, ∀ name ∈ variablesOf p, isPrivate name = false) →
      q.asksAll = false → q.projection.Nodup → q.distinct = false → q.limit = none →
      ∃ r r', (q.run store seconds s).2 = .ok r ∧ (q.run larger seconds t).2 = .ok r' ∧
        r.rows.Sublist r'.rows := by
  intro claim
  obtain ⟨r, r', -, returned', -⟩ := claim starredJoin []
    [Fact.ofTexts "a" "p" "b", Fact.ofTexts "a" "q" "c"] 0 {} {} (List.nil_sublist _) ⟨rfl, rfl⟩
    (by decide +kernel) rfl (by decide) rfl rfl
  have failed : (starredJoin.run [Fact.ofTexts "a" "p" "b", Fact.ofTexts "a" "q" "c"]
      0 {}).2.toOption.isNone := by decide +kernel
  rw [returned'] at failed
  cases failed

end SelectQuery

end Ontogram
