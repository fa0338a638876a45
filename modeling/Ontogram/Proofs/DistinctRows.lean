import Ontogram.Proofs.Answer

set_option autoImplicit false

namespace Ontogram.SelectQuery

open Ontogram.Frame

theorem limited_sublist (limit : Int) (rows : List (List String)) :
    (limited limit rows).Sublist rows := by
  unfold limited
  split <;> exact List.take_sublist _ _

theorem sublist_of_rowsOf {q : SelectQuery} {solutions : Frame} {rows : List (List String)}
    (h : q.rowsOf solutions = .ok rows) : rows.Sublist (q.choose solutions) := by
  unfold rowsOf at h
  split at h
  · exact Except.ok.inj h ▸ List.Sublist.refl _
  · rename_i limit _
    split at h
    · cases h
    · exact Except.ok.inj h ▸ limited_sublist limit _

theorem nodup_choose {q : SelectQuery} (distinct : q.distinct = true) {solutions : Frame}
    (some : q.columnsOf solutions ≠ []) : (q.choose solutions).Nodup := by
  have filled : (q.columnsOf solutions).isEmpty = false := List.isEmpty_eq_false_iff.2 some
  unfold choose
  simp only [filled, distinct, Bool.not_false, Bool.and_self, if_true]
  split
  · exact nodup_firsts _
  · exact List.nodup_nil

/-- Without columns there is an empty row for each solution. -/
theorem choose_eq_replicate {q : SelectQuery} {solutions : Frame}
    (none : q.columnsOf solutions = []) :
    q.choose solutions = List.replicate solutions.rows.length [] := by
  have chosen : q.chosenColumns solutions = some [] := by
    rw [chosenColumns, none]
    rfl
  have binds : q.binds solutions = true := by
    rw [binds, none]
    rfl
  have rows : q.choose solutions = solutions.project [] := by
    simp [choose, chosen, none, binds]
  rw [rows, project]
  exact List.map_const'

theorem nodup_rowsOf_iff {q : SelectQuery} (distinct : q.distinct = true) {solutions : Frame}
    {rows : List (List String)} (h : q.rowsOf solutions = .ok rows) :
    rows.Nodup ↔ q.columnsOf solutions ≠ [] ∨ rows.length ≤ 1 := by
  have within := sublist_of_rowsOf h
  by_cases none : q.columnsOf solutions = []
  · rw [choose_eq_replicate none] at within
    obtain ⟨count, -, rfl⟩ := List.sublist_replicate_iff.1 within
    rw [List.nodup_replicate, List.length_replicate]
    exact (or_iff_right (not_not_intro none)).symm
  · exact iff_of_true (within.nodup (nodup_choose distinct none)) (Or.inl none)

/-- The rows of an answer are read out of rows with a cell for each column that the names of its
columns choose. -/
theorem exists_rows_of_run {q : SelectQuery} (distinct : q.distinct = true) {store : Store}
    {seconds : Float} {s t : Session} {r : QueryResult}
    (ran : q.run store seconds s = (t, .ok r)) :
    ∃ there chosen rows, Selection.chosen there r.columns = some chosen ∧ chosen.Nodup ∧
      r.rows = arrange chosen r.columns rows ∧
      (rows.Nodup ↔ r.columns ≠ [] ∨ rows.length ≤ 1) := by
  rw [run_eq] at ran
  split at ran
  · cases ran
  rename_i solutions _
  split at ran
  · cases ran
  rename_i rows known
  unfold collect at ran
  split at ran
  · cases ran
  rename_i chosen choice
  split at ran
  · cases ran
  · rename_i once
    cases ran
    exact ⟨_, chosen, rows, choice, repeated?_eq_none.1 once, rfl,
      nodup_rowsOf_iff distinct known⟩

/-- A limit within the range of limits leaves rows, no more of them than it says. -/
theorem exists_rowsOf {q : SelectQuery}
    (range : ∀ limit, q.limit = some limit → 0 ≤ limit ∧ limit ≤ maxLimit) (solutions : Frame) :
    ∃ rows, q.rowsOf solutions = .ok rows ∧
      (rows.length ≤ 1 ↔ (q.choose solutions).length ≤ 1 ∨ ∃ limit ≤ 1, q.limit = some limit) := by
  unfold rowsOf
  cases given : q.limit with
  | none => exact ⟨_, rfl, by simp⟩
  | some limit =>
    obtain ⟨lower, upper⟩ := range limit given
    refine ⟨_, if_neg (Int.not_lt.2 upper), ?_⟩
    rw [limited_eq lower, List.length_take]
    simp only [Option.some.injEq, exists_eq_right']
    omega

/-- Distinct rows are pairwise different exactly when they have a column or there is one at most,
whatever columns their names choose. Without a budget, and where no name is a pattern of columns, a
query returns its rows. -/
theorem nodup_rows_iff {q : SelectQuery} (distinct : q.distinct = true) (store : Store) :
    (∀ (seconds : Float) (s t : Session) (r : QueryResult), q.run store seconds s = (t, .ok r) →
      ∃ there chosen rows, Selection.chosen there r.columns = some chosen ∧ chosen.Nodup ∧
        r.rows = arrange chosen r.columns rows ∧
        (rows.Nodup ↔ r.columns ≠ [] ∨ rows.length ≤ 1)) ∧
    ∀ (seconds : Float) (s : Session), s.budget = {} →
      (∀ p ∈ q.patterns, ∀ name ∈ variablesOf p, isPrivate name = false) → q.projection.Nodup →
      (∀ limit, q.limit = some limit → 0 ≤ limit ∧ limit ≤ maxLimit) → q.PlainColumns →
      ∃ t r, q.run store seconds s = (t, .ok r) ∧ r.columns = q.answerColumns store ∧
        (r.rows.Nodup ↔ r.columns ≠ [] ∨ (q.solutions store).length ≤ 1 ∨
          ∃ limit ≤ 1, q.limit = some limit) := by
  refine ⟨fun _ _ _ _ ran => exists_rows_of_run distinct ran, ?_⟩
  intro seconds s unlimited named once range plain
  obtain ⟨final, names, t, holds, -, -, returns⟩ :=
    run_of_solutions q store seconds s unlimited named once plain
  obtain ⟨rows, left, single⟩ := exists_rowsOf range final
  refine ⟨_, _, returns rows left, rfl, ?_⟩
  change rows.Nodup ↔ q.answerColumns store ≠ [] ∨ _
  rw [nodup_rowsOf_iff distinct left, single, columnsOf_eq holds]
  by_cases none : q.answerColumns store = []
  · have count : (q.choose final).length = (q.solutions store).length := by
      rw [choose_eq_replicate (columnsOf_eq holds ▸ none), List.length_replicate, holds.rows,
        List.length_map]
    rw [count]
  · exact iff_of_true (Or.inl none) (Or.inl none)

/-- Who is known to whom, each name once. -/
def known : SelectQuery :=
  { projection := ["y"], patterns := [⟨.var "x", .iri "http://e/knows", .var "y"⟩]
    distinct := true, limit := some 3 }

theorem nodup_rows_known : known.distinct = true ∧ ∃ t r,
    known.run acquaintances 0 {} = (t, .ok r) ∧ r.columns = ["y"] ∧ r.rows.Nodup := by
  have named : ∀ p ∈ known.patterns, ∀ name ∈ variablesOf p, isPrivate name = false := by
    decide +kernel
  have range : ∀ limit, known.limit = some limit → 0 ≤ limit ∧ limit ≤ maxLimit := by
    rintro limit ⟨⟩
    decide
  have plain : known.PlainColumns := ⟨by decide +kernel, by unfold PlainJoins; decide +kernel⟩
  have columns : known.answerColumns acquaintances = ["y"] := by decide +kernel
  obtain ⟨t, r, ran, asked, different⟩ :=
    (nodup_rows_iff rfl acquaintances).2 0 {} rfl named (by decide) range plain
  rw [columns] at asked
  exact ⟨rfl, t, r, ran, asked, different.2 (Or.inl (by simp [asked]))⟩

/-- A query without variables returns a row for each of two equal statements. -/
theorem not_nodup_rows_statedTwice :
    ¬ ∀ (q : SelectQuery) (store : Store) (seconds : Float) (s : Session), q.distinct = true →
      s.budget = {} → (∀ p ∈ q.patterns, ∀ name ∈ variablesOf p, isPrivate name = false) →
      q.projection.Nodup → (∀ limit, q.limit = some limit → 0 ≤ limit ∧ limit ≤ maxLimit) →
      ∀ t r, q.run store seconds s = (t, .ok r) → r.rows.Nodup := by
  intro claim
  have rows : (statedTwice.run acquaintances 0 {}).2.toOption.map QueryResult.rows =
      some [[], []] := by decide +kernel
  cases ran : statedTwice.run acquaintances 0 {} with
  | mk t answer =>
    cases answer with
    | error e =>
      rw [ran] at rows
      cases rows
    | ok r =>
      have different := claim statedTwice acquaintances 0 {} rfl rfl (by decide +kernel) (by decide)
        (by rintro limit ⟨⟩) t r ran
      rw [ran] at rows
      rw [Option.some.inj rows] at different
      exact absurd different (by decide)

end Ontogram.SelectQuery
