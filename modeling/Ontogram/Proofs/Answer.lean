import Ontogram.Proofs.Steps

set_option autoImplicit false

namespace Ontogram

theorem firsts_eq_self {α : Type} [DecidableEq α] {xs : List α} (once : xs.Nodup) :
    firsts xs = xs := by
  induction xs with
  | nil => rfl
  | cons x xs ih =>
    obtain ⟨apart, once⟩ := List.nodup_cons.1 once
    rw [firsts_cons, ih once]
    refine congrArg (x :: ·) (List.filter_eq_self.2 fun y hy => ?_)
    have : y ≠ x := by
      rintro rfl
      exact apart hy
    simpa using this

theorem firsts_append_of_subset {α : Type} [DecidableEq α] {xs ys : List α} (once : xs.Nodup)
    (known : ∀ y ∈ ys, y ∈ xs) : firsts (xs ++ ys) = xs := by
  have seen : appendNew [] xs = xs := firsts_eq_self once
  rw [firsts, appendNew_append, seen, appendNew_eq, List.filter_eq_nil_iff.2, List.append_nil]
  intro y hy
  simpa using known y (mem_firsts.1 hy)

namespace Frame

variable {f : Frame} {names : List String} {ss : List Solution}

theorem bound_of_holds (holds : Holds f names ss) : f.bound = names := by
  rw [bound, holds.columns, List.filter_cons_of_neg (by decide)]
  exact List.filter_eq_self.2 fun name hn => by simp [holds.named name hn]

theorem isEmpty_rows_of_holds (holds : Holds f names ss) : f.rows.isEmpty = ss.isEmpty := by
  rw [holds.rows, List.isEmpty_map]

/-- The variables of solutions that all bind the same ones. -/
theorem firsts_names (holds : Holds f names ss) (some : ss ≠ []) :
    firsts (ss.flatMap Solution.names) = names := by
  cases ss with
  | nil => exact absurd rfl some
  | cons s ss =>
    rw [List.flatMap_cons, holds.bound s List.mem_cons_self]
    refine firsts_append_of_subset holds.once fun name hn => ?_
    obtain ⟨t, ht, hn⟩ := List.mem_flatMap.1 hn
    rwa [holds.bound t (List.mem_cons_of_mem s ht)] at hn

/-- The cells of a row in some columns are the texts that its solution gives to them. -/
theorem cells_texts {s : Solution} {columns : List String}
    (known : ∀ name ∈ columns, name ∈ s.names)
    (seedFree : seedColumn ∉ columns) :
    (columns.mapM fun name => s.lookup name) =
      some (cells (seedColumn :: s.names) ("0" :: s.texts) columns) := by
  induction columns with
  | nil => rfl
  | cons name columns ih =>
    have there := known name List.mem_cons_self
    obtain ⟨text, found⟩ := Option.isSome_iff_exists.1 (Solution.lookup_isSome_iff.2 there)
    have other : name ≠ seedColumn := fun same => seedFree (same ▸ List.mem_cons_self)
    have rest := ih (fun name hn => known name (List.mem_cons_of_mem _ hn))
      fun there => seedFree (List.mem_cons_of_mem _ there)
    unfold cells at rest ⊢
    rw [List.mapM_cons, found, rest, List.filterMap_cons, cell?_texts other, found]
    rfl

theorem mapM_lookup_eq_none {s : Solution} {columns : List String} {name : String}
    (asked : name ∈ columns) (lacking : name ∉ s.names) :
    (columns.mapM fun name => s.lookup name) = none := by
  induction columns with
  | nil => cases asked
  | cons first columns ih =>
    rw [List.mapM_cons]
    rcases List.mem_cons.1 asked with rfl | later
    · have missing : s.lookup name = none := by
        rw [← Option.not_isSome_iff_eq_none, Solution.lookup_isSome_iff]
        exact lacking
      rw [missing]
      rfl
    · rw [ih later]
      cases s.lookup first <;> rfl

/-- The rows of a frame in columns that its solutions bind. -/
theorem project_of_holds (holds : Holds f names ss) {columns : List String}
    (known : ∀ name ∈ columns, name ∈ names) :
    f.project columns = ss.filterMap fun s => columns.mapM fun name => s.lookup name := by
  have seedFree : seedColumn ∉ columns := fun there =>
    absurd (holds.named _ (known _ there)) (by decide)
  rw [project, holds.rows, holds.columns, List.map_map]
  have bound := holds.bound
  clear holds
  induction ss with
  | nil => rfl
  | cons s ss ih =>
    have same := bound s List.mem_cons_self
    rw [List.filterMap_cons, cells_texts (by rwa [same]) seedFree, List.map_cons,
      ih fun t ht => bound t (List.mem_cons_of_mem s ht), same]
    rfl

end Frame

namespace SelectQuery

open Ontogram.Frame

/-- The variables that may become columns of an answer. -/
def namedColumns (q : SelectQuery) : List String :=
  if q.asksAll then q.patterns.flatMap variablesOf else q.projection

/-- No column of an answer and none on which patterns are joined is named like a pattern of
columns. -/
structure PlainColumns (q : SelectQuery) : Prop where
  chosen : ∀ name ∈ q.namedColumns, Selection.isPattern name = false
  joined : PlainJoins q.patterns

section Read

variable {q : SelectQuery} {store : Store} {f : Frame} {names : List String}

theorem columnsOf_eq (holds : Holds f names (q.solutions store)) :
    q.columnsOf f = q.answerColumns store := by
  rw [columnsOf, answerColumns, isEmpty_rows_of_holds holds, bound_of_holds holds]
  cases none : q.solutions store with
  | nil => rfl
  | cons s ss =>
    rw [none] at holds
    rw [firsts_names holds (List.cons_ne_nil s ss)]
    rfl

theorem mem_namedColumns (holds : Holds f names (q.solutions store))
    (origin : ∀ name ∈ names, ∃ p ∈ q.patterns, name ∈ variablesOf p) {name : String}
    (asked : name ∈ q.columnsOf f) : name ∈ q.namedColumns := by
  rw [columnsOf] at asked
  rw [namedColumns]
  split at asked
  · rename_i all
    rw [if_pos all]
    split at asked
    · cases asked
    · rw [bound_of_holds holds] at asked
      exact List.mem_flatMap.2 (origin name asked)
  · rename_i some
    rwa [if_neg some]

theorem nodup_columnsOf (once : q.projection.Nodup) (holds : Holds f names (q.solutions store)) :
    (q.columnsOf f).Nodup := by
  rw [columnsOf, bound_of_holds holds]
  split
  · split
    · exact List.nodup_nil
    · exact holds.once
  · exact once

theorem chosenColumns_eq (plain : ∀ name ∈ q.columnsOf f, Selection.isPattern name = false) :
    q.chosenColumns f = some (q.columnsOf f) :=
  Selection.chosen_eq_self plain _

/-- The rows that are chosen are those of the solutions that bind all columns. -/
theorem choose_eq (holds : Holds f names (q.solutions store))
    (chosen : q.chosenColumns f = some (q.columnsOf f))
    (some : q.distinct = true → q.solutions store ≠ [] → q.columnsOf f ≠ []) :
    q.choose f =
      let rows := (q.solutions store).filterMap fun s =>
        (q.answerColumns store).mapM fun name => s.lookup name
      if q.distinct then firsts rows else rows := by
  rw [choose, chosen, Option.getD_some]
  have complete : ((q.columnsOf f).isEmpty || !(q.columnsOf f).isEmpty) = true := by
    cases (q.columnsOf f).isEmpty <;> rfl
  simp only [complete, Bool.and_true]
  rw [← columnsOf_eq holds]
  by_cases known : ∀ name ∈ q.columnsOf f, name ∈ names
  · have binds : q.binds f = true := by
      rw [binds, List.all_eq_true, bound_of_holds holds]
      simpa using known
    rw [if_pos binds, project_of_holds holds known]
    cases distinct : q.distinct with
    | false => simp
    | true =>
      by_cases none : q.solutions store = []
      · simp [none, firsts, appendNew]
      · have : (q.columnsOf f).isEmpty = false := by
          rw [List.isEmpty_eq_false_iff]
          exact some distinct none
        simp [this]
  · push Not at known
    obtain ⟨name, asked, lacking⟩ := known
    have binds : q.binds f = false := by
      rw [binds, List.all_eq_false]
      exact ⟨name, asked, by simpa [bound_of_holds holds] using lacking⟩
    have dropped : ((q.solutions store).filterMap fun s =>
        (q.columnsOf f).mapM fun name => s.lookup name) = [] := by
      rw [List.filterMap_eq_nil_iff]
      intro s hs
      exact mapM_lookup_eq_none asked (by rwa [holds.bound s hs])
    rw [dropped]
    simp [binds, firsts, appendNew]

/-- Reading rows out of a frame that holds the solutions ends the run. -/
theorem collect_of_holds (holds : Holds f names (q.solutions store))
    (origin : ∀ name ∈ names, ∃ p ∈ q.patterns, name ∈ variablesOf p) (once : q.projection.Nodup)
    (plain : q.PlainColumns) (rows : List (List String)) (s : Session) :
    q.collect f rows s = (s.complete rows.length, .ok ⟨q.answerColumns store, rows, none⟩) := by
  have chosen : q.chosenColumns f = some (q.columnsOf f) :=
    chosenColumns_eq fun name asked => plain.chosen name (mem_namedColumns holds origin asked)
  have distinctColumns : repeated? (q.columnsOf f) = none :=
    repeated?_eq_none.2 (nodup_columnsOf once holds)
  have present : (q.columnsOf f).find? (· ∉ q.columnsOf f) = none := by
    rw [List.find?_eq_none]
    intro name hn
    simpa using hn
  simp only [collect, chosen, distinctColumns, present, ite_self, arrange, if_true]
  rw [columnsOf_eq holds]

end Read

theorem limited_eq {limit : Int} (h : 0 ≤ limit) (rows : List (List String)) :
    limited limit rows = rows.take limit.toNat := by
  rw [limited, if_neg (by omega)]

/-- Without a budget a run returns the rows that are left of a frame which holds the solutions. -/
theorem run_of_solutions (q : SelectQuery) (store : Store) (seconds : Float) (s : Session)
    (unlimited : s.budget = {})
    (named : ∀ p ∈ q.patterns, ∀ name ∈ variablesOf p, isPrivate name = false)
    (once : q.projection.Nodup) (plain : q.PlainColumns) :
    ∃ final names t, Holds final names (q.solutions store) ∧
      q.chosenColumns final = some (q.columnsOf final) ∧
      (q.solutions store ≠ [] → ∀ p ∈ q.patterns, ∀ name ∈ variablesOf p, name ∈ names) ∧
      ∀ rows, q.rowsOf final = .ok rows → q.run store seconds s =
        (Session.complete t rows.length, .ok ⟨q.answerColumns store, rows, none⟩) := by
  obtain ⟨final, names, solved, holds, origin, cover⟩ :=
    solve_within q.prefixes store seconds ⟨holds_seed, named, by simp, plain.joined⟩
      (show s.start.budget = Budget.ofSolutions none from unlimited) fun _ _ => rfl
  change Holds final names (q.solutions store) at holds
  have origin' (name : String) (hn : name ∈ names) : ∃ p ∈ q.patterns, name ∈ variablesOf p :=
    (origin name hn).resolve_left (by simp)
  have chosen : q.chosenColumns final = some (q.columnsOf final) :=
    chosenColumns_eq fun name asked => plain.chosen name (mem_namedColumns holds origin' asked)
  generalize Session.counted _ _ _ = t at solved
  refine ⟨final, names, t, holds, chosen, fun found => (cover found).2, fun rows left => ?_⟩
  rw [run_eq, solved]
  simp only [left]
  exact collect_of_holds holds origin' once plain rows _

/-- Without a budget, a limit and dropped rows a run returns a row for each solution that binds all
columns, and all solutions bind the same variables. -/
theorem run_all (q : SelectQuery) (store : Store) (seconds : Float) (s : Session)
    (unlimited : s.budget = {})
    (named : ∀ p ∈ q.patterns, ∀ name ∈ variablesOf p, isPrivate name = false)
    (once : q.projection.Nodup) (plain : q.PlainColumns) (all : q.distinct = false)
    (unbounded : q.limit = none) :
    (∃ names, ∀ found ∈ q.solutions store, found.names = names) ∧
      (q.run store seconds s).2 = .ok ⟨q.answerColumns store,
        (q.solutions store).filterMap fun found =>
          (q.answerColumns store).mapM fun name => found.lookup name, none⟩ := by
  obtain ⟨final, names, t, holds, chosen, -, returns⟩ :=
    run_of_solutions q store seconds s unlimited named once plain
  have kept : q.distinct = true → q.solutions store ≠ [] → q.columnsOf final ≠ [] := by
    rw [all]
    rintro ⟨⟩
  have rows := choose_eq holds chosen kept
  rw [all, if_neg Bool.false_ne_true] at rows
  refine ⟨⟨names, holds.bound⟩, ?_⟩
  rw [returns _ (by rw [rowsOf, unbounded, rows])]

/-- A run without a budget gives the answer that nested loops give. Names of columns must not be
patterns of columns, and equal rows must have columns to be told apart by. -/
theorem run_eq_answer (q : SelectQuery) (store : Store) (seconds : Float) (s : Session)
    (unlimited : s.budget = {})
    (named : ∀ p ∈ q.patterns, ∀ name ∈ variablesOf p, isPrivate name = false)
    (once : q.projection.Nodup)
    (range : ∀ limit, q.limit = some limit → 0 ≤ limit ∧ limit ≤ maxLimit)
    (plain : q.PlainColumns)
    (someColumn : q.distinct = true → q.namedColumns ≠ []) :
    ∃ t, q.run store seconds s =
      (t, .ok ⟨q.answerColumns store, q.answerRows store, none⟩) := by
  obtain ⟨final, names, t, holds, chosen, cover, returns⟩ :=
    run_of_solutions q store seconds s unlimited named once plain
  have some (distinct : q.distinct = true) (found : q.solutions store ≠ []) :
      q.columnsOf final ≠ [] := by
    have named := someColumn distinct
    rw [namedColumns] at named
    rw [columnsOf, isEmpty_rows_of_holds holds, bound_of_holds holds]
    split
    · rename_i all
      rw [if_pos all] at named
      obtain ⟨name, hn⟩ := List.exists_mem_of_ne_nil _ named
      obtain ⟨p, hp, there⟩ := List.mem_flatMap.1 hn
      have bound := cover found p hp name there
      rw [List.isEmpty_eq_false_iff.2 found]
      exact List.ne_nil_of_mem bound
    · rename_i some
      rwa [if_neg some] at named
  have rows : q.rowsOf final = .ok (q.answerRows store) := by
    rw [rowsOf, choose_eq holds chosen some, answerRows]
    cases given : q.limit with
    | none => rfl
    | some limit =>
      obtain ⟨lower, upper⟩ := range limit given
      simp only [if_neg (Int.not_lt.2 upper), limited_eq lower]
  exact ⟨t.complete (q.answerRows store).length, returns _ rows⟩

/-- Who knows whom, one statement twice, and a name. -/
def acquaintances : Store :=
  [Fact.ofTexts "http://e/a" "http://e/knows" "http://e/b",
    Fact.ofTexts "http://e/b" "http://e/knows" "http://e/a",
    Fact.ofTexts "http://e/a" "http://e/knows" "http://e/a",
    Fact.ofTexts "http://e/b" "http://e/knows" "http://e/a",
    Fact.ofTexts "http://e/a" "http://e/name" "\"Ann\"@en"]

/-- Who knows Ann and is known to her. -/
def friendsOfAnn : SelectQuery :=
  { projection := ["y"]
    patterns := [⟨.var "x", .iri "e:knows", .var "y"⟩, ⟨.var "y", .iri "e:knows", .var "x"⟩,
      ⟨.var "x", .iri "e:name", .literal ⟨"Ann", none, none⟩⟩]
    prefixes := Table.ofList [("e", "http://e/")]
    distinct := true
    limit := some 5 }

theorem run_friendsOfAnn : ∃ t, friendsOfAnn.run acquaintances 0 {} =
    (t, .ok ⟨["y"], [["http://e/b"], ["http://e/a"]], none⟩) := by
  have columns : friendsOfAnn.answerColumns acquaintances = ["y"] := by decide +kernel
  have rows : friendsOfAnn.answerRows acquaintances = [["http://e/b"], ["http://e/a"]] := by
    decide +kernel
  have plain : friendsOfAnn.PlainColumns :=
    ⟨by decide +kernel, by unfold PlainJoins; decide +kernel⟩
  have range : ∀ limit, friendsOfAnn.limit = some limit → 0 ≤ limit ∧ limit ≤ maxLimit := by
    rintro limit ⟨⟩
    decide
  have answer := run_eq_answer friendsOfAnn acquaintances 0 {} rfl (by decide +kernel) (by decide)
    range plain (by decide +kernel)
  rwa [columns, rows] at answer

/-- A query whose only variable is named like a pattern of columns. -/
def markedName : SelectQuery :=
  { projection := ["^o$"], patterns := [⟨.var "^o$", .iri "http://e/name", .var "n"⟩] }

/-- Without the condition on names, a run may lose all rows of the answer. -/
theorem run_ne_answer_markedName :
    ¬ ∀ (q : SelectQuery) (store : Store) (seconds : Float) (s : Session), s.budget = {} →
      (∀ p ∈ q.patterns, ∀ name ∈ variablesOf p, isPrivate name = false) → q.projection.Nodup →
      (∀ limit, q.limit = some limit → 0 ≤ limit ∧ limit ≤ maxLimit) →
      ∃ t, q.run store seconds s =
        (t, .ok ⟨q.answerColumns store, q.answerRows store, none⟩) := by
  intro claim
  obtain ⟨t, answer⟩ := claim markedName acquaintances 0 {} rfl (by decide +kernel) (by decide)
    (by rintro limit ⟨⟩)
  have run : (markedName.run acquaintances 0 {}).2.toOption.map QueryResult.rows = some [] := by
    decide +kernel
  have rows : markedName.answerRows acquaintances = [["http://e/a"]] := by decide +kernel
  rw [answer, rows] at run
  simp [Except.toOption] at run

/-- A query without variables that meets one statement twice. -/
def statedTwice : SelectQuery :=
  { patterns := [⟨.iri "http://e/b", .iri "http://e/knows", .iri "http://e/a"⟩], distinct := true }

/-- Without a column to tell them apart by, equal rows are all kept. -/
theorem run_ne_answer_statedTwice :
    (statedTwice.run acquaintances 0 {}).2.toOption.map QueryResult.rows = some [[], []] ∧
      statedTwice.answerRows acquaintances = [[]] := by
  decide +kernel

end SelectQuery

end Ontogram
