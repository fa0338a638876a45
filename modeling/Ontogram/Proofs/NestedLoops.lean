import Ontogram.Proofs.Solution

set_option autoImplicit false

namespace Ontogram

namespace Frame

/-- The cells of a frame are the texts of solutions that bind `names`. -/
structure Holds (f : Frame) (names : List String) (ss : List Solution) : Prop where
  columns : f.columns = seedColumn :: names
  rows : f.rows = ss.map fun s => "0" :: s.texts
  bound : ∀ s ∈ ss, s.names = names
  once : names.Nodup
  named : ∀ name ∈ names, isPrivate name = false

theorem holds_seed : Holds seed [] [[]] :=
  ⟨rfl, rfl, by simp, List.nodup_nil, by simp⟩

theorem lookup_zip_map (names : List String) (g : String → String) (name : String) :
    (names.zip (names.map g)).lookup name = if name ∈ names then some (g name) else none := by
  induction names with
  | nil => simp
  | cons first names ih =>
    rw [List.map_cons, List.zip_cons_cons, List.lookup_cons, ih]
    by_cases same : name = first
    · simp [same]
    · have other : (name == first) = false := by simpa using same
      simp [other, same]

theorem cell?_texts {s : Solution} {name : String} (h : name ≠ seedColumn) :
    cell? (seedColumn :: s.names) ("0" :: s.texts) name = s.lookup name := by
  have zipped : s.names.zip s.texts = s := by
    simp only [Solution.names, Solution.texts, List.zip_map', List.map_id']
  rw [cell?, List.zip_cons_cons, zipped, Solution.lookup_cons_of_ne h]

theorem cells_eq_map {columns row chosen : List String} {g : String → String}
    (h : ∀ name ∈ chosen, cell? columns row name = some (g name)) :
    cells columns row chosen = chosen.map g := by
  induction chosen with
  | nil => rfl
  | cons name chosen ih =>
    have rest := ih fun name hn => h name (List.mem_cons_of_mem _ hn)
    unfold cells at rest ⊢
    rw [List.filterMap_cons, h name List.mem_cons_self, rest, List.map_cons]

section Pattern

variable (p : TriplePattern) (f : Fact)

theorem map_fst_bindings : (p.bindings f).map Prod.fst = p.terms.filterMap PatternTerm.name? := by
  cases hs : p.subject.name? <;> cases hp : p.predicate.name? <;> cases ho : p.object.name? <;>
    simp [TriplePattern.bindings, TriplePattern.terms, Fact.texts, hs, hp, ho]

theorem variablesOf_eq : variablesOf p = firsts ((p.bindings f).map Prod.fst) := by
  rw [variablesOf, map_fst_bindings]

/-- The text that a fact gives to a variable of a pattern. -/
def textIn (name : String) : String :=
  ((p.bindings f).lookup name).getD ""

theorem cell?_rowOf (name : String) : cell? (variablesOf p) (rowOf p f) name =
    if name ∈ variablesOf p then some (textIn p f name) else none :=
  lookup_zip_map (variablesOf p) (textIn p f) name

theorem cells_rowOf {chosen : List String} (h : ∀ name ∈ chosen, name ∈ variablesOf p) :
    cells (variablesOf p) (rowOf p f) chosen = chosen.map (textIn p f) := by
  refine cells_eq_map fun name hn => ?_
  rw [cell?_rowOf, if_pos (h name hn)]

theorem lookup_of_mem {bs : List (String × String)} {b : String × String} (h : b ∈ bs) :
    ∃ text, bs.lookup b.1 = some text ∧ (b.1, text) ∈ bs := by
  have there : b.1 ∈ Solution.names bs := List.mem_map_of_mem h
  obtain ⟨text, found⟩ := Option.isSome_iff_exists.1 (Solution.lookup_isSome_iff.2 there)
  obtain ⟨front, back, rfl, _⟩ := List.lookup_eq_some_iff.1 found
  exact ⟨text, found, by simp⟩

/-- Bindings are consistent when no variable is given two texts. -/
theorem consistent_iff (bs : List (String × String)) : TriplePattern.consistent bs = true ↔
    ∀ b ∈ bs, ∀ c ∈ bs, b.1 = c.1 → b.2 = c.2 := by
  simp only [TriplePattern.consistent, List.all_eq_true, beq_iff_eq]
  constructor
  · intro first b hb c hc same
    have := first b hb
    rw [same, first c hc] at this
    exact (Option.some.inj this).symm
  · intro single b hb
    obtain ⟨text, found, there⟩ := lookup_of_mem hb
    rw [found, single b hb _ there rfl]

theorem textIn_of_mem {p : TriplePattern} {f : Fact} {b : String × String}
    (consistent : TriplePattern.consistent (p.bindings f) = true) (hb : b ∈ p.bindings f) :
    textIn p f b.1 = b.2 := by
  have first := List.all_eq_true.1 consistent b hb
  rw [textIn, beq_iff_eq.1 first, Option.getD_some]

theorem accepts_eq (prefixes : Table String) : p.accepts prefixes f =
    (Solution.constantsMeet prefixes p f && TriplePattern.consistent (p.bindings f)) :=
  rfl

/-- The facts that a pattern accepts, with their numbers and the rows that they give. -/
def matchesIn (prefixes : Table String) (store : Store) : Scan :=
  ⟨variablesOf p, (store.zipIdx.filter fun numbered => p.accepts prefixes numbered.1).map
    fun numbered => (numbered.2, rowOf p numbered.1)⟩

variable {p}

theorem scan_eq (prefixes : Table String) (store : Store)
    (named : ∀ name ∈ variablesOf p, isPrivate name = false) :
    scan prefixes store p = .ok (matchesIn p prefixes store) := by
  have free : matchColumn ∉ variablesOf p := by
    intro there
    have := named _ there
    revert this
    decide
  rw [scan]
  simp only [free, if_false, matchesIn]

end Pattern

section Step

variable {a : Frame} {names : List String} {ss : List Solution} {p : TriplePattern}
  (prefixes : Table String) (store : Store)

theorem mem_shared_iff (holds : Holds a names ss)
    (named : ∀ name ∈ variablesOf p, isPrivate name = false) {name : String} :
    name ∈ shared a (matchesIn p prefixes store) ↔ name ∈ variablesOf p ∧ name ∈ names := by
  simp only [shared, matchesIn, List.mem_filter, Bool.and_eq_true, Bool.not_eq_true',
    decide_eq_true_eq, holds.columns, List.mem_cons]
  constructor
  · rintro ⟨there, open_, rfl | bound⟩
    · exact absurd open_ (by decide)
    · exact ⟨there, bound⟩
  · rintro ⟨there, bound⟩
    exact ⟨there, named name there, Or.inr bound⟩

theorem added_eq (holds : Holds a names ss)
    (named : ∀ name ∈ variablesOf p, isPrivate name = false) :
    added a (matchesIn p prefixes store) = (variablesOf p).filter (· ∉ names) := by
  refine List.filter_congr fun name there => ?_
  rw [decide_eq_decide, mem_shared_iff prefixes store holds named]
  constructor
  · intro apart bound
    exact apart ⟨there, bound⟩
  · rintro lacking ⟨_, bound⟩
    exact lacking bound

/-- The row of a fact agrees with that of a solution when the fact gives no variable of the solution
another text. -/
theorem agrees_iff (holds : Holds a names ss)
    (named : ∀ name ∈ variablesOf p, isPrivate name = false) {s : Solution} (hs : s ∈ ss)
    {f : Fact} (consistent : TriplePattern.consistent (p.bindings f) = true) :
    agrees a (matchesIn p prefixes store) (shared a (matchesIn p prefixes store))
      ("0" :: s.texts) (rowOf p f) = true ↔ s.Fits (p.bindings f) := by
  have single := (consistent_iff _).1 consistent
  have bound := holds.bound s hs
  have cells (name : String) (hn : name ∈ shared a (matchesIn p prefixes store)) :
      cell? a.columns ("0" :: s.texts) name = s.lookup name ∧
        cell? (variablesOf p) (rowOf p f) name = some (textIn p f name) := by
    obtain ⟨there, inNames⟩ := (mem_shared_iff prefixes store holds named).1 hn
    have other : name ≠ seedColumn := by
      rintro rfl
      exact absurd (named _ there) (by decide)
    rw [holds.columns, ← bound, cell?_texts other, cell?_rowOf, if_pos there]
    exact ⟨rfl, rfl⟩
  rw [agrees, List.all_eq_true]
  constructor
  · intro same
    refine ⟨?_, single⟩
    intro b hb text found
    have there : b.1 ∈ variablesOf p := by
      rw [variablesOf_eq p f, mem_firsts]
      exact List.mem_map_of_mem hb
    have inNames : b.1 ∈ names := by
      rw [← bound, ← Solution.lookup_isSome_iff, found]
      rfl
    have hn := (mem_shared_iff prefixes store holds named).2
      ⟨there, inNames⟩
    have equal := same _ hn
    rw [(cells _ hn).1, found] at equal
    change (some text == cell? (variablesOf p) (rowOf p f) b.1) = true at equal
    rw [(cells _ hn).2, textIn_of_mem consistent hb] at equal
    simpa using equal
  · intro fits name hn
    obtain ⟨there, inNames⟩ := (mem_shared_iff prefixes store holds named).1 hn
    rw [variablesOf_eq p f, mem_firsts] at there
    obtain ⟨b, hb, rfl⟩ := List.mem_map.1 there
    rw [← bound, ← Solution.lookup_isSome_iff] at inNames
    obtain ⟨text, found⟩ := Option.isSome_iff_exists.1 inNames
    rw [(cells _ hn).1, found]
    change (some text == cell? (variablesOf p) (rowOf p f) b.1) = true
    rw [(cells _ hn).2, textIn_of_mem consistent hb, fits.kept b hb text found]
    simp

/-- The row of a solution that a fact extends. -/
theorem texts_extended (holds : Holds a names ss)
    (named : ∀ name ∈ variablesOf p, isPrivate name = false) {s : Solution} (hs : s ∈ ss)
    (f : Fact) : Solution.texts (s ++ s.gained (p.bindings f)) =
      s.texts ++ cells (variablesOf p) (rowOf p f) (added a (matchesIn p prefixes store)) := by
  have lacking : added a (matchesIn p prefixes store) = s.fresh (p.bindings f) := by
    rw [added_eq prefixes store holds named, variablesOf_eq p f, Solution.fresh, holds.bound s hs]
  have there : ∀ name ∈ s.fresh (p.bindings f), name ∈ variablesOf p := by
    intro name hn
    rw [variablesOf_eq p f]
    exact (List.mem_filter.1 hn).1
  rw [lacking, cells_rowOf p f there]
  simp only [Solution.texts, Solution.gained, List.map_append, List.map_map]
  rfl

theorem filterMap_ite {α β : Type} (keep : α → Bool) (g : α → Option β) (h : α → β)
    {xs : List α} (kept : ∀ x ∈ xs, keep x = true → g x = some (h x))
    (dropped : ∀ x ∈ xs, keep x = false → g x = none) :
    xs.filterMap g = (xs.filter keep).map h := by
  induction xs with
  | nil => rfl
  | cons x xs ih =>
    have rest := ih (fun y hy => kept y (List.mem_cons_of_mem x hy))
      fun y hy => dropped y (List.mem_cons_of_mem x hy)
    cases hx : keep x with
    | true =>
      rw [List.filterMap_cons, kept x List.mem_cons_self hx, rest, List.filter_cons_of_pos hx,
        List.map_cons]
    | false =>
      rw [List.filterMap_cons, dropped x List.mem_cons_self hx, rest,
        List.filter_cons_of_neg (by simp [hx])]

/-- Whether a fact is an instance of a pattern whose row agrees with that of a solution. -/
def joins (a : Frame) (b : Scan) (prefixes : Table String) (p : TriplePattern) (s : Solution)
    (f : Fact) : Bool :=
  p.accepts prefixes f && agrees a b (shared a b) ("0" :: s.texts) (rowOf p f)

theorem filterMap_extend (holds : Holds a names ss)
    (named : ∀ name ∈ variablesOf p, isPrivate name = false) {s : Solution} (hs : s ∈ ss) :
    store.filterMap (s.extend prefixes p) =
      (store.filter (joins a (matchesIn p prefixes store) prefixes p s)).map fun f =>
        s ++ s.gained (p.bindings f) := by
  refine filterMap_ite _ _ _ ?_ ?_
  · intro f _ hf
    obtain ⟨accepted, agree⟩ := Bool.and_eq_true_iff.1 hf
    obtain ⟨constants, consistent⟩ := Bool.and_eq_true_iff.1 (accepts_eq p f prefixes ▸ accepted)
    rw [Solution.extend_eq, if_pos constants]
    exact Solution.assignAll_of_fits ((agrees_iff prefixes store holds named hs consistent).1 agree)
  · intro f _ hf
    rw [Solution.extend_eq]
    split
    · rename_i constants
      refine Solution.assignAll_of_not_fits fun fits => ?_
      have consistent := (consistent_iff _).2 fits.single
      have agree := (agrees_iff prefixes store holds named hs
        consistent).2 fits
      rw [joins, accepts_eq, constants, consistent, agree] at hf
      cases hf
    · rfl

/-- The rows that a join makes of the row of a solution are those of the solutions that the facts
make of it. -/
theorem extensions_eq (holds : Holds a names ss)
    (named : ∀ name ∈ variablesOf p, isPrivate name = false) {s : Solution} (hs : s ∈ ss) :
    ((matchesIn p prefixes store).rows.filter fun found =>
        agrees a (matchesIn p prefixes store) (shared a (matchesIn p prefixes store))
          ("0" :: s.texts) found.2).map (fun found => ("0" :: s.texts) ++
            cells (variablesOf p) found.2 (added a (matchesIn p prefixes store))) =
      (store.filterMap (s.extend prefixes p)).map fun t => "0" :: t.texts := by
  have rows : (matchesIn p prefixes store).rows =
      (store.zipIdx.filter fun numbered => p.accepts prefixes numbered.1).map
        fun numbered => (numbered.2, rowOf p numbered.1) := rfl
  have unnumbered (keep : Fact → Bool) : store.filter keep =
      (store.zipIdx.filter fun numbered => keep numbered.1).map Prod.fst := by
    conv_lhs => rw [← List.zipIdx_map_fst 0 store, List.filter_map]
    rfl
  rw [filterMap_extend prefixes store holds named hs, unnumbered, rows]
  simp only [List.filter_map, List.filter_filter, List.map_map, Function.comp_def]
  refine congrArg₂ List.map ?_ (List.filter_congr fun numbered _ => Bool.and_comm _ _)
  funext numbered
  exact congrArg ("0" :: ·) (texts_extended prefixes store holds named hs numbered.1).symm

/-- The variables that are bound when a pattern has been joined. -/
def namesAfter (names : List String) (p : TriplePattern) : List String :=
  names ++ (variablesOf p).filter (· ∉ names)

theorem mem_namesAfter {name : String} :
    name ∈ namesAfter names p ↔ name ∈ names ∨ name ∈ variablesOf p := by
  by_cases h : name ∈ names <;> simp [namesAfter, h]

theorem nodup_namesAfter (once : names.Nodup) : (namesAfter names p).Nodup := by
  refine List.nodup_append.2 ⟨once, (nodup_firsts _).filter _, ?_⟩
  rintro name bound other hother rfl
  exact absurd bound (by simpa using (List.mem_filter.1 hother).2)

theorem entering_added (holds : Holds a names ss)
    (named : ∀ name ∈ variablesOf p, isPrivate name = false) :
    (added a (matchesIn p prefixes store)).map (entering a) =
      (variablesOf p).filter (· ∉ names) := by
  rw [added_eq prefixes store holds named]
  conv_rhs => rw [← List.map_id ((variablesOf p).filter (· ∉ names))]
  refine List.map_congr_left fun name hn => ?_
  obtain ⟨there, lacking⟩ := List.mem_filter.1 hn
  have free : name ∉ leftColumn :: a.columns := by
    rw [holds.columns, List.mem_cons, List.mem_cons]
    rintro (rfl | rfl | bound)
    · exact absurd (named _ there) (by decide)
    · exact absurd (named _ there) (by decide)
    · exact absurd bound (by simpa using lacking)
  rw [entering, if_neg free, id_eq]

/-- Joining the scan of a pattern to a frame that holds solutions gives one that holds what the
pattern makes of them. -/
theorem join_holds (holds : Holds a names ss)
    (named : ∀ name ∈ variablesOf p, isPrivate name = false)
    (plain : ∀ name ∈ names, name ∈ variablesOf p → Selection.isPattern name = false) :
    ∃ joined, a.join (matchesIn p prefixes store) = .ok joined ∧
      Holds joined (namesAfter names p)
        (ss.flatMap fun s => store.filterMap (s.extend prefixes p)) := by
  have named' (name : String) (hn : name ∈ namesAfter names p) : isPrivate name = false :=
    (mem_namesAfter.1 hn).elim (holds.named name) (named name)
  have columns : a.columns ++ (added a (matchesIn p prefixes store)).map (entering a) =
      seedColumn :: namesAfter names p := by
    rw [entering_added prefixes store holds named, holds.columns, namesAfter, List.cons_append]
  have leftFree : leftColumn ∉ seedColumn :: namesAfter names p := by
    rw [List.mem_cons]
    rintro (h | there)
    · exact absurd h (by decide)
    · exact absurd (named' _ there) (by decide)
  have seedFree : seedColumn ∉ namesAfter names p := fun there =>
    absurd (named' _ there) (by decide)
  have distinct : repeated? (leftColumn :: seedColumn :: namesAfter names p) = none :=
    repeated?_eq_none.2
      (List.nodup_cons.2 ⟨leftFree, List.nodup_cons.2 ⟨seedFree, nodup_namesAfter holds.once⟩⟩)
  have keys : (shared a (matchesIn p prefixes store)).find? Selection.isPattern = none := by
    rw [List.find?_eq_none]
    intro name hn
    obtain ⟨there, bound⟩ := (mem_shared_iff prefixes store holds named).1 hn
    rw [plain name bound there]
    exact Bool.false_ne_true
  have unnumbered : leftColumn ∉ a.columns := by
    rw [holds.columns, List.mem_cons]
    rintro (h | there)
    · exact absurd h (by decide)
    · exact absurd (holds.named _ there) (by decide)
  refine ⟨⟨seedColumn :: namesAfter names p, joinRows a (matchesIn p prefixes store)⟩, ?_, ?_⟩
  · unfold join
    simp only [unnumbered, if_false, keys, columns, distinct]
  · refine ⟨rfl, ?_, ?_, nodup_namesAfter holds.once, named'⟩
    · change joinRows a (matchesIn p prefixes store) = _
      rw [joinRows_eq_flatMap a (scan_ascending (scan_eq prefixes store named)), holds.rows,
        List.flatMap_map, List.map_flatMap]
      exact List.flatMap_congr fun s hs => extensions_eq prefixes store holds named hs
    · intro t ht
      obtain ⟨s, hs, ht⟩ := List.mem_flatMap.1 ht
      rw [filterMap_extend prefixes store holds named hs] at ht
      obtain ⟨f, _, rfl⟩ := List.mem_map.1 ht
      have gained : (s.gained (p.bindings f)).names = s.fresh (p.bindings f) := by
        simp [Solution.names, Solution.gained, Function.comp_def]
      rw [Solution.names_append, gained, Solution.fresh, ← variablesOf_eq p f, holds.bound s hs,
        namesAfter]

end Step

end Frame

theorem nestedLoops_nil (prefixes : Table String) (store : Store) (ps : List TriplePattern) :
    nestedLoops prefixes store ps [] = [] := by
  induction ps with
  | nil => rfl
  | cons p ps ih => exact ih

namespace SelectQuery

open Ontogram.Frame

/-- No variable that two patterns share is named like a pattern of columns. -/
def PlainJoins (ps : List TriplePattern) : Prop :=
  ps.Pairwise fun p p' =>
    ∀ name ∈ variablesOf p, name ∈ variablesOf p' → Selection.isPattern name = false

end SelectQuery

end Ontogram
