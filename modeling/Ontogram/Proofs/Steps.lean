import Mathlib.Algebra.GroupWithZero.Nat
import Ontogram.Proofs.NestedLoops

set_option autoImplicit false

namespace Ontogram

/-- The number of facts that match a pattern by itself. -/
def matching (prefixes : Table String) (store : Store) (p : TriplePattern) : Nat :=
  store.countP fun f => (Solution.extend prefixes p [] f).isSome

/-- The solutions that one pattern makes of others. -/
def extended (prefixes : Table String) (store : Store) (p : TriplePattern) (ss : List Solution) :
    List Solution :=
  ss.flatMap fun s => store.filterMap (s.extend prefixes p)

/-- Numbers up to the first zero. -/
def throughZero : List Nat → List Nat
  | [] => []
  | n :: ns => if n = 0 then [0] else n :: throughZero ns

/-- The numbers of solutions that the first one, two and more patterns make of others, up to the
first number that is zero. -/
def stepSizes (prefixes : Table String) (store : Store) (ps : List TriplePattern)
    (ss : List Solution) : List Nat :=
  throughZero ((List.range ps.length).map fun i =>
    (nestedLoops prefixes store (ps.take (i + 1)) ss).length)

section Sizes

variable (prefixes : Table String) (store : Store) (p : TriplePattern) (ps : List TriplePattern)
  (ss : List Solution)

theorem nestedLoops_cons : nestedLoops prefixes store (p :: ps) ss =
    nestedLoops prefixes store ps (extended prefixes store p ss) :=
  rfl

theorem stepSizes_cons : stepSizes prefixes store (p :: ps) ss =
    let found := extended prefixes store p ss
    if found = [] then [0] else found.length :: stepSizes prefixes store ps found := by
  rw [stepSizes, List.length_cons, List.range_succ_eq_map, List.map_cons, List.map_map, throughZero]
  simp only [List.length_eq_zero_iff]
  rfl

end Sizes

theorem Frame.length_matchesIn (prefixes : Table String) (store : Store) (p : TriplePattern) :
    (matchesIn p prefixes store).rows.length = matching prefixes store p := by
  have single (f : Fact) : p.accepts prefixes f = (Solution.extend prefixes p [] f).isSome := by
    rw [accepts_eq, Solution.extend_eq]
    cases Solution.constantsMeet prefixes p f with
    | false => rfl
    | true =>
      rw [Bool.true_and, if_pos rfl]
      cases consistent : TriplePattern.consistent (p.bindings f) with
      | true =>
        have fits : Solution.Fits [] (p.bindings f) :=
          ⟨by simp, (consistent_iff _).1 consistent⟩
        rw [Solution.assignAll_of_fits fits]
        rfl
      | false =>
        have repeated : ¬ Solution.Fits [] (p.bindings f) := fun fits => by
          rw [(consistent_iff _).2 fits.single] at consistent
          cases consistent
        rw [Solution.assignAll_of_not_fits repeated]
        rfl
  have unnumbered : store.countP (fun f => p.accepts prefixes f) =
      store.zipIdx.countP fun numbered => p.accepts prefixes numbered.1 := by
    conv_lhs => rw [← List.zipIdx_map_fst 0 store, List.countP_map]
    rfl
  rw [matchesIn, List.length_map, ← List.countP_eq_length_filter, ← unnumbered, matching]
  exact List.countP_congr fun f _ => by rw [single f]

namespace Budget

/-- The budget of a number of solutions; without one there is no limit. -/
def ofSolutions (limit : Option Int) : Budget :=
  { maxSolutions := (limit.map fun m => Value.scalar (.int m)).getD .null }

/-- Whether a number of solutions is over a limit. -/
def exceeds (limit : Option Int) (size : Nat) : Bool :=
  match limit with
  | none => false
  | some m => m < size

end Budget

namespace Session

/-- The session when patterns have been joined: the numbers of facts that matched them are given,
and the numbers of solutions that were left. -/
def counted (s : Session) (scanned sizes : List Nat) : Session :=
  { s with stats := { s.stats with
      patterns := s.stats.patterns + sizes.length
      joins := s.stats.joins + sizes.length
      rowsScanned := s.stats.rowsScanned + scanned.sum
      peak := sizes.foldl (fun (peak : Int) (size : Nat) => max peak size) s.stats.peak } }

/-- What is said of a number of solutions that is over the limit. -/
def complaint (s : Session) (size : Nat) : QueryError :=
  .tooManySolutions size s.budget.maxSolutions.written

section Counts

variable (s : Session)

theorem budget_counted (scanned sizes : List Nat) :
    (s.counted scanned sizes).budget = s.budget :=
  rfl

theorem counted_nil : s.counted [] [] = s := by
  simp [counted]

theorem counted_counted (scanned size : Nat) (more sizes : List Nat) :
    (s.counted [scanned] [size]).counted more sizes =
      s.counted (scanned :: more) (size :: sizes) := by
  have steps (before : Int) : before + ([size] : List Nat).length + sizes.length =
      before + (size :: sizes).length := by
    simp only [List.length_cons, List.length_nil]
    omega
  have facts : s.stats.rowsScanned + ([scanned] : List Nat).sum + more.sum =
      s.stats.rowsScanned + (scanned :: more).sum := by
    simp only [List.sum_cons, List.sum_nil]
    omega
  simp only [counted, steps, facts, List.foldl_cons, List.foldl_nil]

end Counts

variable {s : Session} {limit : Option Int}

/-- What is checked when a pattern has been joined. -/
theorem check_joined (given : s.budget = Budget.ofSolutions limit) (seconds : Float)
    (scanned size : Nat) : (s.recordPattern scanned).recordJoin.check seconds size =
      if Budget.exceeds limit size then
        ((s.counted [scanned] [size]).stop .exhausted, some (s.complaint size))
      else (s.counted [scanned] [size], none) := by
  obtain ⟨budget, stats⟩ := s
  subst given
  cases limit with
  | none => simp [check, checkTimeout, checkSolutions, recordPattern, recordJoin, counted,
      Budget.ofSolutions, Budget.exceeds, Value.null]
  | some m =>
    by_cases exceeded : m < size <;> simp [check, checkTimeout, checkSolutions, recordPattern,
      recordJoin, counted, Budget.ofSolutions, Budget.exceeds, Budget.number?,
      Budget.isBelow, Scalar.int?, stop, complaint, Value.null, exceeded]

end Session

namespace SelectQuery

open Ontogram.Frame

/-- A frame of solutions to which the scans of patterns can be joined. -/
structure Joinable (f : Frame) (names : List String) (ss : List Solution)
    (ps : List TriplePattern) : Prop where
  holds : Holds f names ss
  named : ∀ p ∈ ps, ∀ name ∈ variablesOf p, isPrivate name = false
  plain : ∀ p ∈ ps, ∀ name ∈ names, name ∈ variablesOf p → Selection.isPattern name = false
  joins : PlainJoins ps

section Run

variable (prefixes : Table String) (store : Store) (seconds : Float) {limit : Option Int}
  {p : TriplePattern} {ps : List TriplePattern} {f : Frame} {names : List String}
  {ss : List Solution} {s : Session}

theorem Joinable.join (ready : Joinable f names ss (p :: ps)) :
    ∃ joined, f.join (matchesIn p prefixes store) = .ok joined ∧
      Joinable joined (namesAfter names p) (extended prefixes store p ss) ps := by
  obtain ⟨apart, rest⟩ := List.pairwise_cons.1 ready.joins
  obtain ⟨joined, join, holds⟩ := join_holds prefixes store ready.holds
    (ready.named p List.mem_cons_self) (ready.plain p List.mem_cons_self)
  refine ⟨joined, join, holds, fun p' hp' => ready.named p' (List.mem_cons_of_mem p hp'), ?_, rest⟩
  intro p' hp' name hn there
  rcases mem_namesAfter.1 hn with bound | new
  · exact ready.plain p' (List.mem_cons_of_mem p hp') name bound there
  · exact apart p' hp' name new there

/-- What one step does: it counts the pattern, and stops the run if the limit is passed; else the
run ends without solutions, or goes on with those that are left. -/
theorem solve_cons (ready : Joinable f names ss (p :: ps))
    (given : s.budget = Budget.ofSolutions limit) :
    ∃ joined, Joinable joined (namesAfter names p) (extended prefixes store p ss) ps ∧
      solve prefixes store seconds (p :: ps) f s =
        let found := extended prefixes store p ss
        let t := s.counted [matching prefixes store p] [found.length]
        if Budget.exceeds limit found.length then
          (t.stop .exhausted, .error (s.complaint found.length))
        else if found = [] then (t, .ok joined)
        else solve prefixes store seconds ps joined t := by
  obtain ⟨joined, join, after⟩ := ready.join prefixes store
  refine ⟨joined, after, ?_⟩
  have count : joined.rows.length = (extended prefixes store p ss).length := by
    rw [after.holds.rows, List.length_map]
  have empty : joined.rows.isEmpty = true ↔ extended prefixes store p ss = [] := by
    rw [List.isEmpty_iff_length_eq_zero, count, List.length_eq_zero_iff]
  rw [solve, solveBy, scan_eq prefixes store (ready.named p List.mem_cons_self)]
  simp only [join, length_matchesIn, count, Session.check_joined given]
  by_cases exceeded : Budget.exceeds limit (extended prefixes store p ss).length = true
  · simp only [if_pos exceeded]
  · simp only [if_neg exceeded]
    by_cases none : extended prefixes store p ss = []
    · rw [if_pos (empty.2 none), if_pos none]
    · rw [if_neg (mt empty.1 none), if_neg none]

/-- A run that never passes the limit ends with a frame that holds what nested loops find. -/
theorem solve_within (ready : Joinable f names ss ps)
    (given : s.budget = Budget.ofSolutions limit)
    (within : ∀ size ∈ stepSizes prefixes store ps ss, Budget.exceeds limit size = false) :
    ∃ final names', solve prefixes store seconds ps f s =
        (s.counted ((ps.take (stepSizes prefixes store ps ss).length).map (matching prefixes store))
          (stepSizes prefixes store ps ss), .ok final) ∧
      Holds final names' (nestedLoops prefixes store ps ss) ∧
      (∀ name ∈ names', name ∈ names ∨ ∃ p ∈ ps, name ∈ variablesOf p) ∧
      (nestedLoops prefixes store ps ss ≠ [] →
        (∀ name ∈ names, name ∈ names') ∧ ∀ p ∈ ps, ∀ name ∈ variablesOf p, name ∈ names') := by
  induction ps generalizing f names ss s with
  | nil =>
    refine ⟨f, names, ?_, ready.holds, fun _ => Or.inl, fun _ => ⟨fun _ => id, by simp⟩⟩
    exact congrArg (·, _) s.counted_nil.symm
  | cons p ps ih =>
    obtain ⟨joined, after, step⟩ := solve_cons prefixes store seconds ready given
    have early (name : String) (hn : name ∈ namesAfter names p) :
        name ∈ names ∨ ∃ p' ∈ p :: ps, name ∈ variablesOf p' :=
      (mem_namesAfter.1 hn).imp_right fun there => ⟨p, List.mem_cons_self, there⟩
    rw [stepSizes_cons] at within ⊢
    rw [nestedLoops_cons, step]
    by_cases none : extended prefixes store p ss = []
    · simp only [if_pos none] at within ⊢
      have size : (extended prefixes store p ss).length = 0 := by rw [none]; rfl
      have zero := within 0 (by simp)
      have holds := after.holds
      rw [none] at holds
      rw [size, if_neg (by rw [zero]; exact Bool.false_ne_true), none, nestedLoops_nil]
      exact ⟨joined, namesAfter names p, rfl, holds, early, fun some => absurd rfl some⟩
    · simp only [if_neg none] at within ⊢
      have first := within _ List.mem_cons_self
      rw [if_neg (by rw [first]; exact Bool.false_ne_true)]
      obtain ⟨final, names', run, holds, origin, cover⟩ := ih after
        ((s.budget_counted _ _).trans given) fun size hs =>
          within size (List.mem_cons_of_mem _ hs)
      refine ⟨final, names', ?_, holds, ?_, ?_⟩
      · rw [run, Session.counted_counted, List.length_cons, List.take_succ_cons, List.map_cons]
      · intro name hn
        rcases origin name hn with bound | ⟨p', hp', there⟩
        · exact early name bound
        · exact Or.inr ⟨p', List.mem_cons_of_mem p hp', there⟩
      · intro some
        obtain ⟨bound, new⟩ := cover some
        refine ⟨fun name hn => bound name (mem_namesAfter.2 (Or.inl hn)), ?_⟩
        intro p' hp' name there
        rcases List.mem_cons.1 hp' with rfl | later
        · exact bound name (mem_namesAfter.2 (Or.inr there))
        · exact new p' later name there

/-- A run stops at the first step that passes the limit. -/
theorem solve_over (ready : Joinable f names ss ps)
    (given : s.budget = Budget.ofSolutions limit) {i size : Nat}
    (reached : (stepSizes prefixes store ps ss)[i]? = some size)
    (exceeded : Budget.exceeds limit size = true)
    (within : ∀ earlier ∈ (stepSizes prefixes store ps ss).take i,
      Budget.exceeds limit earlier = false) :
    solve prefixes store seconds ps f s =
      ((s.counted ((ps.take (i + 1)).map (matching prefixes store))
          ((stepSizes prefixes store ps ss).take (i + 1))).stop .exhausted,
        .error (s.complaint size)) := by
  induction ps generalizing f names ss s i with
  | nil => cases reached
  | cons p ps ih =>
    obtain ⟨joined, after, step⟩ := solve_cons prefixes store seconds ready given
    rw [step]
    cases i with
    | zero =>
      obtain ⟨one, count⟩ : (stepSizes prefixes store (p :: ps) ss).take 1 = [size] ∧
          (extended prefixes store p ss).length = size := by
        rw [stepSizes_cons] at reached ⊢
        by_cases none : extended prefixes store p ss = []
        · simp only [if_pos none] at reached ⊢
          cases reached
          exact ⟨rfl, by rw [none, List.length_nil]⟩
        · simp only [if_neg none] at reached ⊢
          cases reached
          exact ⟨rfl, rfl⟩
      rw [one]
      simp only [count, if_pos exceeded]
      rfl
    | succ i =>
      have some : extended prefixes store p ss ≠ [] := by
        intro none
        rw [stepSizes_cons, none] at reached
        cases reached
      rw [stepSizes_cons] at reached within ⊢
      simp only [if_neg some] at reached within ⊢
      have first := within _ List.mem_cons_self
      rw [if_neg (by rw [first]; exact Bool.false_ne_true)]
      have run := ih (s := s.counted [matching prefixes store p]
          [(extended prefixes store p ss).length]) after given reached fun earlier before =>
        within earlier (List.mem_cons_of_mem _ before)
      rw [run, Session.counted_counted, List.take_succ_cons, List.take_succ_cons, List.map_cons]
      rfl

end Run

end SelectQuery

end Ontogram
