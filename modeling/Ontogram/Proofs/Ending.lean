import Ontogram.Proofs.Answer

set_option autoImplicit false

namespace Ontogram

namespace SelectQuery

open Ontogram.Frame

def finalState : Except QueryError QueryResult → RunState
  | .ok _ => .completed
  | .error (.timeout _) => .timedOut
  | .error (.tooManySolutions _ _) => .exhausted
  | .error _ => .failed

/-- A session is left as the result of its last run wants it. -/
structure Settled (t : Session) (result : Except QueryError QueryResult) : Prop where
  ended : t.stats.ended = true
  terminal : t.stats.state.isTerminal = true
  state : t.stats.state = finalState result
  /-- The error of a run that was not stopped by the budget is noted. -/
  failure : ∀ e, result = .error e → finalState result = .failed →
    t.stats.failure = some e.message

theorem settled_complete (s : Session) (count : Int) (r : QueryResult) :
    Settled (s.complete count) (.ok r) :=
  ⟨rfl, rfl, rfl, by simp⟩

theorem settled_fail {s : Session} {e : QueryError} (other : finalState (.error e) = .failed) :
    Settled (failed s e) (.error e) := by
  have noted : failed s e = s.fail e.message := by
    cases e
    case timeout | tooManySolutions => cases other
    all_goals rfl
  rw [noted]
  refine ⟨rfl, rfl, other.symm, ?_⟩
  rintro _ ⟨⟩ -
  rfl

/-- A check that finds the budget used up settles the session itself. -/
theorem settled_of_check {s t : Session} {seconds : Float} {count : Int} {e : QueryError}
    (h : s.check seconds count = (t, some e)) : Settled (failed t e) (.error e) := by
  unfold Session.check at h
  split at h
  · rename_i timed
    cases h
    unfold Session.checkTimeout at timed
    split at timed
    · cases timed
    split at timed
    · cases timed
    split at timed
    · cases timed
      exact settled_fail rfl
    split at timed
    · cases timed
      exact ⟨rfl, rfl, rfl, by simp [finalState]⟩
    · cases timed
  · unfold Session.checkSolutions at h
    simp only at h
    split at h
    · cases h
    split at h
    · cases h
      exact settled_fail rfl
    split at h
    · cases h
      exact ⟨rfl, rfl, rfl, by simp [finalState]⟩
    · cases h

theorem finalState_of_scan {prefixes : Table String} {store : Store} {p : TriplePattern}
    {e : QueryError} (h : scan prefixes store p = .error e) : finalState (.error e) = .failed := by
  unfold scan at h
  simp only at h
  split at h
  · cases h
    rfl
  · cases h

theorem finalState_of_join {f : Frame} {found : Scan} {e : QueryError}
    (h : f.join found = .error e) : finalState (.error e) = .failed := by
  unfold Frame.join at h
  simp only at h
  split at h
  · cases h
    rfl
  split at h
  · cases h
    rfl
  split at h
  · cases h
    rfl
  · cases h

/-- Whichever step of the patterns fails, the session is settled. -/
theorem settled_of_solveBy {prefixes : Table String} {store : Store} {clock : Nat → Float}
    {ps : List TriplePattern} {f : Frame} {s t : Session} {e : QueryError}
    (h : solveBy prefixes store clock ps f s = (t, .error e)) :
    Settled (failed t e) (.error e) := by
  induction ps generalizing clock f s with
  | nil => cases h
  | cons p ps ih =>
    rw [solveBy] at h
    split at h
    · rename_i scanned
      cases h
      exact settled_fail (finalState_of_scan scanned)
    simp only at h
    split at h
    · rename_i joined
      cases h
      exact settled_fail (finalState_of_join joined)
    split at h
    · rename_i checked
      cases h
      exact settled_of_check checked
    split at h
    · cases h
    · exact ih h

end SelectQuery

namespace Frame

/-- The columns of a frame are distinct, and those that are not private are among some names. -/
structure Sound (f : Frame) (names : List String) : Prop where
  once : f.columns.Nodup
  bound : ∀ c ∈ f.bound, c ∈ names

theorem sound_seed (names : List String) : Sound seed names :=
  ⟨by decide, fun _ there => absurd there List.not_mem_nil⟩

theorem isPrivate_append {c : String} (h : isPrivate c = true) (more : String) :
    isPrivate (c ++ more) = true := by
  simp only [isPrivate, beq_iff_eq, String.toList_append] at h ⊢
  rw [List.head?_append, h, Option.some_or]

/-- A column that enters a join under another name is private, and stays so. -/
theorem entering_eq_self {f : Frame} {found : Scan} {c : String} (added : c ∈ added f found)
    (named : isPrivate (entering f c) = false) : entering f c = c := by
  unfold entering at named ⊢
  split
  · rename_i taken
    rw [if_pos taken] at named
    have open_ : isPrivate c = false := by
      by_contra hidden
      rw [isPrivate_append (by simpa using hidden)] at named
      cases named
    obtain ⟨there, apart⟩ := List.mem_filter.1 added
    rcases List.mem_cons.1 taken with rfl | taken
    · exact absurd open_ (by decide)
    · have both : c ∈ shared f found := List.mem_filter.2 ⟨there, by simp [open_, taken]⟩
      simp [both] at apart
  · rfl

theorem Sound.join {f joined : Frame} {found : Scan} {names : List String} (sound : Sound f names)
    (known : ∀ c ∈ found.columns, c ∈ names) (h : f.join found = .ok joined) :
    Sound joined names := by
  unfold Frame.join at h
  simp only at h
  split at h
  · cases h
  split at h
  · cases h
  split at h
  · cases h
  · rename_i distinct
    cases h
    refine ⟨(List.nodup_cons.1 (repeated?_eq_none.1 distinct)).2, fun c there => ?_⟩
    obtain ⟨there, named⟩ := List.mem_filter.1 there
    have named : isPrivate c = false := by simpa using named
    rcases List.mem_append.1 there with old | new
    · exact sound.bound c (List.mem_filter.2 ⟨old, by simp [named]⟩)
    · obtain ⟨written, added, rfl⟩ := List.mem_map.1 new
      rw [entering_eq_self added named]
      exact known written (List.mem_filter.1 added).1

end Frame

namespace SelectQuery

open Ontogram.Frame

theorem columns_of_scan {prefixes : Table String} {store : Store} {p : TriplePattern} {found : Scan}
    (h : scan prefixes store p = .ok found) : found.columns = variablesOf p := by
  unfold scan at h
  simp only at h
  split at h
  · cases h
  · cases h
    rfl

theorem sound_of_solveBy {prefixes : Table String} {store : Store} {clock : Nat → Float}
    {ps : List TriplePattern} {f solutions : Frame} {s t : Session} {names : List String}
    (sound : Sound f names) (known : ∀ p ∈ ps, ∀ c ∈ variablesOf p, c ∈ names)
    (h : solveBy prefixes store clock ps f s = (t, .ok solutions)) : Sound solutions names := by
  induction ps generalizing clock f s with
  | nil =>
    cases h
    exact sound
  | cons p ps ih =>
    obtain ⟨first, rest⟩ := List.forall_mem_cons.1 known
    rw [solveBy] at h
    split at h
    · cases h
    rename_i scanned
    simp only at h
    split at h
    · cases h
    rename_i joined
    have after := sound.join (columns_of_scan scanned ▸ first) joined
    split at h
    · cases h
    split at h
    · cases h
      exact after
    · exact ih after rest h

/-- What is left of all patterns of a query can be read out. -/
theorem sound_of_solved {prefixes : Table String} {store : Store} {clock : Nat → Float}
    {ps : List TriplePattern} {solutions : Frame} {s t : Session}
    (solved : solveBy prefixes store clock ps seed s = (t, .ok solutions)) :
    Sound solutions (ps.flatMap variablesOf) :=
  sound_of_solveBy (sound_seed _) (fun p hp _ hc => List.mem_flatMap.2 ⟨p, hp, hc⟩) solved

theorem finalState_of_rowsOf {q : SelectQuery} {solutions : Frame} {e : QueryError}
    (h : q.rowsOf solutions = .error e) : finalState (.error e) = .failed := by
  unfold rowsOf at h
  split at h
  · cases h
  split at h
  · cases h
    rfl
  · cases h

/-- The columns of an answer are distinct and no patterns, so its rows can be read out. -/
theorem collect_of_sound {q : SelectQuery} {solutions : Frame}
    (sound : Sound solutions (q.patterns.flatMap variablesOf)) (once : q.projection.Nodup)
    (plain : ∀ name ∈ q.namedColumns, Selection.isPattern name = false)
    (rows : List (List String)) (s : Session) :
    ∃ r, q.collect solutions rows s = (s.complete rows.length, .ok r) := by
  have named : (q.columnsOf solutions).Nodup ∧
      ∀ name ∈ q.columnsOf solutions, name ∈ q.namedColumns := by
    unfold columnsOf namedColumns
    cases q.asksAll with
    | false => exact ⟨once, fun _ => id⟩
    | true =>
      cases solutions.rows.isEmpty with
      | true => exact ⟨List.nodup_nil, by simp⟩
      | false => exact ⟨sound.once.filter _, sound.bound⟩
  have chosen : q.chosenColumns solutions = some (q.columnsOf solutions) :=
    chosenColumns_eq fun name asked => plain name (named.2 name asked)
  unfold collect
  simp only [chosen, repeated?_eq_none.2 named.1]
  exact ⟨_, rfl⟩

/-- Whatever the store, the clock, the budget and the history of a session, a run settles it. -/
theorem settled_runBy {q : SelectQuery} (once : q.projection.Nodup)
    (plain : ∀ name ∈ q.namedColumns, Selection.isPattern name = false) (store : Store)
    (clock : Nat → Float) (s : Session) :
    Settled (q.runBy store clock s).1 (q.runBy store clock s).2 := by
  unfold runBy
  split
  · rename_i stopped
    exact settled_of_solveBy stopped
  · rename_i solved
    split
    · rename_i refused
      exact settled_fail (finalState_of_rowsOf refused)
    · rename_i rows _
      obtain ⟨r, collected⟩ := collect_of_sound (sound_of_solved solved) once plain rows _
      rw [collected]
      exact settled_complete _ _ r

/-- No run of a query, given as such or as a text, is left running. -/
theorem run_settled {q : SelectQuery} (once : q.projection.Nodup)
    (plain : ∀ name ∈ q.namedColumns, Selection.isPattern name = false) (store : Store)
    (s : Session) :
    (∀ clock, Settled (q.runBy store clock s).1 (q.runBy store clock s).2) ∧
      (∀ seconds, Settled (q.run store seconds s).1 (q.run store seconds s).2) ∧
      ∀ surroundings text parsed, Query.parse surroundings text = .ok parsed → parsed.query = q →
        ∀ seconds, Settled (Query.run surroundings store seconds text s).1
          (Query.run surroundings store seconds text s).2 := by
  have still (seconds : Float) : Settled (q.run store seconds s).1 (q.run store seconds s).2 :=
    settled_runBy once plain store _ s
  refine ⟨fun clock => settled_runBy once plain store clock s, still, ?_⟩
  rintro surroundings text parsed read rfl seconds
  rw [Query.run, Query.runBy, read]
  exact still seconds

/-- Two patterns that share a variable, a third one with a private variable, and a limit. -/
def sharedVariable : SelectQuery :=
  { projection := ["x", "y"]
    patterns := [⟨.var "x", .iri "p", .var "o"⟩, ⟨.var "o", .var "q", .var "y"⟩,
      ⟨.var "y", .iri "p", .var "#z"⟩]
    distinct := true, limit := some 10 }

theorem run_settled_sharedVariable :
    sharedVariable.projection.Nodup ∧
      (∀ name ∈ sharedVariable.namedColumns, Selection.isPattern name = false) ∧
      let s : Session := ⟨{ timeout := .scalar (.real 0.5), maxSolutions := .scalar (.int 1) },
        { state := .failed, ended := true, joins := 7 }⟩
      let store := [Fact.ofTexts "a" "p" "b", Fact.ofTexts "b" "p" "a"]
      let clock (i : Nat) : Float := i.toFloat
      Settled (sharedVariable.runBy store clock s).1 (sharedVariable.runBy store clock s).2 := by
  have once : sharedVariable.projection.Nodup := by decide
  have plain : ∀ name ∈ sharedVariable.namedColumns, Selection.isPattern name = false := by
    decide +kernel
  exact ⟨once, plain, (run_settled once plain _ _).1 _⟩

def askedTwice : SelectQuery :=
  { projection := ["x", "x"], patterns := [⟨.var "x", .var "p", .var "o"⟩] }

/-- The run is over, and its session still running. -/
theorem not_settled_askedTwice :
    ¬ Settled (askedTwice.run [Fact.ofTexts "a" "p" "b"] 0 {}).1
      (askedTwice.run [Fact.ofTexts "a" "p" "b"] 0 {}).2 := by
  intro settled
  have running : (askedTwice.run [Fact.ofTexts "a" "p" "b"] 0 {}).1.stats.state = .running := by
    decide +kernel
  have terminal := settled.terminal
  rw [running] at terminal
  cases terminal

end SelectQuery

end Ontogram
