import Mathlib.Data.List.Perm.Basic
import Ontogram.Query.Frame

set_option autoImplicit false

namespace Ontogram

namespace Joined

/-- Whether a row stands before another whatever else the join holds. -/
def Before (x y : Joined) : Prop :=
  x.left < y.left ∨ x.left = y.left ∧ x.found < y.found

theorem precedes_iff (x y : Joined) :
    x.precedes y = true ↔ x.left < y.left ∨ x.left = y.left ∧ x.found ≤ y.found := by
  simp [precedes]

theorem precedes_trans (x y z : Joined) (first : x.precedes y = true)
    (second : y.precedes z = true) : x.precedes z = true := by
  rw [precedes_iff] at first second ⊢
  omega

theorem precedes_total (x y : Joined) : (x.precedes y || y.precedes x) = true := by
  rw [Bool.or_eq_true, precedes_iff, precedes_iff]
  omega

theorem precedes_of_before {x y : Joined} (h : x.Before y) : x.precedes y = true := by
  rw [precedes_iff]
  rcases h with h | ⟨same, h⟩
  · exact Or.inl h
  · exact Or.inr ⟨same, Nat.le_of_lt h⟩

theorem ne_of_before {x y : Joined} (h : x.Before y) : ¬ (x.left = y.left ∧ x.found = y.found) := by
  rcases h with h | ⟨_, h⟩ <;> omega

/-- The numbers of a row tell it from all others of a sorted list. -/
theorem eq_of_mem_sorted {js : List Joined} (sorted : js.Pairwise Before) {x y : Joined}
    (hx : x ∈ js) (hy : y ∈ js) (same : x.left = y.left ∧ x.found = y.found) : x = y := by
  let R (x y : Joined) : Prop := x.left = y.left ∧ x.found = y.found → x = y
  have forward : js.Pairwise R := sorted.imp fun h same => absurd same (ne_of_before h)
  have backward : js.Pairwise (flip R) :=
    sorted.imp fun h same => absurd ⟨same.1.symm, same.2.symm⟩ (ne_of_before h)
  exact List.Pairwise.forall_of_forall_of_flip (fun _ _ _ => rfl) forward backward hx hy same

theorem insert_perm (x : Joined) (ys : List Joined) : (insert x ys).Perm (x :: ys) := by
  induction ys with
  | nil => exact List.Perm.refl _
  | cons y ys ih =>
    rw [insert]
    split
    · exact List.Perm.refl _
    · exact (ih.cons y).trans (List.Perm.swap x y ys)

theorem sort_perm (xs : List Joined) : (sort xs).Perm xs := by
  induction xs with
  | nil => exact List.Perm.refl _
  | cons x xs ih => exact (insert_perm x (sort xs)).trans (ih.cons x)

theorem insert_sorted (x : Joined) {ys : List Joined}
    (sorted : ys.Pairwise fun y z => y.precedes z = true) :
    (insert x ys).Pairwise fun y z => y.precedes z = true := by
  induction ys with
  | nil => exact List.pairwise_singleton _ x
  | cons y ys ih =>
    obtain ⟨below, rest⟩ := List.pairwise_cons.1 sorted
    rw [insert]
    split
    · rename_i first
      refine List.pairwise_cons.2 ⟨?_, sorted⟩
      intro z hz
      rcases List.mem_cons.1 hz with rfl | hz
      · exact first
      · exact precedes_trans x y z first (below z hz)
    · rename_i later
      refine List.pairwise_cons.2 ⟨?_, ih rest⟩
      intro z hz
      rcases List.mem_cons.1 ((insert_perm x ys).subset hz) with rfl | hz
      · exact (Bool.or_eq_true_iff.1 (precedes_total z y)).resolve_left later
      · exact below z hz

theorem sort_sorted (xs : List Joined) :
    (sort xs).Pairwise fun x y => x.precedes y = true := by
  induction xs with
  | nil => exact List.Pairwise.nil
  | cons x xs ih => exact insert_sorted x ih

/-- Rows that were found in any order are sorted into the one order that their numbers give. -/
theorem sort_eq {xs ys : List Joined} (sorted : ys.Pairwise Before) (perm : xs.Perm ys) :
    sort xs = ys := by
  have same : (sort xs).Perm ys := (sort_perm xs).trans perm
  refine List.Perm.eq_of_pairwise ?_
    (sort_sorted xs) (sorted.imp precedes_of_before) same
  intro x y hx hy xy yx
  rw [precedes_iff] at xy yx
  exact eq_of_mem_sorted sorted (same.subset hx) hy (by omega)

end Joined

/-- Going through two lists in either nesting finds the same pairs. -/
theorem flatMap_filter_map_perm {α β γ : Type} (xs : List α) (ys : List β) (related : α → β → Bool)
    (f : α → β → γ) :
    (ys.flatMap fun y => (xs.filter fun x => related x y).map fun x => f x y).Perm
      (xs.flatMap fun x => (ys.filter fun y => related x y).map fun y => f x y) := by
  induction xs with
  | nil => simp
  | cons x xs ih =>
    have first : (ys.flatMap fun y => if related x y then [f x y] else []) =
        (ys.filter fun y => related x y).map fun y => f x y := by
      clear ih
      induction ys with
      | nil => rfl
      | cons y ys ih => cases h : related x y <;> simp [h, ih]
    have split : (fun y => ((x :: xs).filter fun x => related x y).map fun x => f x y) =
        fun y => (if related x y then [f x y] else []) ++
          (xs.filter fun x => related x y).map fun x => f x y := by
      funext y
      cases h : related x y <;> simp [h]
    rw [split, List.flatMap_cons, ← first]
    exact (List.flatMap_append_perm ys _ _).symm.trans (List.Perm.append_left _ ih)

namespace Frame

/-- The pairs of rows that agree, solution by solution. -/
def nestedPairs (a : Frame) (b : Scan) : List Joined :=
  a.rows.zipIdx.flatMap fun numbered =>
    (b.rows.filter fun found => agrees a b (shared a b) numbered.1 found.2).map fun found =>
      ⟨numbered.2, found.1, numbered.1 ++ cells b.columns found.2 (added a b)⟩

theorem pairs_perm_nestedPairs (a : Frame) (b : Scan) : (pairs a b).Perm (nestedPairs a b) :=
  flatMap_filter_map_perm a.rows.zipIdx b.rows
    (fun numbered found => agrees a b (shared a b) numbered.1 found.2)
    (fun numbered found => Joined.mk numbered.2 found.1
      (numbered.1 ++ cells b.columns found.2 (added a b)))

theorem zipIdx_ascending {α : Type} (xs : List α) (start : Nat) :
    (xs.zipIdx start).Pairwise fun x y => x.2 < y.2 := by
  induction xs generalizing start with
  | nil => simp
  | cons x xs ih =>
    rw [List.zipIdx_cons, List.pairwise_cons]
    refine ⟨?_, ih (start + 1)⟩
    intro y hy
    have := List.le_snd_of_mem_zipIdx hy
    exact this

theorem nestedPairs_sorted (a : Frame) {b : Scan}
    (ascending : b.rows.Pairwise fun x y => x.1 < y.1) :
    (nestedPairs a b).Pairwise Joined.Before := by
  refine List.pairwise_flatMap.2 ⟨?_, (zipIdx_ascending a.rows 0).imp ?_⟩
  · intro numbered _
    refine List.pairwise_map.2 ((ascending.filter _).imp ?_)
    intro x y h
    exact Or.inr ⟨rfl, h⟩
  · intro m n h x hx y hy
    obtain ⟨_, _, rfl⟩ := List.mem_map.1 hx
    obtain ⟨_, _, rfl⟩ := List.mem_map.1 hy
    exact Or.inl h

/-- The rows of a join, in their order: each row of the frame in turn is extended by the rows of the
scan that agree with it, in turn. -/
theorem joinRows_eq_flatMap (a : Frame) {b : Scan}
    (ascending : b.rows.Pairwise fun x y => x.1 < y.1) :
    joinRows a b = a.rows.flatMap fun row =>
      (b.rows.filter fun found => agrees a b (shared a b) row found.2).map fun found =>
        row ++ cells b.columns found.2 (added a b) := by
  have unnumbered : a.rows = a.rows.zipIdx.map Prod.fst := by simp
  unfold joinRows
  rw [Joined.sort_eq (nestedPairs_sorted a ascending) (pairs_perm_nestedPairs a b)]
  conv_rhs => rw [unnumbered, List.flatMap_map]
  simp only [nestedPairs, List.map_flatMap, List.map_map, Function.comp_def]

theorem scan_ascending {prefixes : Table String} {store : Store} {p : TriplePattern} {b : Scan}
    (h : scan prefixes store p = .ok b) : b.rows.Pairwise fun x y => x.1 < y.1 := by
  unfold scan at h
  simp only at h
  split at h
  · cases h
  · cases h
    exact List.pairwise_map.2 ((zipIdx_ascending store 0).filter _)

end Frame

end Ontogram
