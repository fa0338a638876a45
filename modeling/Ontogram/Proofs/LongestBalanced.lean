import Ontogram.Proofs.Balanced
import Ontogram.Proofs.Content

set_option autoImplicit false

namespace Ontogram.Expression

/-- Where `depth` groups are open in front, no front of the tokens closes more than are open. -/
def IsOpened (depth : Nat) (ts : List String) : Prop :=
  ∀ front, front <+: ts → front.count ")" ≤ front.count "(" + depth

/-- No front of the tokens closes more than it opens, and the whole closes what it opens. -/
structure IsMatched (ts : List String) : Prop where
  opened : ∀ front, front <+: ts → front.count ")" ≤ front.count "("
  closed : ts.count ")" = ts.count "("

section Counting

variable {depth : Nat} {ts us : List String} {t : String}

theorem isOpened_nil (depth : Nat) : IsOpened depth [] := by
  intro front h
  rw [List.prefix_nil.1 h]
  exact Nat.zero_le _

theorem isOpened_cons : IsOpened depth (t :: ts) ↔
    ∀ front, front <+: ts → (t :: front).count ")" ≤ (t :: front).count "(" + depth := by
  refine ⟨fun h front hf => h (t :: front) (List.cons_prefix_cons.2 ⟨rfl, hf⟩),
    fun h front hf => ?_⟩
  rcases List.prefix_cons_iff.1 hf with rfl | ⟨behind, rfl, hb⟩
  · exact Nat.zero_le _
  · exact h behind hb

theorem isOpened_opener : IsOpened depth ("(" :: ts) ↔ IsOpened (depth + 1) ts := by
  rw [isOpened_cons]
  refine forall₂_congr fun front _ => ?_
  rw [List.count_cons_of_ne (by decide), List.count_cons_self, Nat.add_right_comm, Nat.add_assoc]

theorem isOpened_closer : IsOpened (depth + 1) (")" :: ts) ↔ IsOpened depth ts := by
  rw [isOpened_cons]
  refine forall₂_congr fun front _ => ?_
  rw [List.count_cons_self, List.count_cons_of_ne (by decide), ← Nat.add_assoc,
    Nat.add_le_add_iff_right]

theorem not_isOpened_closer : ¬ IsOpened 0 (")" :: ts) := fun h => by
  have first := h [")"] (List.cons_prefix_cons.2 ⟨rfl, List.nil_prefix⟩)
  exact absurd first (by decide)

/-- A closing parenthesis needs a group that is open. -/
theorem exists_of_isOpened_closer (h : IsOpened depth (")" :: ts)) :
    ∃ outer, depth = outer + 1 ∧ IsOpened outer ts := by
  cases depth with
  | zero => exact absurd h not_isOpened_closer
  | succ outer => exact ⟨outer, rfl, isOpened_closer.1 h⟩

theorem isOpened_token (plain : isParen t = false) :
    IsOpened depth (t :: ts) ↔ IsOpened depth ts := by
  obtain ⟨left, right⟩ := ne_of_plain plain
  rw [isOpened_cons]
  refine forall₂_congr fun front _ => ?_
  rw [List.count_cons_of_ne right, List.count_cons_of_ne left]

/-! Groups and counts. -/

theorem Balanced.isOpened_append (ht : Balanced ts) (depth : Nat) (us : List String) :
    IsOpened depth (ts ++ us) ↔ IsOpened depth us := by
  induction ht generalizing depth us with
  | nil => rfl
  | token plain _ ih => rw [List.cons_append, isOpened_token plain, ih]
  | group _ _ ihInner ihRest =>
    rw [List.cons_append, List.append_assoc, List.cons_append, isOpened_opener, ihInner,
      isOpened_closer, ihRest]

theorem Balanced.count_eq (ht : Balanced ts) : ts.count ")" = ts.count "(" := by
  induction ht with
  | nil => rfl
  | token plain _ ih =>
    obtain ⟨left, right⟩ := ne_of_plain plain
    rw [List.count_cons_of_ne right, List.count_cons_of_ne left, ih]
  | group _ _ ihInner ihRest =>
    simp only [List.count_cons, List.count_append, ihInner, ihRest]
    rfl

/-- Behind some open groups: for each of them a balanced list up to its closing parenthesis, and a
balanced list behind the last. -/
inductive Closes : Nat → List String → Prop where
  | rest {ts : List String} (balanced : Balanced ts) : Closes 0 ts
  | closer {depth : Nat} {ts us : List String} (balanced : Balanced ts) (behind : Closes depth us) :
      Closes (depth + 1) (ts ++ ")" :: us)

/-- A balanced list in front belongs to the innermost group. -/
theorem Closes.append (ht : Balanced ts) (hu : Closes depth us) : Closes depth (ts ++ us) := by
  cases hu with
  | rest balanced => exact .rest (ht.append balanced)
  | closer balanced behind =>
    rw [← List.append_assoc]
    exact .closer (ht.append balanced) behind

theorem closes_of_isOpened (opened : IsOpened depth ts)
    (closed : ts.count ")" = ts.count "(" + depth) : Closes depth ts := by
  induction ts generalizing depth with
  | nil =>
    obtain rfl : depth = 0 := by simpa using closed.symm
    exact .rest .nil
  | cons t ts ih =>
    by_cases left : t = "("
    · subst left
      rw [List.count_cons_self, List.count_cons_of_ne (by decide)] at closed
      have inner := ih (isOpened_opener.1 opened) (by omega)
      cases inner with
      | closer balanced behind =>
        have group := Closes.append (.group balanced .nil) behind
        rwa [List.cons_append, List.append_assoc] at group
    by_cases right : t = ")"
    · subst right
      obtain ⟨outer, rfl, behind⟩ := exists_of_isOpened_closer opened
      rw [List.count_cons_self, List.count_cons_of_ne (by decide)] at closed
      exact .closer .nil (ih behind (by omega))
    · have plain := plain_of_ne left right
      rw [List.count_cons_of_ne right, List.count_cons_of_ne left] at closed
      exact Closes.append (.token plain .nil) (ih ((isOpened_token plain).1 opened) closed)

theorem IsMatched.isOpened (h : IsMatched ts) : IsOpened 0 ts :=
  h.opened

/-- Groups are balanced exactly if the counts are. -/
theorem balanced_iff_isMatched : Balanced ts ↔ IsMatched ts := by
  refine ⟨fun h => ⟨?_, h.count_eq⟩, fun h => ?_⟩
  · have opened := (h.isOpened_append 0 []).2 (isOpened_nil 0)
    rwa [List.append_nil] at opened
  · cases closes_of_isOpened h.isOpened h.closed with
    | rest balanced => exact balanced

end Counting

/-! What is dropped. -/

theorem filter_dropClosers (depth : Nat) (ts : List String) :
    (dropClosers depth ts).filter (fun t => !isParen t) = ts.filter fun t => !isParen t := by
  fun_induction dropClosers depth ts with
  | case1 => rfl
  | case2 depth ts ih => exact ih
  | case3 ts _ ih => exact ih
  | case4 depth ts _ _ ih => exact ih
  | case5 depth t ts _ _ ih => rw [List.filter_cons, List.filter_cons, ih]

theorem filter_dropOpeners (ts : List String) :
    (dropOpeners ts).1.filter (fun t => !isParen t) = ts.filter fun t => !isParen t := by
  fun_induction dropOpeners ts with
  | case1 => rfl
  | case2 ts kept read ih =>
    rw [read] at ih
    exact ih
  | case3 ts kept waiting read _ ih =>
    rw [read] at ih
    exact ih
  | case4 ts kept waiting read _ ih =>
    rw [read] at ih
    exact ih
  | case5 t ts kept waiting read _ _ ih =>
    rw [read] at ih
    rw [List.filter_cons, List.filter_cons, ih]

/-- Only parentheses are dropped. -/
theorem filter_balance (ts : List String) :
    (balance ts).filter (fun t => !isParen t) = ts.filter fun t => !isParen t :=
  (filter_dropOpeners _).trans (filter_dropClosers 0 ts)

theorem isOpened_dropClosers (depth : Nat) (ts : List String) :
    IsOpened depth (dropClosers depth ts) := by
  fun_induction dropClosers depth ts with
  | case1 depth => exact isOpened_nil depth
  | case2 depth ts ih => exact isOpened_opener.2 ih
  | case3 ts _ ih => exact ih
  | case4 depth ts some _ ih =>
    obtain ⟨outer, rfl⟩ := Nat.exists_eq_succ_of_ne_zero some
    exact isOpened_closer.2 ih
  | case5 depth t ts left right ih => exact (isOpened_token (plain_of_ne left right)).2 ih

/-- Openers are kept just where a closing parenthesis waits for one, so those that still wait are
exactly those which close more than is opened. -/
theorem dropOpeners_spec (ts : List String) :
    IsOpened (dropOpeners ts).2 (dropOpeners ts).1 ∧
      (dropOpeners ts).1.count ")" = (dropOpeners ts).1.count "(" + (dropOpeners ts).2 := by
  fun_induction dropOpeners ts with
  | case1 => exact ⟨isOpened_nil 0, rfl⟩
  | case2 ts kept read ih =>
    rw [read] at ih
    exact ih
  | case3 ts kept waiting read some ih =>
    simp only [read] at ih
    obtain ⟨opened, counts⟩ := ih
    obtain ⟨fewer, rfl⟩ := Nat.exists_eq_succ_of_ne_zero some
    refine ⟨isOpened_opener.2 opened, ?_⟩
    rw [List.count_cons_of_ne (by decide), List.count_cons_self, counts]
    omega
  | case4 ts kept waiting read _ ih =>
    rw [read] at ih
    obtain ⟨opened, counts⟩ := ih
    refine ⟨isOpened_closer.2 opened, ?_⟩
    rw [List.count_cons_self, List.count_cons_of_ne (by decide), counts]
    rfl
  | case5 t ts kept waiting read left right ih =>
    rw [read] at ih
    obtain ⟨opened, counts⟩ := ih
    refine ⟨(isOpened_token (plain_of_ne left right)).2 opened, ?_⟩
    rw [List.count_cons_of_ne right, List.count_cons_of_ne left, counts]

/-- No more closing parentheses wait than there are groups open in front. -/
theorem waiting_le {depth : Nat} {ts : List String} (opened : IsOpened depth ts) :
    (dropOpeners ts).2 ≤ depth := by
  fun_induction dropOpeners ts generalizing depth with
  | case1 => exact Nat.zero_le depth
  | case2 => exact Nat.zero_le depth
  | case3 ts kept waiting read _ ih =>
    have inner := ih (isOpened_opener.1 opened)
    rw [read] at inner
    exact Nat.sub_le_of_le_add inner
  | case4 ts kept waiting read _ ih =>
    obtain ⟨outer, rfl, behind⟩ := exists_of_isOpened_closer opened
    have fewer := ih behind
    rw [read] at fewer
    exact Nat.succ_le_succ fewer
  | case5 t ts kept waiting read left right ih =>
    have same := ih ((isOpened_token (plain_of_ne left right)).1 opened)
    rw [read] at same
    exact same

theorem isMatched_balance (ts : List String) : IsMatched (balance ts) := by
  have none : (dropOpeners (dropClosers 0 ts)).2 = 0 :=
    Nat.le_zero.1 (waiting_le (isOpened_dropClosers 0 ts))
  obtain ⟨opened, counts⟩ := dropOpeners_spec (dropClosers 0 ts)
  rw [none] at opened counts
  exact ⟨opened, counts⟩

theorem count_closer_dropOpeners (ts : List String) :
    (dropOpeners ts).1.count ")" = ts.count ")" := by
  fun_induction dropOpeners ts with
  | case1 => rfl
  | case2 ts kept read ih =>
    rw [read] at ih
    rw [List.count_cons_of_ne (by decide), ih]
  | case3 ts kept waiting read _ ih =>
    rw [read] at ih
    rw [List.count_cons_of_ne (by decide), List.count_cons_of_ne (by decide), ih]
  | case4 ts kept waiting read _ ih =>
    rw [read] at ih
    rw [List.count_cons_self, List.count_cons_self, ih]
  | case5 t ts kept waiting read _ _ ih =>
    rw [read] at ih
    rw [List.count_cons, List.count_cons, ih]

/-! The longest choice. -/

/-- A choice of tokens that never closes more than is open has at most the closing parentheses that
are kept; if `before` groups are open in front of it instead of `depth`, at most that many more. -/
theorem count_closer_le {us ts : List String} (chosen : us.Sublist ts) {before : Nat}
    (opened : IsOpened before us) (depth : Nat) :
    us.count ")" ≤ (dropClosers depth ts).count ")" + (before - depth) := by
  fun_induction dropClosers depth ts generalizing us before with
  | case1 depth =>
    rw [List.sublist_nil.1 chosen]
    exact Nat.zero_le _
  | case2 depth ts ih =>
    rw [List.count_cons_of_ne (by decide)]
    cases chosen with
    | cons _ rest =>
      have kept := ih rest opened
      omega
    | cons_cons _ rest =>
      have kept := ih rest (isOpened_opener.1 opened)
      rw [List.count_cons_of_ne (by decide)]
      omega
  | case3 ts _ ih =>
    cases chosen with
    | cons _ rest => exact ih rest opened
    | cons_cons _ rest =>
      obtain ⟨outer, rfl, behind⟩ := exists_of_isOpened_closer opened
      have kept := ih rest behind
      rw [List.count_cons_self]
      omega
  | case4 depth ts some _ ih =>
    rw [List.count_cons_self]
    cases chosen with
    | cons _ rest =>
      have kept := ih rest opened
      omega
    | cons_cons _ rest =>
      obtain ⟨outer, rfl, behind⟩ := exists_of_isOpened_closer opened
      have kept := ih rest behind
      rw [List.count_cons_self]
      omega
  | case5 depth t ts left right ih =>
    rw [List.count_cons_of_ne right]
    cases chosen with
    | cons _ rest => exact ih rest opened
    | cons_cons _ rest =>
      rw [List.count_cons_of_ne right]
      exact ih rest ((isOpened_token (plain_of_ne left right)).1 opened)

theorem length_eq_counts (ts : List String) :
    ts.length = (ts.filter fun t => !isParen t).length + ts.count "(" + ts.count ")" := by
  induction ts with
  | nil => rfl
  | cons t ts ih =>
    rw [List.length_cons, ih]
    by_cases left : t = "("
    · subst left
      rw [List.filter_cons_of_neg (by decide), List.count_cons_self,
        List.count_cons_of_ne (by decide)]
      omega
    by_cases right : t = ")"
    · subst right
      rw [List.filter_cons_of_neg (by decide), List.count_cons_self,
        List.count_cons_of_ne (by decide)]
      omega
    · have plain := plain_of_ne left right
      rw [List.filter_cons_of_pos (by rw [plain]; rfl), List.length_cons,
        List.count_cons_of_ne left, List.count_cons_of_ne right]
      omega

theorem length_le_balance {us ts : List String} (chosen : us.Sublist ts) (matched : IsMatched us) :
    us.length ≤ (balance ts).length := by
  have plain := (chosen.filter fun t => !isParen t).length_le
  have closers : us.count ")" ≤ (balance ts).count ")" := by
    rw [balance, count_closer_dropOpeners]
    exact count_closer_le chosen matched.isOpened 0
  have counts := (isMatched_balance ts).closed
  rw [length_eq_counts us, length_eq_counts (balance ts), filter_balance, ← matched.closed,
    ← counts]
  omega

/-- Balancing chooses tokens in their order, all that are no parentheses among them, and its choice
is balanced. No choice that is balanced is longer, whatever it leaves out, and a list that is
balanced is not changed. -/
theorem balance_longest (ts : List String) :
    (balance ts).Sublist ts ∧
      (balance ts).filter (fun t => !isParen t) = ts.filter (fun t => !isParen t) ∧
      IsMatched (balance ts) ∧
      (∀ us, us.Sublist ts → IsMatched us → us.length ≤ (balance ts).length) ∧
      (IsMatched ts → balance ts = ts) :=
  ⟨(keepsContent_balance ts).sublist, filter_balance ts, isMatched_balance ts,
    fun _ => length_le_balance, fun matched => (balanced_iff_isMatched.2 matched).balance_eq⟩

/-- Of two groups that want one closing parenthesis, either choice of an opening one is longest. -/
theorem balance_longest_nested :
    let ts := [")", "(", "A", "(", "B", ")"]
    let us := ["(", "A", "B", ")"]
    us.Sublist ts ∧ IsMatched us ∧ us.length ≤ (balance ts).length ∧
      (balance ts).filter (fun t => !isParen t) = ["A", "B"] ∧ IsMatched (balance ts) := by
  intro ts us
  have chosen : us.Sublist ts := by decide
  have matched : IsMatched us :=
    balanced_iff_isMatched.1 (.group (.token rfl (.token rfl .nil)) .nil)
  obtain ⟨-, plain, balanced, longest, -⟩ := balance_longest ts
  exact ⟨chosen, matched, longest us chosen matched, plain, balanced⟩

end Ontogram.Expression
