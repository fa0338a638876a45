import Ontogram.Expression.Group

set_option autoImplicit false

namespace Ontogram.Expression

/-- Parentheses are balanced. -/
inductive Balanced : List String → Prop where
  | nil : Balanced []
  | token {t : String} {ts : List String} (plain : isParen t = false) (rest : Balanced ts) :
      Balanced (t :: ts)
  | group {ts us : List String} (inner : Balanced ts) (rest : Balanced us) :
      Balanced ("(" :: (ts ++ ")" :: us))

/-- Parentheses are balanced, and a word stands in groups only. -/
inductive Clear (word : String) : List String → Prop where
  | nil : Clear word []
  | token {t : String} {ts : List String} (plain : isParen t = false)
      (other : Text.lower t ≠ word) (rest : Clear word ts) : Clear word (t :: ts)
  | group {ts us : List String} (inner : Balanced ts) (rest : Clear word us) :
      Clear word ("(" :: (ts ++ ")" :: us))

theorem ne_of_plain {t : String} (plain : isParen t = false) : t ≠ "(" ∧ t ≠ ")" := by
  simpa [isParen] using plain

theorem plain_of_ne {t : String} (left : t ≠ "(") (right : t ≠ ")") : isParen t = false := by
  simp [isParen, left, right]

theorem isParen_of_lower {t : String} (plain : isParen (Text.lower t) = false) :
    isParen t = false := by
  refine plain_of_ne ?_ ?_ <;> rintro rfl <;> exact absurd plain (by decide)

theorem closesAtEnd_cons {us : List String} (more : us ≠ []) (depth : Nat) (t : String) :
    closesAtEnd depth (t :: us) =
      if t = "(" then closesAtEnd (depth + 1) us
      else if t = ")" then depth != 1 && closesAtEnd (depth - 1) us
      else closesAtEnd depth us := by
  obtain ⟨v, vs, rfl⟩ := List.exists_cons_of_ne_nil more
  rfl

namespace Balanced

variable {ts us : List String}

theorem append (ht : Balanced ts) (hu : Balanced us) : Balanced (ts ++ us) := by
  induction ht with
  | nil => exact hu
  | token plain _ ih => exact token plain ih
  | group inner _ _ ih =>
    rw [List.cons_append, List.append_assoc, List.cons_append]
    exact group inner ih

theorem parens (ht : Balanced ts) : Balanced ("(" :: (ts ++ [")"])) :=
  group ht nil

theorem dropClosers_append (ht : Balanced ts) (depth : Nat) (us : List String) :
    dropClosers depth (ts ++ us) = ts ++ dropClosers depth us := by
  induction ht generalizing depth us with
  | nil => rfl
  | token plain _ ih =>
    obtain ⟨left, right⟩ := ne_of_plain plain
    rw [List.cons_append, dropClosers, if_neg left, if_neg right, ih, List.cons_append]
  | @group ts rest _ _ ihInner ihRest =>
    have closed : dropClosers (depth + 1) (")" :: (rest ++ us)) =
        ")" :: dropClosers depth (rest ++ us) := by
      simp [dropClosers]
    rw [List.cons_append, List.append_assoc, List.cons_append, dropClosers, if_pos rfl, ihInner,
      closed, ihRest]
    simp

theorem dropOpeners_append (ht : Balanced ts) (us : List String) :
    dropOpeners (ts ++ us) = (ts ++ (dropOpeners us).1, (dropOpeners us).2) := by
  induction ht generalizing us with
  | nil => rfl
  | token plain _ ih =>
    obtain ⟨left, right⟩ := ne_of_plain plain
    rw [List.cons_append, dropOpeners, ih]
    simp [left, right]
  | @group ts rest _ _ ihInner ihRest =>
    have closed : dropOpeners (")" :: (rest ++ us)) =
        (")" :: (rest ++ (dropOpeners us).1), (dropOpeners us).2 + 1) := by
      rw [dropOpeners, ihRest]
      simp
    rw [List.cons_append, List.append_assoc, List.cons_append, dropOpeners, ihInner, closed]
    simp

/-- Nothing is dropped from a balanced list. -/
theorem balance_eq (ht : Balanced ts) : balance ts = ts := by
  have closers := ht.dropClosers_append 0 []
  have openers := ht.dropOpeners_append []
  simp only [List.append_nil, dropClosers, dropOpeners] at closers openers
  rw [balance, closers, openers]

theorem closesAtEnd_append (ht : Balanced ts) (depth : Nat) (more : us ≠ []) :
    closesAtEnd (depth + 1) (ts ++ us) = closesAtEnd (depth + 1) us := by
  induction ht generalizing depth us with
  | nil => rfl
  | @token t ts plain _ ih =>
    obtain ⟨left, right⟩ := ne_of_plain plain
    have tail : ts ++ us ≠ [] := by simp [more]
    rw [List.cons_append, closesAtEnd_cons tail, if_neg left, if_neg right, ih depth more]
  | @group ts rest _ _ ihInner ihRest =>
    have tail : rest ++ us ≠ [] := by simp [more]
    rw [List.cons_append, List.append_assoc, List.cons_append, closesAtEnd_cons (by simp),
      if_pos rfl, ihInner (depth + 1) (by simp), closesAtEnd_cons tail, if_neg (by decide),
      if_pos rfl]
    simp [ihRest depth more]

/-- One pair of parentheses encloses a balanced list. -/
theorem isEnclosed_parens (ht : Balanced ts) : isEnclosed ("(" :: (ts ++ [")"])) = true := by
  have closes : closesAtEnd 1 (ts ++ [")"]) = true := by
    rw [ht.closesAtEnd_append 0 (by simp)]
    rfl
  simp [isEnclosed, closes]

theorem stripOuter_parens (ht : Balanced ts) :
    stripOuter ("(" :: (ts ++ [")"])) = stripOuter ts := by
  rw [stripOuter, if_pos ht.isEnclosed_parens, List.tail_cons, List.dropLast_concat]

/-- What is more than one group is not enclosed. -/
theorem isEnclosed_append (ht : Balanced ts) (first : ts ≠ [])
    (more : us ≠ []) : isEnclosed (ts ++ us) = false := by
  cases ht with
  | nil => contradiction
  | token plain _ =>
    obtain ⟨left, _⟩ := ne_of_plain plain
    simp [isEnclosed, left]
  | @group inner rest hi _ =>
    have tail : rest ++ us ≠ [] := by simp [more]
    have closes : closesAtEnd 1 (inner ++ ")" :: (rest ++ us)) = false := by
      rw [hi.closesAtEnd_append 0 (by simp), closesAtEnd_cons tail]
      simp
    rw [List.cons_append, List.append_assoc, List.cons_append, isEnclosed, closes, Bool.and_false]

end Balanced

theorem stripOuter_eq {ts : List String} (h : isEnclosed ts = false) : stripOuter ts = ts := by
  rw [stripOuter, if_neg (by simp [h])]

namespace Clear

variable {word : String} {ts us : List String}

theorem balanced (ht : Clear word ts) : Balanced ts := by
  induction ht with
  | nil => exact .nil
  | token plain _ _ ih => exact .token plain ih
  | group inner _ ih => exact .group inner ih

theorem append (ht : Clear word ts) (hu : Clear word us) : Clear word (ts ++ us) := by
  induction ht with
  | nil => exact hu
  | token plain other _ ih => exact token plain other ih
  | group inner _ ih =>
    rw [List.cons_append, List.append_assoc, List.cons_append]
    exact group inner ih

theorem parens (ht : Balanced ts) : Clear word ("(" :: (ts ++ [")"])) :=
  group ht nil

end Clear

/-- Tokens put in front of the first part. -/
def prepend (ts : List String) (parts : List (List String)) : List (List String) :=
  ts.foldr consFirst parts

theorem prepend_append (ts us : List String) (parts : List (List String)) :
    prepend (ts ++ us) parts = prepend ts (prepend us parts) :=
  List.foldr_append

theorem prepend_cons (ts p : List String) (ps : List (List String)) :
    prepend ts (p :: ps) = (ts ++ p) :: ps := by
  induction ts with
  | nil => rfl
  | cons t ts ih =>
    change consFirst t (prepend ts (p :: ps)) = _
    rw [ih]
    rfl

/-- No cut is made in a group. -/
theorem Balanced.splitFrom_append {ts : List String} (ht : Balanced ts) (word : String)
    (depth : Nat) (us : List String) :
    splitFrom word (depth + 1) (ts ++ us) = prepend ts (splitFrom word (depth + 1) us) := by
  induction ht generalizing depth us with
  | nil => rfl
  | token plain _ ih =>
    obtain ⟨left, right⟩ := ne_of_plain plain
    rw [List.cons_append, splitFrom, if_neg left, if_neg right, if_neg (by simp), ih]
    rfl
  | @group ts rest _ _ ihInner ihRest =>
    have closed : splitFrom word (depth + 2) (")" :: (rest ++ us)) =
        consFirst ")" (prepend rest (splitFrom word (depth + 1) us)) := by
      rw [splitFrom, if_neg (by decide), if_pos rfl]
      exact congrArg _ (ihRest depth us)
    rw [List.cons_append, List.append_assoc, List.cons_append, splitFrom, if_pos rfl, ihInner,
      closed]
    exact (prepend_append ("(" :: ts) (")" :: rest) _).symm

namespace Clear

variable {word : String} {ts : List String}

/-- No cut is made where the word does not stand outside groups. -/
theorem splitFrom_append (ht : Clear word ts) (us : List String) :
    splitFrom word 0 (ts ++ us) = prepend ts (splitFrom word 0 us) := by
  induction ht generalizing us with
  | nil => rfl
  | token plain other _ ih =>
    obtain ⟨left, right⟩ := ne_of_plain plain
    rw [List.cons_append, splitFrom, if_neg left, if_neg right, if_neg (by simp [other]), ih]
    rfl
  | @group ts rest inner _ ih =>
    have closed : splitFrom word 1 (")" :: (rest ++ us)) =
        consFirst ")" (prepend rest (splitFrom word 0 us)) := by
      rw [splitFrom, if_neg (by decide), if_pos rfl]
      exact congrArg _ (ih us)
    rw [List.cons_append, List.append_assoc, List.cons_append, splitFrom, if_pos rfl,
      inner.splitFrom_append, closed]
    exact (prepend_append ("(" :: ts) (")" :: rest) _).symm

theorem splitTop_eq (ht : Clear word ts) : splitTop word ts = [ts] := by
  have whole := ht.splitFrom_append []
  rw [List.append_nil] at whole
  rw [splitTop, whole, splitFrom, prepend_cons, List.append_nil]

/-- The first part ends where the word stands. -/
theorem splitTop_append (ht : Clear word ts) {w : String} (plain : isParen w = false)
    (same : Text.lower w = word) (us : List String) :
    splitTop word (ts ++ w :: us) = ts :: splitTop word us := by
  obtain ⟨left, right⟩ := ne_of_plain plain
  rw [splitTop, ht.splitFrom_append, splitFrom, if_neg left, if_neg right, if_pos ⟨rfl, same⟩,
    prepend_cons, List.append_nil]
  rfl

end Clear

end Ontogram.Expression
