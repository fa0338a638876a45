import Ontogram.Text.Basic

set_option autoImplicit false

namespace Ontogram.Expression

def isParen (token : String) : Bool :=
  token == "(" || token == ")"

/-- The tokens without closing parentheses that close nothing; `depth` groups are open. -/
def dropClosers (depth : Nat) : List String → List String
  | [] => []
  | t :: ts =>
    if t = "(" then t :: dropClosers (depth + 1) ts
    else if t = ")" then
      if depth = 0 then dropClosers 0 ts else t :: dropClosers (depth - 1) ts
    else t :: dropClosers depth ts

/-- The tokens without opening parentheses that are never closed, and the number of closing ones
among them that wait for a partner in front. -/
def dropOpeners : List String → List String × Nat
  | [] => ([], 0)
  | t :: ts =>
    let (kept, waiting) := dropOpeners ts
    if t = "(" then
      if waiting = 0 then (kept, 0) else (t :: kept, waiting - 1)
    else if t = ")" then (t :: kept, waiting + 1)
    else (t :: kept, waiting)

/-- The tokens without parentheses that have no partner. -/
def balance (tokens : List String) : List String :=
  (dropOpeners (dropClosers 0 tokens)).1

/-- A token put in front of the first part. -/
def consFirst (token : String) : List (List String) → List (List String)
  | [] => [[token]]
  | p :: ps => (token :: p) :: ps

/-- The parts of a token list between the occurrences of a keyword outside all groups; `depth`
groups are open. A closing parenthesis too many closes nothing. -/
def splitFrom (keyword : String) (depth : Nat) : List String → List (List String)
  | [] => [[]]
  | t :: ts =>
    if t = "(" then consFirst t (splitFrom keyword (depth + 1) ts)
    else if t = ")" then consFirst t (splitFrom keyword (depth - 1) ts)
    else if depth = 0 ∧ Text.lower t = keyword then [] :: splitFrom keyword 0 ts
    else consFirst t (splitFrom keyword depth ts)

/-- The parts of a token list between the occurrences of a keyword outside all groups. -/
def splitTop (keyword : String) (tokens : List String) : List (List String) :=
  splitFrom keyword 0 tokens

/-- Whether the last token is the first that closes all of `depth` open groups. -/
def closesAtEnd (depth : Nat) : List String → Bool
  | [] => true
  | [_] => true
  | t :: ts =>
    if t = "(" then closesAtEnd (depth + 1) ts
    else if t = ")" then depth != 1 && closesAtEnd (depth - 1) ts
    else closesAtEnd depth ts

/-- Whether one pair of parentheses encloses all tokens. -/
def isEnclosed : List String → Bool
  | [] => false
  | t :: ts => t == "(" && ts.getLast? == some ")" && closesAtEnd 1 ts

/-- The tokens without the parentheses around the whole. -/
def stripOuter (tokens : List String) : List String :=
  if isEnclosed tokens then stripOuter tokens.tail.dropLast else tokens
termination_by tokens.length
decreasing_by
  rename_i h
  cases tokens with
  | nil => simp [isEnclosed] at h
  | cons t ts =>
    simp only [List.tail_cons, List.length_dropLast, List.length_cons]
    omega

theorem length_consFirst (token : String) {parts : List (List String)} (h : parts ≠ []) :
    (consFirst token parts).length = parts.length ∧
      (consFirst token parts).flatten.length = parts.flatten.length + 1 := by
  cases parts with
  | nil => exact absurd rfl h
  | cons p ps => exact ⟨rfl, by simp [consFirst]⟩

theorem consFirst_ne_nil (token : String) (parts : List (List String)) :
    consFirst token parts ≠ [] := by
  cases parts <;> simp [consFirst]

theorem splitFrom_ne_nil (keyword : String) (depth : Nat) (tokens : List String) :
    splitFrom keyword depth tokens ≠ [] := by
  cases tokens with
  | nil => simp [splitFrom]
  | cons t ts =>
    unfold splitFrom
    repeat' split
    all_goals first | exact consFirst_ne_nil _ _ | simp

/-- The parts and the keywords between them make up the whole. -/
theorem length_splitFrom (keyword : String) (depth : Nat) (tokens : List String) :
    (splitFrom keyword depth tokens).flatten.length + (splitFrom keyword depth tokens).length
      = tokens.length + 1 := by
  induction tokens generalizing depth with
  | nil => simp [splitFrom]
  | cons t ts ih =>
    unfold splitFrom
    split
    · have h := length_consFirst t (splitFrom_ne_nil keyword (depth + 1) ts)
      have := ih (depth + 1)
      simp only [h.1, h.2, List.length_cons]
      omega
    · split
      · have h := length_consFirst t (splitFrom_ne_nil keyword (depth - 1) ts)
        have := ih (depth - 1)
        simp only [h.1, h.2, List.length_cons]
        omega
      · split
        · have := ih 0
          simp only [List.flatten_cons, List.length_append, List.length_nil, List.length_cons]
          omega
        · have h := length_consFirst t (splitFrom_ne_nil keyword depth ts)
          have := ih depth
          simp only [h.1, h.2, List.length_cons]
          omega

theorem length_le_of_mem {part : List String} {parts : List (List String)} (h : part ∈ parts) :
    part.length ≤ parts.flatten.length := by
  induction parts with
  | nil => simp at h
  | cons p ps ih =>
    rcases List.mem_cons.1 h with rfl | h
    · simp
    · have := ih h
      rw [List.flatten_cons, List.length_append]
      omega

/-- Of several parts each is shorter than the whole. -/
theorem length_lt_of_mem_splitTop {keyword : String} {tokens part : List String}
    (several : 2 ≤ (splitTop keyword tokens).length) (h : part ∈ splitTop keyword tokens) :
    part.length < tokens.length := by
  have := length_splitFrom keyword 0 tokens
  have := length_le_of_mem h
  unfold splitTop at *
  omega

theorem length_stripOuter_le (tokens : List String) :
    (stripOuter tokens).length ≤ tokens.length := by
  fun_induction stripOuter tokens with
  | case1 tokens _ ih =>
    simp at ih
    omega
  | case2 => exact Nat.le_refl _

end Ontogram.Expression
