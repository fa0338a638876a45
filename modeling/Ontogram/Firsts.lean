set_option autoImplicit false

namespace Ontogram

/-- The list with every element appended that is not there yet. -/
def appendNew {α : Type} [DecidableEq α] (seen : List α) : List α → List α
  | [] => seen
  | x :: xs => appendNew (if x ∈ seen then seen else seen ++ [x]) xs

def firsts {α : Type} [DecidableEq α] (xs : List α) : List α :=
  appendNew [] xs

section Firsts

variable {α : Type} [DecidableEq α]

theorem appendNew_append (seen xs ys : List α) :
    appendNew seen (xs ++ ys) = appendNew (appendNew seen xs) ys := by
  induction xs generalizing seen with
  | nil => rfl
  | cons x xs ih => exact ih _

theorem prefix_appendNew (seen xs : List α) : seen <+: appendNew seen xs := by
  induction xs generalizing seen with
  | nil => exact List.prefix_rfl
  | cons x xs ih =>
    refine List.IsPrefix.trans ?_ (ih _)
    split
    · exact List.prefix_rfl
    · exact List.prefix_append seen [x]

theorem mem_appendNew {seen xs : List α} {a : α} :
    a ∈ appendNew seen xs ↔ a ∈ seen ∨ a ∈ xs := by
  induction xs generalizing seen with
  | nil => simp [appendNew]
  | cons x xs ih =>
    rw [appendNew, ih]
    by_cases h : x ∈ seen
    · simp only [h, if_true, List.mem_cons]
      constructor
      · rintro (m | m) <;> simp [m]
      · rintro (m | rfl | m) <;> simp_all
    · simp [h, or_assoc]

theorem nodup_appendNew {seen : List α} (h : seen.Nodup) (xs : List α) :
    (appendNew seen xs).Nodup := by
  induction xs generalizing seen with
  | nil => exact h
  | cons x xs ih =>
    refine ih ?_
    split
    · exact h
    · rename_i hx
      refine List.nodup_append.2 ⟨h, by simp, fun a ha b hb same => hx ?_⟩
      rw [List.mem_singleton.1 hb] at same
      exact same ▸ ha

theorem appendNew_sublist (seen xs : List α) : (appendNew seen xs).Sublist (seen ++ xs) := by
  induction xs generalizing seen with
  | nil => simp [appendNew]
  | cons x xs ih =>
    refine (ih _).trans ?_
    split
    · exact List.Sublist.append_left (List.sublist_cons_self x xs) seen
    · simp

theorem firsts_sublist (xs : List α) : (firsts xs).Sublist xs :=
  appendNew_sublist [] xs

theorem mem_firsts {xs : List α} {a : α} : a ∈ firsts xs ↔ a ∈ xs := by
  simp [firsts, mem_appendNew]

theorem nodup_firsts (xs : List α) : (firsts xs).Nodup :=
  nodup_appendNew List.nodup_nil xs

theorem firsts_prefix_append (xs ys : List α) : firsts xs <+: firsts (xs ++ ys) := by
  rw [firsts, firsts, appendNew_append]
  exact prefix_appendNew _ _

end Firsts

end Ontogram
