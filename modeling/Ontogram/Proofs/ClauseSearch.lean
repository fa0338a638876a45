import Ontogram.Proofs.PatternBlock

set_option autoImplicit false

namespace Ontogram.Query

open Text

section

variable {α : Type} {reader : Option Char → List Char → Option (α × List Char)}

theorem getLast?_cons_or (c : Char) (cs : List Char) (before : Option Char) :
    (c :: cs).getLast?.or before = cs.getLast?.or (some c) := by
  rw [List.getLast?_cons, Option.some_or, Option.or_some]

/-- The search goes on behind a text in which no place can be read. -/
theorem find?_append {front rest : List Char}
    (fails : ∀ back, back ≠ [] → back <:+ front → ∀ before, reader before (back ++ rest) = none)
    (before : Option Char) :
    find? reader before (front ++ rest) = find? reader (front.getLast?.or before) rest := by
  induction front generalizing before with
  | nil => rfl
  | cons c front ih =>
    have here : reader before (c :: (front ++ rest)) = none :=
      fails (c :: front) (List.cons_ne_nil c front) List.suffix_rfl before
    have tail := ih (fun back hb suffix => fails back hb (suffix.trans (List.suffix_cons c front)))
      (some c)
    rw [List.cons_append, find?, here, Option.none_or, tail, getLast?_cons_or]

/-- Where a text is read as without what stands behind it, the search finds a clause in it or goes
on behind it. -/
theorem find?_append_or {front rest : List Char}
    (ends : ∀ back, back ≠ [] → back <:+ front → ∀ before, reader before (back ++ rest) =
      (reader before back).map fun found => (found.1, found.2 ++ rest))
    (before : Option Char) :
    find? reader before (front ++ rest) =
      ((find? reader before front).map fun found => (found.1, found.2 ++ rest)).or
        (find? reader (front.getLast?.or before) rest) := by
  induction front generalizing before with
  | nil => rfl
  | cons c front ih =>
    have here := ends (c :: front) (List.cons_ne_nil c front) List.suffix_rfl before
    have tail := ih (fun back hb suffix => ends back hb (suffix.trans (List.suffix_cons c front)))
      (some c)
    rw [List.cons_append] at here ⊢
    rw [find?, find?, here, tail, getLast?_cons_or]
    cases reader before (c :: front) <;> rfl

theorem find?_eq_none {cs : List Char}
    (fails : ∀ back, back ≠ [] → back <:+ cs → ∀ before, reader before back = none)
    (before : Option Char) : find? reader before cs = none := by
  have skip : find? reader before (cs ++ []) = find? reader (cs.getLast?.or before) [] := by
    apply find?_append
    intro back nonempty suffix before
    rw [List.append_nil]
    exact fails back nonempty suffix before
  rw [List.append_nil] at skip
  rw [skip]
  rfl

theorem find?_eq_some {c : Char} {cs : List Char} {before : Option Char} {found : α × List Char}
    (h : reader before (c :: cs) = some found) : find? reader before (c :: cs) = some found := by
  rw [find?, h, Option.some_or]

/-- What is found is read somewhere in the text. -/
theorem exists_of_find? {before : Option Char} {cs : List Char} {found : α × List Char}
    (h : find? reader before cs = some found) :
    ∃ place back, back <:+ cs ∧ reader place back = some found := by
  induction cs generalizing before with
  | nil => cases h
  | cons c cs ih =>
    rw [find?] at h
    rcases Option.or_eq_some_iff.1 h with here | ⟨-, behind⟩
    · exact ⟨before, c :: cs, List.suffix_rfl, here⟩
    · obtain ⟨place, back, suffix, read⟩ := ih behind
      exact ⟨place, back, suffix.trans (List.suffix_cons c cs), read⟩

theorem clauseIn?_eq_some {cs rest : List Char} {a : α} (tab : '\t' ∉ cs)
    (h : find? reader none cs = some (a, rest)) (suffix : rest <:+ cs) :
    clauseIn? reader cs = some (a, rest) := by
  obtain ⟨front, rfl⟩ := suffix
  have length : (front ++ rest).length - rest.length = front.length := by
    rw [List.length_append]
    omega
  simp only [clauseIn?, expandTabs_eq_self tab, h, Option.map_some, length, List.drop_left]

theorem clauseIn?_eq_none {cs : List Char} (tab : '\t' ∉ cs) (h : find? reader none cs = none) :
    clauseIn? reader cs = none := by
  simp only [clauseIn?, expandTabs_eq_self tab, h, Option.map_none]

end

/-! Keywords. -/

theorem exists_front_of_keyword? {word : String} {before : Option Char} {cs rest : List Char}
    (h : keyword? word before cs = some rest) :
    ∃ front, cs = front ++ rest ∧ front.map upperChar = word.toList := by
  unfold keyword? at h
  simp only at h
  split at h
  · rename_i conditions
    obtain rfl := Option.some.inj h
    simp only [Bool.and_eq_true, beq_iff_eq] at conditions
    exact ⟨cs.take word.length, (List.take_append_drop _ cs).symm, conditions.1.2⟩
  · contradiction

theorem upperChar_eq {c : Char} (h : c.isAlpha = true) : upperChar c = c.toUpper := by
  have dotless : c ≠ '\u0131' := ne_of_class h (by decide)
  have long : c ≠ '\u017f' := ne_of_class h (by decide)
  rw [upperChar, if_neg dotless, if_neg long]

theorem keyword?_append {item rest : List Char} {word : String} {before : Option Char}
    (h : Spells item word) (letters : word.toList.all Char.isAlpha = true)
    (clear : before.any touchesKeyword = false)
    (apart : ∀ c ∈ rest.head?, touchesKeyword c = false) :
    keyword? word before (item ++ rest) = some rest := by
  have upper : item.map upperChar = word.toList := by
    rw [← h]
    exact List.map_congr_left fun c hc => upperChar_eq (h.isAlpha letters c hc)
  have behind : rest.head?.any touchesKeyword = false := by
    cases rest with
    | nil => rfl
    | cons c rest => exact apart c rfl
  have front : (item ++ rest).take word.length = item := by
    rw [← h.length_eq, List.take_left]
  have back : (item ++ rest).drop word.length = rest := by
    rw [← h.length_eq, List.drop_left]
  simp [keyword?, front, back, upper, clear, behind]

theorem keyword?_eq_none {word : String} {c d : Char} {ds : List Char} (h : word.toList = d :: ds)
    (apart : upperChar c ≠ d) (before : Option Char) (cs : List Char) :
    keyword? word before (c :: cs) = none := by
  cases found : keyword? word before (c :: cs) with
  | none => rfl
  | some rest =>
    obtain ⟨front, text, upper⟩ := exists_front_of_keyword? found
    rw [h] at upper
    cases front with
    | nil => contradiction
    | cons e front =>
      have first : c = e := (List.cons.inj text).1
      have same : upperChar e = d := (List.cons.inj upper).1
      rw [first] at apart
      exact absurd same apart

/-- The characters that stand in no keyword, in no gap and in no name of a declaration. -/
def barriers : List Char :=
  ['<', '>', '"', '?', '.', '\x7b', '\x7d']

/-- A character over which no keyword, gap or name reaches. -/
def isBarrier (c : Char) : Bool :=
  barriers.contains c

theorem isBarrier_eq_false_of_class {p : Char → Bool}
    (apart : (barriers.all fun c => !p c) = true) {c : Char} (h : p c = true) :
    isBarrier c = false := by
  cases barred : isBarrier c with
  | false => rfl
  | true =>
    rw [eq_false_of_mem apart (List.contains_iff_mem.1 barred)] at h
    contradiction

/-- No barrier stands in a keyword. -/
theorem exists_open_of_keyword? {word : String} {before : Option Char} {cs rest : List Char}
    (h : keyword? word before cs = some rest) (letters : word.toList.all Char.isAlpha = true) :
    ∃ front, cs = front ++ rest ∧ ∀ c ∈ front, isBarrier c = false := by
  obtain ⟨front, text, upper⟩ := exists_front_of_keyword? h
  refine ⟨front, text, fun c hc => isBarrier_eq_false_of_class (p := fun c => (upperChar c).isAlpha)
    (by decide) (List.all_eq_true.1 letters _ ?_)⟩
  rw [← upper]
  exact List.mem_map_of_mem hc

/-- No barrier stands in a gap. -/
theorem exists_open_append_skipGap (cs : List Char) :
    ∃ gap, cs = gap ++ skipGap cs ∧ ∀ c ∈ gap, isBarrier c = false :=
  ⟨cs.takeWhile isGap, List.takeWhile_append_dropWhile.symm, fun _ hc =>
    isBarrier_eq_false_of_class (by decide) (List.mem_takeWhile_imp hc)⟩

/-- A keyword is no brace, so what follows it is where an item may end. -/
theorem Spells.ends {item rest : List Char} {word : String} (h : Spells item word)
    (long : word.length ≠ 1) {stop : Char → Bool}
    (apart : item = ['\x7b'] ∨ item = ['\x7d'] ∨ Ends stop rest) : Ends stop rest := by
  have length := h.length_eq
  rcases apart with rfl | rfl | ends
  · exact absurd length.symm long
  · exact absurd length.symm long
  · exact ends

/-! Gaps between the parts of a clause. -/

theorem Blank.isGap {gap : List Char} (h : Blank gap) : ∀ c ∈ gap, isGap c = true := by
  intro c hc
  rcases h c hc with rfl | rfl <;> decide

theorem skipGap_append {gap rest : List Char} (blank : Blank gap)
    (solid : ∀ c ∈ rest.head?, isGap c = false) : skipGap (gap ++ rest) = rest := by
  have cut := span_append_of_all blank.isGap solid
  exact (Prod.mk.inj cut).2

theorem isGap_eq_false_of_isSymbolChar {c : Char} (h : isSymbolChar c = true) :
    isGap c = false := by
  have apart (d : Char) (hd : isSymbolChar d = false) : c ≠ d := ne_of_class h hd
  simp [isGap, apart ' ' (by decide), apart '\t' (by decide), apart '\n' (by decide),
    apart '\r' (by decide)]

theorem IsItem.exists_cons {item : List Char} (h : IsItem item) :
    ∃ c cs, item = c :: cs ∧ isGap c = false := by
  cases h with
  | symbols nonempty chars =>
    obtain ⟨c, cs, rfl⟩ := List.exists_cons_of_ne_nil nonempty
    exact ⟨c, cs, rfl, isGap_eq_false_of_isSymbolChar (chars c List.mem_cons_self)⟩
  | @bracket iri _ => exact ⟨'<', iri ++ ['>'], rfl, by decide⟩
  | @literal text mark _ _ _ _ => exact ⟨'"', text ++ '"' :: mark, rfl, by decide⟩

namespace LaidOut

variable {last : List Char → Prop} {stop : Char → Bool} {item cs : List Char}
  {items : List (List Char)}

/-- Behind its gap a layout starts with its first item. -/
theorem exists_skipGap (h : LaidOut Blank last stop (item :: items) cs) (solid : IsItem item) :
    ∃ rest, skipGap cs = item ++ rest ∧ skipGap cs <:+ cs ∧
      (item = ['\x7b'] ∨ item = ['\x7d'] ∨ Ends stop rest) ∧
      LaidOut Blank last stop items rest := by
  cases h with
  | @cons _ gap rest _ blank apart others =>
    have start : ∀ c ∈ (item ++ rest).head?, isGap c = false := by
      obtain ⟨c, front, rfl, first⟩ := solid.exists_cons
      exact forall_head?_cons first (front ++ rest)
    have skipped : skipGap (gap ++ (item ++ rest)) = item ++ rest := skipGap_append blank start
    exact ⟨rest, skipped, List.dropWhile_suffix isGap, apart, others⟩

/-- The layout without its first gap. -/
theorem skipGap (h : LaidOut Blank last stop (item :: items) cs) (solid : IsItem item) :
    LaidOut Blank last stop (item :: items) (Query.skipGap cs) := by
  obtain ⟨rest, skipped, _, apart, others⟩ := h.exists_skipGap solid
  have none : Blank [] := nofun
  rw [skipped]
  exact .cons none apart others

/-- What holds of blanks and of the characters of each item holds of the whole layout. -/
theorem forall_mem {p : Char → Prop} (h : LaidOut Blank Blank stop items cs)
    (blanks : p ' ' ∧ p '\n') (each : ∀ item ∈ items, ∀ c ∈ item, p c) : ∀ c ∈ cs, p c := by
  have space {gap : List Char} (blank : Blank gap) : ∀ c ∈ gap, p c := by
    intro c hc
    rcases blank c hc with rfl | rfl
    · exact blanks.1
    · exact blanks.2
  induction h with
  | nil blank => exact space blank
  | @cons item _ _ _ blank _ _ ih =>
    have tail := ih fun other ho => each other (List.mem_cons_of_mem item ho)
    simp only [List.forall_mem_append]
    exact ⟨space blank, each item List.mem_cons_self, tail⟩

end LaidOut

theorem IsItem.tab_notMem {item : List Char} (h : IsItem item) : '\t' ∉ item := by
  cases h with
  | symbols _ chars =>
    intro m
    exact absurd (chars '\t' m) (by decide)
  | bracket chars => exact notMem_of_all (all_isTermChar_bracket chars) (by decide)
  | @literal text mark _ _ chars marked =>
    have inside : '\t' ∉ text := notMem_of_all chars (by decide)
    have behind : '\t' ∉ mark := notMem_of_all marked.all_isTermChar (by decide)
    simp [inside, behind]

theorem LaidOut.tab_notMem {items : List (List Char)} {cs : List Char} {stop : Char → Bool}
    (h : LaidOut Blank Blank stop items cs) (each : ∀ item ∈ items, IsItem item) : '\t' ∉ cs := by
  have apart := h.forall_mem (p := fun c => c ≠ '\t') ⟨by decide, by decide⟩
    fun item hi c hc same => (each item hi).tab_notMem (same ▸ hc)
  exact fun m => apart '\t' m rfl

end Ontogram.Query
