import Ontogram.Proofs.Ascii
import Ontogram.Turtle

set_option autoImplicit false

namespace Ontogram.Turtle

/-- A letter of ASCII or an underscore, followed by letters, digits, underscores and hyphens. -/
def IsLocalName : List Char → Prop
  | [] => False
  | c :: rest => (c.isAlpha = true ∨ c = '_') ∧ rest.all isNameChar = true

/-- The prefix of an entry shortens an IRI to a name. -/
structure Shortens (iri : String) (entry : String × String) (name : String) : Prop where
  filled : entry.2 ≠ ""
  whole : entry.2 ++ name = iri
  plain : IsLocalName name.toList

/-- The namespace of an entry leaves a name of an IRI. -/
def Fits (iri : String) (entry : String × String) : Prop :=
  ∃ name, Shortens iri entry name

/-- The first of the entries with the longest namespaces that fit: fitting namespaces before it are
shorter, and those behind it are no longer. -/
def IsBest (iri : String) (entries : List (String × String)) (best : String × String) : Prop :=
  Fits iri best ∧ ∃ before after, entries = before ++ best :: after ∧
    (∀ entry ∈ before, Fits iri entry → entry.2.length < best.2.length) ∧
    ∀ entry ∈ after, Fits iri entry → entry.2.length ≤ best.2.length

theorem IsLocalName.all {cs : List Char} (plain : IsLocalName cs) :
    cs.all isNameChar = true := by
  cases cs with
  | nil => rfl
  | cons c rest =>
    obtain ⟨first, chars⟩ := plain
    rw [List.all_cons, chars, Bool.and_true]
    rcases first with letter | rfl
    · simp [isNameChar, Char.isAlphanum, letter]
    · decide

theorem IsLocalName.ne_nil {cs : List Char} (plain : IsLocalName cs) : cs ≠ [] := by
  rintro rfl
  exact plain

/-- The line feed that is overlooked at the end of a plain name is not there. -/
theorem isPlainName_iff {cs : List Char} (line : '\n' ∉ cs) :
    isPlainName cs = true ↔ IsLocalName cs := by
  rw [isPlainName, Text.dropFinalNewline_eq_self line]
  cases cs with
  | nil => simp [IsLocalName]
  | cons c rest => simp [IsLocalName]

theorem localName?_eq_some_iff {space iri : String} {rest : List Char} :
    localName? space iri = some rest ↔
      space ≠ "" ∧ space.toList ++ rest = iri.toList ∧ isPlainName rest = true := by
  constructor
  · intro found
    refine ⟨fun empty => ?_, localName?_eq_some found⟩
    simp [localName?, empty] at found
  · rintro ⟨filled, whole, plain⟩
    have front : space.toList.isPrefixOf iri.toList = true :=
      List.isPrefixOf_iff_prefix.2 ⟨rest, whole⟩
    have left : iri.toList.drop space.length = rest := by
      rw [← whole, ← String.length_toList, List.drop_left]
    rw [localName?, if_pos (by simp [filled, front]), left]
    exact if_pos plain

theorem Shortens.toList_whole {iri name : String} {entry : String × String}
    (short : Shortens iri entry name) : entry.2.toList ++ name.toList = iri.toList := by
  rw [← String.toList_append, short.whole]

/-- An entry leaves one name only. -/
theorem Shortens.drop_eq {iri name : String} {entry : String × String}
    (short : Shortens iri entry name) :
    String.ofList (iri.toList.drop entry.2.length) = name := by
  rw [← short.toList_whole, ← String.length_toList, List.drop_left, String.ofList_toList]

/-- The texts of the two ways to write an IRI differ in their last character. -/
theorem prefixed_ne_bracketed {name : String} (plain : IsLocalName name.toList)
    (label iri : String) : label ++ ":" ++ name ≠ "<" ++ iri ++ ">" := by
  intro same
  have behind : name.toList <:+ (label ++ ":" ++ name).toList := by
    rw [String.toList_append]
    exact List.suffix_append _ _
  have last : ['>'] <:+ (label ++ ":" ++ name).toList := by
    rw [same, String.toList_append]
    exact List.suffix_append _ _
  have bracket : ['>'] <:+ name.toList :=
    List.suffix_of_suffix_length_le last behind (List.length_pos_iff.2 plain.ne_nil)
  exact Text.notMem_of_all plain.all (by decide) (bracket.mem List.mem_cons_self)

section Line

variable {iri : String} (line : '\n' ∉ iri.toList)
include line

theorem exists_localName?_iff {entry : String × String} :
    (∃ rest, localName? entry.2 iri = some rest) ↔ Fits iri entry := by
  constructor
  · rintro ⟨rest, found⟩
    obtain ⟨filled, whole, plain⟩ := localName?_eq_some_iff.1 found
    have inside : '\n' ∉ rest := fun mem => line (whole ▸ List.mem_append_right _ mem)
    refine ⟨String.ofList rest, filled, ?_, ?_⟩
    · rw [← String.toList_inj, String.toList_append, String.toList_ofList, whole]
    · rw [String.toList_ofList]
      exact (isPlainName_iff inside).1 plain
  · rintro ⟨name, short⟩
    have whole := short.toList_whole
    have inside : '\n' ∉ name.toList := Text.notMem_of_all short.plain.all (by decide)
    have plain : isPlainName name.toList = true := (isPlainName_iff inside).2 short.plain
    exact ⟨_, localName?_eq_some_iff.2 ⟨short.filled, whole, plain⟩⟩

theorem localName?_eq_none_iff {entry : String × String} :
    localName? entry.2 iri = none ↔ ¬ Fits iri entry := by
  rw [← exists_localName?_iff line, Option.eq_none_iff_forall_ne_some, not_exists]

end Line

namespace IsBest

variable {iri : String} {entries : List (String × String)} {best : String × String}

theorem length_le (h : IsBest iri entries best) {entry : String × String} (mem : entry ∈ entries)
    (fits : Fits iri entry) : entry.2.length ≤ best.2.length := by
  obtain ⟨-, before, after, rfl, shorter, longest⟩ := h
  rcases List.mem_append.1 mem with mem | mem
  · exact Nat.le_of_lt (shorter entry mem fits)
  · rcases List.mem_cons.1 mem with rfl | mem
    · exact Nat.le_refl _
    · exact longest entry mem fits

theorem mem (h : IsBest iri entries best) : best ∈ entries := by
  obtain ⟨-, before, after, rfl, -, -⟩ := h
  exact List.mem_append_right before List.mem_cons_self

/-- An entry in front of the others is the best if no namespace that fits is longer. -/
theorem head {first : String × String} (fits : Fits iri first)
    (longest : ∀ entry ∈ entries, Fits iri entry → entry.2.length ≤ first.2.length) :
    IsBest iri (first :: entries) first :=
  ⟨fits, [], entries, rfl, fun _ none => absurd none List.not_mem_nil, longest⟩

/-- The best of the others stays the best behind an entry that does not fit or is shorter. -/
theorem cons (h : IsBest iri entries best) {first : String × String}
    (shorter : Fits iri first → first.2.length < best.2.length) :
    IsBest iri (first :: entries) best := by
  obtain ⟨fits, before, after, rfl, earlier, longest⟩ := h
  exact ⟨fits, first :: before, after, rfl, List.forall_mem_cons.2 ⟨shorter, earlier⟩, longest⟩

end IsBest

/-- What a search through a table comes to: an entry that is the best, or none if none fits. -/
def IsSearched (iri : String) (entries : List (String × String)) :
    Option (String × String) → Prop
  | none => ∀ entry ∈ entries, ¬ Fits iri entry
  | some best => IsBest iri entries best

theorem IsSearched.skip {iri : String} {entries : List (String × String)}
    {found : Option (String × String)} (h : IsSearched iri entries found)
    {first : String × String} (apart : ¬ Fits iri first) :
    IsSearched iri (first :: entries) found := by
  cases found with
  | none => exact List.forall_mem_cons.2 ⟨apart, h⟩
  | some best => exact IsBest.cons h fun fits => absurd fits apart

section Line

variable {iri : String} (line : '\n' ∉ iri.toList)
include line

theorem isSearched_best (entries : List (String × String)) :
    IsSearched iri entries <| bestEntry? iri entries := by
  fun_induction bestEntry? iri entries with
  | case1 => exact fun _ none => absurd none List.not_mem_nil
  | case2 label space rest left ih =>
    exact ih.skip ((localName?_eq_none_iff line).1 left)
  | case3 label space rest name others left ih =>
    have fits : Fits iri (label, space) := (exists_localName?_iff line).1 ⟨name, left⟩
    rw [others] at ih
    exact IsBest.head fits fun entry mem found => absurd found (ih entry mem)
  | case4 label space rest name label' space' best left longer ih =>
    rw [best] at ih
    exact IsBest.cons ih fun _ => longer
  | case5 label space rest name label' space' best left longest ih =>
    have fits : Fits iri (label, space) := (exists_localName?_iff line).1 ⟨name, left⟩
    rw [best] at ih
    exact IsBest.head fits fun entry mem found =>
      Nat.le_trans (IsBest.length_le ih mem found) (Nat.le_of_not_lt longest)

variable {prefixes : Table String}

theorem formatIri_bracketed (apart : ∀ entry ∈ prefixes.entries, ¬ Fits iri entry) :
    formatIri prefixes iri = "<" ++ iri ++ ">" := by
  have searched := isSearched_best line prefixes.entries
  rw [formatIri]
  cases found : bestEntry? iri prefixes.entries with
  | none => rfl
  | some best =>
    rw [found] at searched
    exact absurd searched.1 (apart best searched.mem)

theorem exists_formatIri (fitting : ∃ entry ∈ prefixes.entries, Fits iri entry) :
    ∃ best name, IsBest iri prefixes.entries best ∧ Shortens iri best name ∧
      formatIri prefixes iri = best.1 ++ ":" ++ name := by
  have searched := isSearched_best line prefixes.entries
  rw [formatIri]
  cases found : bestEntry? iri prefixes.entries with
  | none =>
    obtain ⟨entry, mem, fits⟩ := fitting
    rw [found] at searched
    exact absurd fits (searched entry mem)
  | some best =>
    rw [found] at searched
    obtain ⟨name, short⟩ := searched.1
    exact ⟨best, name, searched, short, by simp only [short.drop_eq]⟩

end Line

/-- Two namespaces of one length that leave names of an IRI are the same. -/
theorem Shortens.space_eq {iri name name' : String} {entry entry' : String × String}
    (short : Shortens iri entry name) (short' : Shortens iri entry' name')
    (length : entry.2.length = entry'.2.length) : entry.2 = entry'.2 ∧ name = name' := by
  have whole : entry.2.toList ++ name.toList = entry'.2.toList ++ name'.toList :=
    short.toList_whole.trans short'.toList_whole.symm
  obtain ⟨space, left⟩ := List.append_inj whole (by simpa only [String.length_toList])
  exact ⟨String.toList_inj.1 space, String.toList_inj.1 left⟩

/-- Entries with the longest namespaces that fit have the same namespace, whatever their order. -/
theorem IsBest.space_eq {iri : String} {entries others : List (String × String)}
    {best best' : String × String} (h : IsBest iri entries best) (h' : IsBest iri others best')
    (same : ∀ entry, entry ∈ others ↔ entry ∈ entries) : best.2 = best'.2 := by
  obtain ⟨name, short⟩ := h.1
  obtain ⟨name', short'⟩ := h'.1
  have upper : best.2.length ≤ best'.2.length := h'.length_le ((same best).2 h.mem) h.1
  have lower : best'.2.length ≤ best.2.length := h.length_le ((same best').1 h'.mem) h'.1
  exact (short.space_eq short' (Nat.le_antisymm upper lower)).1

section Line

variable {prefixes : Table String} {iri : String} (line : '\n' ∉ iri.toList)
include line

theorem formatIri_eq_bracketed_iff :
    formatIri prefixes iri = "<" ++ iri ++ ">" ↔ ∀ entry ∈ prefixes.entries, ¬ Fits iri entry := by
  refine ⟨fun bracketed entry mem fits => ?_, formatIri_bracketed line⟩
  obtain ⟨best, name, -, short, printed⟩ := exists_formatIri line ⟨entry, mem, fits⟩
  exact prefixed_ne_bracketed short.plain best.1 iri (printed.symm.trans bracketed)

/-- Where no two prefixes share a namespace, only the entries of a table matter. -/
theorem formatIri_congr {other : Table String}
    (separate : ∀ entry ∈ prefixes.entries, ∀ entry' ∈ prefixes.entries,
      entry.2 = entry'.2 → entry.1 = entry'.1)
    (same : ∀ entry, entry ∈ other.entries ↔ entry ∈ prefixes.entries) :
    formatIri other iri = formatIri prefixes iri := by
  by_cases fitting : ∃ entry ∈ prefixes.entries, Fits iri entry
  · have fitting' : ∃ entry ∈ other.entries, Fits iri entry := by simpa only [same] using fitting
    obtain ⟨best, name, found, short, printed⟩ := exists_formatIri line fitting
    obtain ⟨best', name', found', short', printed'⟩ := exists_formatIri line fitting'
    have space : best.2 = best'.2 := found.space_eq found' same
    have label : best.1 = best'.1 :=
      separate best found.mem best' ((same best').1 found'.mem) space
    have left : name = name' := (short.space_eq short' (congrArg String.length space)).2
    rw [printed, printed', label, left]
  · have apart : ∀ entry ∈ prefixes.entries, ¬ Fits iri entry := fun entry mem fits =>
      fitting ⟨entry, mem, fits⟩
    rw [formatIri_bracketed line apart,
      formatIri_bracketed line fun entry mem => apart entry ((same entry).1 mem)]

end Line

/-- An IRI is written with the first prefix among those with the longest namespaces that leave a
plain name of it, and in brackets if there are none. Two prefixes with one namespace are the only
reason for the order of a table to make a difference. -/
theorem formatIri_longest (prefixes : Table String) {iri : String} (line : '\n' ∉ iri.toList) :
    (formatIri prefixes iri = "<" ++ iri ++ ">" ↔ ∀ entry ∈ prefixes.entries, ¬ Fits iri entry) ∧
    ((∃ entry ∈ prefixes.entries, Fits iri entry) →
      ∃ best name, IsBest iri prefixes.entries best ∧ Shortens iri best name ∧
        formatIri prefixes iri = best.1 ++ ":" ++ name) ∧
    ((∀ entry ∈ prefixes.entries, ∀ entry' ∈ prefixes.entries,
        entry.2 = entry'.2 → entry.1 = entry'.1) →
      ∀ other : Table String, other.entries.Perm prefixes.entries →
        formatIri other iri = formatIri prefixes iri) := by
  refine ⟨formatIri_eq_bracketed_iff line, exists_formatIri line, fun separate other order => ?_⟩
  exact formatIri_congr line separate fun entry => order.mem_iff

/-- Two prefixes that shorten an IRI, and a longer one that would leave a digit. -/
def shadowing : Table String :=
  ⟨[("ex", "http://e.org/"), ("o", "http://e.org/o_"), ("part", "http://e.org/o_A-")]⟩

theorem formatIri_longest_shadowing :
    let iri := "http://e.org/o_A-1"
    '\n' ∉ iri.toList ∧ (∃ entry ∈ shadowing.entries, Fits iri entry) ∧
      formatIri shadowing iri ≠ "<" ++ iri ++ ">" ∧
      (∃ best name, IsBest iri shadowing.entries best ∧ Shortens iri best name ∧
        formatIri shadowing iri = best.1 ++ ":" ++ name) ∧
      formatIri ⟨shadowing.entries.reverse⟩ iri = formatIri shadowing iri := by
  intro iri
  have line : '\n' ∉ iri.toList := by decide
  have short : Shortens iri ("ex", "http://e.org/") "o_A-1" :=
    ⟨by decide, by decide, Or.inl (by decide), by decide⟩
  have fitting : ∃ entry ∈ shadowing.entries, Fits iri entry :=
    ⟨_, List.mem_cons_self, _, short⟩
  have separate : ∀ entry ∈ shadowing.entries, ∀ entry' ∈ shadowing.entries,
      entry.2 = entry'.2 → entry.1 = entry'.1 := by decide
  obtain ⟨bracketed, shortened, ordered⟩ := formatIri_longest shadowing line
  have reversed := ordered separate ⟨shadowing.entries.reverse⟩ (List.reverse_perm _)
  refine ⟨line, fitting, fun same => ?_, shortened fitting, reversed⟩
  obtain ⟨entry, mem, fits⟩ := fitting
  exact bracketed.1 same entry mem fits

end Ontogram.Turtle
