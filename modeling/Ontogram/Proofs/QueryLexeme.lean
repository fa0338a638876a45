import Ontogram.Proofs.Lexeme
import Ontogram.Proofs.QueryText

set_option autoImplicit false

namespace Ontogram.Query

open Text

/-- The characters that may follow an item. -/
def stops : List Char :=
  ['.', '#', ' ', '\n', '\x7b', '\x7d']

theorem mem_stops_of_isStop {c : Char} (h : isStop c = true) : c ∈ stops := by
  simp only [isStop, isBreak, Bool.or_eq_true, beq_iff_eq, List.contains_iff_mem] at h
  simp only [stops, List.mem_cons] at h ⊢
  exact Or.inr h

theorem Ends.nil {stop : Char → Bool} : Ends stop [] :=
  nofun

theorem Ends.mono {stop other : Char → Bool} {rest : List Char} (h : Ends stop rest)
    (wider : ∀ c, stop c = true → other c = true) : Ends other rest := by
  intro c hc
  rcases h c hc with stopped | ⟨dot, behind⟩
  · exact Or.inl (wider c stopped)
  · exact Or.inr ⟨dot, fun d hd => wider d (behind d hd)⟩

theorem Ends.of_append {stop : Char → Bool} {front rest : List Char}
    (h : Ends stop (front ++ rest)) : Ends stop front := by
  intro c hc
  cases front with
  | nil => simp at hc
  | cons a front =>
    rcases h c hc with stopped | ⟨dot, behind⟩
    · exact Or.inl stopped
    · refine Or.inr ⟨dot, fun d hd => behind d ?_⟩
      cases front with
      | nil => simp at hd
      | cons b front => exact hd

/-- What may follow an item: nothing, a stop, or a full stop with nothing or a stop behind it. -/
theorem Ends.forms {stop : Char → Bool} {rest : List Char} (h : Ends stop rest) :
    rest = [] ∨ (∃ c cs, rest = c :: cs ∧ stop c = true) ∨ rest = ['.'] ∨
      ∃ d ds, rest = '.' :: d :: ds ∧ stop d = true := by
  cases rest with
  | nil => exact Or.inl rfl
  | cons c rest =>
    by_cases stopped : stop c = true
    · exact Or.inr (Or.inl ⟨c, rest, rfl, stopped⟩)
    · rcases h c rfl with same | ⟨rfl, behind⟩
      · exact absurd same stopped
      · cases rest with
        | nil => exact Or.inr (Or.inr (Or.inl rfl))
        | cons d rest => exact Or.inr (Or.inr (Or.inr ⟨d, rest, rfl, behind d rfl⟩))

theorem ends_of_apart {stop : Char → Bool} {item rest cs : List Char} {c : Char}
    (h : item = c :: cs) (left : c ≠ '\x7b') (right : c ≠ '\x7d')
    (apart : item = ['\x7b'] ∨ item = ['\x7d'] ∨ Ends stop rest) : Ends stop rest := by
  rw [h] at apart
  rcases apart with brace | brace | ends
  · exact absurd (List.cons.inj brace).1 left
  · exact absurd (List.cons.inj brace).1 right
  · exact ends

section

variable {p : Char → Bool} {rest : List Char}

theorem eq_false_of_isStop (apart : (stops.all fun c => !p c) = true) {c : Char}
    (h : isStop c = true) : p c = false :=
  eq_false_of_mem apart (mem_stops_of_isStop h)

theorem Ends.head_eq_false (h : Ends isStop rest) (apart : (stops.all fun c => !p c) = true) :
    ∀ c ∈ rest.head?, p c = false := by
  intro c hc
  rcases h c hc with stopped | ⟨rfl, _⟩
  · exact eq_false_of_isStop apart stopped
  · exact eq_false_of_mem apart List.mem_cons_self

theorem span_append_of_ends {cs : List Char} (all : ∀ c ∈ cs, p c = true) (h : Ends isStop rest)
    (apart : (stops.all fun c => !p c) = true) : span p (cs ++ rest) = (cs, rest) :=
  span_append_of_all all (h.head_eq_false apart)

/-- No full stop that ends an item is part of it. -/
theorem Ends.dottedSpan_eq {stop : Char → Bool} (h : Ends stop rest) (free : stop '.' = false)
    (outside : ∀ c, stop c = true → p c = false) (dot : p '.' = false) :
    dottedSpan p rest = ([], rest) := by
  rcases h.forms with rfl | ⟨c, cs, rfl, stopped⟩ | rfl | ⟨d, ds, rfl, stopped⟩
  · rfl
  · have dotless : c ≠ '.' := by
      intro same
      rw [same, free] at stopped
      contradiction
    simp [dottedSpan, outside c stopped, dotless]
  · simp [dottedSpan, dot]
  · simp [dottedSpan, dot, outside d stopped]

theorem dottedSpan_append_of_ends {cs : List Char} (all : ∀ c ∈ cs, p c = true)
    (h : Ends isStop rest) (apart : (stops.all fun c => !p c) = true) :
    dottedSpan p (cs ++ rest) = (cs, rest) := by
  induction cs with
  | nil =>
    exact h.dottedSpan_eq (by decide) (fun c => eq_false_of_isStop apart)
      (eq_false_of_mem apart List.mem_cons_self)
  | cons c cs ih =>
    have first : p c = true := all c List.mem_cons_self
    have tail := ih fun d hd => all d (List.mem_cons_of_mem c hd)
    rw [List.cons_append, dottedSpan, if_pos (by simp [first]), tail]

end

theorem isNameChar_of_isPlainChar {c : Char} (h : isPlainChar c = true) : isNameChar c = true := by
  have range := toNat_of_isPlainChar h
  have same : isAlnum c = c.isAlphanum := isAlnum_eq_isAlphanum (by omega)
  simp only [isPlainChar, Bool.or_eq_true] at h
  simp only [isNameChar, isWord, same, Bool.or_eq_true]
  exact Or.inl h

theorem IsIdentifier.exists_cons {name : List Char} (h : IsIdentifier name) :
    ∃ c cs, name = c :: cs ∧ c.isAlpha = true := by
  cases name with
  | nil => exact absurd h.letter (by simp)
  | cons c cs => exact ⟨c, cs, rfl, by simpa using h.letter⟩

theorem IsIdentifier.plain {name : List Char} (h : IsIdentifier name) :
    ∀ c ∈ name, isPlainChar c = true :=
  List.all_eq_true.1 h.chars

theorem IsIdentifier.notMem {name : List Char} (h : IsIdentifier name) {c : Char}
    (hc : isPlainChar c = false) : c ∉ name :=
  notMem_of_all h.chars hc

theorem prefixMark?_append {space : List Char} (hs : IsIdentifier space) (rest : List Char) :
    prefixMark? (space ++ ':' :: rest) = some (space ++ [':'], rest) := by
  have stop : ∀ c ∈ (':' :: rest).head?, isNameChar c = false :=
    forall_head?_cons (by decide) rest
  have cut : span isNameChar (space ++ ':' :: rest) = (space, ':' :: rest) :=
    span_append_of_all (fun c hc => isNameChar_of_isPlainChar (hs.plain c hc)) stop
  obtain ⟨c, cs, rfl, letter⟩ := hs.exists_cons
  have start : isPrefixStart c = true := by
    simp [isPrefixStart, letter]
  rw [List.cons_append] at cut ⊢
  simp only [prefixMark?, start, cut, if_true]

theorem isBracketChar_of_isIriText {c : Char} (h : isIriText c = true) :
    isBracketChar c = true := by
  simp only [isIriText, Bool.or_eq_true, List.contains_iff_mem] at h
  rcases h with plain | marked
  · have range := toNat_of_isPlainChar (c := c) (by simp [isPlainChar, plain])
    have blank : isBlank c = false := isBlank_eq_false (by omega) (by omega)
    have left : c ≠ '<' := ne_of_class plain (by decide)
    have right : c ≠ '>' := ne_of_class plain (by decide)
    simp [isBracketChar, blank, left, right]
  · have inside : ([':', '/', '#', '_', '.', '-'].all isBracketChar) = true := by decide
    exact List.all_eq_true.1 inside c marked

theorem bracketed?_bracket_append {iri : List Char} (chars : ∀ c ∈ iri, isBracketChar c = true)
    (rest : List Char) : bracketed? (bracket iri ++ rest) = some (bracket iri, rest) := by
  have found := bracketed?_append chars rest
  simpa [bracket] using found

theorem bracketed?_bracket {iri : List Char} (chars : iri.all isIriText = true)
    (rest : List Char) : bracketed? (bracket iri ++ rest) = some (bracket iri, rest) :=
  bracketed?_bracket_append
    (fun c hc => isBracketChar_of_isIriText (List.all_eq_true.1 chars c hc)) rest

theorem quotedText?_append {text : List Char} (chars : text.all isQuotedText = true)
    (rest : List Char) :
    quotedText? ('"' :: (text ++ '"' :: rest)) = some ('"' :: (text ++ ['"']), rest) := by
  have quote : '"' ∉ text := notMem_of_all chars (by decide)
  have slash : '\\' ∉ text := notMem_of_all chars (by decide)
  exact quotedText?_append_quote quote slash rest

/-- What is written behind the quotes is read as a language or a datatype. -/
theorem mark_append {language datatype : Option String} {mark : List Char}
    (h : MarkText language datatype mark) {rest : List Char} (ends : Ends isStop rest) :
    (languageMark? (mark ++ rest)).or (typeMark? (mark ++ rest)) =
      if mark = [] then none else some (mark, rest) := by
  cases h with
  | none =>
    have apart : ∀ c ∈ rest.head?, (c == '@' || c == '^') = false :=
      ends.head_eq_false (p := fun c => c == '@' || c == '^') (by decide)
    have tagged : languageMark? rest = none := by
      unfold languageMark?
      split
      · exact absurd (apart _ rfl) (by decide)
      · rfl
    have typed : typeMark? rest = none := by
      unfold typeMark?
      split
      · exact absurd (apart _ rfl) (by decide)
      · rfl
    simp [tagged, typed]
  | @language c tag letter chars =>
    have cut : span (fun d => d.isAlphanum || d == '-') (tag ++ rest) = (tag, rest) :=
      span_append_of_ends (List.all_eq_true.1 chars) ends (by decide)
    have found : languageMark? ('@' :: c :: (tag ++ rest)) = some ('@' :: c :: tag, rest) := by
      simp only [languageMark?, letter, cut, if_true]
    simp [found]
  | @iri iri chars =>
    have untagged : languageMark? ('^' :: '^' :: (bracket iri ++ rest)) = none := rfl
    have found : typeMark? ('^' :: '^' :: (bracket iri ++ rest)) =
        some ('^' :: '^' :: bracket iri, rest) := by
      rw [typeMark?, bracketed?_bracket chars]
    simp [untagged, found]
  | @qualified space name hs hn =>
    have untagged : languageMark? ('^' :: '^' :: (qualified space name ++ rest)) = none := rfl
    have cut : dottedSpan isNameChar (name ++ rest) = (name, rest) :=
      dottedSpan_append_of_ends (fun c hc => isNameChar_of_isPlainChar (hn.plain c hc)) ends
        (by decide)
    have unbracketed : bracketed? (space ++ ':' :: (name ++ rest)) = none := by
      obtain ⟨c, cs, rfl, letter⟩ := hs.exists_cons
      exact bracketed?_eq_none (ne_of_class letter (by decide))
    have found : typeMark? ('^' :: '^' :: (qualified space name ++ rest)) =
        some ('^' :: '^' :: qualified space name, rest) := by
      have mark := prefixMark?_append hs (name ++ rest)
      simp [qualified, typeMark?, unbracketed, mark, cut]
    simp [untagged, found]

/-- A quoted text is read with the mark behind it. -/
theorem literal?_of_quotedText? {cs body mark rest : List Char} {language datatype : Option String}
    (h : quotedText? cs = some (body, mark ++ rest)) (marked : MarkText language datatype mark)
    (ends : Ends isStop rest) : literal? cs = some (body ++ mark, rest) := by
  have found := mark_append marked ends
  rw [literal?, marked?, h]
  by_cases unmarked : mark = []
  · subst unmarked
    rw [if_pos rfl] at found
    simp only [List.nil_append] at found ⊢
    simp [found]
  · rw [if_neg unmarked] at found
    simp [found]

/-- A literal is read with its mark. -/
theorem literal?_append {text mark : List Char} {language datatype : Option String}
    (chars : text.all isQuotedText = true) (marked : MarkText language datatype mark)
    {rest : List Char} (ends : Ends isStop rest) :
    literal? ('"' :: (text ++ '"' :: (mark ++ rest))) =
      some ('"' :: (text ++ '"' :: mark), rest) := by
  have found := literal?_of_quotedText? (quotedText?_append chars (mark ++ rest)) marked ends
  simpa using found

theorem literal?_eq_none {c : Char} {cs : List Char} (h : c ≠ '"') : literal? (c :: cs) = none := by
  rw [literal?, marked?, quotedText?_eq_none h]
  rfl

end Ontogram.Query
