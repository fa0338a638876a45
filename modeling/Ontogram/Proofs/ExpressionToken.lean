import Ontogram.Expression.Token
import Ontogram.Proofs.Lexeme

set_option autoImplicit false

namespace Ontogram.Expression

open Text

/-- The inside of a quoted text: quotes and backslashes stand behind a backslash only, and a
backslash takes along any character but a line feed. -/
inductive IsQuotedBody : List Char → Prop where
  | nil : IsQuotedBody []
  | char {c : Char} {cs : List Char} (quote : c ≠ '"') (slash : c ≠ '\\')
      (rest : IsQuotedBody cs) : IsQuotedBody (c :: cs)
  | escape {c : Char} {cs : List Char} (line : c ≠ '\n') (rest : IsQuotedBody cs) :
      IsQuotedBody ('\\' :: c :: cs)

/-- What may stand behind the closing quote of a literal: nothing, a language or a datatype. -/
inductive IsLiteralMark : List Char → Prop where
  | bare : IsLiteralMark []
  | language {c : Char} {tag : List Char} (letter : c.isAlpha = true)
      (chars : ∀ d ∈ tag, d.isAlphanum = true ∨ d = '-') : IsLiteralMark ('@' :: c :: tag)
  | datatype {name : List Char} (filled : name ≠ [])
      (chars : ∀ c ∈ name, isBlank c = false ∧ c ≠ '(' ∧ c ≠ ')') :
      IsLiteralMark ('^' :: '^' :: name)

def IsQuotedLiteral (cs : List Char) : Prop :=
  ∃ body mark, IsQuotedBody body ∧ IsLiteralMark mark ∧ cs = '"' :: (body ++ '"' :: mark)

def IsBracketedIri (cs : List Char) : Prop :=
  ∃ name, (∀ c ∈ name, isBlank c = false ∧ c ≠ '<' ∧ c ≠ '>') ∧ cs = '<' :: (name ++ ['>'])

/-- The forms that a token can have. -/
inductive HasForm (cs : List Char) : Prop where
  | literal (quoted : IsQuotedLiteral cs)
  | bracketed (iri : IsBracketedIri cs)
  /-- A parenthesis, or a quote that opens no literal. -/
  | single {c : Char} (mark : c = '(' ∨ c = ')' ∨ c = '"') (alone : cs = [c])
  | word (filled : cs ≠ [])
      (chars : ∀ c ∈ cs, isBlank c = false ∧ c ≠ '(' ∧ c ≠ ')' ∧ c ≠ '"')

/-! Lexemes. -/

theorem exists_body_of_quotedTail? {cs text rest : List Char}
    (h : quotedTail? cs = some (text, rest)) :
    ∃ body, IsQuotedBody body ∧ text = body ++ ['"'] := by
  fun_induction quotedTail? cs generalizing text rest with
  | case1 => cases h
  | case2 => cases h
  | case3 => cases h
  | case4 d cs line ih =>
    obtain ⟨found, inner, same⟩ := Option.map_eq_some_iff.1 h
    obtain ⟨rfl, -⟩ := Prod.mk.inj same
    obtain ⟨body, quoted, whole⟩ := ih inner
    exact ⟨'\\' :: d :: body, .escape line quoted, by rw [whole]; rfl⟩
  | case5 cs =>
    obtain ⟨rfl, -⟩ := Prod.mk.inj (Option.some.inj h)
    exact ⟨[], .nil, rfl⟩
  | case6 c cs last escape quote ih =>
    obtain ⟨found, inner, same⟩ := Option.map_eq_some_iff.1 h
    obtain ⟨rfl, -⟩ := Prod.mk.inj same
    obtain ⟨body, quoted, whole⟩ := ih inner
    have slash : c ≠ '\\' := by
      rintro rfl
      cases cs with
      | nil => exact last rfl rfl
      | cons d cs => exact escape d cs rfl rfl
    exact ⟨c :: body, .char quote slash quoted, by rw [whole]; rfl⟩

theorem isLiteralMark_of_languageMark? {cs mark rest : List Char}
    (h : languageMark? cs = some (mark, rest)) : IsLiteralMark mark := by
  unfold languageMark? at h
  split at h
  · split at h
    · rename_i letter
      obtain ⟨rfl, -⟩ := Prod.mk.inj (Option.some.inj h)
      exact .language letter fun d hd => by simpa using List.all_eq_true.1 List.all_takeWhile d hd
    · cases h
  · cases h

theorem isLiteralMark_of_typeMark? {cs mark rest : List Char}
    (h : typeMark? cs = some (mark, rest)) : IsLiteralMark mark := by
  unfold typeMark? at h
  split at h
  · rename_i inside
    split at h
    · cases h
    · rename_i name back filled found
      obtain ⟨rfl, -⟩ := Prod.mk.inj (Option.some.inj h)
      have taken : name = inside.takeWhile isTypeChar := (congrArg Prod.fst found).symm
      refine .datatype filled fun c hc => ?_
      have char := List.all_eq_true.1 List.all_takeWhile c (taken ▸ hc)
      simpa [isTypeChar, and_assoc] using char
  · cases h

theorem isQuotedLiteral_of_literal? {cs text rest : List Char}
    (h : literal? cs = some (text, rest)) : IsQuotedLiteral text := by
  obtain ⟨⟨quoted, back⟩, found, read⟩ := Option.bind_eq_some_iff.1 h
  unfold quotedText? at found
  split at found
  · obtain ⟨⟨tail, left⟩, inner, same⟩ := Option.map_eq_some_iff.1 found
    obtain ⟨rfl, rfl⟩ := Prod.mk.inj same
    obtain ⟨body, inside, rfl⟩ := exists_body_of_quotedTail? inner
    dsimp only at read
    split at read
    · rename_i mark behind marked
      obtain ⟨rfl, -⟩ := Prod.mk.inj (Option.some.inj read)
      refine ⟨body, mark, inside, ?_, by simp⟩
      rcases Option.or_eq_some_iff.1 marked with language | ⟨-, datatype⟩
      · exact isLiteralMark_of_languageMark? language
      · exact isLiteralMark_of_typeMark? datatype
    · obtain ⟨rfl, -⟩ := Prod.mk.inj (Option.some.inj read)
      exact ⟨body, [], inside, .bare, rfl⟩
  · cases found

theorem isBracketedIri_of_bracketed? {cs text rest : List Char}
    (h : bracketed? cs = some (text, rest)) : IsBracketedIri text := by
  obtain ⟨name, rfl, chars⟩ := exists_name_of_bracketed? h
  refine ⟨name, fun c hc => ?_, rfl⟩
  have char := chars c hc
  simpa [isBracketChar, and_assoc] using char

/-! Tokens. -/

/-- What is cut from the front of a text that starts with no blank has the form of a token. -/
theorem hasForm_cut {c : Char} (cs : List Char) (visible : isBlank c = false) :
    HasForm (cut c cs).1 := by
  unfold cut
  split
  · rename_i paren
    exact .single (paren.imp_right Or.inl) rfl
  rename_i paren
  split
  · rename_i found lexeme
    rcases Option.or_eq_some_iff.1 lexeme with literal | ⟨-, bracketed⟩
    · exact .literal (isQuotedLiteral_of_literal? literal)
    · exact .bracketed (isBracketedIri_of_bracketed? bracketed)
  split
  · rename_i quote
    exact .single (Or.inr (Or.inr quote)) rfl
  · rename_i quote
    obtain ⟨left, right⟩ := not_or.1 paren
    refine .word (List.cons_ne_nil _ _)
      (List.forall_mem_cons.2 ⟨⟨visible, left, right, quote⟩, fun d hd => ?_⟩)
    have char := List.all_eq_true.1 List.all_takeWhile d hd
    simpa [isWordChar, and_assoc] using char

theorem hasForm_of_mem_tokensOf {cs token : List Char} (h : token ∈ tokensOf cs) :
    HasForm token :=
  tokenizes.forall_mem (fun _ cs visible => hasForm_cut cs visible) cs token h

namespace HasForm

variable {cs : List Char}

theorem ne_nil (h : HasForm cs) : cs ≠ [] := by
  cases h with
  | literal quoted =>
    obtain ⟨body, mark, -, -, rfl⟩ := quoted
    exact List.cons_ne_nil _ _
  | bracketed iri =>
    obtain ⟨name, -, rfl⟩ := iri
    exact List.cons_ne_nil _ _
  | single _ alone => exact alone ▸ List.cons_ne_nil _ _
  | word filled _ => exact filled

theorem of_paren (h : HasForm cs) (long : 1 < cs.length) (paren : '(' ∈ cs ∨ ')' ∈ cs) :
    IsQuotedLiteral cs ∨ IsBracketedIri cs := by
  cases h with
  | literal quoted => exact Or.inl quoted
  | bracketed iri => exact Or.inr iri
  | single _ alone =>
    rw [alone] at long
    exact absurd long (Nat.lt_irrefl 1)
  | word _ chars =>
    rcases paren with left | right
    · exact absurd rfl (chars '(' left).2.1
    · exact absurd rfl (chars ')' right).2.2.1

theorem of_blank (h : HasForm cs) (blank : ∃ c ∈ cs, isBlank c = true) : IsQuotedLiteral cs := by
  obtain ⟨c, hc, blank⟩ := blank
  cases h with
  | literal quoted => exact quoted
  | bracketed iri =>
    obtain ⟨name, chars, rfl⟩ := iri
    have solid : ∀ d ∈ '<' :: (name ++ ['>']), isBlank d = false :=
      List.forall_mem_cons.2 ⟨by decide, List.forall_mem_append.2
        ⟨fun d hd => (chars d hd).1, List.forall_mem_singleton.2 (by decide)⟩⟩
    rw [solid c hc] at blank
    cases blank
  | single mark alone =>
    rw [alone, List.mem_singleton] at hc
    subst hc
    rcases mark with rfl | rfl | rfl <;> exact absurd blank (by decide)
  | word _ chars =>
    rw [(chars c hc).1] at blank
    cases blank

end HasForm

/-! The text between tokens. -/

/-- White space. -/
def IsBlankText (cs : List Char) : Prop :=
  ∀ c ∈ cs, isBlank c = true

/-- In front of each token and behind the last there is nothing but blanks. -/
theorem exists_gaps (cs : List Char) : ∃ gaps last, gaps.length = (tokensOf cs).length ∧
    (∀ gap ∈ gaps, IsBlankText gap) ∧ IsBlankText last ∧
    cs = (List.zipWith (· ++ ·) gaps (tokensOf cs)).flatten ++ last := by
  induction cs using tokenizes.induction with
  | nil =>
    rw [tokenizes.nil]
    exact ⟨[], [], rfl, List.forall_mem_nil _, List.forall_mem_nil _, rfl⟩
  | blank c cs blank ih =>
    rw [tokenizes.blank c cs blank]
    obtain ⟨gaps, last, lengths, blanks, behind, whole⟩ := ih
    cases gaps with
    | nil =>
      have none := List.length_eq_zero_iff.1 lengths.symm
      rw [none] at whole ⊢
      exact ⟨[], c :: last, rfl, blanks, List.forall_mem_cons.2 ⟨blank, behind⟩, by rw [whole]; rfl⟩
    | cons gap gaps =>
      obtain ⟨first, others⟩ := List.forall_mem_cons.1 blanks
      refine ⟨(c :: gap) :: gaps, last, lengths,
        List.forall_mem_cons.2 ⟨List.forall_mem_cons.2 ⟨blank, first⟩, others⟩, behind, ?_⟩
      obtain ⟨token, tokens, split⟩ := List.exists_cons_of_length_eq_add_one lengths.symm
      rw [split] at whole ⊢
      exact congrArg (c :: ·) whole
  | visible c cs visible ih =>
    rw [tokenizes.visible c cs visible]
    obtain ⟨gaps, last, lengths, blanks, behind, whole⟩ := ih
    refine ⟨[] :: gaps, last, by simp [lengths],
      List.forall_mem_cons.2 ⟨List.forall_mem_nil _, blanks⟩, behind, ?_⟩
    rw [List.zipWith_cons_cons, List.flatten_cons, List.nil_append, List.append_assoc, ← whole]
    exact (cut_append c cs).1.symm

theorem map_toList_tokens (s : String) :
    (tokens s).map String.toList = tokensOf (expandTabs s.toList) := by
  rw [tokens, List.map_map]
  exact (List.map_congr_left fun _ _ => String.toList_ofList).trans (List.map_id _)

/-- The tokens of a text are pieces of it, with its tabs expanded, in their order, and what stands
around them is blank. No token is empty. A token of more than one character holds a parenthesis only
if it is a quoted literal or an IRI in brackets, and a token holds a blank only if it is a quoted
literal. -/
theorem tokens_pieces (s : String) :
    (∃ gaps last, gaps.length = (tokens s).length ∧ (∀ gap ∈ gaps, IsBlankText gap) ∧
      IsBlankText last ∧ expandTabs s.toList =
        (List.zipWith (· ++ ·) gaps ((tokens s).map String.toList)).flatten ++ last) ∧
    ∀ t ∈ tokens s, t ≠ "" ∧
      (1 < t.length → '(' ∈ t.toList ∨ ')' ∈ t.toList →
        IsQuotedLiteral t.toList ∨ IsBracketedIri t.toList) ∧
      ((∃ c ∈ t.toList, isBlank c = true) → IsQuotedLiteral t.toList) := by
  refine ⟨?_, fun t ht => ?_⟩
  · have pieces := exists_gaps (expandTabs s.toList)
    rwa [← map_toList_tokens, List.length_map] at pieces
  · have inside : t.toList ∈ tokensOf (expandTabs s.toList) :=
      map_toList_tokens s ▸ List.mem_map_of_mem ht
    have form := hasForm_of_mem_tokensOf inside
    refine ⟨fun none => form.ne_nil (by rw [none]; rfl), fun long => form.of_paren ?_,
      form.of_blank⟩
    rwa [String.length_toList]

/-- A literal with a blank and a parenthesis, and a quote that opens none. -/
theorem tokens_pieces_literal :
    let s := "age\tvalue )\"a (b\"@en \""
    let t := "\"a (b\"@en"
    t ∈ tokens s ∧ 1 < t.length ∧ '(' ∈ t.toList ∧
      (IsQuotedLiteral t.toList ∨ IsBracketedIri t.toList) ∧
      ' ' ∈ t.toList ∧ IsQuotedLiteral t.toList := by
  intro s t
  have words : tokens s = ["age", "value", ")", "\"a (b\"@en", "\""] := by decide +kernel
  have inside : t ∈ tokens s := by
    rw [words]
    decide
  have long : 1 < t.length := by decide
  have paren : '(' ∈ t.toList := by decide
  have blank : ' ' ∈ t.toList := by decide
  obtain ⟨-, form, quoted⟩ := (tokens_pieces s).2 t inside
  exact ⟨inside, long, paren, form long (Or.inl paren), blank, quoted ⟨' ', blank, isBlank_space⟩⟩

end Ontogram.Expression
