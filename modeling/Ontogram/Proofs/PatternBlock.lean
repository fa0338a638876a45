import Ontogram.Proofs.PatternToken

set_option autoImplicit false

namespace Ontogram.Query

open Text

/-- A layout with an item in its middle is a layout in front of the item and one behind it. -/
theorem LaidOut.exists_append {gap last : List Char → Prop} {stop : Char → Bool}
    {front back : List (List Char)} {item cs : List Char}
    (h : LaidOut gap last stop (front ++ item :: back) cs) :
    ∃ body rest, cs = body ++ (item ++ rest) ∧ LaidOut gap gap stop front body ∧
      (item = ['\x7b'] ∨ item = ['\x7d'] ∨ Ends stop rest) ∧ LaidOut gap last stop back rest := by
  induction front generalizing cs with
  | nil =>
    cases h with
    | @cons _ space rest _ hg apart others => exact ⟨space, rest, rfl, .nil hg, apart, others⟩
  | cons first front ih =>
    cases h with
    | @cons _ space _ _ hg apart others =>
      obtain ⟨body, rest, rfl, before, ends, after⟩ := ih others
      refine ⟨space ++ (first ++ body), rest, by simp, .cons hg ?_ before, ends, after⟩
      rcases apart with brace | brace | apart
      · exact Or.inl brace
      · exact Or.inr (Or.inl brace)
      · exact Or.inr (Or.inr apart.of_append)

/-- An item of a pattern block. -/
inductive IsBlockItem : List Char → Prop where
  | term {term : PatternTerm} {text : List Char} (h : TermText term text) : IsBlockItem text
  | dot : IsBlockItem ['.']

theorem BlockItems.isBlockItem {patterns : List TriplePattern} {items : List (List Char)}
    (h : BlockItems patterns items) : ∀ item ∈ items, IsBlockItem item := by
  induction h with
  | nil => simp
  | last hs hq ho =>
    simp only [List.forall_mem_cons]
    exact ⟨.term hs, .term hq, .term ho, by simp⟩
  | cons hs hq ho _ ih =>
    simp only [List.forall_mem_cons]
    exact ⟨.term hs, .term hq, .term ho, .dot, ih⟩

theorem IsBlockItem.opens {item : List Char} (h : IsBlockItem item) :
    ∃ c cs, item = c :: cs ∧ c ≠ '\x7b' ∧ c ≠ '\x7d' ∧ (c = '.' → cs = []) := by
  cases h with
  | term h =>
    obtain ⟨c, cs, hc, _, upper, dot⟩ := h.opens
    have apart (d : Char) (hd : 123 ≤ d.toNat) : c ≠ d := by
      rintro rfl
      omega
    exact ⟨c, cs, hc, apart '\x7b' (by decide), apart '\x7d' (by decide), fun e => absurd e dot⟩
  | dot => exact ⟨'.', [], rfl, by decide, by decide, fun _ => rfl⟩

theorem IsBlockItem.ends {stop : Char → Bool} {item rest : List Char} (h : IsBlockItem item)
    (apart : item = ['\x7b'] ∨ item = ['\x7d'] ∨ Ends stop rest) : Ends stop rest := by
  obtain ⟨c, cs, hc, left, right, _⟩ := h.opens
  exact ends_of_apart hc left right apart

section

variable {items : List (List Char)} {cs : List Char}

/-- No brace stands at the front of the items of a block. -/
theorem LaidOut.head_of_block (h : LaidOut Blank Blank isBreak items cs)
    (each : ∀ item ∈ items, IsBlockItem item) :
    ∀ c ∈ cs.head?, isBreak c = true → isSpace c = true := by
  have space {gap : List Char} (blank : Blank gap) (c : Char) (hc : c ∈ gap) :
      isSpace c = true := by
    rcases blank c hc with rfl | rfl <;> decide
  intro c hc stop
  cases h with
  | nil blank => exact space blank c (List.mem_of_mem_head? hc)
  | @cons item gap rest _ blank _ _ =>
    cases gap with
    | nil =>
      obtain ⟨d, ds, rfl, left, right, _⟩ := (each item List.mem_cons_self).opens
      obtain rfl : d = c := by simpa using hc
      simpa [isBreak, isSpace, left, right] using stop
    | cons d gap =>
      obtain rfl : d = c := by simpa using hc
      exact space blank d List.mem_cons_self

theorem LaidOut.ends_of_block (h : LaidOut Blank Blank isBreak items cs)
    (each : ∀ item ∈ items, IsBlockItem item) (ends : Ends isBreak cs) : Ends isSpace cs := by
  intro c hc
  rcases ends c hc with stopped | ⟨rfl, behind⟩
  · exact Or.inl (h.head_of_block each c hc stopped)
  · refine Or.inr ⟨rfl, ?_⟩
    have undotted {gap : List Char} (blank : Blank gap) : '.' ∉ gap := by
      intro m
      rcases blank '.' m with same | same <;> contradiction
    cases h with
    | nil blank => exact absurd (List.mem_of_mem_head? hc) (undotted blank)
    | @cons item gap rest _ blank _ others =>
      cases gap with
      | nil =>
        obtain ⟨d, ds, rfl, _, _, single⟩ := (each item List.mem_cons_self).opens
        obtain rfl : d = '.' := by simpa using hc
        obtain rfl := single rfl
        intro e he
        exact others.head_of_block (fun other ho => each other (List.mem_cons_of_mem _ ho)) e he
          (behind e he)
      | cons d gap =>
        obtain rfl : d = '.' := by simpa using hc
        exact absurd List.mem_cons_self (undotted blank)

/-- Inside a block only blanks and full stops end an item. -/
theorem LaidOut.spaced (h : LaidOut Blank Blank isBreak items cs)
    (each : ∀ item ∈ items, IsBlockItem item) : LaidOut Blank Blank isSpace items cs := by
  induction h with
  | nil blank => exact .nil blank
  | @cons item gap rest items blank apart others ih =>
    have tail (other : List Char) (ho : other ∈ items) := each other (List.mem_cons_of_mem item ho)
    have ends := (each item List.mem_cons_self).ends apart
    exact .cons blank (Or.inr (Or.inr (others.ends_of_block tail ends))) (ih tail)

theorem LaidOut.tokensOf_eq (h : LaidOut Blank Blank isSpace items cs)
    (each : ∀ item ∈ items, IsBlockItem item) : tokensOf cs = items := by
  induction h with
  | nil blank =>
    have none := blank.tokensOf_append []
    rw [List.append_nil] at none
    rw [none, tokenizes.nil]
  | @cons item gap rest items blank apart _ ih =>
    have tail := ih fun other ho => each other (List.mem_cons_of_mem item ho)
    have block := each item List.mem_cons_self
    have ends := block.ends apart
    rw [blank.tokensOf_append]
    cases block with
    | term h => rw [h.tokensOf_append ends, tail]
    | dot => rw [List.singleton_append, tokenizes.cons_of_cut (by decide) (cut_dot rest), tail]

end

/-! What a token stands for. -/

theorem isBracketed_bracket (iri : List Char) : isBracketed (bracket iri) = true := by
  have last : (bracket iri).getLast? = some '>' := by
    rw [bracket, ← List.cons_append, List.getLast?_concat]
  rw [isBracketed, last]
  rfl

theorem tail_dropLast_bracket (iri : List Char) : (bracket iri).tail.dropLast = iri := by
  rw [bracket, List.tail_cons, List.dropLast_concat]

theorem isBracketed_eq_false {c : Char} (cs : List Char) (h : c ≠ '<') :
    isBracketed (c :: cs) = false := by
  simp [isBracketed, h]

theorem unescapeQuotes_eq {cs : List Char} (h : '\\' ∉ cs) : unescapeQuotes cs = cs := by
  induction cs with
  | nil => rfl
  | cons c cs ih =>
    have slash : c ≠ '\\' := by
      rintro rfl
      exact h List.mem_cons_self
    have tail := ih fun m => h (List.mem_cons_of_mem c m)
    rw [unescapeQuotes, tail]
    exact fun _ same _ => slash same

/-- The literal of a quoted text with a mark behind it. -/
theorem literalOf_of_quotedText? {token text mark : List Char} {language datatype : Option String}
    (h : quotedText? token = some ('"' :: (text ++ ['"']), mark))
    (marked : MarkText language datatype mark) :
    literalOf token = ⟨String.ofList (unescapeQuotes text), language, datatype⟩ := by
  have body : ('"' :: (text ++ ['"'])).tail.dropLast = text := by
    rw [List.tail_cons, List.dropLast_concat]
  rw [literalOf, h]
  simp only [body]
  cases marked with
  | none => rfl
  | language _ _ => rfl
  | @iri iri _ =>
    simp only [isBracketed_bracket, tail_dropLast_bracket, if_true]
  | @qualified space name hs _ =>
    have unbracketed : isBracketed (qualified space name) = false := by
      obtain ⟨c, cs, rfl, letter⟩ := hs.exists_cons
      exact isBracketed_eq_false _ (ne_of_class letter (by decide))
    simp only [unbracketed, Bool.false_eq_true, if_false]

theorem literalOf_eq {text mark : List Char} {language datatype : Option String}
    (chars : text.all isQuotedText = true) (marked : MarkText language datatype mark) :
    literalOf ('"' :: (text ++ '"' :: mark)) = ⟨String.ofList text, language, datatype⟩ := by
  have plain : '\\' ∉ text := notMem_of_all chars (by decide)
  rw [literalOf_of_quotedText? (quotedText?_append chars mark) marked, unescapeQuotes_eq plain]

theorem termOf_eq_run {text : List Char} {c : Char} {cs : List Char} (h : text = c :: cs)
    (question : c ≠ '?') (dollar : c ≠ '$') (quote : c ≠ '"') (type : text ≠ ['a']) :
    termOf text = if isBracketed text then .iri (String.ofList text.tail.dropLast)
      else if isNumeral text then .literal ⟨String.ofList text, none, none⟩
      else .iri (String.ofList text) := by
  subst h
  unfold termOf
  split
  · rename_i same
    exact absurd (List.cons.inj same).1 question
  · rename_i same
    exact absurd (List.cons.inj same).1 dollar
  · rename_i same
    exact absurd same type
  · rename_i same
    exact absurd (List.cons.inj same).1 quote
  · rfl

/-- The token of a term stands for it. -/
theorem TermText.termOf_eq {term : PatternTerm} {text : List Char} (h : TermText term text) :
    termOf text = term := by
  cases h with
  | var h =>
    cases h with
    | var marked _ _ => rcases marked with rfl | rfl <;> rfl
  | @iri iri _ =>
    have front : bracket iri = '<' :: (iri ++ ['>']) := rfl
    rw [termOf_eq_run front (by decide) (by decide) (by decide) (by simp [front]),
      if_pos (isBracketed_bracket iri), tail_dropLast_bracket]
  | @qualified space name hs hn =>
    obtain ⟨c, cs, rfl, letter⟩ := hs.exists_cons
    have apart (d : Char) (hd : d.isAlpha = false) : c ≠ d := ne_of_class letter hd
    have numberless : isNumeral (Query.qualified (c :: cs) name) = false := by
      have range := toNat_of_isAlpha letter
      have digit : isDigit c = false := by
        rw [isDigit_eq (by omega)]
        exact isDigit_eq_false letter
      have none := numeral?_eq_none (cs ++ ':' :: name) (apart '+' (by decide))
        (apart '-' (by decide)) digit
      rw [isNumeral, Query.qualified, List.cons_append, none]
    have unbracketed : isBracketed (Query.qualified (c :: cs) name) = false :=
      isBracketed_eq_false _ (apart '<' (by decide))
    have front : Query.qualified (c :: cs) name = c :: (cs ++ ':' :: name) := rfl
    rw [termOf_eq_run front (apart '?' (by decide)) (apart '$' (by decide)) (apart '"' (by decide))
      (by simp [front]), unbracketed, numberless]
    rfl
  | type => rfl
  | @integer sign digits signed nonempty hd =>
    have numeral : isNumeral (sign ++ digits) = true := by
      have whole := numeral?_append signed nonempty hd .nil
      rw [List.append_nil] at whole
      rw [isNumeral, whole]
      rfl
    have filled : sign ++ digits ≠ [] := by simp [nonempty]
    obtain ⟨c, cs, hc⟩ := List.exists_cons_of_ne_nil filled
    have first := startsInteger_of_append signed hd hc
    have apart (d : Char) (hd : startsInteger d = false) : c ≠ d := ne_of_class first hd
    have type : c :: cs ≠ ['a'] := by
      intro same
      exact apart 'a' (by decide) (List.cons.inj same).1
    rw [hc] at numeral ⊢
    have run := termOf_eq_run rfl (apart '?' (by decide)) (apart '$' (by decide))
      (apart '"' (by decide)) type
    rw [run, isBracketed_eq_false cs (apart '<' (by decide)), numeral]
    rfl
  | literal chars marked =>
    rw [termOf, literalOf_eq chars marked]

/-! Statements. -/

theorem TermText.ne_dot {term : PatternTerm} {text : List Char} (h : TermText term text) :
    text ≠ ['.'] := by
  obtain ⟨c, cs, rfl, _, _, dot⟩ := h.opens
  intro same
  exact dot (List.cons.inj same).1

/-- The statements of a block are its patterns, and none is dropped. -/
theorem BlockItems.statements_eq {patterns : List TriplePattern} {items : List (List Char)}
    (h : BlockItems patterns items) :
    ((statements items).filter (!·.isEmpty)).map patternOf? = patterns.map some := by
  induction h with
  | nil => rfl
  | last hs hq ho =>
    simp only [statements, if_neg hs.ne_dot, if_neg hq.ne_dot, if_neg ho.ne_dot, consFirst]
    simp [patternOf?, hs.termOf_eq, hq.termOf_eq, ho.termOf_eq]
  | cons hs hq ho _ ih =>
    simp only [statements, if_neg hs.ne_dot, if_neg hq.ne_dot, if_neg ho.ne_dot, if_true, consFirst]
    rw [List.filter_cons_of_pos (by rfl), List.map_cons, List.map_cons, ih]
    simp [patternOf?, hs.termOf_eq, hq.termOf_eq, ho.termOf_eq]

/-! The end of a block. -/

/-- The characters that the search for the closing brace looks at. -/
def fences : List Char :=
  ['"', '\x27', '\x7b', '\x7d']

/-- A character that is no quote and no brace. -/
def isInert (c : Char) : Bool :=
  !fences.contains c

theorem isInert_of_class {p : Char → Bool} (outside : (fences.all fun c => !p c) = true) {c : Char}
    (h : p c = true) : isInert c = true := by
  have notMem : c ∉ fences := by
    intro m
    have found := eq_false_of_mem outside m
    rw [h] at found
    contradiction
  simp [isInert, notMem]

theorem closeBraces_char {c : Char} (h : isInert c = true) (depth : Nat) (cs : List Char) :
    closeBraces depth (c :: cs) = closeBraces depth cs := by
  have apart (d : Char) (hd : isInert d = false) : c ≠ d := ne_of_class h hd
  have unquoted : quotedRest? (c :: cs) = none := by
    simp [quotedRest?, apart '"' (by decide), apart '\x27' (by decide)]
  rw [closeBraces]
  split
  · rename_i found
    rw [unquoted] at found
    contradiction
  · rw [if_neg (apart '\x7b' (by decide)), if_neg (apart '\x7d' (by decide))]

theorem closeBraces_append {front : List Char} (h : ∀ c ∈ front, isInert c = true) (depth : Nat)
    (cs : List Char) : closeBraces depth (front ++ cs) = closeBraces depth cs := by
  induction front with
  | nil => rfl
  | cons c front ih =>
    rw [List.cons_append, closeBraces_char (h c List.mem_cons_self)]
    exact ih fun d hd => h d (List.mem_cons_of_mem c hd)

theorem closeBraces_quoted {c : Char} {cs rest : List Char} (h : quotedRest? (c :: cs) = some rest)
    (depth : Nat) : closeBraces depth (c :: cs) = closeBraces depth rest := by
  rw [closeBraces]
  split
  · rename_i found
    rw [h] at found
    rw [Option.some.inj found]
  · rename_i found
    rw [h] at found
    contradiction

theorem closeBraces_close (cs : List Char) : closeBraces 1 ('\x7d' :: cs) = some cs := by
  have unquoted : quotedRest? ('\x7d' :: cs) = none := by
    simp [quotedRest?]
  rw [closeBraces]
  split
  · rename_i found
    rw [unquoted] at found
    contradiction
  · simp

theorem quoteRun_append {text : List Char} (chars : text.all isQuotedText = true)
    {rest : List Char} (single : ∀ c ∈ rest.head?, c ≠ '"') :
    quoteRun '"' (text ++ '"' :: rest) = '"' :: rest := by
  induction text with
  | nil =>
    cases rest with
    | nil => rfl
    | cons c rest =>
      have apart : c ≠ '"' := single c rfl
      rw [List.nil_append, quoteRun, if_pos rfl, if_neg apart]
      simp
  | cons c text ih =>
    simp only [List.all_cons, Bool.and_eq_true] at chars
    have quote : c ≠ '"' := ne_of_class chars.1 (by decide)
    have slash : c ≠ '\\' := ne_of_class chars.1 (by decide)
    have feed : c ≠ '\n' := ne_of_class chars.1 (by decide)
    have turn : c ≠ '\r' := ne_of_class chars.1 (by decide)
    have line : ¬(c = '\n' ∨ c = '\r') := not_or.2 ⟨feed, turn⟩
    have tail := ih chars.2
    obtain ⟨d, more, behind⟩ : ∃ d more, text ++ '"' :: rest = d :: more := by
      cases text with
      | nil => exact ⟨'"', rest, rfl⟩
      | cons d text => exact ⟨d, text ++ '"' :: rest, rfl⟩
    rw [behind] at tail
    rw [List.cons_append, behind, quoteRun, if_neg quote, if_neg line, tail]
    exact slash

/-- A quoted text ends at its second quote, whatever braces it holds. -/
theorem quotedRest?_append {text : List Char} (chars : text.all isQuotedText = true)
    {rest : List Char} (single : ∀ c ∈ rest.head?, c ≠ '"') :
    quotedRest? ('"' :: (text ++ '"' :: rest)) = some rest := by
  rw [quotedRest?, if_pos (Or.inl rfl), quoteRun_append chars single]
  simp

theorem isInert_of_all_isTermChar {cs : List Char} (h : cs.all isTermChar = true) :
    ∀ c ∈ cs, isInert c = true := by
  intro c hc
  exact isInert_of_class (by decide) (List.all_eq_true.1 h c hc)

/-- No brace of an item counts, those in a literal included. -/
theorem IsBlockItem.closeBraces_append {item rest : List Char} (h : IsBlockItem item)
    (single : ∀ c ∈ rest.head?, c ≠ '"') (depth : Nat) :
    closeBraces depth (item ++ rest) = closeBraces depth rest := by
  cases h with
  | dot =>
    have dot : ['.'].all isTermChar = true := by decide
    exact Query.closeBraces_append (isInert_of_all_isTermChar dot) depth rest
  | term h =>
    rcases h.all_isTermChar_or with plain | ⟨text, mark, _, _, rfl, chars, marked⟩
    · exact Query.closeBraces_append (isInert_of_all_isTermChar plain) depth rest
    · have inert := isInert_of_all_isTermChar marked.all_isTermChar
      have next : ∀ c ∈ (mark ++ rest).head?, c ≠ '"' := by
        cases mark with
        | nil => exact single
        | cons d mark =>
          have apart : d ≠ '"' := ne_of_class (inert d List.mem_cons_self) (by decide)
          exact forall_head?_cons (p := fun c => c ≠ '"') apart (mark ++ rest)
      have quoted := quotedRest?_append chars next
      rw [List.cons_append, List.append_assoc, List.cons_append, closeBraces_quoted quoted]
      exact Query.closeBraces_append inert depth rest

/-- The brace behind the items of a block closes it. -/
theorem LaidOut.closeBraces_eq {items : List (List Char)} {cs : List Char}
    (h : LaidOut Blank Blank isSpace items cs) (each : ∀ item ∈ items, IsBlockItem item)
    (tail : List Char) : closeBraces 1 (cs ++ '\x7d' :: tail) = some tail := by
  have space {gap : List Char} (blank : Blank gap) : ∀ c ∈ gap, isInert c = true := by
    intro c hc
    rcases blank c hc with rfl | rfl <;> decide
  induction h with
  | nil blank => rw [closeBraces_append (space blank), closeBraces_close]
  | @cons item gap rest items blank apart _ ih =>
    have tail_eq := ih fun other ho => each other (List.mem_cons_of_mem item ho)
    have block := each item List.mem_cons_self
    have outside : ∀ c ∈ rest.head?, (c == '"') = false :=
      (block.ends apart).stop.head_eq_false (p := fun c => c == '"') (by decide)
    have single : ∀ c ∈ (rest ++ '\x7d' :: tail).head?, c ≠ '"' := by
      cases rest with
      | nil => simp
      | cons d rest => simpa using outside
    rw [List.append_assoc, closeBraces_append (space blank), List.append_assoc,
      block.closeBraces_append single, tail_eq]

/-- A block is read up to the brace that closes it. -/
theorem blockClause?_eq {items : List (List Char)} {cs : List Char}
    (h : LaidOut Blank Blank isSpace items cs) (each : ∀ item ∈ items, IsBlockItem item)
    (before : Option Char) (tail : List Char) :
    blockClause? before ('\x7b' :: (cs ++ '\x7d' :: tail)) = some (cs, tail) := by
  have length : (cs ++ '\x7d' :: tail).length - tail.length - 1 = cs.length := by
    rw [List.length_append, List.length_cons]
    omega
  rw [blockClause?, h.closeBraces_eq each, Option.map_some, length, List.take_left]

end Ontogram.Query
