import Ontogram.Proofs.Identifier
import Ontogram.Proofs.OutlineAgreement
import Ontogram.Proofs.QueryReply

set_option autoImplicit false

namespace Ontogram

namespace Table

variable {α : Type}

/-- What is written last counts, and what is not written stays. -/
theorem get?_insertAll (pairs : List (String × α)) (t : Table α) (key : String) :
    (t.insertAll pairs).get? key = ((ofList pairs).get? key).or (t.get? key) := by
  induction pairs generalizing t with
  | nil => rfl
  | cons p pairs ih =>
    have there := ih (t.insert p.1 p.2)
    have alone := ih ((⟨[]⟩ : Table α).insert p.1 p.2)
    rw [get?_insert] at there alone
    change ((t.insert p.1 p.2).insertAll pairs).get? key =
      ((((⟨[]⟩ : Table α).insert p.1 p.2).insertAll pairs).get? key).or (t.get? key)
    rw [there, alone, Option.or_assoc]
    congr 1
    split <;> rfl

theorem nodup_keys_insert {t : Table α} (once : t.keys.Nodup) (key : String) (value : α) :
    (t.insert key value).keys.Nodup := by
  rw [keys_insert]
  split
  · exact once
  · rename_i new
    refine List.nodup_append.2 ⟨once, List.nodup_singleton key, ?_⟩
    intro k known l written same
    exact new (List.mem_singleton.1 written ▸ same ▸ known)

theorem nodup_keys_insertAll {t : Table α} (once : t.keys.Nodup) (pairs : List (String × α)) :
    (t.insertAll pairs).keys.Nodup := by
  induction pairs generalizing t with
  | nil => exact once
  | cons p pairs ih => exact ih (nodup_keys_insert once p.1 p.2)

theorem get?_insertNew (t : Table α) (key k : String) (value : α) :
    (t.insertNew key value).get? k =
      if k = key then some ((t.get? key).getD value) else t.get? k := by
  unfold insertNew
  split
  · rename_i there
    obtain ⟨v, found⟩ := Option.isSome_iff_exists.1 there
    split
    · rename_i same
      rw [same, found, Option.getD_some]
    · rfl
  · rename_i new
    rw [get?_insert, Option.not_isSome_iff_eq_none.1 new, Option.getD_none]

theorem nodup_keys_insertNew {t : Table α} (once : t.keys.Nodup) (key : String) (value : α) :
    (t.insertNew key value).keys.Nodup := by
  unfold insertNew
  split
  · exact once
  · exact nodup_keys_insert once key value

/-- Writing the entries of a table one after the other gives what the table gives. -/
theorem get?_ofList_entries {t : Table α} (once : t.keys.Nodup) (key : String) :
    (ofList t.entries).get? key = t.get? key := by
  ext value
  rw [get?_ofList_eq_some_iff once]
  exact ⟨get?_of_mem once, mem_of_valueIn⟩

end Table

namespace Naming

variable (n : Naming)

def given? (key : String) : Option String :=
  (Table.ofList n.namespaces).get? key

theorem baseName_ne_empty : n.resolver.baseName ≠ "" := by
  unfold resolver Resolver.create
  dsimp only
  split
  · decide
  · assumption

theorem get?_prefixes (key : String) :
    n.resolver.prefixes.get? key = (n.given? key).or
      (if key = n.resolver.baseName then some n.resolver.base
        else (Table.ofList Namespace.standard).get? key) := by
  refine (Table.get?_insertAll n.namespaces _ key).trans ?_
  rw [Table.get?_insert]
  rfl

theorem get?_prefixes_baseName :
    n.resolver.prefixes.get? n.resolver.baseName =
      some ((n.given? n.resolver.baseName).getD n.resolver.base) := by
  rw [get?_prefixes, if_pos rfl]
  cases n.given? n.resolver.baseName <;> rfl

/-- A name that was given for the base stands for it, unless the namespaces give it another
meaning. -/
theorem get?_prefixes_of_ne (named : n.baseName ≠ "") :
    n.resolver.prefixes.get? n.baseName = some ((n.given? n.baseName).getD n.resolver.base) := by
  have same : n.resolver.baseName = n.baseName := if_neg named
  rw [← same]
  exact n.get?_prefixes_baseName

theorem get?_prefixes_empty : n.resolver.prefixes.get? "" = n.given? "" := by
  have standard : (Table.ofList Namespace.standard).get? "" = none := by decide
  rw [get?_prefixes, if_neg n.baseName_ne_empty.symm, standard, Option.or_none]

theorem nodup_keys_prefixes : n.resolver.prefixes.keys.Nodup := by
  refine Table.nodup_keys_insertAll (Table.nodup_keys_insert ?_ _ _) n.namespaces
  exact Table.nodup_keys_insertAll (t := ⟨[]⟩) List.nodup_nil Namespace.standard

end Naming

namespace Query

/-- A text without declarations has the prefixes of its surroundings. -/
theorem get?_prefixes_of_parse {t : Table String} (once : t.keys.Nodup) {text : String}
    {parsed : Parsed} (read : parse t.entries text = .ok parsed)
    (undeclared : prefixClauses (Text.expandTabs (stripComments text.toList)) = [])
    {key base : String} (given : t.get? key = some base) :
    parsed.query.prefixes.get? key = some base := by
  rw [parse_eq_map] at read
  cases alone : parse [] text with
  | error e =>
    rw [alone] at read
    cases read
  | ok first =>
    rw [alone] at read
    cases read
    change ((((Table.ofList Namespace.standard).insertAll t.entries).insertAll
      (prefixClauses (Text.expandTabs (stripComments text.toList)))).get? key) = some base
    rw [undeclared, Table.get?_insertAll, Table.get?_insertAll, Table.get?_ofList_entries once,
      given]
    rfl

end Query

namespace Service

open Text (IsIdentifier)

/-- What a query over the encoding of a diagram runs over under settings that are texts. -/
theorem storeFor_encoding (d : Naming) (limits : QuerySettings) (diagram : Diagram) :
    let t := Encoding.build d diagram.entities diagram.relations (some diagram.metadata)
    let n := d.withMetadata diagram.metadata
    storeFor ⟨.ofNaming d, limits⟩ .encoding diagram =
      .ok (t.triples, openPrefixes t n.baseName d.base) := by
  simp only [storeFor, encoding, NamingSettings.encode_ofNaming,
    NamingSettings.queryNameFor_ofNaming, fromSettings, bind, Except.bind]
  rfl

section Open

variable {t : Encoding} {n : Naming} (names : t.prefixes = n.resolver.prefixes) (base : String)
include names

theorem nodup_keys_openPrefixes (baseName : String) :
    (openPrefixes t baseName base).keys.Nodup :=
  Table.nodup_keys_insertNew (names ▸ n.nodup_keys_prefixes) _ _

theorem get?_openPrefixes_of_ne (named : n.baseName ≠ "") :
    (openPrefixes t n.baseName base).get? n.baseName =
      some ((n.given? n.baseName).getD n.resolver.base) := by
  rw [openPrefixes, Table.get?_insertNew, if_neg named, names, n.get?_prefixes_of_ne named]

/-- The empty prefix stands for what the name of the base stands for, or for the base as it was
given where its name is empty, unless the namespaces give it another meaning. -/
theorem get?_openPrefixes_empty :
    (openPrefixes t n.baseName base).get? "" = some ((n.given? "").getD
      (if n.baseName = "" then base
        else (n.given? n.baseName).getD n.resolver.base)) := by
  rw [openPrefixes, Table.get?_insertNew, if_pos rfl, names, n.get?_prefixes_empty]
  by_cases named : n.baseName = ""
  · rw [if_pos named, named, n.get?_prefixes_empty]
    cases n.given? "" <;> rfl
  · rw [if_neg named, n.get?_prefixes_of_ne named, Option.getD_some]

end Open

end Service

/-- The subject of an entity whose label is an identifier and no word of the vocabulary is its
label at the base. -/
theorem Encoding.subjectOf_of_isIdentifier (r : Resolver) {e : Entity}
    (unnamed : e.iri.bind Text.nonEmpty = none) (identifier : Text.IsIdentifier e.label)
    (own : e.label ∉ Vocabulary.owlWords) : subjectOf r e = .iri (r.base ++ e.label) := by
  obtain ⟨c, cs, shape, -, word⟩ := identifier.exists_cons
  have bare : Resolver.IsBareName e.label := by
    refine ⟨⟨c, by rw [shape]; rfl, Text.isBlank_eq_false_of_isWord word, ?_, ?_⟩, ?_, ?_, own⟩
    · exact Text.ne_of_class word (by decide)
    · exact Text.ne_of_class word (by decide)
    · exact fun d last =>
        Text.isBlank_eq_false_of_isWord (identifier.chars d (List.mem_of_mem_getLast? last))
    · exact identifier.notMem (by decide)
  have name : Text.orElse e.iri e.label = e.label := by rw [Text.orElse, unnamed]; rfl
  rw [subjectOf, name, r.resolve_of_isBareName bare, identifier.underscored_eq]

/-- What declares such an entity is said of its label at the base. -/
theorem Encoding.mem_build_of_isIdentifier (d : Naming) (diagram : Diagram) {e : Entity}
    (he : e ∈ diagram.entities) (unnamed : e.iri.bind Text.nonEmpty = none)
    (identifier : Text.IsIdentifier e.label) (own : e.label ∉ Vocabulary.owlWords) {t : Triple} :
    let n := d.withMetadata diagram.metadata
    t ∈ declaration (.iri (n.resolver.base ++ e.label)) n.language e →
      t ∈ (build d diagram.entities diagram.relations (some diagram.metadata)).triples := by
  intro n ht
  refine mem_withResolver_of_mem_declaration (r := n.resolver) he ?_
  rwa [subjectOf_of_isIdentifier n.resolver unnamed identifier own]

namespace Service

open Text (IsIdentifier expandTabs)
open Query (IsPrefixName prefixClauses stripComments termOf)

/-- What a query without declarations expands an identifier to, behind the name of the base, an
empty prefix or none. -/
theorem constant?_of_isIdentifier {t : Encoding} {n : Naming}
    (names : t.prefixes = n.resolver.prefixes) (base : String) {label : String}
    (identifier : IsIdentifier label) (word : label ≠ "a") {text : String} {parsed : Query.Parsed}
    (read : Query.parse (openPrefixes t n.baseName base).entries text = .ok parsed)
    (undeclared : prefixClauses (expandTabs (stripComments text.toList)) = []) :
    let asked (token : String) := (termOf token.toList).constant? parsed.query.prefixes
    let space := (n.given? n.baseName).getD n.resolver.base
    let emptySpace := (n.given? "").getD (if n.baseName = "" then base else space)
    (n.baseName ≠ "" → IsPrefixName n.baseName →
      asked (n.baseName ++ ":" ++ label) = some (space ++ label)) ∧
    asked label = some (emptySpace ++ label) ∧
    asked (":" ++ label) = some (emptySpace ++ label) := by
  intro asked space emptySpace
  have once := nodup_keys_openPrefixes names base n.baseName
  have path : label.toList.head? ≠ some '/' := fun slash =>
    identifier.notMem (by decide) (List.mem_of_mem_head? slash)
  have qualified {key space : String} (usable : IsPrefixName key)
      (given : parsed.query.prefixes.get? key = some space) :
      asked (key ++ ":" ++ label) = some (space ++ label) := by
    simp only [asked, Query.termOf_qualified identifier usable, PatternTerm.constant?,
      PatternTerm.expand_qualified usable.single usable.free path given]
  have empty : parsed.query.prefixes.get? "" = some emptySpace :=
    Query.get?_prefixes_of_parse once read undeclared (get?_openPrefixes_empty names base)
  have bare : asked label = some (emptySpace ++ label) := by
    simp only [asked, Query.termOf_of_isIdentifier identifier word, PatternTerm.constant?,
      PatternTerm.expand_bare (identifier.notMem (by decide)) empty]
  have nameless : IsPrefixName "" := ⟨by simp, by decide, by decide⟩
  refine ⟨fun named usable => qualified usable ?_, bare, by simpa using qualified nameless empty⟩
  exact Query.get?_prefixes_of_parse once read undeclared
    (get?_openPrefixes_of_ne names base named)

/-- A class that is named by its label. -/
def car : Entity :=
  { id := "1", label := "Car", iri := none, description := none, annotations := []
    body := .concept [] [] }

theorem isIdentifier_car : IsIdentifier car.label := by
  have word : "Car".toList.all Text.isWord = true := by decide
  exact ⟨⟨'C', rfl, by decide⟩, List.all_eq_true.1 word⟩

/-- A diagram of one class under some namespaces. -/
def garage (namespaces : List (String × String)) : Diagram :=
  { entities := [car], relations := []
    metadata :=
      { name := "", baseIri := none, defaultPrefix := some "g", ontologyIri := none
        versionIri := none, description := none, language := none
        namespaces := .ofList namespaces, annotations := [] } }

def aboutCars : String :=
  "SELECT ?p { g:Car ?p :Car . Car ?p ?o }"

theorem exists_parse_aboutCars (surroundings : List (String × String)) :
    ∃ parsed, Query.parse surroundings aboutCars = .ok parsed := by
  have read : (Query.parse [] aboutCars).toOption.isSome = true := by decide +kernel
  rw [Query.parse_eq_map]
  cases alone : Query.parse [] aboutCars with
  | error e =>
    rw [alone] at read
    cases read
  | ok first => exact ⟨_, rfl⟩

theorem prefixClauses_aboutCars :
    prefixClauses (expandTabs (stripComments aboutCars.toList)) = [] := by
  decide +kernel

end Service

end Ontogram
