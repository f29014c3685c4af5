import QueryFilter.Config
import QueryFilter.Proofs.Schema.Keys
import QueryFilter.Proofs.Sql.Rendering

/-!
# One configuration at both ends

A compiler passes over the keys that have no column, without a word.  With the schema and the
compiler of one configuration no rule is lost that way: the rules that the clause writes are the
rules of the filter, one by one, each on the column that the last declaration of its key gives
(`Config.Covers`).  `clause_covers_rules` says this of the text and of the parameters of a clause.

The schema reads every declaration of a name and the compiler has one column for it.  The two meet
in `Config.exists_lastDeclaration`: the keys of a filter were declared (`Schema.Leaves`), and a
declared name has a last declaration, whose column is the one in the dictionary
(`Config.get?_columns`).
-/

namespace QueryFilter

/-! ### Columns of declared names -/

namespace Config

/-- The last declaration of a name. -/
def lastDeclaration? (c : Config) (name : String) : Option KeyEntry :=
  (c.keys.filter (·.name = name)).getLast?

/-- The compiler has the column of the last declaration. -/
lemma get?_columns (c : Config) (name : String) :
    c.columns.get? name = (c.lastDeclaration? name).map KeyEntry.columnName := by
  rw [columns, Dictionary.get?_ofPairs, lastDeclaration?, List.filter_map, List.getLast?_map,
    Option.map_map]
  rfl

/-- A name that the schema declares has a last declaration. -/
lemma exists_lastDeclaration {c : Config} {name : String} {type : ScalarType}
    (h : (name, type) ∈ c.schema.keys) : ∃ entry, c.lastDeclaration? name = some entry := by
  obtain ⟨entry, hentry, heq⟩ := List.mem_map.1 h
  have hmem : entry ∈ c.keys.filter (·.name = name) :=
    List.mem_filter.2 ⟨hentry, decide_eq_true (congrArg Prod.fst heq)⟩
  rw [lastDeclaration?]
  exact ⟨_, List.getLast?_eq_getLast_of_ne_nil (List.ne_nil_of_mem hmem)⟩

end Config

/-! ### Rules on columns -/

namespace Filter

/-- The rules of all keys with their keys, in order. -/
def keyedRules (f : Filter) : List (FilterKey × StoredRule) :=
  f.keys.flatMap fun k => k.rules.map fun r => (k, r)

/-- The values in the rules of all keys, in order, with their types. -/
def keyedValues (f : Filter) : List Parameter :=
  f.keys.flatMap fun k => (f.get k.name k.type).flatMap fun r => r.values.map (Parameter.mk k.type)

end Filter

/-- The rule is the one that is stored in the filter for a key, on the column of the last
declaration of the key. -/
def Config.Covers (c : Config) (f : Filter) (stored : FilterKey × StoredRule) (r : ColumnRule) :
    Prop :=
  ∃ entry rule, c.lastDeclaration? stored.1.name = some entry ∧ f.Stores rule stored.2 ∧
    r = ⟨stored.1.name, entry.columnName, stored.1.type, rule⟩

section Coverage

variable {c : Config} {f : Filter}

/-- The rules of a declared key are written on the column of its last declaration. -/
lemma columnRulesOf_of_lastDeclaration? {k : FilterKey} {entry : KeyEntry}
    (h : c.lastDeclaration? k.name = some entry) :
    f.columnRulesOf c.columns k =
      (f.get k.name k.type).map fun r => ⟨k.name, entry.columnName, k.type, r⟩ := by
  have hcolumn : c.columns.get? k.name = some entry.columnName := by
    rw [Config.get?_columns, h, Option.map_some]
  unfold Filter.columnRulesOf
  rw [hcolumn]

/-- If the keys of a filter are declared, no rule is left out. -/
lemma forall₂_covers (hf : f.Parsed)
    (hdeclared : ∀ k ∈ f.keys, ∃ entry, c.lastDeclaration? k.name = some entry) :
    List.Forall₂ (c.Covers f) f.keyedRules (f.columnRules c.columns) := by
  rw [Filter.keyedRules, Filter.columnRules, List.flatMap_def, List.flatMap_def]
  apply List.rel_flatten
  rw [List.forall₂_map_left_iff, List.forall₂_map_right_iff, List.forall₂_same]
  intro k hk
  obtain ⟨entry, hentry⟩ := hdeclared k hk
  have hget := Filter.get_eq_of_key? (hf.recorded.key?_eq_some hk) rfl
  rw [columnRulesOf_of_lastDeclaration? hentry, hget, List.map_map, List.forall₂_map_left_iff,
    List.forall₂_map_right_iff, List.forall₂_same]
  intro stored hstored
  obtain ⟨values, hvalues, -⟩ := hf.compilable k hk stored hstored
  have hslice : f.values? k.type stored = some values := hvalues
  refine ⟨entry, ⟨stored.comparator, values⟩, hentry, ⟨rfl, hslice⟩, ?_⟩
  simp [hslice]

/-- If the keys of a filter are declared, each of its values becomes a parameter. -/
lemma length_parameters_columnRules
    (hdeclared : ∀ k ∈ f.keys, ∃ entry, c.lastDeclaration? k.name = some entry) :
    ((f.columnRules c.columns).flatMap ColumnRule.parameters).length = f.keyedValues.length := by
  unfold Filter.columnRules Filter.keyedValues
  rw [List.flatMap_assoc, List.length_flatMap, List.length_flatMap]
  apply congrArg List.sum
  apply List.map_congr_left
  intro k hk
  obtain ⟨entry, hentry⟩ := hdeclared k hk
  rw [columnRulesOf_of_lastDeclaration? hentry, List.flatMap_map, List.length_flatMap,
    List.length_flatMap]
  apply congrArg List.sum
  apply List.map_congr_left
  intro r _
  rw [ColumnRule.length_parameters, ColumnRule.count, List.length_map]

end Coverage

/-- A filter that a configuration has read is rendered by the same configuration.  The clause is
written from the rules of the filter on columns.  These are all rules of all keys, one for one and
in order, each on the column of the last declaration of its key.  The clause has as many parameters
as the rules of the filter have values. -/
theorem clause_covers_rules {c : Config} {source : Source} {f : Filter}
    (h : c.schema.parse source = .ok f) :
    ∃ clause, c.compiler.render f = .ok clause ∧
      clause.sql = clauseText c.placeholder (f.columnRules c.columns) ∧
      clause.params = (f.columnRules c.columns).flatMap ColumnRule.parameters ∧
      List.Forall₂ (c.Covers f) f.keyedRules (f.columnRules c.columns) ∧
      clause.params.length = f.keyedValues.length := by
  have hparsed := Schema.parsed_of_parse h
  have hdeclared : ∀ k ∈ f.keys, ∃ entry, c.lastDeclaration? k.name = some entry := by
    intro k hk
    exact Config.exists_lastDeclaration ((Schema.leaves_of_foldlM h).declared k hk)
  have hrender : c.compiler.render f = .ok ⟨clauseText c.placeholder (f.columnRules c.columns),
      (f.columnRules c.columns).flatMap ColumnRule.parameters⟩ :=
    hparsed.render_eq_ok c.placeholder c.columns
  exact ⟨_, hrender, rfl, rfl, forall₂_covers hparsed hdeclared,
    length_parameters_columnRules hdeclared⟩

/-- A name declared twice is read twice, and both rules are on the column declared last. -/
theorem clause_covers_rules_of_repeated_name :
    ∃ (c : Config) (f : Filter) (clause : Clause),
      c.keys = [⟨"age", .integer, some "old"⟩, ⟨"role", .string, none⟩,
        ⟨"age", .integer, some "new"⟩] ∧
      c.schema.parse (.ofList [("role", "is!DBA,Tester"), ("age", "lt!30")]) = .ok f ∧
      c.compiler.render f = .ok clause ∧
      clause.sql = "WHERE new < $1 AND new < $2 AND role IN ($3,$4)" ∧
      List.Forall₂ (c.Covers f) f.keyedRules (f.columnRules c.columns) ∧
      f.keyedRules.length = 3 ∧ clause.params.length = 4 := by
  let c : Config := ⟨.numbered, .unified, none,
    [⟨"age", .integer, some "old"⟩, ⟨"role", .string, none⟩, ⟨"age", .integer, some "new"⟩]⟩
  let f : Filter := ((Filter.empty.append "age" .integer [30] .lessThan).append "role" .string
    ["DBA", "Tester"] .is).append "age" .integer [30] .lessThan
  have hparse : c.schema.parse (.ofList [("role", "is!DBA,Tester"), ("age", "lt!30")]) = .ok f :=
    rfl
  obtain ⟨clause, hrender, hsql, -, hcovers, hcount⟩ := clause_covers_rules hparse
  have hlist : f.columnRules c.columns =
      [⟨"age", "new", .integer, ⟨.lessThan, [30]⟩⟩, ⟨"age", "new", .integer, ⟨.lessThan, [30]⟩⟩,
        ⟨"role", "role", .string, ⟨.is, ["DBA", "Tester"]⟩⟩] := rfl
  refine ⟨c, f, clause, rfl, hparse, hrender, ?_, hcovers, rfl, hcount⟩
  rw [hsql, hlist]
  decide +kernel

end QueryFilter
