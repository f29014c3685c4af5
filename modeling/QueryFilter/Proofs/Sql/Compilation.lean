import QueryFilter.Proofs.Grammar.Machine
import QueryFilter.Sql.Condition

/-!
# What the compiler asks of a filter

Which filters have predicates, and what of a filter the text of its clause depends on.
-/

namespace QueryFilter

/-! ## Filters that were read can be compiled

A filter that reading has built, with values accepted and refused in any order, has predicates as
soon as there are columns.  What the compiler asks of a rule is `StoredRule.Compilable`: its range
refers to values, and to several only under a membership comparator.  Appending a well-formed rule
preserves it for the old rules, whose values stay where they are, and the new rule has it, since a
comparator that takes a list in some profile is a membership comparator.
-/

/-- The compiler makes a predicate of the rule: its range refers to values, and to several only
under a membership comparator. -/
def StoredRule.Compilable (arenas : Arenas) (type : ScalarType) (r : StoredRule) : Prop :=
  ∃ values, r.indices.slice? (arenas.get type) = some values ∧ values ≠ [] ∧
    (1 < values.length → r.comparator.isMembership = true)

/-- Reading values, whatever became of them, has built the filter.  Every value may be read with a
schema of its own.  The only outcome left out is a clash of types, which callers must avoid. -/
inductive Filter.Parsed : Filter → Prop
  | empty : Filter.Parsed .empty
  | parseKey {f : Filter} (hf : f.Parsed) (s : Schema) (key : String) (type : ScalarType)
      (raw : String) (noClash : ∀ c, (s.parseKey key type raw f).status ≠ .error (.clash c)) :
      Filter.Parsed (s.parseKey key type raw f).filter

/-! ### Rules of filters that were read -/

namespace Filter

variable {f : Filter} {name : String} {type : ScalarType} {profile : Profile}

/-- A well-formed rule leaves every rule compilable. -/
lemma compilable_append (hf : f.EveryRule StoredRule.Compilable) (h : f.Admits name type)
    {r : Rule type} (hr : r.WellFormed profile) :
    (f.append name type r.values r.comparator).EveryRule StoredRule.Compilable := by
  refine EveryRule.append hf h ?_ ?_
  · rintro t old ⟨values, hvalues, hne, harity⟩
    have hwithin := IndexRange.within_of_slice?_eq_some hvalues
    refine ⟨values, ?_, hne, harity⟩
    rw [slice?_append_arenas hwithin, hvalues]
  · refine ⟨r.values, values?_storedRule f name r.values r.comparator, hr.ne_nil, fun hlong => ?_⟩
    exact Profile.isMembership_of_acceptsList (hr.arity hlong)

/-- The rules of a filter that was read are compilable. -/
lemma Parsed.compilable (hf : f.Parsed) : f.EveryRule StoredRule.Compilable := by
  induction hf with
  | empty =>
    intro k hk
    cases hk
  | @parseKey f hf s key type raw noClash ih =>
    exact ((s.target key type).extends_readInto raw f).preserves ih fun _ _ hg hadmits hr =>
      compilable_append hg hadmits hr

/-- A filter that was read is recorded. -/
lemma Parsed.recorded (hf : f.Parsed) : f.Recorded := by
  induction hf with
  | empty => exact recorded_empty
  | parseKey hf s key type raw noClash ih => exact Schema.recorded_parseKey ih s key type raw

end Filter

namespace Schema

variable {s : Schema} {source : Source} {f g : Filter}

/-- Reading the value of a declared key, if it ends well, is reading a value. -/
lemma parsed_of_parseEntry (hf : f.Parsed) {entry : String × ScalarType}
    (h : s.parseEntry source f entry = .ok g) : g.Parsed := by
  rw [parseEntry] at h
  split at h
  · obtain rfl : f = g := Except.ok.inj h
    exact hf
  · next raw _ =>
    cases hstatus : (s.parseKey entry.1 entry.2 raw f).status with
    | error e =>
      rw [Outcome.toExcept, hstatus] at h
      cases h
    | ok _ =>
      rw [Outcome.toExcept, hstatus] at h
      obtain rfl := Except.ok.inj h
      exact hf.parseKey s entry.1 entry.2 raw fun c => by simp [hstatus]

/-- The result of reading a source was read value by value. -/
lemma parsed_of_parse (h : s.parse source = .ok f) : f.Parsed := by
  have hstart : Filter.empty.Parsed := .empty
  rw [parse] at h
  generalize s.keys = keys at h
  generalize Filter.empty = start at h hstart
  induction keys generalizing start with
  | nil =>
    obtain rfl : start = f := Except.ok.inj h
    exact hstart
  | cons entry keys ih =>
    rw [List.foldlM_cons] at h
    cases hentry : s.parseEntry source start entry with
    | error e =>
      rw [hentry] at h
      cases h
    | ok next =>
      rw [hentry] at h
      exact ih next h (parsed_of_parseEntry hstart hentry)

end Schema

/-! ### Predicates of compilable rules -/

/-- A list is mapped without failure when every element is. -/
lemma exists_mapM_eq_ok {α β ε : Type} {f : α → Except ε β} {xs : List α}
    (h : ∀ x ∈ xs, ∃ y, f x = .ok y) : ∃ ys, xs.mapM f = .ok ys := by
  induction xs with
  | nil => exact ⟨[], rfl⟩
  | cons x xs ih =>
    obtain ⟨y, hy⟩ := h x List.mem_cons_self
    obtain ⟨ys, hys⟩ := ih fun x' hx' => h x' (List.mem_cons_of_mem _ hx')
    refine ⟨y :: ys, ?_⟩
    rw [List.mapM_cons, hy, hys]
    rfl

/-- The results of a list, one for each element. -/
lemma forall₂_of_mapM_eq_ok {α β ε : Type} {f : α → Except ε β} {xs : List α} {ys : List β}
    (h : xs.mapM f = .ok ys) : List.Forall₂ (fun x y => f x = .ok y) xs ys := by
  induction xs generalizing ys with
  | nil =>
    obtain rfl : [] = ys := Except.ok.inj h
    exact .nil
  | cons x xs ih =>
    rw [List.mapM_cons] at h
    cases hx : f x with
    | error e =>
      rw [hx] at h
      cases h
    | ok y =>
      cases hxs : xs.mapM f with
      | error e =>
        rw [hx, hxs] at h
        cases h
      | ok zs =>
        rw [hx, hxs] at h
        obtain rfl : y :: zs = ys := Except.ok.inj h
        exact .cons hx (ih hxs)

namespace Predicate

variable {key column : String} {comparator : Comparator} {params : List Parameter}

/-- Several parameters are a list for a membership comparator, and too many for another. -/
lemma ofRule_of_several (h : 1 < params.length) :
    ofRule key column comparator params =
      if comparator.isMembership then .ok (member column params)
      else .error (.multipleValues key comparator params.length) := by
  match params with
  | [] => exact absurd h (by simp)
  | [_] => exact absurd h (by simp)
  | _ :: _ :: _ => rfl

/-- The predicate of a rule is on its column and has its parameters. -/
lemma column_parameters_of_ofRule {p : Predicate}
    (h : ofRule key column comparator params = .ok p) :
    p.column = column ∧ p.parameters = params := by
  match params with
  | [] => cases h
  | [value] =>
    obtain rfl := Except.ok.inj h
    exact ⟨rfl, rfl⟩
  | value :: value' :: values =>
    rw [ofRule_of_several (by simp)] at h
    split at h
    · obtain rfl := Except.ok.inj h
      exact ⟨rfl, rfl⟩
    · cases h

/-- Parameters make a predicate if there are any, and several under a membership comparator only. -/
lemma exists_ofRule_eq_ok (hne : params ≠ [])
    (harity : 1 < params.length → comparator.isMembership = true) (key column : String) :
    ∃ p, ofRule key column comparator params = .ok p := by
  by_cases hlong : 1 < params.length
  · rw [ofRule_of_several hlong, if_pos (harity hlong)]
    exact ⟨_, rfl⟩
  · have hpos : 0 < params.length := List.length_pos_iff.2 hne
    obtain ⟨value, rfl⟩ := List.length_eq_one_iff.1 (show params.length = 1 by omega)
    exact ⟨.compare column comparator value, rfl⟩

end Predicate

namespace Filter

variable {f : Filter}

/-- A compilable rule has as many parameters as values. -/
lemma exists_parameters_of_compilable {type : ScalarType} {r : StoredRule}
    (h : r.Compilable f.arenas type) :
    ∃ values, f.values? type r = some values ∧ f.parameters type r ≠ [] ∧
      (1 < (f.parameters type r).length → r.comparator.isMembership = true) := by
  obtain ⟨values, hvalues, hne, harity⟩ := h
  have hparams : f.parameters type r = values.map (Parameter.ofValue r.comparator type) := by
    rw [parameters, values?, hvalues, Option.getD_some]
  refine ⟨values, hvalues, ?_, ?_⟩
  · rw [hparams]
    simpa using hne
  · rw [hparams, List.length_map]
    exact harity

/-- The predicates of a filter are those of its keys, one list for each. -/
lemma exists_forall₂_of_predicates_eq_ok {columns : Dictionary String} {ps : List Predicate}
    (h : f.predicates (some columns) = .ok ps) :
    ∃ pss, List.Forall₂ (fun k ps => f.keyPredicates columns k = .ok ps) f.keys pss ∧
      pss.flatten = ps := by
  rw [predicates] at h
  cases hkeys : f.keys.mapM (f.keyPredicates columns) with
  | error e =>
    rw [hkeys] at h
    cases h
  | ok pss =>
    rw [hkeys] at h
    exact ⟨pss, forall₂_of_mapM_eq_ok hkeys, Except.ok.inj h⟩

/-- A filter of compilable rules has predicates, whatever the columns are. -/
lemma exists_predicates_eq_ok (hf : f.EveryRule StoredRule.Compilable)
    (columns : Dictionary String) : ∃ ps, f.predicates (some columns) = .ok ps := by
  have hkey : ∀ k ∈ f.keys, ∃ ps, f.keyPredicates columns k = .ok ps := by
    intro k hk
    rw [keyPredicates]
    cases columns.get? k.name with
    | none => exact ⟨[], rfl⟩
    | some column =>
      refine exists_mapM_eq_ok fun r hr => ?_
      obtain ⟨_, -, hne, harity⟩ := exists_parameters_of_compilable (hf k hk r hr)
      exact Predicate.exists_ofRule_eq_ok hne harity k.name column
  obtain ⟨pss, hpss⟩ := exists_mapM_eq_ok hkey
  refine ⟨pss.flatten, ?_⟩
  rw [predicates, hpss]
  rfl

/-- A filter that was read has a clause, whatever the columns are. -/
lemma Parsed.exists_render_eq_ok (hf : f.Parsed) (style : PlaceholderStyle)
    (columns : Dictionary String) :
    ∃ clause, Compiler.render ⟨style, some columns⟩ f = .ok clause := by
  obtain ⟨ps, hps⟩ := exists_predicates_eq_ok hf.compilable columns
  refine ⟨.ofPredicates style ps, ?_⟩
  rw [Compiler.render, hps]
  rfl

/-- A filter that was read has a condition, whatever the columns are. -/
lemma Parsed.exists_condition_eq_ok (hf : f.Parsed) (style : PlaceholderStyle)
    (columns : Dictionary String) :
    ∃ condition, Compiler.condition ⟨style, some columns⟩ f = .ok condition := by
  obtain ⟨ps, hps⟩ := exists_predicates_eq_ok hf.compilable columns
  refine ⟨⟨ps.map .ofPredicate⟩, ?_⟩
  rw [Compiler.condition, hps]
  rfl

end Filter

/-- A filter that reading has built, value by value or from a whole source, compiles to a clause and
to a condition as soon as the compiler has columns.  All its ranges refer to values, no rule is
without parameters, and only the rules of membership comparators have several. -/
theorem compiles_of_parsed {f : Filter}
    (hf : f.Parsed ∨ ∃ (s : Schema) (source : Source), s.parse source = .ok f) :
    (∀ (style : PlaceholderStyle) (columns : Dictionary String),
        (∃ clause, Compiler.render ⟨style, some columns⟩ f = .ok clause) ∧
          ∃ condition, Compiler.condition ⟨style, some columns⟩ f = .ok condition) ∧
      ∀ k ∈ f.keys, ∀ r ∈ k.rules,
        ∃ values, f.values? k.type r = some values ∧ f.parameters k.type r ≠ [] ∧
          (1 < (f.parameters k.type r).length → r.comparator.isMembership = true) := by
  have hparsed : f.Parsed := by
    rcases hf with hf | ⟨s, source, h⟩
    · exact hf
    · exact Schema.parsed_of_parse h
  exact ⟨fun style columns => ⟨hparsed.exists_render_eq_ok style columns,
      hparsed.exists_condition_eq_ok style columns⟩,
    fun k hk r hr => Filter.exists_parameters_of_compilable (hparsed.compilable k hk r hr)⟩

/-- A value whose second group is refused leaves a filter with a rule, and it compiles. -/
theorem compiles_of_refused_group :
    (Schema.empty.parseKey "level" .integer "is!1,2|lt!x" .empty).status =
        .error (.rejected (.conversion "level" "x" .integer .internet)) ∧
      (Schema.empty.parseKey "level" .integer "is!1,2|lt!x" .empty).filter.size = 1 ∧
      ∃ clause, Compiler.render ⟨.numbered, some (Dictionary.empty.insert "level" "lvl")⟩
        (Schema.empty.parseKey "level" .integer "is!1,2|lt!x" .empty).filter = .ok clause := by
  have hstatus : (Schema.empty.parseKey "level" .integer "is!1,2|lt!x" .empty).status =
      .error (.rejected (.conversion "level" "x" .integer .internet)) := by decide +kernel
  have hparsed : (Schema.empty.parseKey "level" .integer "is!1,2|lt!x" .empty).filter.Parsed := by
    refine .parseKey .empty Schema.empty "level" .integer "is!1,2|lt!x" fun c hclash => ?_
    rw [hstatus] at hclash
    cases hclash
  exact ⟨hstatus, by decide +kernel, ((compiles_of_parsed (.inl hparsed)).1 _ _).1⟩

/-! ## Values do not influence the text of a clause

The outline of a filter forgets its values and their types: it has the names of the keys and, for
each rule, its comparator and the number of its values.  Two filters with one outline are compiled
to one text, or are refused with one error.

The number of values is the width of the range of a rule (`Filter.outline_eq_map`), so the compiler
could work from the outline alone, with the same parameter in all places.  That is what
`Outline.predicates` does, and `Filter.map_blank_predicates` says that it finds the predicates of
the filter, up to their parameters.  The text of a clause does not depend on these.
-/

/-- A rule without its values. -/
structure RuleOutline where
  comparator : Comparator
  count : Nat
  deriving DecidableEq, Repr

/-- A key without the values of its rules. -/
structure KeyOutline where
  name : String
  rules : List RuleOutline
  deriving DecidableEq, Repr

/-- The keys of a filter, in order, without values. -/
abbrev Outline := List KeyOutline

/-- The names of the keys, and the comparator and the number of values of each of their rules. -/
def Filter.outline (f : Filter) : Outline :=
  f.keys.map fun k => ⟨k.name, (f.get k.name k.type).map fun r => ⟨r.comparator, r.values.length⟩⟩

/-- The outline of a rule, taken from its range. -/
def StoredRule.outline (r : StoredRule) : RuleOutline :=
  ⟨r.comparator, r.indices.stop - r.indices.start⟩

/-- The outline of a key, taken from the ranges of its rules. -/
def FilterKey.outline (k : FilterKey) : KeyOutline :=
  ⟨k.name, k.rules.map StoredRule.outline⟩

/-- The parameter in the place of all others. -/
def Parameter.blank : Parameter :=
  .string ""

namespace Predicate

/-- The predicate with its parameters blanked out. -/
def blank : Predicate → Predicate
  | compare column comparator _ => compare column comparator .blank
  | member column values => member column (List.replicate values.length .blank)

end Predicate

namespace Outline

/-- The blank predicates of a key. -/
def keyPredicates (columns : Dictionary String) (k : KeyOutline) :
    Except CompileError (List Predicate) :=
  match columns.get? k.name with
  | some column =>
    k.rules.mapM fun r =>
      Predicate.ofRule k.name column r.comparator (List.replicate r.count .blank)
  | none => .ok []

/-- The blank predicates of a filter with an outline. -/
def predicates (columns : Columns) (outline : Outline) : Except CompileError (List Predicate) :=
  match columns with
  | none => .error .missingColumns
  | some columns => (outline.mapM (keyPredicates columns)).map List.flatten

end Outline

/-! ### Counting values by ranges -/

namespace Filter

variable {f : Filter}

/-- The outline of a recorded filter can be taken from its ranges. -/
lemma outline_eq_map (hf : f.Recorded) : f.outline = f.keys.map FilterKey.outline := by
  refine List.map_congr_left fun k hk => ?_
  have hrules : ((f.get k.name k.type).map fun r =>
      (⟨r.comparator, r.values.length⟩ : RuleOutline)) = k.rules.map StoredRule.outline := by
    rw [get_eq_of_key? (hf.key?_eq_some hk) rfl, List.map_map]
    refine List.map_congr_left fun r hr => ?_
    have hlen := length_values?_getD (hf.inBounds k hk r hr)
    rw [Function.comp_apply, StoredRule.outline, hlen]
  rw [hrules, FilterKey.outline]

end Filter

/-! ### Blank predicates -/

/-- Mapping the results of a list is the same as running on its image, if it is for each element. -/
lemma map_mapM_eq_mapM_map {α β γ δ ε : Type} {f : α → Except ε β} {g : β → γ}
    {h : δ → Except ε γ} {k : α → δ} {xs : List α}
    (heq : ∀ x ∈ xs, (f x).map g = h (k x)) :
    (xs.mapM f).map (List.map g) = (xs.map k).mapM h := by
  induction xs with
  | nil => rfl
  | cons x xs ih =>
    have hhead := heq x List.mem_cons_self
    have htail := ih fun x' hx' => heq x' (List.mem_cons_of_mem _ hx')
    rw [List.map_cons, List.mapM_cons, List.mapM_cons, ← hhead, ← htail]
    cases f x with
    | error e => rfl
    | ok y => cases xs.mapM f <;> rfl

namespace Predicate

lemma text_blank (style : PlaceholderStyle) (next : Nat) (p : Predicate) :
    p.blank.text style next = p.text style next := by
  cases p with
  | compare column comparator value => rfl
  | member column values => rw [blank, text, text, List.length_replicate]

lemma length_parameters_blank (p : Predicate) :
    p.blank.parameters.length = p.parameters.length := by
  cases p with
  | compare column comparator value => rfl
  | member column values => exact List.length_replicate

/-- Whether a rule has a predicate, and which one up to its parameters, depends on their number. -/
lemma map_blank_ofRule (key column : String) (comparator : Comparator) (params : List Parameter) :
    (ofRule key column comparator params).map blank =
      ofRule key column comparator (List.replicate params.length .blank) := by
  match params with
  | [] => rfl
  | [value] => rfl
  | value :: value' :: values =>
    have hlong : 1 < (value :: value' :: values).length := by simp
    generalize value :: value' :: values = params at hlong ⊢
    have hblank : 1 < (List.replicate params.length Parameter.blank).length := by
      rw [List.length_replicate]
      exact hlong
    rw [ofRule_of_several hlong, ofRule_of_several hblank, List.length_replicate]
    by_cases hmember : comparator.isMembership = true
    · rw [if_pos hmember, if_pos hmember]
      rfl
    · rw [if_neg hmember, if_neg hmember]
      rfl

end Predicate

namespace Filter

variable {f : Filter}

/-- The predicates of a recorded filter are those of its outline, up to their parameters. -/
lemma map_blank_predicates (hf : f.Recorded) (columns : Columns) :
    (f.predicates columns).map (List.map Predicate.blank) =
      Outline.predicates columns f.outline := by
  cases columns with
  | none => rfl
  | some columns =>
    have hkey : ∀ k ∈ f.keys, (f.keyPredicates columns k).map (List.map Predicate.blank) =
        Outline.keyPredicates columns k.outline := by
      intro k hk
      rw [keyPredicates, Outline.keyPredicates, FilterKey.outline]
      dsimp only
      cases columns.get? k.name with
      | none => rfl
      | some column =>
        refine map_mapM_eq_mapM_map fun r hr => ?_
        have hlen : (f.parameters k.type r).length = r.indices.stop - r.indices.start := by
          rw [parameters, List.length_map, length_values?_getD (hf.inBounds k hk r hr)]
        rw [rulePredicate, Predicate.map_blank_ofRule, hlen]
        rfl
    rw [outline_eq_map hf, predicates, Outline.predicates, ← map_mapM_eq_mapM_map hkey]
    cases f.keys.mapM (f.keyPredicates columns) with
    | error e => rfl
    | ok pss => exact congrArg Except.ok List.map_flatten

end Filter

namespace Clause

/-- The texts of predicates do not depend on their parameters. -/
lemma texts_map_blank (style : PlaceholderStyle) (next : Nat) (ps : List Predicate) :
    texts style next (ps.map Predicate.blank) = texts style next ps := by
  induction ps generalizing next with
  | nil => rfl
  | cons p ps ih =>
    rw [List.map_cons, texts, texts, Predicate.text_blank, Predicate.length_parameters_blank, ih]

lemma sql_ofPredicates_map_blank (style : PlaceholderStyle) (ps : List Predicate) :
    (ofPredicates style (ps.map Predicate.blank)).sql = (ofPredicates style ps).sql := by
  rw [ofPredicates, ofPredicates, texts_map_blank, List.isEmpty_map]

lemma length_params_ofPredicates_map_blank (style : PlaceholderStyle) (ps : List Predicate) :
    (ofPredicates style (ps.map Predicate.blank)).params.length =
      (ofPredicates style ps).params.length := by
  induction ps with
  | nil => rfl
  | cons p ps ih =>
    rw [ofPredicates, ofPredicates] at ih ⊢
    rw [List.map_cons, List.flatMap_cons, List.flatMap_cons, List.length_append,
      List.length_append, Predicate.length_parameters_blank, ih]

end Clause

/-- The text of a clause and the number of its parameters can be found from the outline. -/
lemma Compiler.map_render_eq {f : Filter} (hf : f.Recorded) (c : Compiler) :
    (c.render f).map (fun a => (a.sql, a.params.length)) =
      ((Outline.predicates c.columns f.outline).map (Clause.ofPredicates c.placeholder)).map
        fun a => (a.sql, a.params.length) := by
  rw [← Filter.map_blank_predicates hf, render]
  cases f.predicates c.columns with
  | error e => rfl
  | ok ps =>
    have hsql := Clause.sql_ofPredicates_map_blank c.placeholder ps
    have hlen := Clause.length_params_ofPredicates_map_blank c.placeholder ps
    exact congrArg Except.ok (Prod.ext hsql.symm hlen.symm)

/-- Results that agree after mapping are both values or the same error. -/
lemma ok_or_error_of_map_eq_map {α β ε : Type} {x y : Except ε α} {g : α → β}
    (h : x.map g = y.map g) :
    (∃ a b, x = .ok a ∧ y = .ok b ∧ g a = g b) ∨ ∃ e, x = .error e ∧ y = .error e := by
  cases x with
  | error e =>
    cases y with
    | error e' =>
      obtain rfl : e = e' := Except.error.inj h
      exact .inr ⟨e, rfl, rfl⟩
    | ok b => cases h
  | ok a =>
    cases y with
    | error e' => cases h
    | ok b => exact .inl ⟨a, b, rfl, rfl, Except.ok.inj h⟩

/-- Two recorded filters with one outline are rendered to one text with equally many parameters, or
are refused with one error.  Two sources that a schema reads to filters with one outline are
rendered to one text, whatever their literals are. -/
theorem render_of_outline_eq :
    (∀ (c : Compiler) (f g : Filter), f.Recorded → g.Recorded → f.outline = g.outline →
        (∃ a b, c.render f = .ok a ∧ c.render g = .ok b ∧ a.sql = b.sql ∧
            a.params.length = b.params.length) ∨
          ∃ e, c.render f = .error e ∧ c.render g = .error e) ∧
      ∀ (s : Schema) (source source' : Source) (f g : Filter), s.parse source = .ok f →
        s.parse source' = .ok g → f.outline = g.outline →
        ∀ (style : PlaceholderStyle) (columns : Dictionary String),
          ∃ a b, Compiler.render ⟨style, some columns⟩ f = .ok a ∧
            Compiler.render ⟨style, some columns⟩ g = .ok b ∧ a.sql = b.sql ∧
            a.params.length = b.params.length := by
  have hpair : ∀ (c : Compiler) (f g : Filter), f.Recorded → g.Recorded → f.outline = g.outline →
      (∃ a b, c.render f = .ok a ∧ c.render g = .ok b ∧ a.sql = b.sql ∧
          a.params.length = b.params.length) ∨
        ∃ e, c.render f = .error e ∧ c.render g = .error e := by
    intro c f g hf hg houtline
    have heq : (c.render f).map (fun a => (a.sql, a.params.length)) =
        (c.render g).map fun a => (a.sql, a.params.length) := by
      rw [c.map_render_eq hf, c.map_render_eq hg, houtline]
    rcases ok_or_error_of_map_eq_map heq with ⟨a, b, ha, hb, hab⟩ | herror
    · obtain ⟨hsql, hlen⟩ := Prod.mk.inj hab
      exact .inl ⟨a, b, ha, hb, hsql, hlen⟩
    · exact .inr herror
  refine ⟨hpair, fun s source source' f g hf hg houtline style columns => ?_⟩
  have hpf := Schema.parsed_of_parse hf
  have hpg := Schema.parsed_of_parse hg
  rcases hpair ⟨style, some columns⟩ f g hpf.recorded hpg.recorded houtline with hok | ⟨e, he, -⟩
  · exact hok
  · obtain ⟨a, ha⟩ := hpf.exists_render_eq_ok style columns
    rw [ha] at he
    cases he

/-- Numbers are rendered like texts, and a text that looks like a statement like any other. -/
theorem render_eq_of_statement_literal :
    (∃ a b, Compiler.render ⟨.positional, some (Dictionary.empty.insert "name" "n")⟩
          (Filter.empty.append "name" .integer [1, 2] .is) = .ok a ∧
        Compiler.render ⟨.positional, some (Dictionary.empty.insert "name" "n")⟩
          (Filter.empty.append "name" .string ["?", "); --"] .is) = .ok b ∧
        a.sql = b.sql ∧ a.params.length = b.params.length) ∧
      ∃ a b, Compiler.render ⟨.numbered, some (Dictionary.empty.insert "name" "n")⟩
          (Filter.empty.append "name" .string ["x"] .equals) = .ok a ∧
        Compiler.render ⟨.numbered, some (Dictionary.empty.insert "name" "n")⟩
          (Filter.empty.append "name" .string ["' OR 1=1; --"] .equals) = .ok b ∧
        a.sql = b.sql ∧ a.params.length = b.params.length := by
  obtain ⟨hfilters, hsources⟩ := render_of_outline_eq
  constructor
  · have hnumbers : (Filter.empty.append "name" .integer [1, 2] .is).Recorded :=
      ⟨[⟨"name", .integer, [1, 2], .is⟩], rfl⟩
    have htexts : (Filter.empty.append "name" .string ["?", "); --"] .is).Recorded :=
      ⟨[⟨"name", .string, ["?", "); --"], .is⟩], rfl⟩
    rcases hfilters ⟨.positional, some (Dictionary.empty.insert "name" "n")⟩ _ _ hnumbers htexts rfl
      with hok | ⟨e, he, -⟩
    · exact hok
    · cases he
  · have hname : (Schema.empty.declare "name" .string).parse (.ofList [("name", "x")]) =
        .ok (Filter.empty.append "name" .string ["x"] .equals) := rfl
    have hstatement :
        (Schema.empty.declare "name" .string).parse (.ofList [("name", "' OR 1=1; --")]) =
          .ok (Filter.empty.append "name" .string ["' OR 1=1; --"] .equals) := rfl
    exact hsources _ _ _ _ _ hname hstatement rfl _ _

end QueryFilter
