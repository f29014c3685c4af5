import QueryFilter.Proofs.Sql.Rendering

/-!
# Filters by their logs

What a compiler makes of a filter is said here by the log of additions that has built it: when it
refuses the filter, and which changes of the log it does not see.
-/

namespace QueryFilter

/-! ## When a filter has no clause

Without columns no filter has a clause.  With columns, what a filter compiles to depends on the
rules of the keys that have one: `Addition.columnRules` takes them from the log of additions, key by
key in the order of the first additions.  A filter that the log has built stores the same rules in
the same order (`Filter.Answers.columnRules_eq`), whatever its arenas and ranges are.

A rule is at fault if it has no values, or several under a comparator that compares with one
(`ColumnRule.Fault`), and a rule without a fault has a predicate.  The compiler maps rules to
predicates in order, so it stops at the first fault (`Filter.render_eq_error_iff`).  Rules of other
keys are not looked at.
-/

namespace ColumnRule

/-- What the compiler reports about a rule. -/
inductive Fault (r : ColumnRule) : CompileError → Prop
  /-- There are no values. -/
  | empty (values : r.rule.values = []) : Fault r (.emptyRule r.key r.rule.comparator)
  /-- There are several values, and the comparator compares with one. -/
  | several (many : 1 < r.count) (ne_equals : r.rule.comparator ≠ .equals)
      (ne_is : r.rule.comparator ≠ .is) :
      Fault r (.multipleValues r.key r.rule.comparator r.count)

end ColumnRule

/-- The error is a fault of a rule, and no rule before it has one. -/
def FirstFault (rules : List ColumnRule) (error : CompileError) : Prop :=
  ∃ before r after, rules = before ++ r :: after ∧ (∀ q ∈ before, q.WellFormed) ∧ r.Fault error

namespace Addition

/-- The rule of an addition on the column of its key, if there is one. -/
def onColumn? (columns : Dictionary String) (a : Addition) : Option ColumnRule :=
  (columns.get? a.key).map fun column => ⟨a.key, column, a.type, a.rule⟩

/-- The rules that were added to keys with a column: key by key in the order of their first
additions, and those of a key in the order of addition. -/
def columnRules (log : List Addition) (columns : Dictionary String) : List ColumnRule :=
  (keys log).flatMap fun key => (log.filter (·.key = key)).filterMap (onColumn? columns)

end Addition

/-! ### The first error of a list -/

/-- A run over a list fails with the error of an element if all elements before it have results. -/
lemma mapM_eq_error_iff {α β ε : Type} {f : α → Except ε β} {xs : List α} {e : ε} :
    xs.mapM f = .error e ↔
      ∃ before x after, xs = before ++ x :: after ∧ (∀ y ∈ before, ∃ z, f y = .ok z) ∧
        f x = .error e := by
  constructor
  · intro h
    induction xs with
    | nil => cases h
    | cons x xs ih =>
      rw [List.mapM_cons] at h
      cases hx : f x with
      | error e' =>
        rw [hx] at h
        obtain rfl : e' = e := Except.error.inj h
        exact ⟨[], x, xs, rfl, List.forall_mem_nil _, hx⟩
      | ok z =>
        cases hxs : xs.mapM f with
        | ok zs =>
          rw [hx, hxs] at h
          cases h
        | error e' =>
          rw [hx, hxs] at h
          obtain rfl : e' = e := Except.error.inj h
          obtain ⟨before, y, after, rfl, hbefore, hy⟩ := ih hxs
          exact ⟨x :: before, y, after, rfl, List.forall_mem_cons.2 ⟨⟨z, hx⟩, hbefore⟩, hy⟩
  · rintro ⟨before, x, after, rfl, hbefore, hx⟩
    obtain ⟨zs, hzs⟩ := exists_mapM_eq_ok hbefore
    rw [List.mapM_append, hzs, List.mapM_cons, hx]
    rfl

/-! ### Rules with a fault -/

namespace ColumnRule

variable {r : ColumnRule} {rules : List ColumnRule} {error : CompileError}

lemma not_wellFormed_iff :
    ¬ r.WellFormed ↔ r.rule.values = [] ∨
      1 < r.count ∧ r.rule.comparator ≠ .equals ∧ r.rule.comparator ≠ .is := by
  constructor
  · intro h
    by_contra hno
    rw [not_or, not_and, ← not_or, not_not] at hno
    exact h ⟨hno.1, hno.2⟩
  · rintro (hnil | ⟨hmany, hne⟩) h
    · exact h.ne_nil hnil
    · exact not_or.2 hne (h.arity hmany)

lemma exists_fault_iff : (∃ error, r.Fault error) ↔ ¬ r.WellFormed := by
  rw [not_wellFormed_iff]
  constructor
  · rintro ⟨_, hnil | ⟨hmany, hequals, his⟩⟩
    · exact .inl hnil
    · exact .inr ⟨hmany, hequals, his⟩
  · rintro (hnil | ⟨hmany, hequals, his⟩)
    · exact ⟨_, .empty hnil⟩
    · exact ⟨_, .several hmany hequals his⟩

/-- A rule with a fault has no predicate, and the fault is what the compiler says. -/
lemma Fault.predicate_eq (h : r.Fault error) : r.predicate = .error error := by
  unfold predicate
  cases h with
  | empty hnil =>
    have hparams : r.parameters = [] := by rw [parameters, hnil, List.map_nil]
    rw [hparams]
    rfl
  | several hmany hequals his =>
    have hmember : ¬ r.rule.comparator.isMembership = true := by
      cases hcomparator : r.rule.comparator <;> simp_all [Comparator.isMembership]
    rw [Predicate.ofRule_of_several (by rwa [length_parameters]), if_neg hmember,
      length_parameters]

/-- The rules that have a predicate are those without a fault. -/
lemma exists_predicate_iff : (∃ p, r.predicate = .ok p) ↔ r.WellFormed := by
  constructor
  · rintro ⟨p, hp⟩
    by_contra hill
    obtain ⟨error, hfault⟩ := exists_fault_iff.2 hill
    cases hp.symm.trans hfault.predicate_eq
  · intro h
    obtain ⟨p, hp, -⟩ := h.exists_predicate
    exact ⟨p, hp⟩

/-- What the compiler says of a rule that has no predicate is its fault. -/
lemma predicate_eq_error_iff : r.predicate = .error error ↔ r.Fault error := by
  refine ⟨fun h => ?_, Fault.predicate_eq⟩
  have hill : ¬ r.WellFormed := fun hwell => by
    obtain ⟨p, hp⟩ := exists_predicate_iff.2 hwell
    cases hp.symm.trans h
  obtain ⟨error', hfault⟩ := exists_fault_iff.2 hill
  obtain rfl : error' = error := Except.error.inj (hfault.predicate_eq.symm.trans h)
  exact hfault

/-- Rules have a first fault if one of them has a fault. -/
lemma exists_firstFault_iff : (∃ error, FirstFault rules error) ↔ ∃ r ∈ rules, ¬ r.WellFormed := by
  constructor
  · rintro ⟨error, before, r, after, rfl, -, hfault⟩
    exact ⟨r, by simp, exists_fault_iff.1 ⟨error, hfault⟩⟩
  · induction rules with
    | nil =>
      rintro ⟨r, hr, -⟩
      cases hr
    | cons q rules ih =>
      intro hill
      by_cases hq : q.WellFormed
      · obtain ⟨r, hr, hill⟩ := hill
        rcases List.mem_cons.1 hr with rfl | hr
        · exact absurd hq hill
        · obtain ⟨error, before, r, after, rfl, hbefore, hfault⟩ := ih ⟨r, hr, hill⟩
          exact ⟨error, q :: before, r, after, rfl, List.forall_mem_cons.2 ⟨hq, hbefore⟩, hfault⟩
      · obtain ⟨error, hfault⟩ := exists_fault_iff.2 hq
        exact ⟨error, [], q, rules, rfl, List.forall_mem_nil _, hfault⟩

end ColumnRule

/-- A recorded filter has no clause if one of its rules on columns has a fault, and the first such
rule is reported. -/
lemma Filter.render_eq_error_iff {f : Filter} (hf : f.Recorded) {style : PlaceholderStyle}
    {columns : Dictionary String} {error : CompileError} :
    Compiler.render ⟨style, some columns⟩ f = .error error ↔
      FirstFault (f.columnRules columns) error := by
  have hrender : Compiler.render ⟨style, some columns⟩ f = .error error ↔
      (f.columnRules columns).mapM ColumnRule.predicate = .error error := by
    rw [Compiler.render, predicates_eq_mapM hf]
    cases (f.columnRules columns).mapM ColumnRule.predicate with
    | error e => simp only [Except.map, Except.error.injEq]
    | ok ps => simp only [Except.map, reduceCtorEq]
  simp only [hrender, mapM_eq_error_iff, ColumnRule.exists_predicate_iff,
    ColumnRule.predicate_eq_error_iff, FirstFault]

/-- Filters with the same rules on columns compile to the same. -/
lemma Filter.render_congr {f g : Filter} (hf : f.Recorded) (hg : g.Recorded)
    {columns : Dictionary String} (h : f.columnRules columns = g.columnRules columns)
    (style : PlaceholderStyle) :
    Compiler.render ⟨style, some columns⟩ f = Compiler.render ⟨style, some columns⟩ g := by
  rw [Compiler.render, Compiler.render, predicates_eq_mapM hf, predicates_eq_mapM hg, h]

/-! ### Rules of a log -/

/-- Repetitions may be removed before or after elements are selected. -/
lemma eraseDups_filter {α : Type} [DecidableEq α] (p : α → Bool) (xs : List α) :
    (xs.filter p).eraseDups = xs.eraseDups.filter p := by
  induction xs using List.reverseRecOn with
  | nil => rfl
  | append_singleton xs x ih =>
    rw [List.filter_append, eraseDups_concat xs]
    cases hx : p x with
    | false =>
      rw [List.filter_cons_of_neg (by simp [hx]), List.filter_nil, List.append_nil, ih]
      split
      · rfl
      · rw [List.filter_append, List.filter_cons_of_neg (by simp [hx]), List.filter_nil,
          List.append_nil]
    | true =>
      have hmem : x ∈ xs.filter p ↔ x ∈ xs := by rw [List.mem_filter, and_iff_left hx]
      rw [List.filter_cons_of_pos hx, List.filter_nil, eraseDups_concat, ih]
      simp only [hmem]
      split
      · rfl
      · rw [List.filter_append, List.filter_cons_of_pos hx, List.filter_nil]

namespace Addition

variable {log : List Addition} {columns : Dictionary String} {r : ColumnRule} {key : String}

lemma onColumn?_eq_some_iff {a : Addition} :
    a.onColumn? columns = some r ↔
      ∃ column, columns.get? a.key = some column ∧ ⟨a.key, column, a.type, a.rule⟩ = r :=
  Option.map_eq_some_iff

lemma mem_columnRules_iff :
    r ∈ columnRules log columns ↔ ∃ a ∈ log, a.onColumn? columns = some r := by
  rw [columnRules, List.mem_flatMap]
  constructor
  · rintro ⟨key, -, hr⟩
    obtain ⟨a, ha, hcolumn⟩ := List.mem_filterMap.1 hr
    exact ⟨a, (List.mem_filter.1 ha).1, hcolumn⟩
  · rintro ⟨a, ha, hcolumn⟩
    refine ⟨a.key, mem_keys_iff.2 (List.mem_map_of_mem ha), List.mem_filterMap.2 ⟨a, ?_, hcolumn⟩⟩
    exact List.mem_filter.2 ⟨ha, by simp⟩

/-- Some rule on a column has a fault if some addition to a key with a column has one. -/
lemma exists_not_wellFormed_iff :
    (∃ r ∈ columnRules log columns, ¬ r.WellFormed) ↔
      ∃ a ∈ log, (columns.get? a.key).isSome = true ∧
        (a.values = [] ∨ 1 < a.values.length ∧ a.comparator ≠ .equals ∧ a.comparator ≠ .is) := by
  constructor
  · rintro ⟨r, hr, hill⟩
    obtain ⟨a, ha, hrule⟩ := mem_columnRules_iff.1 hr
    obtain ⟨column, hcolumn, rfl⟩ := onColumn?_eq_some_iff.1 hrule
    exact ⟨a, ha, Option.isSome_of_eq_some hcolumn, ColumnRule.not_wellFormed_iff.1 hill⟩
  · rintro ⟨a, ha, hsome, hill⟩
    obtain ⟨column, hcolumn⟩ := Option.isSome_iff_exists.1 hsome
    have hrule := onColumn?_eq_some_iff.2 ⟨column, hcolumn, rfl⟩
    exact ⟨_, mem_columnRules_iff.2 ⟨a, ha, hrule⟩, ColumnRule.not_wellFormed_iff.2 hill⟩

/-- The additions to a key have no rules on columns if the key has none. -/
lemma filterMap_onColumn?_of_none (h : columns.get? key = none) :
    (log.filter (·.key = key)).filterMap (onColumn? columns) = [] := by
  refine List.filterMap_eq_nil_iff.2 fun a ha => ?_
  have hkey : a.key = key := by simpa using (List.mem_filter.1 ha).2
  rw [onColumn?, hkey, h, Option.map_none]

/-- The additions to a key with a column are its rules there. -/
lemma filterMap_onColumn?_of_some {column : String} (h : columns.get? key = some column) :
    (log.filter (·.key = key)).filterMap (onColumn? columns) =
      (log.filter (·.key = key)).map fun a => ⟨key, column, a.type, a.rule⟩ := by
  rw [← List.filterMap_eq_map]
  refine List.filterMap_congr fun a ha => ?_
  have hkey : a.key = key := by simpa using (List.mem_filter.1 ha).2
  rw [onColumn?, hkey, h, Option.map_some, Function.comp_apply]

/-- Additions to keys without a column may be left out. -/
lemma columnRules_filter (log : List Addition) (columns : Dictionary String) :
    columnRules (log.filter fun a => (columns.get? a.key).isSome) columns =
      columnRules log columns := by
  have hkeys : keys (log.filter fun a => (columns.get? a.key).isSome) =
      (keys log).filter fun key => (columns.get? key).isSome := by
    rw [keys, keys, ← eraseDups_filter, List.filter_map]
    rfl
  rw [columnRules, hkeys, columnRules]
  generalize keys log = names
  induction names with
  | nil => rfl
  | cons key names ih =>
    rw [List.flatMap_cons, ← ih]
    cases hcolumn : columns.get? key with
    | none =>
      rw [filterMap_onColumn?_of_none hcolumn, List.nil_append,
        List.filter_cons_of_neg (by simp [hcolumn])]
    | some column =>
      have hsame : (log.filter fun a => (columns.get? a.key).isSome).filter (·.key = key) =
          log.filter (·.key = key) := by
        rw [List.filter_filter]
        refine List.filter_congr fun a _ => ?_
        by_cases hkey : a.key = key
        · simp [hkey, hcolumn]
        · simp [hkey]
      rw [List.filter_cons_of_pos (by simp [hcolumn]), List.flatMap_cons, hsame]

lemma Consistent.filter (h : Consistent log) (p : Addition → Bool) : Consistent (log.filter p) :=
  fun a ha b hb => h a (List.mem_filter.1 ha).1 b (List.mem_filter.1 hb).1

end Addition

/-- A filter stores the rules of its log on columns, in the same order. -/
lemma Filter.Answers.columnRules_eq {f : Filter} {log : List Addition} (h : f.Answers log)
    (hf : f.Recorded) (hlog : Addition.Consistent log) (columns : Dictionary String) :
    f.columnRules columns = Addition.columnRules log columns := by
  rw [columnRules, Addition.columnRules, ← h.names, List.flatMap_map]
  refine List.flatMap_congr fun k hk => ?_
  rw [columnRulesOf]
  cases hcolumn : columns.get? k.name with
  | none => exact (Addition.filterMap_onColumn?_of_none hcolumn).symm
  | some column =>
    have htype : Addition.typeOf? log k.name = some k.type := by
      rw [← h.types, hf.key?_eq_some hk]
      rfl
    have hrules := Addition.map_rules_of_forall fun a ha hkey => (hlog.type_eq htype ha hkey).symm
    calc (f.get k.name k.type).map (fun r => (⟨k.name, column, k.type, r⟩ : ColumnRule))
        = ((Addition.rules log k.name k.type).map (Sigma.mk k.type)).map
            fun r => ⟨k.name, column, r.1, r.2⟩ := by
          rw [h.rules, List.map_map]
          rfl
      _ = (log.filter (·.key = k.name)).map fun a => ⟨k.name, column, a.type, a.rule⟩ := by
          rw [hrules, List.map_map]
          rfl
      _ = _ := (Addition.filterMap_onColumn?_of_some hcolumn).symm

/-- When the filter of a log of additions has no clause, and which error says why.  Without columns
it has none, whatever was added.  With columns it has none if some addition to a key with a column
has no values, or several under a comparator that compares with one.  The error is then the fault of
the first such rule that the filter stores, key by key in the order of their first additions.  The
additions to keys without a column may be left out of the log: what the filter compiles to is the
same. -/
theorem render_reports_first_fault (log : List Addition) (hlog : Addition.Consistent log) :
    ∃ f, Filter.replay log = .ok f ∧
      (∀ style, Compiler.render ⟨style, none⟩ f = .error .missingColumns) ∧
      ∀ (style : PlaceholderStyle) (columns : Dictionary String),
        f.columnRules columns = Addition.columnRules log columns ∧
        ((∃ error, Compiler.render ⟨style, some columns⟩ f = .error error) ↔
          ∃ a ∈ log, (columns.get? a.key).isSome = true ∧
            (a.values = [] ∨
              1 < a.values.length ∧ a.comparator ≠ .equals ∧ a.comparator ≠ .is)) ∧
        (∀ error, Compiler.render ⟨style, some columns⟩ f = .error error ↔
          FirstFault (f.columnRules columns) error) ∧
        ∃ g, Filter.replay (log.filter fun a => (columns.get? a.key).isSome) = .ok g ∧
          Compiler.render ⟨style, some columns⟩ f = Compiler.render ⟨style, some columns⟩ g := by
  obtain ⟨f, hf, hanswers⟩ := Filter.exists_replay hlog
  have hrecorded : f.Recorded := ⟨log, hf⟩
  refine ⟨f, hf, fun _ => rfl, fun style columns => ?_⟩
  have hrules := hanswers.columnRules_eq hrecorded hlog columns
  refine ⟨hrules, ?_, fun _ => Filter.render_eq_error_iff hrecorded, ?_⟩
  · simp only [Filter.render_eq_error_iff hrecorded]
    rw [ColumnRule.exists_firstFault_iff, hrules, Addition.exists_not_wellFormed_iff]
  · have hmapped := hlog.filter fun a => (columns.get? a.key).isSome
    obtain ⟨g, hg, hgAnswers⟩ := Filter.exists_replay hmapped
    have hgRecorded : g.Recorded := ⟨_, hg⟩
    have hgRules := hgAnswers.columnRules_eq hgRecorded hmapped columns
    rw [Addition.columnRules_filter, ← hrules] at hgRules
    exact ⟨g, hg, Filter.render_congr hrecorded hgRecorded hgRules.symm style⟩

/-- Three keys have a rule with a fault.  The first of them has no column.  The rules of the second
come before those of the third, so its prefix without values is reported, although it was added
last and its range is empty. -/
theorem render_reports_first_fault_of_three :
    let log : List Addition :=
      [⟨"note", .float, [], .equals⟩, ⟨"role", .string, ["dev", "ops"], .is⟩,
        ⟨"age", .integer, [30, 40], .greaterThan⟩, ⟨"role", .string, [], .like⟩]
    let columns : Dictionary String := .ofPairs [("age", "e.age"), ("role", "title")]
    Addition.Consistent log ∧
      ∃ f, Filter.replay log = .ok f ∧
        Compiler.render ⟨.numbered, some columns⟩ f = .error (.emptyRule "role" .like) := by
  intro log columns
  have hlog : Addition.Consistent log := by
    unfold Addition.Consistent
    decide
  obtain ⟨f, hf, -, hcolumns⟩ := render_reports_first_fault log hlog
  obtain ⟨hrules, -, herror, -⟩ := hcolumns .numbered columns
  have hlist : f.columnRules columns =
      [⟨"role", "title", .string, ⟨.is, ["dev", "ops"]⟩⟩, ⟨"role", "title", .string, ⟨.like, []⟩⟩,
        ⟨"age", "e.age", .integer, ⟨.greaterThan, [30, 40]⟩⟩] := hrules
  refine ⟨hlog, f, hf, (herror _).2 ⟨_, _, _, hlist.trans (List.singleton_append ..).symm, ?_, ?_⟩⟩
  · rintro q hq
    obtain rfl := List.mem_singleton.1 hq
    exact ⟨List.cons_ne_nil _ _, fun _ => .inr rfl⟩
  · exact .empty rfl

/-! ## Additions to different keys

Two logs are reordered (`Addition.Reordered`) if their keys come first in one order and every key
gets the same rules in one order; only the additions to different keys alternate in other ways.
Neighbouring additions to different keys may be swapped in this sense as long as one of the keys is
not new (`Addition.Reordered.swap`).

The filters of reordered logs differ in their arenas and ranges.  No answer shows it: the names and
types of the keys, the rules of every key, and what any compiler makes of them depend on the log key
by key (`readers_agree_of_reordered`).
-/

namespace Addition

/-- The keys are first added in the same order, and each key gets the same rules in the same
order. -/
structure Reordered (log log' : List Addition) : Prop where
  keys : Addition.keys log = Addition.keys log'
  additions : ∀ key, log.filter (·.key = key) = log'.filter (·.key = key)

namespace Reordered

variable {log log' log'' : List Addition}

lemma trans (h : Reordered log log') (h' : Reordered log' log'') : Reordered log log'' :=
  ⟨h.keys.trans h'.keys, fun key => (h.additions key).trans (h'.additions key)⟩

/-- Neighbouring additions to different keys may be swapped if one of them is to an old key. -/
lemma swap (before after : List Addition) {a b : Addition} (hne : a.key ≠ b.key)
    (hold : b.key ∈ before.map Addition.key) :
    Reordered (before ++ a :: b :: after) (before ++ b :: a :: after) := by
  constructor
  · -- The old key is not new on either side of the other one.
    have hnew : ((a :: b :: after).map Addition.key).removeAll (before.map Addition.key) =
        ((b :: a :: after).map Addition.key).removeAll (before.map Addition.key) := by
      have hdrop : (!(before.map Addition.key).elem b.key) = false := by simpa using hold
      simp only [List.removeAll, List.map_cons, List.filter_cons, hdrop, Bool.false_eq_true,
        if_false]
    rw [Addition.keys, Addition.keys, List.map_append, List.map_append, List.eraseDups_append,
      List.eraseDups_append, hnew]
  · intro key
    rw [List.filter_append, List.filter_append]
    by_cases ha : a.key = key
    · have hb : ¬ b.key = key := fun hb => hne (ha.trans hb.symm)
      simp [ha, hb]
    · simp [ha, List.filter_cons]

lemma mem_iff (h : Reordered log log') {a : Addition} : a ∈ log ↔ a ∈ log' := by
  have hself : ∀ l : List Addition, a ∈ l ↔ a ∈ l.filter (·.key = a.key) := by
    intro l
    simp
  rw [hself log, hself log', h.additions a.key]

/-- If no key of a log is used with two types, none is in a reordered one. -/
lemma consistent (h : Reordered log log') (hlog : Consistent log) : Consistent log' := by
  intro a ha b hb
  exact hlog a (h.mem_iff.2 ha) b (h.mem_iff.2 hb)

lemma typeOf?_eq (h : Reordered log log') (key : String) :
    typeOf? log key = typeOf? log' key := by
  rw [typeOf?, typeOf?, ← List.head?_filter, ← List.head?_filter, h.additions]

lemma rules_eq (h : Reordered log log') (key : String) (type : ScalarType) :
    rules log key type = rules log' key type := by
  rw [rules, rules, h.additions]

lemma columnRules_eq (h : Reordered log log') (columns : Dictionary String) :
    columnRules log columns = columnRules log' columns := by
  rw [columnRules, columnRules, h.keys]
  refine List.flatMap_congr fun key _ => ?_
  rw [h.additions]

end Reordered

end Addition

/-- Filters with the same rules on columns have the same predicates, whatever the columns are. -/
lemma Filter.predicates_congr {f g : Filter} (hf : f.Recorded) (hg : g.Recorded)
    (h : ∀ columns, f.columnRules columns = g.columnRules columns) (columns : Columns) :
    f.predicates columns = g.predicates columns := by
  cases columns with
  | none => rfl
  | some columns => rw [predicates_eq_mapM hf, predicates_eq_mapM hg, h]

/-- The filters of two reordered logs answer alike.  They have the same keys with the same types, in
one order, every key has the same rules under every type, and every compiler makes the same clause
and the same condition of both, or refuses both with one error. -/
theorem readers_agree_of_reordered {log log' : List Addition} (hlog : Addition.Consistent log)
    (h : Addition.Reordered log log') :
    ∃ f g, Filter.replay log = .ok f ∧ Filter.replay log' = .ok g ∧
      f.keys.map FilterKey.name = g.keys.map FilterKey.name ∧
      (∀ key, (f.key? key).map FilterKey.type = (g.key? key).map FilterKey.type) ∧
      (∀ key type, f.get key type = g.get key type) ∧
      ∀ c : Compiler, c.render f = c.render g ∧ c.condition f = c.condition g := by
  have hlog' := h.consistent hlog
  obtain ⟨f, hf, hfAnswers⟩ := Filter.exists_replay hlog
  obtain ⟨g, hg, hgAnswers⟩ := Filter.exists_replay hlog'
  have hfRecorded : f.Recorded := ⟨log, hf⟩
  have hgRecorded : g.Recorded := ⟨log', hg⟩
  have hcolumns : ∀ columns, f.columnRules columns = g.columnRules columns := by
    intro columns
    calc f.columnRules columns
        = Addition.columnRules log columns := hfAnswers.columnRules_eq hfRecorded hlog columns
      _ = Addition.columnRules log' columns := h.columnRules_eq columns
      _ = g.columnRules columns := (hgAnswers.columnRules_eq hgRecorded hlog' columns).symm
  refine ⟨f, g, hf, hg, ?_, ?_, ?_, ?_⟩
  · rw [hfAnswers.names, hgAnswers.names, h.keys]
  · intro key
    rw [hfAnswers.types, hgAnswers.types, h.typeOf?_eq]
  · intro key type
    rw [hfAnswers.rules, hgAnswers.rules, h.rules_eq]
  · intro c
    have hpredicates := Filter.predicates_congr hfRecorded hgRecorded hcolumns c.columns
    constructor
    · rw [Compiler.render, Compiler.render, hpredicates]
    · rw [Compiler.condition, Compiler.condition, hpredicates]

/-- The second rule of a key is added last, or directly behind the first one.  The strings lie in
another order, so the ranges of the rules differ, and yet the filters are read alike. -/
theorem readers_agree_of_late_rule :
    let role : Addition := ⟨"role", .string, ["dev", "ops"], .is⟩
    let age : Addition := ⟨"age", .integer, [30], .greaterThan⟩
    let name : Addition := ⟨"name", .string, ["Rob"], .like⟩
    let late : Addition := ⟨"role", .string, ["x"], .like⟩
    Addition.Consistent [role, age, name, late] ∧
      Addition.Reordered [role, age, name, late] [role, late, age, name] ∧
      ∃ f g, Filter.replay [role, age, name, late] = .ok f ∧
        Filter.replay [role, late, age, name] = .ok g ∧
        f.arenas.strings = ["dev", "ops", "Rob", "x"] ∧
        g.arenas.strings = ["dev", "ops", "x", "Rob"] ∧ f.keys ≠ g.keys ∧
        f.get "role" .string = g.get "role" .string ∧
        ∀ c : Compiler, c.render f = c.render g ∧ c.condition f = c.condition g := by
  intro role age name late
  have hlog : Addition.Consistent [role, age, name, late] := by
    unfold Addition.Consistent
    decide
  have hlast : Addition.Reordered [role, age, name, late] [role, age, late, name] :=
    .swap [role, age] [] (by decide) (by decide)
  have hsecond : Addition.Reordered [role, age, late, name] [role, late, age, name] :=
    .swap [role] [name] (by decide) (by decide)
  have hreordered := hlast.trans hsecond
  obtain ⟨f, g, hf, hg, -, -, hget, hcompiled⟩ := readers_agree_of_reordered hlog hreordered
  obtain rfl := Except.ok.inj hf
  obtain rfl := Except.ok.inj hg
  exact ⟨hlog, hreordered, _, _, hf, hg, rfl, rfl, by decide, hget _ _, hcompiled⟩

end QueryFilter
