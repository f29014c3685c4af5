import Mathlib.Tactic.Common
import QueryFilter.Proofs.Sql.Placeholders

/-!
# What a clause says

The text of a clause and its parameters are written here straight from the rules that the filter
answers, without predicates and without a running count.  `Filter.columnRules` lists the rules of
the keys that have a column, key by key.  Such a rule is written as a comparison or as a list
(`ColumnRule.text`), from the number on that follows those of the rules before it (`firstNumber`),
and `clauseText` joins what is written.

The compiler makes one predicate of every such rule, in the same order
(`Filter.predicates_eq_mapM`).  A predicate has the text and the parameters of its rule
(`ColumnRule.Gives`), and counting through the predicates comes to the numbers of the rules
(`Clause.texts_eq_mapIdx`).
-/

namespace QueryFilter

/-- A rule of a key that has a column, with its values. -/
structure ColumnRule where
  key : String
  column : String
  type : ScalarType
  rule : Rule type

namespace ColumnRule

/-- The number of values. -/
def count (r : ColumnRule) : Nat :=
  r.rule.values.length

/-- The values as parameters: each as it is, or under `like` as a string, its text before the
wildcard. -/
def parameters (r : ColumnRule) : List Parameter :=
  r.rule.values.map fun v =>
    if r.rule.comparator = .like then ⟨.string, r.type.text v ++ "%"⟩ else ⟨r.type, v⟩

/-- The numbers of the placeholders, from the first one on. -/
def numbers (r : ColumnRule) (first : Nat) : List Nat :=
  List.range' first r.count

/-- The text of a rule whose first placeholder has the given number. -/
def text (style : PlaceholderStyle) (first : Nat) (r : ColumnRule) : String :=
  if 1 < r.count then
    r.column ++ " IN (" ++ ",".intercalate ((r.numbers first).map style.placeholder) ++ ")"
  else r.column ++ " " ++ r.rule.comparator.operator ++ " " ++ style.placeholder first

/-- There are values, and several only under a comparator that tests membership. -/
structure WellFormed (r : ColumnRule) : Prop where
  ne_nil : r.rule.values ≠ []
  arity : 1 < r.count → r.rule.comparator = .equals ∨ r.rule.comparator = .is

/-- What the compiler makes of the rule. -/
def predicate (r : ColumnRule) : Except CompileError Predicate :=
  Predicate.ofRule r.key r.column r.rule.comparator r.parameters

/-- The predicate says the same as the rule. -/
structure Gives (r : ColumnRule) (p : Predicate) : Prop where
  text : ∀ style first, p.text style first = r.text style first
  parameters : p.parameters = r.parameters

end ColumnRule

/-- The rules of a key; none if it has no column. -/
def Filter.columnRulesOf (f : Filter) (columns : Dictionary String) (k : FilterKey) :
    List ColumnRule :=
  match columns.get? k.name with
  | some column => (f.get k.name k.type).map fun r => ⟨k.name, column, k.type, r⟩
  | none => []

/-- The rules of the keys that have a column, key by key. -/
def Filter.columnRules (f : Filter) (columns : Dictionary String) : List ColumnRule :=
  f.keys.flatMap (f.columnRulesOf columns)

/-- The number of the first placeholder of a rule: one, and what the rules before it count. -/
def firstNumber (rules : List ColumnRule) (i : Nat) : Nat :=
  (rules.take i).foldl (fun n r => n + r.count) 1

/-- The text of rules; empty if there are none. -/
def clauseText (style : PlaceholderStyle) (rules : List ColumnRule) : String :=
  if rules.isEmpty then ""
  else "WHERE " ++ " AND ".intercalate
    (rules.mapIdx fun i r => r.text style (firstNumber rules i))

/-! ### Predicates of rules -/

namespace ColumnRule

variable {r : ColumnRule}

lemma length_parameters (r : ColumnRule) : r.parameters.length = r.count := by
  unfold parameters count
  exact List.length_map _

/-- A well-formed rule has a predicate, and it says the same. -/
lemma WellFormed.exists_predicate (hr : r.WellFormed) : ∃ p, r.predicate = .ok p ∧ r.Gives p := by
  unfold predicate
  by_cases hlong : 1 < r.count
  · have hmember : r.rule.comparator.isMembership = true := by
      rcases hr.arity hlong with h | h <;> rw [h] <;> rfl
    have hparams : 1 < r.parameters.length := by rwa [length_parameters]
    refine ⟨.member r.column r.parameters, ?_, ?_, rfl⟩
    · rw [Predicate.ofRule_of_several hparams, if_pos hmember]
    · intro style first
      have hnumbers : style.placeholders first r.parameters.length =
          (r.numbers first).map style.placeholder := by
        unfold PlaceholderStyle.placeholders numbers
        rw [length_parameters, List.range'_eq_map_range, List.map_map]
        rfl
      rw [Predicate.text, hnumbers, text, if_pos hlong]
  · have hpos : 0 < r.count := List.length_pos_iff.2 hr.ne_nil
    have hone : r.parameters.length = 1 := by
      rw [length_parameters]
      omega
    obtain ⟨value, hvalue⟩ := List.length_eq_one_iff.1 hone
    rw [hvalue]
    refine ⟨.compare r.column r.rule.comparator value, rfl, ?_, hvalue.symm⟩
    intro style first
    rw [Predicate.text, text, if_neg hlong]

end ColumnRule

/-- Mapping the parts of a list one after another is mapping the list. -/
lemma mapM_flatMap {α β γ ε : Type} {f : α → Except ε (List γ)} {g : α → List β}
    {h : β → Except ε γ} {xs : List α} (heq : ∀ x ∈ xs, f x = (g x).mapM h) :
    (xs.mapM f).map List.flatten = (xs.flatMap g).mapM h := by
  induction xs with
  | nil => rfl
  | cons x xs ih =>
    have hhead := heq x List.mem_cons_self
    have htail := ih fun y hy => heq y (List.mem_cons_of_mem _ hy)
    rw [List.mapM_cons, List.flatMap_cons, List.mapM_append, hhead, ← htail]
    cases (g x).mapM h with
    | error e => rfl
    | ok ys => cases xs.mapM f <;> rfl

namespace Filter

variable {f : Filter}

/-- The predicates of a key are those of its rules. -/
lemma keyPredicates_eq_mapM (hf : f.Recorded) (columns : Dictionary String) {k : FilterKey}
    (hk : k ∈ f.keys) :
    f.keyPredicates columns k = (f.columnRulesOf columns k).mapM ColumnRule.predicate := by
  unfold keyPredicates columnRulesOf
  cases columns.get? k.name with
  | none => rfl
  | some column =>
    have hget := get_eq_of_key? (hf.key?_eq_some hk) rfl
    simp only
    rw [hget, List.map_map, List.mapM_map]
    rfl

/-- The predicates of a recorded filter are those of its rules on columns. -/
lemma predicates_eq_mapM (hf : f.Recorded) (columns : Dictionary String) :
    f.predicates (some columns) = (f.columnRules columns).mapM ColumnRule.predicate :=
  mapM_flatMap fun _ hk => keyPredicates_eq_mapM hf columns hk

/-- If the rules on columns are well formed, they have predicates that say the same. -/
lemma exists_predicates_of_wellFormed (hf : f.Recorded) {columns : Dictionary String}
    (hrules : ∀ r ∈ f.columnRules columns, r.WellFormed) :
    ∃ ps, f.predicates (some columns) = .ok ps ∧
      List.Forall₂ ColumnRule.Gives (f.columnRules columns) ps := by
  rw [predicates_eq_mapM hf]
  have hall : ∀ r ∈ f.columnRules columns, ∃ p, r.predicate = .ok p := by
    intro r hr
    obtain ⟨p, hp, -⟩ := (hrules r hr).exists_predicate
    exact ⟨p, hp⟩
  obtain ⟨ps, hps⟩ := exists_mapM_eq_ok hall
  refine ⟨ps, hps, ?_⟩
  refine ((List.forall₂_and_left _ _).2 ⟨hrules, forall₂_of_mapM_eq_ok hps⟩).imp ?_
  rintro r p ⟨hr, hp⟩
  obtain ⟨q, hq, hgives⟩ := hr.exists_predicate
  obtain rfl : p = q := Except.ok.inj (hp.symm.trans hq)
  exact hgives

end Filter

/-! ### Texts and parameters of rules -/

namespace ColumnRule.Gives

variable {rules : List ColumnRule} {ps : List Predicate}

/-- The predicates of rules have their parameters. -/
lemma flatMap_parameters (h : List.Forall₂ Gives rules ps) :
    ps.flatMap Predicate.parameters = rules.flatMap ColumnRule.parameters := by
  induction h with
  | nil => rfl
  | cons hfirst _ ih => rw [List.flatMap_cons, List.flatMap_cons, hfirst.parameters, ih]

/-- Counting through the predicates of rules comes to the numbers of the rules. -/
lemma texts_eq_mapIdx (h : List.Forall₂ Gives rules ps) (style : PlaceholderStyle) (next : Nat) :
    Clause.texts style next ps = rules.mapIdx fun i r =>
      r.text style ((rules.take i).foldl (fun n r => n + r.count) next) := by
  induction h generalizing next with
  | nil => rfl
  | @cons r p rules ps hfirst hrest ih =>
    have hcount : p.parameters.length = r.count := by
      rw [hfirst.parameters, length_parameters]
    rw [Clause.texts, List.mapIdx_cons, hfirst.text, hcount, ih]
    simp only [List.take_zero, List.foldl_nil, List.take_succ_cons, List.foldl_cons]

end ColumnRule.Gives

/-- The clause of a recorded filter, if its rules on columns are well formed. -/
lemma Filter.render_eq_ok {f : Filter} (hf : f.Recorded) (style : PlaceholderStyle)
    {columns : Dictionary String} (hrules : ∀ r ∈ f.columnRules columns, r.WellFormed) :
    Compiler.render ⟨style, some columns⟩ f =
      .ok ⟨clauseText style (f.columnRules columns),
        (f.columnRules columns).flatMap ColumnRule.parameters⟩ := by
  obtain ⟨ps, hps, hgives⟩ := exists_predicates_of_wellFormed hf hrules
  have htexts : Clause.texts style 1 ps = (f.columnRules columns).mapIdx fun i r =>
      r.text style (firstNumber (f.columnRules columns) i) :=
    ColumnRule.Gives.texts_eq_mapIdx hgives style 1
  have hempty : ps.isEmpty = (f.columnRules columns).isEmpty := by
    rw [Bool.eq_iff_iff, List.isEmpty_iff_length_eq_zero, List.isEmpty_iff_length_eq_zero,
      hgives.length_eq]
  have hclause : Clause.ofPredicates style ps = ⟨clauseText style (f.columnRules columns),
      (f.columnRules columns).flatMap ColumnRule.parameters⟩ := by
    unfold Clause.ofPredicates clauseText
    rw [ColumnRule.Gives.flatMap_parameters hgives, htexts, hempty]
  unfold Compiler.render
  rw [hps]
  exact congrArg Except.ok hclause

/-- The rules of a filter that was read are well formed. -/
lemma Filter.Parsed.wellFormed_columnRules {f : Filter} (hf : f.Parsed)
    (columns : Dictionary String) : ∀ r ∈ f.columnRules columns, r.WellFormed := by
  intro r hr
  obtain ⟨k, hk, hr⟩ := List.mem_flatMap.1 hr
  unfold columnRulesOf at hr
  cases hcolumn : columns.get? k.name with
  | none =>
    rw [hcolumn] at hr
    cases hr
  | some column =>
    have hget := get_eq_of_key? (hf.recorded.key?_eq_some hk) rfl
    rw [hcolumn] at hr
    simp only [hget, List.mem_map] at hr
    obtain ⟨rule, ⟨stored, hstored, rfl⟩, rfl⟩ := hr
    obtain ⟨values, hvalues, hne, harity⟩ := hf.compilable k hk stored hstored
    have hslice : f.values? k.type stored = some values := hvalues
    refine ⟨?_, fun hlong => ?_⟩
    · simpa [hslice] using hne
    · have hmember : stored.comparator.isMembership = true :=
        harity (by simpa [ColumnRule.count, hslice] using hlong)
      cases hcomparator : stored.comparator <;> simp_all [Comparator.isMembership]

/-- The clause of a filter that was read is that of its rules on columns. -/
lemma Filter.Parsed.render_eq_ok {f : Filter} (hf : f.Parsed) (style : PlaceholderStyle)
    (columns : Dictionary String) :
    Compiler.render ⟨style, some columns⟩ f =
      .ok ⟨clauseText style (f.columnRules columns),
        (f.columnRules columns).flatMap ColumnRule.parameters⟩ :=
  Filter.render_eq_ok hf.recorded style (hf.wellFormed_columnRules columns)

end QueryFilter
