import QueryFilter.Proofs.Sql.Agreement
import QueryFilter.Proofs.Sql.Refusals

/-!
# Patterns of the `like` comparator

The meaning of patterns, and which texts the parameter of a `like` rule matches.
-/

namespace QueryFilter

/-! ## Wildcard patterns

The meaning of the patterns of the `LIKE` operator: `%` matches any run of characters, `_` any one
character, and every other character itself.
-/

/-- A text matches a pattern. -/
inductive LikeMatch : List Char → List Char → Prop where
  | nil : LikeMatch [] []
  /-- The wildcard for runs matches nothing more. -/
  | stop {pattern text : List Char} : LikeMatch pattern text → LikeMatch ('%' :: pattern) text
  /-- The wildcard for runs matches one character more. -/
  | more {pattern text : List Char} (c : Char) :
      LikeMatch ('%' :: pattern) text → LikeMatch ('%' :: pattern) (c :: text)
  | any {pattern text : List Char} (c : Char) :
      LikeMatch pattern text → LikeMatch ('_' :: pattern) (c :: text)
  | same {pattern text : List Char} {c : Char} (plain : c ≠ '%' ∧ c ≠ '_') :
      LikeMatch pattern text → LikeMatch (c :: pattern) (c :: text)

/-- The whole of `%` matches every text. -/
theorem likeMatch_percent (text : List Char) : LikeMatch ['%'] text := by
  induction text with
  | nil => exact .stop .nil
  | cons c text ih => exact .more c ih

/-! ## Prefixes

A string under `like` becomes the pattern of its characters with the wildcard `%` behind them.  A
text matches this pattern if one of its prefixes matches the string, read as a pattern
(`likeMatch_append_percent_iff`).  A string without wildcards matches itself only, and then the
pattern means what starts with the string.

A wildcard in the string is not escaped and keeps its meaning.  Every text that starts with the
string still matches, but others do too: `sample` writes one, in which no wildcard is left
(`forall_likeMatch_iff_isPrefix_iff`).
-/

/-! ### Patterns -/

variable {pattern rest text : List Char}

lemma LikeMatch.append {text' : List Char} (h : LikeMatch pattern text)
    (h' : LikeMatch rest text') : LikeMatch (pattern ++ rest) (text ++ text') := by
  induction h with
  | nil => exact h'
  | stop _ ih => exact .stop ih
  | more c _ ih => exact .more c ih
  | any c _ ih => exact .any c ih
  | same plain _ ih => exact .same plain ih

/-- A text that matches two patterns, one behind the other, consists of two texts that match
them. -/
lemma exists_likeMatch_of_append (h : LikeMatch (pattern ++ rest) text) :
    ∃ start stop, text = start ++ stop ∧ LikeMatch pattern start ∧ LikeMatch rest stop := by
  generalize hwhole : pattern ++ rest = whole at h
  induction h generalizing pattern with
  | nil =>
    obtain ⟨rfl, rfl⟩ := List.append_eq_nil_iff.1 hwhole
    exact ⟨[], [], rfl, .nil, .nil⟩
  | @stop whole text h ih =>
    rcases List.append_eq_cons_iff.1 hwhole with ⟨rfl, rfl⟩ | ⟨pattern, rfl, rfl⟩
    · exact ⟨[], text, rfl, .nil, .stop h⟩
    · obtain ⟨start, stop, rfl, hstart, hstop⟩ := ih rfl
      exact ⟨start, stop, rfl, .stop hstart, hstop⟩
  | @more whole text c h ih =>
    rcases List.append_eq_cons_iff.1 hwhole with ⟨rfl, rfl⟩ | ⟨pattern, rfl, rfl⟩
    · exact ⟨[], c :: text, rfl, .nil, .more c h⟩
    · -- The wildcard takes in the character and goes on.
      obtain ⟨start, stop, rfl, hstart, hstop⟩ := ih (List.cons_append ..)
      exact ⟨c :: start, stop, rfl, .more c hstart, hstop⟩
  | @any whole text c h ih =>
    rcases List.append_eq_cons_iff.1 hwhole with ⟨rfl, rfl⟩ | ⟨pattern, rfl, rfl⟩
    · exact ⟨[], c :: text, rfl, .nil, .any c h⟩
    · obtain ⟨start, stop, rfl, hstart, hstop⟩ := ih rfl
      exact ⟨c :: start, stop, rfl, .any c hstart, hstop⟩
  | @same whole text c plain h ih =>
    rcases List.append_eq_cons_iff.1 hwhole with ⟨rfl, rfl⟩ | ⟨pattern, rfl, rfl⟩
    · exact ⟨[], c :: text, rfl, .nil, .same plain h⟩
    · obtain ⟨start, stop, rfl, hstart, hstop⟩ := ih rfl
      exact ⟨c :: start, stop, rfl, .same plain hstart, hstop⟩

/-- With the wildcard for runs behind it, a pattern is matched by what starts with a match. -/
lemma likeMatch_append_percent_iff :
    LikeMatch (pattern ++ ['%']) text ↔ ∃ start, start <+: text ∧ LikeMatch pattern start := by
  constructor
  · intro h
    obtain ⟨start, stop, rfl, hstart, -⟩ := exists_likeMatch_of_append h
    exact ⟨start, List.prefix_append start stop, hstart⟩
  · rintro ⟨start, ⟨stop, rfl⟩, hstart⟩
    exact hstart.append (likeMatch_percent stop)

/-- Every text matches itself as a pattern: a wildcard may stand for its own character. -/
lemma likeMatch_self (text : List Char) : LikeMatch text text := by
  induction text with
  | nil => exact .nil
  | cons c text ih =>
    by_cases hrun : c = '%'
    · subst hrun
      exact .more '%' (.stop ih)
    · by_cases hone : c = '_'
      · subst hone
        exact .any '_' ih
      · exact .same ⟨hrun, hone⟩ ih

/-- A pattern without wildcards is matched by itself only. -/
lemma eq_of_likeMatch (h : LikeMatch pattern text) (hplain : ∀ c ∈ pattern, c ≠ '%' ∧ c ≠ '_') :
    text = pattern := by
  induction h with
  | nil => rfl
  | stop _ _ => exact absurd rfl (hplain '%' List.mem_cons_self).1
  | more _ _ _ => exact absurd rfl (hplain '%' List.mem_cons_self).1
  | any _ _ _ => exact absurd rfl (hplain '_' List.mem_cons_self).2
  | same _ _ ih => rw [ih fun c hc => hplain c (List.mem_cons_of_mem _ hc)]

/-- A text that matches a pattern and has no wildcards: runs are empty, and the wildcard for one
character stands for a letter. -/
def sample : List Char → List Char
  | [] => []
  | c :: cs => if c = '%' then sample cs else if c = '_' then 'x' :: sample cs else c :: sample cs

lemma likeMatch_sample (pattern : List Char) : LikeMatch pattern (sample pattern) := by
  induction pattern with
  | nil => exact .nil
  | cons c cs ih =>
    rw [sample]
    split_ifs with hrun hone
    · subst hrun
      exact .stop ih
    · subst hone
      exact .any 'x' ih
    · exact .same ⟨hrun, hone⟩ ih

lemma length_sample_le (pattern : List Char) : (sample pattern).length ≤ pattern.length := by
  induction pattern with
  | nil => exact le_rfl
  | cons c cs ih =>
    rw [sample]
    split_ifs <;> simp only [List.length_cons] <;> omega

lemma plain_sample (pattern : List Char) : ∀ c ∈ sample pattern, c ≠ '%' ∧ c ≠ '_' := by
  induction pattern with
  | nil => exact List.forall_mem_nil _
  | cons c cs ih =>
    rw [sample]
    split_ifs with hrun hone
    · exact ih
    · exact List.forall_mem_cons.2 ⟨by decide, ih⟩
    · exact List.forall_mem_cons.2 ⟨⟨hrun, hone⟩, ih⟩

/-- The wildcard behind a literal makes it mean its prefixes only if the literal has no wildcards of
its own. -/
lemma forall_likeMatch_iff_isPrefix_iff (literal : List Char) :
    (∀ text, LikeMatch (literal ++ ['%']) text ↔ literal <+: text) ↔
      ∀ c ∈ literal, c ≠ '%' ∧ c ≠ '_' := by
  constructor
  · intro h
    -- The sample is no longer than the literal, so starting with the literal it would be the
    -- literal.
    have hmatch : LikeMatch (literal ++ ['%']) (sample literal) :=
      likeMatch_append_percent_iff.2 ⟨_, List.prefix_refl _, likeMatch_sample literal⟩
    have hbegins : literal <+: sample literal := (h _).1 hmatch
    have hsample : literal = sample literal :=
      hbegins.eq_of_length (le_antisymm hbegins.length_le (length_sample_le literal))
    rw [hsample]
    exact plain_sample literal
  · intro hplain text
    rw [likeMatch_append_percent_iff]
    constructor
    · rintro ⟨start, hstart, hmatch⟩
      rwa [eq_of_likeMatch hmatch hplain] at hstart
    · intro hbegins
      exact ⟨literal, hbegins, likeMatch_self literal⟩

/-! ### Parameters -/

/-- A filter with a clause has a condition with the same parameters. -/
lemma Compiler.exists_condition_of_render {c : Compiler} {f : Filter} {clause : Clause}
    (h : c.render f = .ok clause) :
    ∃ condition, c.condition f = .ok condition ∧ condition.parameters = clause.params := by
  rw [render] at h
  rw [condition]
  cases hps : f.predicates c.columns with
  | error e =>
    rw [hps] at h
    cases h
  | ok ps =>
    rw [hps] at h
    obtain rfl : Clause.ofPredicates c.placeholder ps = clause := Except.ok.inj h
    exact ⟨_, rfl, Condition.parameters_map_ofPredicate ps⟩

/-- The parameters of a clause are those of the rules on columns. -/
lemma Filter.params_of_render_eq_ok {f : Filter} (hf : f.Recorded) {style : PlaceholderStyle}
    {columns : Dictionary String} {clause : Clause}
    (h : Compiler.render ⟨style, some columns⟩ f = .ok clause) :
    clause.params = (f.columnRules columns).flatMap ColumnRule.parameters := by
  have hrules : ∀ r ∈ f.columnRules columns, r.WellFormed := by
    intro r hr
    by_contra hill
    obtain ⟨error, hfault⟩ := ColumnRule.exists_firstFault_iff.2 ⟨r, hr, hill⟩
    cases h.symm.trans ((render_eq_error_iff hf).2 hfault)
  have hclause := Except.ok.inj (h.symm.trans (render_eq_ok hf style hrules))
  exact congrArg Clause.params hclause

/-- What the parameter of a string under `like` matches, in a clause and in a condition alike.  It
matches every text that starts with the string, and in general those that start with a match of the
string as a pattern.  So it means what starts with the string, and nothing else, just when the
string has neither `%` nor `_`. -/
theorem like_parameter_matches_prefixes {f : Filter} (hf : f.Recorded)
    {columns : Dictionary String} {before after : List ColumnRule} {key column literal : String}
    (hrules : f.columnRules columns =
      before ++ ⟨key, column, .string, ⟨.like, [literal]⟩⟩ :: after)
    {style : PlaceholderStyle} {clause : Clause}
    (hclause : Compiler.render ⟨style, some columns⟩ f = .ok clause) :
    ∃ condition pattern, Compiler.condition ⟨style, some columns⟩ f = .ok condition ∧
      condition.parameters = clause.params ∧
      clause.params = before.flatMap ColumnRule.parameters ++
        Parameter.string pattern :: after.flatMap ColumnRule.parameters ∧
      (∀ text : String, literal.toList <+: text.toList →
        LikeMatch pattern.toList text.toList) ∧
      (∀ text : String, LikeMatch pattern.toList text.toList ↔
        ∃ start, start <+: text.toList ∧ LikeMatch literal.toList start) ∧
      ((∀ text : String, LikeMatch pattern.toList text.toList ↔
          literal.toList <+: text.toList) ↔
        ∀ c ∈ literal.toList, c ≠ '%' ∧ c ≠ '_') := by
  obtain ⟨condition, hcondition, hparameters⟩ := Compiler.exists_condition_of_render hclause
  have hpattern : (literal ++ "%").toList = literal.toList ++ ['%'] := String.toList_append
  refine ⟨condition, literal ++ "%", hcondition, hparameters, ?_, ?_, ?_, ?_⟩
  · rw [Filter.params_of_render_eq_ok hf hclause, hrules, List.flatMap_append, List.flatMap_cons]
    rfl
  · intro text hbegins
    rw [hpattern, likeMatch_append_percent_iff]
    exact ⟨literal.toList, hbegins, likeMatch_self literal.toList⟩
  · intro text
    rw [hpattern, likeMatch_append_percent_iff]
  · rw [hpattern, ← forall_likeMatch_iff_isPrefix_iff]
    constructor
    · intro h text
      have htext := h (String.ofList text)
      rwa [String.toList_ofList] at htext
    · intro h text
      exact h text.toList

/-- A name without wildcards, behind a rule on another column: its pattern means what starts with
it. -/
theorem like_parameter_matches_prefixes_of_name :
    let f := (Filter.empty.append "age" .integer [30] .greaterThan).append "name" .string ["Rob"]
      .like
    let columns : Dictionary String := .ofPairs [("name", "e.name"), ("age", "e.age")]
    f.Recorded ∧
      f.columnRules columns = [⟨"age", "e.age", .integer, ⟨.greaterThan, [30]⟩⟩] ++
        ⟨"name", "e.name", .string, ⟨.like, ["Rob"]⟩⟩ :: [] ∧
      ∃ clause pattern, Compiler.render ⟨.numbered, some columns⟩ f = .ok clause ∧
        clause.params.map Parameter.text = ["30", pattern] ∧
        LikeMatch pattern.toList "Roberto".toList ∧ ¬ LikeMatch pattern.toList "Bob".toList := by
  intro f columns
  have hf : f.Recorded :=
    ⟨[⟨"age", .integer, [30], .greaterThan⟩, ⟨"name", .string, ["Rob"], .like⟩], rfl⟩
  have hrules : f.columnRules columns = [⟨"age", "e.age", .integer, ⟨.greaterThan, [30]⟩⟩] ++
      ⟨"name", "e.name", .string, ⟨.like, ["Rob"]⟩⟩ :: [] := rfl
  obtain ⟨clause, hclause⟩ : ∃ clause, Compiler.render ⟨.numbered, some columns⟩ f = .ok clause :=
    ⟨_, rfl⟩
  obtain ⟨_, pattern, -, -, hparams, hstarts, -, hiff⟩ :=
    like_parameter_matches_prefixes hf hrules hclause
  have hbegins := hiff.2 (by simp)
  refine ⟨hf, hrules, clause, pattern, hclause, ?_, hstarts "Roberto" (by decide), ?_⟩
  · rw [hparams]
    rfl
  · rw [hbegins]
    decide

/-- A percent sign in a string stays a wildcard: the pattern of `100%` matches `1000`. -/
theorem not_prefix_of_percent_sign :
    ¬∀ (f : Filter) (style : PlaceholderStyle) (columns : Dictionary String)
        (key column literal pattern : String) (clause : Clause), f.Recorded →
      f.columnRules columns = [⟨key, column, .string, ⟨.like, [literal]⟩⟩] →
      Compiler.render ⟨style, some columns⟩ f = .ok clause →
      clause.params = [Parameter.string pattern] →
      ∀ text : String, LikeMatch pattern.toList text.toList ↔ literal.toList <+: text.toList := by
  intro h
  have hf : (Filter.empty.append "rate" .string ["100%"] .like).Recorded :=
    ⟨[⟨"rate", .string, ["100%"], .like⟩], rfl⟩
  have hiff := h _ .numbered (.ofPairs [("rate", "rate")]) "rate" "rate" "100%" "100%%" _ hf rfl rfl
    rfl "1000"
  have hmatch : LikeMatch "100%%".toList "1000".toList :=
    .same (by decide) (.same (by decide) (.same (by decide) (.more '0' (.stop (.stop .nil)))))
  have hbegins : "100%".toList <+: "1000".toList := hiff.1 hmatch
  revert hbegins
  decide

end QueryFilter
