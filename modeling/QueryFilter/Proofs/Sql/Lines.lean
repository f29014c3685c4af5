import QueryFilter.Proofs.Sql.Agreement
import QueryFilter.Proofs.Sql.Placeholders

/-!
# Lines of a statement

Putting a statement together only ever appends: a step adds at most one line and the parameters of
one clause (`Statement.advance_eq`), so a run adds the lines and parameters of its steps in order
(`Statement.foldl_advance`).

A step is idle if it is a filter that cannot be compiled or that has no predicates.  It adds neither
a line nor a parameter, and any later statement is the same without it
(`Statement.foldl_advance_filter`).
-/

namespace QueryFilter

namespace StatementStep

/-- The step is a filter that cannot be compiled, or that has no predicates. -/
def isIdle (compiler : Compiler) : StatementStep → Bool
  | .filter f =>
    match f.predicates compiler.columns with
    | .ok ps => ps.isEmpty
    | .error _ => true
  | _ => false

/-- The line that a step writes, if it is not idle. -/
def line? (compiler : Compiler) : StatementStep → Option String
  | .define name statement => some ("WITH " ++ name ++ " AS (" ++ statement ++ ")")
  | .select table [] => some ("SELECT * FROM " ++ table)
  | .select table (column :: columns) =>
    some ("SELECT " ++ ", ".intercalate (column :: columns) ++ " FROM " ++ table)
  | .join table condition => some ("JOIN " ++ table ++ " ON " ++ condition)
  | .filter f =>
    if isIdle compiler (.filter f) then none else (compiler.render f).toOption.map Clause.sql
  | .order direction columns =>
    some ("ORDER BY " ++ ", ".intercalate columns ++ " " ++ direction.keyword)
  | .page limit number =>
    some ("LIMIT " ++ uint64Text limit ++ " OFFSET " ++
      integerText (min (limit.toNat * number.toNat) (UInt64.size - 1) : Nat))

variable {compiler : Compiler} {f : Filter}

lemma isIdle_filter_iff :
    isIdle compiler (.filter f) = true ↔
      (∃ e, compiler.render f = .error e) ∨ f.predicates compiler.columns = .ok [] := by
  rw [isIdle, Compiler.render]
  cases f.predicates compiler.columns with
  | error e => simp [Except.map]
  | ok ps => simp [Except.map]

/-- What a filter adds that can be compiled: the text of its clause, if the text is not empty. -/
lemma line?_filter_of_render {clause : Clause} (h : compiler.render f = .ok clause) :
    line? compiler (.filter f) = if clause.sql.isEmpty then none else some clause.sql := by
  have hidle : isIdle compiler (.filter f) = clause.sql.isEmpty := by
    rw [Compiler.render] at h
    rw [isIdle]
    cases hps : f.predicates compiler.columns with
    | error e =>
      rw [hps] at h
      cases h
    | ok ps =>
      rw [hps] at h
      obtain rfl : Clause.ofPredicates compiler.placeholder ps = clause := Except.ok.inj h
      rw [Bool.eq_iff_iff, String.isEmpty_iff, Clause.sql_ofPredicates_eq_empty_iff,
        List.isEmpty_iff]
  rw [line?, hidle, h]
  rfl

/-- The steps without a line are the idle ones. -/
lemma line?_eq_none_iff {step : StatementStep} :
    step.line? compiler = none ↔ step.isIdle compiler = true := by
  cases step with
  | filter f =>
    rw [line?]
    split_ifs with hidle
    · exact iff_of_true rfl hidle
    · refine iff_of_false ?_ hidle
      cases hrender : compiler.render f with
      | error e => exact absurd (isIdle_filter_iff.2 (.inl ⟨e, hrender⟩)) hidle
      | ok c => simp [Except.toOption]
  | select table columns => cases columns <;> simp [line?, isIdle]
  | define _ _ | join _ _ | order _ _ | page _ _ => simp [line?, isIdle]

lemma isIdle_iff {step : StatementStep} :
    step.isIdle compiler = true ↔ ∃ f, step = .filter f ∧
      ((∃ e, compiler.render f = .error e) ∨ f.predicates compiler.columns = .ok []) := by
  cases step with
  | filter f => simp [isIdle_filter_iff]
  | define _ _ | select _ _ | join _ _ | order _ _ | page _ _ => simp [isIdle]

/-- The number of rows before a page is a number of 64 bits. -/
lemma exists_line?_page (limit number : UInt64) :
    ∃ offset : UInt64, line? compiler (.page limit number) =
        some ("LIMIT " ++ uint64Text limit ++ " OFFSET " ++ uint64Text offset) ∧
      offset.toNat = min (limit.toNat * number.toNat) (UInt64.size - 1) := by
  have hlt : min (limit.toNat * number.toNat) (UInt64.size - 1) < UInt64.size :=
    lt_of_le_of_lt (Nat.min_le_right _ _) (by decide)
  have hoffset := UInt64.toNat_ofNat_of_lt hlt
  refine ⟨_, ?_, hoffset⟩
  rw [line?, uint64Text, uint64Text, hoffset]

end StatementStep

namespace Statement

variable {compiler : Compiler}

/-- What a step does: it appends its line and the parameters of its clause. -/
lemma advance_eq (s : Statement) (step : StatementStep) :
    s.advance compiler step =
      ⟨s.segments ++ (step.line? compiler).toList,
        s.params ++ (step.clause? compiler).toList.flatMap Clause.params⟩ := by
  -- Without a filter there are no parameters.
  have hline : ∀ text, s.line text = ⟨s.segments ++ [text], s.params ++ []⟩ := by
    intro text
    rw [line, List.append_nil]
  cases step with
  | define _ _ | join _ _ | order _ _ => exact hline _
  | select table columns =>
    cases columns with
    | nil => exact hline _
    | cons column columns => exact hline _
  | page limit number =>
    have hoffset : offset limit number = min (limit.toNat * number.toNat) (UInt64.size - 1) := by
      rw [offset, Nat.mul_comm]
      rfl
    rw [advance, step, StatementStep.line?, ← hoffset]
    exact hline _
  | filter f =>
    rw [advance, step, StatementStep.clause?]
    cases hrender : compiler.render f with
    | error e =>
      have hidle : StatementStep.isIdle compiler (.filter f) = true :=
        StatementStep.isIdle_filter_iff.2 (.inl ⟨e, hrender⟩)
      rw [StatementStep.line?, if_pos hidle]
      exact congrArg₂ Statement.mk (List.append_nil _).symm (List.append_nil _).symm
    | ok c =>
      rw [StatementStep.line?_filter_of_render hrender]
      change s.clause c = _
      rw [clause]
      split_ifs
      · simp [Except.toOption]
      · simp [Except.toOption]

/-- What steps do: they append their lines and the parameters of their clauses, in order. -/
lemma foldl_advance (s : Statement) (steps : List StatementStep) :
    steps.foldl (advance compiler) s =
      ⟨s.segments ++ steps.filterMap (StatementStep.line? compiler),
        s.params ++ (clauses compiler steps).flatMap Clause.params⟩ := by
  induction steps generalizing s with
  | nil => exact congrArg₂ Statement.mk (List.append_nil _).symm (List.append_nil _).symm
  | cons step steps ih =>
    have hlines : (step :: steps).filterMap (StatementStep.line? compiler) =
        (step.line? compiler).toList ++ steps.filterMap (StatementStep.line? compiler) := by
      rw [List.filterMap_cons]
      cases step.line? compiler <;> rfl
    have hclauses : clauses compiler (step :: steps) =
        (step.clause? compiler).toList ++ clauses compiler steps := by
      rw [clauses, List.filterMap_cons]
      cases step.clause? compiler <;> rfl
    rw [List.foldl_cons, ih, advance_eq, hlines, hclauses, List.flatMap_append, List.append_assoc,
      List.append_assoc]

lemma run_eq (compiler : Compiler) (steps : List StatementStep) :
    run compiler steps = ⟨steps.filterMap (StatementStep.line? compiler),
      (clauses compiler steps).flatMap Clause.params⟩ :=
  foldl_advance empty steps

/-- An idle step changes nothing. -/
lemma advance_of_isIdle (s : Statement) {step : StatementStep}
    (h : step.isIdle compiler = true) : s.advance compiler step = s := by
  cases step with
  | filter f =>
    rw [advance, Statement.step]
    rcases StatementStep.isIdle_filter_iff.1 h with ⟨e, he⟩ | hnone
    · rw [he]
      rfl
    · rw [Compiler.render, hnone]
      exact congrArg (Statement.mk s.segments) (List.append_nil s.params)
  | define _ _ | select _ _ | join _ _ | order _ _ | page _ _ => cases h

/-- Idle steps may be left out. -/
lemma foldl_advance_filter (s : Statement) (steps : List StatementStep) :
    (steps.filter fun step => !step.isIdle compiler).foldl (advance compiler) s =
      steps.foldl (advance compiler) s := by
  have hskip : ∀ (t : Statement) (step : StatementStep),
      (if (!step.isIdle compiler) = true then t.advance compiler step else t) =
        t.advance compiler step := by
    intro t step
    split_ifs with hidle
    · rfl
    · exact (advance_of_isIdle t (by simpa using hidle)).symm
  rw [List.foldl_filter]
  simp only [hskip]

end Statement

open Statement in
/-- The statement of any steps.  Its text has one line for every step that is not idle, in order,
and its parameters are those of the clauses of its filters.  More steps leave these lines and
parameters in front.  A step is idle if it is a filter that cannot be compiled or has no predicates,
and without its idle steps every longer statement is the same.  The number of rows before a page is
written as the exact product, or as the greatest number of 64 bits if that is smaller. -/
theorem run_writes_lines (compiler : Compiler) (steps : List StatementStep) :
    (run compiler steps).text =
        "\n".intercalate (steps.filterMap (StatementStep.line? compiler)) ∧
      (run compiler steps).params = (clauses compiler steps).flatMap Clause.params ∧
      (∀ later, (run compiler steps).segments <+: (run compiler (steps ++ later)).segments ∧
        (run compiler steps).params <+: (run compiler (steps ++ later)).params) ∧
      (∀ step, StatementStep.line? compiler step = none ↔ ∃ f, step = .filter f ∧
        ((∃ e, compiler.render f = .error e) ∨ f.predicates compiler.columns = .ok [])) ∧
      (∀ later, run compiler ((steps.filter fun step => !step.isIdle compiler) ++ later) =
        run compiler (steps ++ later)) ∧
      ∀ limit page : UInt64, ∃ offset : UInt64,
        StatementStep.line? compiler (.page limit page) =
          some ("LIMIT " ++ uint64Text limit ++ " OFFSET " ++ uint64Text offset) ∧
        offset.toNat = min (limit.toNat * page.toNat) (UInt64.size - 1) := by
  have hrun := run_eq compiler steps
  refine ⟨?_, ?_, ?_, ?_, ?_, ?_⟩
  · rw [text, hrun]
  · rw [hrun]
  · intro later
    have hlonger : run compiler (steps ++ later) =
        later.foldl (advance compiler) (run compiler steps) := List.foldl_append
    rw [hlonger, foldl_advance]
    exact ⟨List.prefix_append _ _, List.prefix_append _ _⟩
  · intro step
    exact StatementStep.line?_eq_none_iff.trans StatementStep.isIdle_iff
  · intro later
    rw [run, run, List.foldl_append, List.foldl_append, foldl_advance_filter]
  · exact StatementStep.exists_line?_page

/-- A filter on a key without a column writes no line, nor does one that compares with two
values. -/
example :
    let compiler : Compiler := ⟨.numbered, some (.ofPairs [("age", "e.age")])⟩
    (Statement.run compiler
      [.select "employees" [], .filter (Filter.empty.append "note" .string ["x"] .like),
        .filter (Filter.empty.append "age" .integer [30] .greaterOrEqual),
        .filter (Filter.empty.append "age" .integer [1, 2] .lessThan), .page 20 2]).text =
      "SELECT * FROM employees\nWHERE e.age >= $1\nLIMIT 20 OFFSET 40" := by
  decide +kernel

end QueryFilter
