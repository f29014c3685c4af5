import Mathlib.Data.List.TakeWhile
import QueryFilter.Proofs.Sql.Compilation

/-!
# Placeholders of a statement

A statement is put together from texts of the caller and from the clauses of filters.  If the texts
of the caller and the columns have no `?` and no `$`, the placeholders that `placeholdersIn` reads
in a statement are those of its clauses, one after another, as the parameters are
(`placeholders_of_run`).  Every clause is numbered on its own: a second clause with parameters
starts at `$1` again, so that the numbers of a statement run through only if at most one of its
clauses has parameters (`not_placeholders_of_run_numbered`).

Reading a text piece by piece needs care at the end of a piece, since a numbered placeholder takes
in all digits that follow it.  Pieces are joined by separators, which do not begin with a digit
(`Separator.placeholdersIn_append`).
-/

namespace QueryFilter

/-! ### Reading placeholders -/

/-- The placeholders in a text: every `?`, and every `$` with the digits behind it. -/
def scanPlaceholders : List Char → List String
  | [] => []
  | c :: cs =>
    if c = '?' then "?" :: scanPlaceholders cs
    else if c = '$' then ("$" ++ String.ofList (cs.takeWhile Char.isDigit)) :: scanPlaceholders cs
    else scanPlaceholders cs

/-- The placeholders in a text, from left to right. -/
def placeholdersIn (text : String) : List String :=
  scanPlaceholders text.toList

/-- A text in which no placeholder begins. -/
def Plain (text : String) : Prop :=
  ∀ c ∈ text.toList, c ≠ '?' ∧ c ≠ '$'

instance (text : String) : Decidable (Plain text) :=
  List.decidableBAll (fun c => c ≠ '?' ∧ c ≠ '$') text.toList

/-- A plain text that does not go on with the digits of a placeholder before it. -/
structure Separator (text : String) : Prop where
  plain : Plain text
  first : ∃ c cs, text.toList = c :: cs ∧ c.isDigit = false

lemma scanPlaceholders_append_of_plain {cs : List Char} (h : ∀ c ∈ cs, c ≠ '?' ∧ c ≠ '$')
    (ds : List Char) : scanPlaceholders (cs ++ ds) = scanPlaceholders ds := by
  induction cs with
  | nil => rfl
  | cons c cs ih =>
    obtain ⟨⟨hmark, hdollar⟩, hcs⟩ := List.forall_mem_cons.1 h
    rw [List.cons_append, scanPlaceholders, if_neg hmark, if_neg hdollar, ih hcs]

lemma scanPlaceholders_of_plain {cs : List Char} (h : ∀ c ∈ cs, c ≠ '?' ∧ c ≠ '$') :
    scanPlaceholders cs = [] := by
  have happend := scanPlaceholders_append_of_plain h []
  rw [List.append_nil] at happend
  rw [happend, scanPlaceholders]

/-- A text whose continuation does not begin with a digit is read on its own. -/
lemma scanPlaceholders_append (cs : List Char) {ds : List Char}
    (h : ds.takeWhile Char.isDigit = []) :
    scanPlaceholders (cs ++ ds) = scanPlaceholders cs ++ scanPlaceholders ds := by
  induction cs with
  | nil => rfl
  | cons c cs ih =>
    -- Only the digits behind a `$` could reach into the continuation.
    have hdigits : (cs ++ ds).takeWhile Char.isDigit = cs.takeWhile Char.isDigit := by
      rw [List.takeWhile_append, h, List.append_nil]
      split
      · next hlength =>
        exact ((List.takeWhile_prefix _).eq_of_length hlength).symm
      · rfl
    rw [List.cons_append, scanPlaceholders, scanPlaceholders, ih, hdigits]
    split_ifs <;> rfl

namespace Plain

variable {s t : String}

lemma append (hs : Plain s) (ht : Plain t) : Plain (s ++ t) := by
  intro c hc
  rw [String.toList_append, List.mem_append] at hc
  exact hc.elim (hs c) (ht c)

lemma intercalate (hs : Plain s) {texts : List String} (h : ∀ t ∈ texts, Plain t) :
    Plain (s.intercalate texts) := by
  induction texts with
  | nil => exact List.forall_mem_nil _
  | cons t texts ih =>
    obtain ⟨ht, htexts⟩ := List.forall_mem_cons.1 h
    by_cases hnil : texts = []
    · rw [hnil, String.intercalate_singleton]
      exact ht
    · rw [String.intercalate_cons_of_ne_nil hnil]
      exact (ht.append hs).append (ih htexts)

lemma placeholdersIn_append (hs : Plain s) (t : String) :
    placeholdersIn (s ++ t) = placeholdersIn t := by
  rw [placeholdersIn, String.toList_append, scanPlaceholders_append_of_plain hs, placeholdersIn]

lemma placeholdersIn_eq_nil (hs : Plain s) : placeholdersIn s = [] :=
  scanPlaceholders_of_plain hs

end Plain

namespace Separator

variable {s : String}

/-- Texts around a separator are read on their own. -/
lemma placeholdersIn_append (hs : Separator s) (t u : String) :
    placeholdersIn (t ++ s ++ u) = placeholdersIn t ++ placeholdersIn u := by
  have hfirst : (s ++ u).toList.takeWhile Char.isDigit = [] := by
    obtain ⟨c, cs, hcs, hc⟩ := hs.first
    rw [String.toList_append, hcs, List.cons_append, List.takeWhile_cons, hc]
    rfl
  rw [String.append_assoc, placeholdersIn, String.toList_append, scanPlaceholders_append _ hfirst]
  exact congrArg _ (hs.plain.placeholdersIn_append u)

lemma placeholdersIn_intercalate (hs : Separator s) (texts : List String) :
    placeholdersIn (s.intercalate texts) = texts.flatMap placeholdersIn := by
  induction texts with
  | nil => rfl
  | cons t texts ih =>
    by_cases hnil : texts = []
    · rw [hnil, String.intercalate_singleton, List.flatMap_singleton]
    · rw [String.intercalate_cons_of_ne_nil hnil, hs.placeholdersIn_append, ih, List.flatMap_cons]

lemma comma : Separator "," :=
  ⟨by decide, ',', [], rfl, rfl⟩

lemma conjunction : Separator " AND " :=
  ⟨by decide, ' ', "AND ".toList, rfl, rfl⟩

lemma newline : Separator "\n" :=
  ⟨by decide, '\n', [], rfl, rfl⟩

lemma parenthesis : Separator ")" :=
  ⟨by decide, ')', [], rfl, rfl⟩

end Separator

/-! ### Placeholders of clauses -/

lemma isDigit_of_mem_digits {n : Nat} {c : Char} (h : c ∈ digits n) : c.isDigit = true :=
  Nat.isDigit_of_mem_toDigits (by decide) (by decide) h

lemma plain_digits {n : Nat} : ∀ c ∈ digits n, c ≠ '?' ∧ c ≠ '$' := by
  intro c hc
  have hdigit := isDigit_of_mem_digits hc
  constructor
  · rintro rfl
    cases hdigit
  · rintro rfl
    cases hdigit

lemma toList_integerText (n : Nat) : (integerText n).toList = digits n := by
  rw [integerText, if_neg (by omega), String.toList_ofList, Int.natAbs_natCast]

/-- The text of a number is plain. -/
lemma plain_integerText (n : Nat) : Plain (integerText n) := by
  rw [Plain, toList_integerText]
  exact plain_digits

namespace PlaceholderStyle

variable (style : PlaceholderStyle)

/-- A placeholder is read as itself. -/
lemma placeholdersIn_placeholder (n : Nat) :
    placeholdersIn (style.placeholder n) = [style.placeholder n] := by
  cases style with
  | positional =>
    rw [placeholder]
    decide
  | numbered =>
    have hdigits : (digits n).takeWhile Char.isDigit = digits n :=
      List.takeWhile_eq_self_iff.2 fun c hc => isDigit_of_mem_digits hc
    have hrest : scanPlaceholders (digits n) = [] := scanPlaceholders_of_plain plain_digits
    have htext : (placeholder numbered n).toList = '$' :: digits n := by
      rw [placeholder, String.toList_append, toList_integerText]
      rfl
    rw [placeholdersIn, htext, scanPlaceholders, if_neg (by decide), if_pos rfl, hdigits, hrest,
      placeholder, ← toList_integerText, String.ofList_toList]

lemma flatMap_placeholdersIn_placeholders (next count : Nat) :
    (style.placeholders next count).flatMap placeholdersIn = style.placeholders next count := by
  rw [placeholders, List.flatMap_map]
  simp only [placeholdersIn_placeholder]
  exact List.map_eq_flatMap.symm

lemma placeholders_add (next m n : Nat) :
    style.placeholders next (m + n) =
      style.placeholders next m ++ style.placeholders (next + m) n := by
  rw [placeholders, placeholders, placeholders, List.range_add, List.map_append, List.map_map]
  refine congrArg _ (List.map_congr_left fun i _ => ?_)
  rw [Function.comp_apply, Nat.add_assoc]

lemma length_placeholders (next count : Nat) : (style.placeholders next count).length = count := by
  rw [placeholders, List.length_map, List.length_range]

end PlaceholderStyle

lemma Comparator.plain_operator (comparator : Comparator) : Plain comparator.operator := by
  cases comparator <;> decide

/-- The placeholders of a predicate are those of its parameters. -/
lemma Predicate.placeholdersIn_text (style : PlaceholderStyle) (next : Nat) {p : Predicate}
    (h : Plain p.column) :
    placeholdersIn (p.text style next) = style.placeholders next p.parameters.length := by
  cases p with
  | compare column comparator value =>
    have hplain : Plain (column ++ " " ++ comparator.operator ++ " ") :=
      (((show Plain column from h).append (by decide)).append comparator.plain_operator).append
        (by decide)
    rw [text, hplain.placeholdersIn_append, style.placeholdersIn_placeholder]
    rfl
  | member column values =>
    have hplain : Plain (column ++ " IN (") := (show Plain column from h).append (by decide)
    have hend := Separator.parenthesis.placeholdersIn_append
      (column ++ " IN (" ++ ",".intercalate (style.placeholders next values.length)) ""
    rw [String.append_empty] at hend
    rw [text, hend, hplain.placeholdersIn_append,
      Separator.comma.placeholdersIn_intercalate, style.flatMap_placeholdersIn_placeholders]
    exact List.append_nil _

namespace Clause

lemma flatMap_placeholdersIn_texts (style : PlaceholderStyle) (next : Nat) {ps : List Predicate}
    (h : ∀ p ∈ ps, Plain p.column) :
    (texts style next ps).flatMap placeholdersIn =
      style.placeholders next (ps.flatMap Predicate.parameters).length := by
  induction ps generalizing next with
  | nil => rfl
  | cons p ps ih =>
    obtain ⟨hp, hps⟩ := List.forall_mem_cons.1 h
    rw [texts, List.flatMap_cons, List.flatMap_cons, List.length_append, style.placeholders_add,
      Predicate.placeholdersIn_text style next hp, ih _ hps]

/-- The placeholders of a clause are those of its parameters, numbered from one. -/
lemma placeholdersIn_sql (style : PlaceholderStyle) {ps : List Predicate}
    (h : ∀ p ∈ ps, Plain p.column) :
    placeholdersIn (ofPredicates style ps).sql =
      style.placeholders 1 (ofPredicates style ps).params.length := by
  have hwhere : Plain "WHERE " := by decide
  rw [ofPredicates]
  cases ps with
  | nil => rfl
  | cons p ps =>
    rw [List.isEmpty_cons, if_neg Bool.false_ne_true, hwhere.placeholdersIn_append,
      Separator.conjunction.placeholdersIn_intercalate, flatMap_placeholdersIn_texts style 1 h]

end Clause

/-- What the relation gives for every pair holds for the second list. -/
lemma forall_mem_of_forall₂ {α β : Type} {R : α → β → Prop} {P : β → Prop} {xs : List α}
    {ys : List β} (h : List.Forall₂ R xs ys) (hP : ∀ x y, R x y → P y) : ∀ y ∈ ys, P y := by
  induction h with
  | nil => exact List.forall_mem_nil _
  | cons hxy hrest ih => exact List.forall_mem_cons.2 ⟨hP _ _ hxy, ih⟩

namespace Compiler

/-- The columns of a compiler have no placeholder in their names. -/
def PlainColumns (c : Compiler) : Prop :=
  ∀ columns, c.columns = some columns →
    ∀ key column, columns.get? key = some column → Plain column

variable {c : Compiler} {f : Filter}

lemma PlainColumns.of_predicates (hc : c.PlainColumns) {ps : List Predicate}
    (h : f.predicates c.columns = .ok ps) : ∀ p ∈ ps, Plain p.column := by
  cases hcolumns : c.columns with
  | none =>
    rw [hcolumns] at h
    cases h
  | some columns =>
    rw [hcolumns] at h
    obtain ⟨pss, hkeys, rfl⟩ := Filter.exists_forall₂_of_predicates_eq_ok h
    refine List.forall_mem_flatten.2 (forall_mem_of_forall₂ hkeys fun k ps hk => ?_)
    rw [Filter.keyPredicates] at hk
    cases hcolumn : columns.get? k.name with
    | none =>
      rw [hcolumn] at hk
      obtain rfl : [] = ps := Except.ok.inj hk
      exact List.forall_mem_nil _
    | some column =>
      rw [hcolumn] at hk
      refine forall_mem_of_forall₂ (forall₂_of_mapM_eq_ok hk) fun r p hp => ?_
      rw [(Predicate.column_parameters_of_ofRule hp).1]
      exact hc columns hcolumns k.name column hcolumn

/-- The placeholders of the clause of a filter. -/
lemma PlainColumns.placeholdersIn_sql (hc : c.PlainColumns) {clause : Clause}
    (h : c.render f = .ok clause) :
    placeholdersIn clause.sql = c.placeholder.placeholders 1 clause.params.length := by
  rw [render] at h
  cases hps : f.predicates c.columns with
  | error e =>
    rw [hps] at h
    cases h
  | ok ps =>
    rw [hps] at h
    obtain rfl : Clause.ofPredicates c.placeholder ps = clause := Except.ok.inj h
    exact Clause.placeholdersIn_sql c.placeholder (hc.of_predicates hps)

end Compiler

/-! ### Placeholders of statements -/

/-- The texts of the caller are plain. -/
def StatementStep.Plain : StatementStep → Prop
  | .define name statement => QueryFilter.Plain name ∧ QueryFilter.Plain statement
  | .select table columns => QueryFilter.Plain table ∧ ∀ c ∈ columns, QueryFilter.Plain c
  | .join table condition => QueryFilter.Plain table ∧ QueryFilter.Plain condition
  | .filter _ => True
  | .order _ columns => ∀ c ∈ columns, QueryFilter.Plain c
  | .page _ _ => True

/-- The clause that a step contributes. -/
def StatementStep.clause? (compiler : Compiler) : StatementStep → Option Clause
  | .filter f => (compiler.render f).toOption
  | _ => none

namespace Statement

/-- The clauses that steps contribute, in order. -/
def clauses (compiler : Compiler) (steps : List StatementStep) : List Clause :=
  steps.filterMap (StatementStep.clause? compiler)

/-- The parameters of a statement are those of some clauses, and so are its placeholders. -/
structure Carries (style : PlaceholderStyle) (s : Statement) (cs : List Clause) : Prop where
  params : s.params = cs.flatMap Clause.params
  placeholders : s.segments.flatMap placeholdersIn =
    cs.flatMap fun c => style.placeholders 1 c.params.length

variable {style : PlaceholderStyle} {compiler : Compiler} {s : Statement} {cs : List Clause}

lemma Carries.line (h : s.Carries style cs) {text : String} (htext : Plain text) :
    (s.line text).Carries style cs := by
  refine ⟨h.params, ?_⟩
  rw [Statement.line, List.flatMap_append, h.placeholders, List.flatMap_singleton,
    htext.placeholdersIn_eq_nil, List.append_nil]

lemma Carries.clause (h : s.Carries style cs) {c : Clause}
    (hc : placeholdersIn c.sql = style.placeholders 1 c.params.length) :
    (s.clause c).Carries style (cs ++ [c]) := by
  constructor
  · rw [Statement.clause, h.params, List.flatMap_append, List.flatMap_singleton]
  · rw [Statement.clause, List.flatMap_append, List.flatMap_singleton, ← h.placeholders]
    by_cases hempty : c.sql.isEmpty = true
    · have hnone : style.placeholders 1 c.params.length = [] := by
        rw [← hc, String.isEmpty_iff.1 hempty]
        rfl
      rw [if_pos hempty, hnone, List.append_nil]
    · rw [if_neg hempty, List.flatMap_append, List.flatMap_singleton, hc]

/-- What one step does to the parameters and the placeholders. -/
lemma Carries.advance (hcolumns : compiler.PlainColumns) (h : s.Carries compiler.placeholder cs)
    {step : StatementStep} (hstep : step.Plain) :
    (s.advance compiler step).Carries compiler.placeholder
      (cs ++ (step.clause? compiler).toList) := by
  -- Only a filter contributes a clause, so for the other steps a plain line is to be found.
  have hline : ∀ text, Plain text → (s.line text).Carries compiler.placeholder (cs ++ []) := by
    intro text htext
    rw [List.append_nil]
    exact h.line htext
  cases step with
  | define name statement =>
    obtain ⟨hname, hstatement⟩ := hstep
    exact hline _ (((((show Plain "WITH " by decide).append hname).append (by decide)).append
      hstatement).append (by decide))
  | select table columns =>
    obtain ⟨htable, hnames⟩ := hstep
    have hlist : Plain (if columns.isEmpty then "*" else ", ".intercalate columns) := by
      split
      · decide
      · exact (show Plain ", " by decide).intercalate hnames
    exact hline _ ((((show Plain "SELECT " by decide).append hlist).append (by decide)).append
      htable)
  | join table condition =>
    obtain ⟨htable, hcondition⟩ := hstep
    exact hline _ ((((show Plain "JOIN " by decide).append htable).append (by decide)).append
      hcondition)
  | order direction columns =>
    have hnames : Plain (", ".intercalate columns) :=
      (show Plain ", " by decide).intercalate hstep
    have hkeyword : Plain direction.keyword := by cases direction <;> decide
    exact hline _ ((((show Plain "ORDER BY " by decide).append hnames).append (by decide)).append
      hkeyword)
  | page limit page =>
    exact hline _ ((((show Plain "LIMIT " by decide).append (plain_integerText _)).append
      (by decide)).append (plain_integerText _))
  | filter f =>
    rw [Statement.advance, step, StatementStep.clause?]
    cases hrender : compiler.render f with
    | error e =>
      rw [Except.map, Except.toOption, Option.toList_none, List.append_nil]
      exact h
    | ok c => exact h.clause (hcolumns.placeholdersIn_sql hrender)

/-- The parameters and the placeholders of a statement after any steps. -/
lemma carries_run (hcolumns : compiler.PlainColumns) {steps : List StatementStep}
    (hsteps : ∀ step ∈ steps, step.Plain) :
    (run compiler steps).Carries compiler.placeholder (clauses compiler steps) := by
  induction steps using List.reverseRecOn with
  | nil => exact ⟨rfl, rfl⟩
  | append_singleton steps step ih =>
    obtain ⟨hbefore, hlast⟩ := List.forall_mem_append.1 hsteps
    have hrun : run compiler (steps ++ [step]) = (run compiler steps).advance compiler step := by
      rw [run, List.foldl_append]
      rfl
    have hclauses : clauses compiler (steps ++ [step]) =
        clauses compiler steps ++ (step.clause? compiler).toList := by
      rw [clauses, List.filterMap_append]
      cases hclause : step.clause? compiler <;> simp [clauses, hclause]
    rw [hrun, hclauses]
    exact (ih hbefore).advance hcolumns (List.forall_mem_singleton.1 hlast)

end Statement

/-! ### Numbering through a statement -/

namespace Clause

/-- Question marks have no numbers that could start anew. -/
lemma flatMap_positional (cs : List Clause) :
    (cs.flatMap fun c => PlaceholderStyle.positional.placeholders 1 c.params.length) =
      PlaceholderStyle.positional.placeholders 1 (cs.flatMap params).length := by
  induction cs with
  | nil => rfl
  | cons c cs ih =>
    rw [List.flatMap_cons, List.flatMap_cons, List.length_append,
      PlaceholderStyle.placeholders_add, ih]
    rfl

/-- The numbers run through if no second clause has parameters. -/
lemma flatMap_of_length_filter_le_one (style : PlaceholderStyle) {cs : List Clause}
    (h : (cs.filter fun c => !c.params.isEmpty).length ≤ 1) :
    (cs.flatMap fun c => style.placeholders 1 c.params.length) =
      style.placeholders 1 (cs.flatMap params).length := by
  induction cs with
  | nil => rfl
  | cons c cs ih =>
    by_cases hc : c.params = []
    · rw [List.flatMap_cons, List.flatMap_cons, hc, List.nil_append]
      exact ih (by simpa [hc] using h)
    · -- This is the clause with parameters, so there is none behind it to start anew.
      have hrest : ∀ c' ∈ cs, c'.params = [] := by
        simpa [hc] using h
      have hparams : cs.flatMap params = [] := List.flatMap_eq_nil_iff.2 hrest
      have hplaceholders : (cs.flatMap fun c => style.placeholders 1 c.params.length) = [] := by
        refine List.flatMap_eq_nil_iff.2 fun c' hc' => ?_
        rw [hrest c' hc']
        rfl
      rw [List.flatMap_cons, List.flatMap_cons, hparams, hplaceholders, List.append_nil,
        List.append_nil]

end Clause

/-- A compiler with a dictionary of plain names. -/
lemma Compiler.plainColumns_of_entries (style : PlaceholderStyle) {columns : Dictionary String}
    (h : ∀ entry ∈ columns.entries, Plain entry.2) :
    (Compiler.mk style (some columns)).PlainColumns := by
  intro columns' hcolumns key column hcolumn
  obtain rfl : columns = columns' := Option.some.inj hcolumns
  rw [Dictionary.get?, List.lookup_eq_some_iff] at hcolumn
  obtain ⟨before, after, hentries, -⟩ := hcolumn
  exact h (key, column) (by rw [hentries]; exact List.mem_append_right _ List.mem_cons_self)

open Statement in
/-- The parameters of a statement are those of its clauses, in order, and with plain texts of the
caller and plain columns its placeholders are those of its clauses, each numbered from one.  There
are as many placeholders as parameters.  Question marks, and numbers if at most one clause has
parameters, are the placeholders of all parameters. -/
theorem placeholders_of_run {compiler : Compiler} {steps : List StatementStep}
    (hcolumns : compiler.PlainColumns) (hsteps : ∀ step ∈ steps, step.Plain) :
    (run compiler steps).params = (clauses compiler steps).flatMap Clause.params ∧
      placeholdersIn (run compiler steps).text = ((clauses compiler steps).flatMap fun c =>
        compiler.placeholder.placeholders 1 c.params.length) ∧
      (placeholdersIn (run compiler steps).text).length = (run compiler steps).params.length ∧
      (compiler.placeholder = .positional ∨
          ((clauses compiler steps).filter fun c => !c.params.isEmpty).length ≤ 1 →
        placeholdersIn (run compiler steps).text =
          compiler.placeholder.placeholders 1 (run compiler steps).params.length) := by
  have hcarries := carries_run hcolumns hsteps
  have htext : placeholdersIn (run compiler steps).text = ((clauses compiler steps).flatMap
      fun c => compiler.placeholder.placeholders 1 c.params.length) := by
    rw [Statement.text, Separator.newline.placeholdersIn_intercalate, hcarries.placeholders]
  refine ⟨hcarries.params, htext, ?_, fun hstyle => ?_⟩
  · rw [htext, hcarries.params, List.length_flatMap, List.length_flatMap]
    simp only [PlaceholderStyle.length_placeholders]
  · rw [htext, hcarries.params]
    rcases hstyle with hpositional | hone
    · rw [hpositional]
      exact Clause.flatMap_positional _
    · exact Clause.flatMap_of_length_filter_le_one compiler.placeholder hone

open Statement in
/-- A statement with one filter, and with another one that has no rules. -/
theorem placeholders_of_run_of_one_filter :
    let compiler : Compiler := ⟨.numbered, some (.ofPairs [("age", "e.age")])⟩
    let steps : List StatementStep := [.filter .empty, .select "employees" [],
      .filter (Filter.empty.append "age" .integer [30, 40] .is), .page 20 2]
    placeholdersIn (run compiler steps).text = ["$1", "$2"] ∧
      (run compiler steps).params.length = 2 := by
  intro compiler steps
  have hcolumns : compiler.PlainColumns := Compiler.plainColumns_of_entries _ (by decide)
  have hsteps : ∀ step ∈ steps, step.Plain := by
    simp only [steps, List.forall_mem_cons, StatementStep.Plain, List.not_mem_nil,
      IsEmpty.forall_iff, implies_true, and_true, true_and]
    decide
  obtain ⟨hparams, -, -, hnumbers⟩ := placeholders_of_run hcolumns hsteps
  have hlength : (run compiler steps).params.length = 2 := by
    rw [hparams]
    rfl
  have htext := hnumbers (.inr (by decide +kernel))
  rw [hlength] at htext
  exact ⟨htext.trans (by decide), hlength⟩

open Statement in
/-- The clauses of two filters both begin with the first number. -/
theorem not_placeholders_of_run_numbered :
    ¬∀ (compiler : Compiler) (steps : List StatementStep), compiler.PlainColumns →
      (∀ step ∈ steps, step.Plain) →
      placeholdersIn (run compiler steps).text =
        compiler.placeholder.placeholders 1 (run compiler steps).params.length := by
  intro h
  have hcolumns : (Compiler.mk .numbered (some (.ofPairs [("a", "a")]))).PlainColumns :=
    Compiler.plainColumns_of_entries _ (by decide)
  have hnumbers := h _ (List.replicate 2 (.filter (Filter.empty.append "a" .integer [1] .equals)))
    hcolumns fun step hstep => by
      rw [List.eq_of_mem_replicate hstep]
      exact trivial
  revert hnumbers
  decide +kernel

end QueryFilter
