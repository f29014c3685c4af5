import Mathlib.Tactic.Common
import QueryFilter.Sql.Condition

/-!
# A clause and a condition say the same

A filter is compiled to a clause, which is a text, or to a condition, which a query turns into a
text of its own.  Both have the same parameters in the same order, and their texts have one layout:
they differ in how the name of a column is written and in what stands between the placeholders of a
list.

`Piece` makes the layout explicit.  `Clause.pieces` lists the pieces of the text of some predicates;
with plain names and `,` they are the clause with numbered placeholders
(`Clause.sql_ofPredicates_eq_write`), with quoted names and `, ` they are what a query in the
dialect of numbered placeholders says behind its table (`Condition.text_eq_write`).
-/

namespace QueryFilter

/-! ### Pieces of a text -/

/-- A part of the text of a clause or of a condition. -/
inductive Piece where
  /-- A text that both have. -/
  | text (s : String)
  /-- The name of a column. -/
  | column (name : String)
  /-- What separates the placeholders of a list. -/
  | comma

namespace Piece

/-- The text of pieces, with the names of columns and the separators of lists written in some
way. -/
def write (column : String → String) (comma : String) : List Piece → String
  | [] => ""
  | text s :: ps => s ++ write column comma ps
  | .column name :: ps => column name ++ write column comma ps
  | .comma :: ps => comma ++ write column comma ps

variable {column : String → String} {comma : String}

lemma write_append (ps qs : List Piece) :
    write column comma (ps ++ qs) = write column comma ps ++ write column comma qs := by
  induction ps with
  | nil => rw [List.nil_append, write, String.empty_append]
  | cons p ps ih =>
    rw [List.cons_append]
    cases p <;> rw [write, write, ih, String.append_assoc]

/-- Joined pieces are written as the joined texts of the pieces. -/
lemma write_intercalate (separator : List Piece) (pss : List (List Piece)) :
    write column comma (separator.intercalate pss) =
      (write column comma separator).intercalate (pss.map (write column comma)) := by
  induction pss with
  | nil => rfl
  | cons ps pss ih =>
    by_cases hnil : pss = []
    · subst hnil
      rw [List.intercalate_singleton, List.map_singleton, String.intercalate_singleton]
    · have hmap : pss.map (write column comma) ≠ [] := by simpa using hnil
      rw [List.intercalate_cons_of_ne_nil hnil, List.map_cons,
        String.intercalate_cons_of_ne_nil hmap, write_append, write_append, ih]

end Piece

/-! ### The layout of predicates -/

namespace Predicate

/-- The pieces of a predicate whose first parameter has the number `next`. -/
def pieces (next : Nat) : Predicate → List Piece
  | compare column comparator _ =>
    [.column column,
      .text (" " ++ comparator.operator ++ " " ++ PlaceholderStyle.numbered.placeholder next)]
  | member column values =>
    [.column column, .text " IN ("] ++
      [Piece.comma].intercalate ((PlaceholderStyle.numbered.placeholders next values.length).map
        fun s => [Piece.text s]) ++
      [.text ")"]

/-- The pieces of predicates, the first parameter of which has the number `next`. -/
def pieceLists (next : Nat) : List Predicate → List (List Piece)
  | [] => []
  | p :: ps => p.pieces next :: pieceLists (next + p.parameters.length) ps

/-- A list of placeholders is written with its separator between them. -/
lemma write_placeholders (column : String → String) (comma : String) (texts : List String) :
    Piece.write column comma ([Piece.comma].intercalate (texts.map fun s => [Piece.text s])) =
      comma.intercalate texts := by
  have hcomma : Piece.write column comma [.comma] = comma := String.append_empty
  have htexts : (texts.map fun s => [Piece.text s]).map (Piece.write column comma) = texts := by
    rw [List.map_map]
    exact (List.map_congr_left fun s _ => String.append_empty).trans (List.map_id texts)
  rw [Piece.write_intercalate, hcomma, htexts]

/-- A predicate with numbered placeholders has plain names, and commas without blanks. -/
lemma text_eq_write (next : Nat) (p : Predicate) :
    p.text .numbered next = Piece.write id "," (p.pieces next) := by
  cases p with
  | compare column comparator value =>
    simp [text, pieces, Piece.write, String.append_assoc]
  | member column values =>
    rw [text, pieces, Piece.write_append, Piece.write_append, write_placeholders]
    simp [Piece.write, String.append_assoc]

end Predicate

namespace Clause

/-- The pieces of a clause with numbered placeholders; none if there are no predicates. -/
def pieces (ps : List Predicate) : List Piece :=
  if ps.isEmpty then []
  else .text "WHERE " :: [Piece.text " AND "].intercalate (Predicate.pieceLists 1 ps)

lemma texts_eq_map_write (next : Nat) (ps : List Predicate) :
    texts .numbered next ps = (Predicate.pieceLists next ps).map (Piece.write id ",") := by
  induction ps generalizing next with
  | nil => rfl
  | cons p ps ih =>
    rw [texts, Predicate.pieceLists, List.map_cons, Predicate.text_eq_write, ih]

/-- The text of a clause is that of its pieces, with plain names and commas without blanks. -/
lemma sql_ofPredicates_eq_write (ps : List Predicate) :
    (ofPredicates .numbered ps).sql = Piece.write id "," (pieces ps) := by
  have hand : Piece.write id "," [.text " AND "] = " AND " := String.append_empty
  rw [ofPredicates, pieces, texts_eq_map_write]
  by_cases hnil : ps.isEmpty = true
  · rw [if_pos hnil, if_pos hnil, Piece.write]
  · rw [if_neg hnil, if_neg hnil, Piece.write, Piece.write_intercalate, hand]

/-- The text of a clause is empty only if there are no predicates. -/
lemma sql_ofPredicates_eq_empty_iff (style : PlaceholderStyle) (ps : List Predicate) :
    (ofPredicates style ps).sql = "" ↔ ps = [] := by
  rw [ofPredicates]
  cases ps with
  | nil => simp
  | cons p ps => simp [String.append_eq_empty_iff]

end Clause

/-! ### The texts of conditions -/

namespace Expression

lemma parameters_ofPredicate (p : Predicate) : (ofPredicate p).parameters = p.parameters := by
  cases p <;> rfl

/-- The operator of a comparator has the text that clauses use. -/
lemma text_ofComparator (comparator : Comparator) :
    (BinaryOperator.ofComparator comparator).text = comparator.operator := by
  cases comparator <;> rfl

/-- Values that are written as their placeholders are counted through. -/
lemma valueTexts_placeholder (next : Nat) (values : List Parameter) :
    valueTexts (fun n _ => Dialect.postgres.placeholder n) next values =
      PlaceholderStyle.numbered.placeholders next values.length := by
  induction values generalizing next with
  | nil => rfl
  | cons value values ih =>
    rw [valueTexts, ih, PlaceholderStyle.placeholders, PlaceholderStyle.placeholders,
      List.length_cons, List.range_succ_eq_map, List.map_cons, List.map_map, Nat.add_zero]
    refine congrArg _ (List.map_congr_left fun i _ => ?_)
    rw [Function.comp_apply, Nat.succ_eq_add_one, Nat.add_right_comm, Nat.add_assoc]

/-- An expression has quoted names, and commas with blanks. -/
lemma text_eq_write (next : Nat) (p : Predicate) :
    (ofPredicate p).text .postgres (fun n _ => Dialect.postgres.placeholder n) next =
      Piece.write Dialect.postgres.quoteName ", " (p.pieces next) := by
  cases p with
  | compare column comparator value =>
    rw [ofPredicate, text, Predicate.pieces, text_ofComparator]
    simp [Piece.write, String.append_assoc, Dialect.placeholder, PlaceholderStyle.placeholder]
  | member column values =>
    rw [ofPredicate, text, valueTexts_placeholder, Predicate.pieces, Piece.write_append,
      Piece.write_append, Predicate.write_placeholders]
    simp [Piece.write, String.append_assoc]

end Expression

namespace Condition

/-- The condition of predicates has their parameters, in their order. -/
lemma parameters_map_ofPredicate (ps : List Predicate) :
    (Condition.mk (ps.map .ofPredicate)).parameters = ps.flatMap Predicate.parameters := by
  rw [parameters, List.flatMap_map]
  exact congrArg ps.flatMap (funext Expression.parameters_ofPredicate)

lemma texts_eq_map_write (next : Nat) (ps : List Predicate) :
    texts .postgres (fun n _ => Dialect.postgres.placeholder n) next
        (ps.map Expression.ofPredicate) =
      (Predicate.pieceLists next ps).map (Piece.write Dialect.postgres.quoteName ", ") := by
  induction ps generalizing next with
  | nil => rfl
  | cons p ps ih =>
    rw [List.map_cons, texts, Predicate.pieceLists, List.map_cons, Expression.text_eq_write,
      Expression.parameters_ofPredicate, ih]

/-- The text of a condition, behind the keyword, is that of the pieces of the clause, with quoted
names and commas with blanks. -/
lemma text_eq_write {ps : List Predicate} (hne : ps ≠ []) :
    "WHERE " ++ (Condition.mk (ps.map .ofPredicate)).text .postgres
        (fun n _ => Dialect.postgres.placeholder n) =
      Piece.write Dialect.postgres.quoteName ", " (Clause.pieces ps) := by
  have hand : Piece.write Dialect.postgres.quoteName ", " [.text " AND "] = " AND " :=
    String.append_empty
  have hnil : ¬ ps.isEmpty = true := by simpa using hne
  have hmap : ¬ (ps.map Expression.ofPredicate).isEmpty = true := by simpa using hne
  rw [text, if_neg hmap, texts_eq_map_write, Clause.pieces, if_neg hnil, Piece.write,
    Piece.write_intercalate, hand]

end Condition

/-- A filter has a clause and a condition, or neither for one reason.  The condition has the
parameters of the clause in their order.  The text of a query with the condition has the layout of
the clause with numbered placeholders: every name of a column is quoted, and a blank follows every
comma between placeholders.  Where the text of the clause is empty, the query selects all rows. -/
theorem clause_agrees_with_condition (c : Compiler) (f : Filter) :
    (∃ e, c.render f = .error e ∧ c.condition f = .error e) ∨
      ∃ ps clause numbered condition, f.predicates c.columns = .ok ps ∧
        c.render f = .ok clause ∧ c.condition f = .ok condition ∧
        Compiler.render ⟨.numbered, c.columns⟩ f = .ok numbered ∧
        condition.parameters = clause.params ∧
        numbered.sql = Piece.write id "," (Clause.pieces ps) ∧
        ∀ table, (Query.mk table condition).build .postgres =
          "SELECT * FROM " ++ Dialect.postgres.quoteName table ++ " " ++
            if clause.sql = "" then "WHERE TRUE"
            else Piece.write Dialect.postgres.quoteName ", " (Clause.pieces ps) := by
  cases hps : f.predicates c.columns with
  | error e =>
    refine .inl ⟨e, ?_, ?_⟩
    · rw [Compiler.render, hps]
      rfl
    · rw [Compiler.condition, hps]
      rfl
  | ok ps =>
    have hrender : ∀ style,
        Compiler.render ⟨style, c.columns⟩ f = .ok (.ofPredicates style ps) := by
      intro style
      rw [Compiler.render, hps]
      rfl
    have hcondition : c.condition f = .ok ⟨ps.map .ofPredicate⟩ := by
      rw [Compiler.condition, hps]
      rfl
    refine .inr ⟨ps, _, _, _, rfl, hrender c.placeholder, hcondition, hrender .numbered,
      Condition.parameters_map_ofPredicate ps, Clause.sql_ofPredicates_eq_write ps, fun table => ?_⟩
    have hquery : (Query.mk table ⟨ps.map .ofPredicate⟩).build .postgres =
        "SELECT * FROM " ++ Dialect.postgres.quoteName table ++ " " ++
          ("WHERE " ++ (Condition.mk (ps.map .ofPredicate)).text .postgres
            (fun n _ => Dialect.postgres.placeholder n)) := by
      have hkeyword : " WHERE " = " " ++ "WHERE " := rfl
      change "SELECT * FROM " ++ Dialect.postgres.quoteName table ++ " WHERE " ++ _ = _
      rw [hkeyword]
      simp only [String.append_assoc]
    rw [hquery]
    by_cases hnil : ps = []
    · rw [if_pos ((Clause.sql_ofPredicates_eq_empty_iff _ ps).2 hnil), hnil]
      rfl
    · rw [if_neg (mt (Clause.sql_ofPredicates_eq_empty_iff _ ps).1 hnil),
        Condition.text_eq_write hnil]

end QueryFilter
