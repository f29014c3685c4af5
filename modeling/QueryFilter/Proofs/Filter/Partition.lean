import Mathlib.Data.List.Perm.Basic
import QueryFilter.Proofs.Grammar.Machine

/-!
# Rules divide the arenas among themselves

The rules of all keys of one type share an arena.  Taken in the order in which they were added,
their ranges follow one another without a gap, from the beginning of the arena to its end (`Tiles`).
So every value belongs to one rule, and no range reaches beyond its arena.

A filter does not know the order of additions to different keys.  `Filter.Built` therefore carries
the history of a filter along: the rules that were stored by additions and by readings of values,
readings that failed among them.  `Filter.Chronicles` is what links a filter to its history.  One
stored rule preserves it (`Filter.Chronicles.append`), and so does every reading, whatever its end
(`Target.Extends.chronicles`).
-/

namespace QueryFilter

/-! ### Ranges without gaps -/

/-- Ranges follow one another from a position to a later one. -/
inductive Tiles : Nat → List IndexRange → Nat → Prop
  | nil (position : Nat) : Tiles position [] position
  | cons {r : IndexRange} {rs : List IndexRange} {stop : Nat} (ordered : r.start ≤ r.stop)
      (more : Tiles r.stop rs stop) : Tiles r.start (r :: rs) stop

/-- The position belongs to the range. -/
def IndexRange.Covers (r : IndexRange) (i : Nat) : Prop :=
  r.start ≤ i ∧ i < r.stop

instance (r : IndexRange) (i : Nat) : Decidable (r.Covers i) :=
  inferInstanceAs (Decidable (_ ∧ _))

/-- One of the ranges ends before the other begins. -/
def IndexRange.Apart (r r' : IndexRange) : Prop :=
  r.stop ≤ r'.start ∨ r'.stop ≤ r.start

namespace Tiles

variable {start stop : Nat} {rs : List IndexRange}

/-- A range that begins where the last one ends can follow. -/
lemma concat (h : Tiles start rs stop) {next : Nat} (hnext : stop ≤ next) :
    Tiles start (rs ++ [⟨stop, next⟩]) next := by
  induction h with
  | nil position =>
    have hlast : IndexRange.start ⟨position, next⟩ ≤ IndexRange.stop ⟨position, next⟩ := hnext
    exact .cons hlast (.nil next)
  | cons ordered _ ih => exact .cons ordered (ih hnext)

lemma start_le_stop (h : Tiles start rs stop) : start ≤ stop := by
  induction h with
  | nil position => exact Nat.le_refl position
  | cons ordered _ ih => exact Nat.le_trans ordered ih

/-- Every range lies between the ends. -/
lemma bounds (h : Tiles start rs stop) {r : IndexRange} (hr : r ∈ rs) :
    start ≤ r.start ∧ r.Within stop := by
  induction h with
  | nil => cases hr
  | cons ordered more ih =>
    rcases List.mem_cons.1 hr with rfl | hr
    · exact ⟨Nat.le_refl _, ordered, more.start_le_stop⟩
    · obtain ⟨hstart, hwithin⟩ := ih hr
      exact ⟨Nat.le_trans ordered hstart, hwithin⟩

/-- Every range ends before the later ones begin. -/
lemma pairwise (h : Tiles start rs stop) : rs.Pairwise fun r r' => r.stop ≤ r'.start := by
  induction h with
  | nil => exact .nil
  | cons _ more ih => exact .cons (fun r' hr' => (more.bounds hr').1) ih

/-- Every position between the ends belongs to one range. -/
lemma countP_covers (h : Tiles start rs stop) {i : Nat} (hstart : start ≤ i) (hstop : i < stop) :
    rs.countP (fun r => r.Covers i) = 1 := by
  induction h with
  | nil => omega
  | @cons r rs stop ordered more ih =>
    by_cases hi : i < r.stop
    · -- The later ranges begin behind the position.
      have hrest : rs.countP (fun r' => r'.Covers i) = 0 := by
        rw [List.countP_eq_zero]
        intro r' hr' hcovers
        have hlater : r.stop ≤ r'.start := (more.bounds hr').1
        have hbegin : r'.start ≤ i := (of_decide_eq_true hcovers).1
        omega
      have hcovers : r.Covers i := ⟨hstart, hi⟩
      rw [List.countP_cons, hrest, if_pos (decide_eq_true hcovers)]
    · have hnot : ¬ r.Covers i := fun hcovers => hi hcovers.2
      rw [List.countP_cons_of_neg (by simpa using hnot)]
      exact ih (by omega) hstop

end Tiles

/-! ### Histories -/

/-- A stored rule with its key. -/
structure KeyedRule where
  key : String
  type : ScalarType
  rule : StoredRule

namespace KeyedRule

/-- The rules of a key, in the order of a history. -/
def ofKey (history : List KeyedRule) (key : String) : List StoredRule :=
  (history.filter (·.key = key)).map KeyedRule.rule

/-- The rules of all keys of a type, in the order of a history. -/
def ofType (history : List KeyedRule) (type : ScalarType) : List StoredRule :=
  (history.filter (·.type = type)).map KeyedRule.rule

lemma ofKey_concat (history : List KeyedRule) (e : KeyedRule) (key : String) :
    ofKey (history ++ [e]) key = ofKey history key ++ if e.key = key then [e.rule] else [] := by
  rw [ofKey, List.filter_append, List.map_append, ← ofKey]
  by_cases h : e.key = key
  · simp [h]
  · simp [h]

lemma ofType_concat (history : List KeyedRule) (e : KeyedRule) (type : ScalarType) :
    ofType (history ++ [e]) type =
      ofType history type ++ if e.type = type then [e.rule] else [] := by
  rw [ofType, List.filter_append, List.map_append, ← ofType]
  by_cases h : e.type = type
  · simp [h]
  · simp [h]

end KeyedRule

namespace FilterKey

/-- The rules of all keys of a type, key by key. -/
def rulesOf (ks : List FilterKey) (type : ScalarType) : List StoredRule :=
  (ks.filter (·.type = type)).flatMap FilterKey.rules

lemma rulesOf_cons (k : FilterKey) (ks : List FilterKey) (type : ScalarType) :
    rulesOf (k :: ks) type = (if k.type = type then k.rules else []) ++ rulesOf ks type := by
  by_cases h : k.type = type
  · rw [rulesOf, List.filter_cons_of_pos (by simpa using h), List.flatMap_cons, if_pos h]
    rfl
  · rw [rulesOf, List.filter_cons_of_neg (by simpa using h), if_neg h]
    rfl

/-- An insertion adds its rule to those of its type, somewhere. -/
lemma perm_rulesOf_insert {name : String} {type : ScalarType} {ks : List FilterKey}
    (h : ∀ k, ks.find? (·.name = name) = some k → k.type = type) (rule : StoredRule)
    (t : ScalarType) :
    (rulesOf (insert name type rule ks) t).Perm
      (rulesOf ks t ++ if type = t then [rule] else []) := by
  induction ks with
  | nil =>
    rw [insert, rulesOf_cons]
    simp [rulesOf]
  | cons k ks ih =>
    rw [insert]
    by_cases hname : k.name = name
    · have htype : k.type = type := h k (List.find?_cons_of_pos (by simpa using hname))
      rw [if_pos hname, rulesOf_cons, rulesOf_cons, ← htype]
      by_cases ht : k.type = t
      · rw [if_pos ht, if_pos ht, if_pos ht, List.append_assoc, List.append_assoc]
        exact List.perm_append_comm.append_left k.rules
      · rw [if_neg ht, if_neg ht, if_neg ht, List.append_nil]
    · rw [List.find?_cons_of_neg (by simpa using hname)] at h
      rw [if_neg hname, rulesOf_cons, rulesOf_cons, List.append_assoc]
      exact (ih h).append_left _

end FilterKey

namespace Filter

/-- The rules that a key has beyond those that it has in an earlier filter. -/
def rulesSince (g f : Filter) (name : String) (type : ScalarType) : List KeyedRule :=
  ((g.storedRules name).drop (f.storedRules name).length).map fun r => ⟨name, type, r⟩

/-- Additions and readings of values have built the filter, and the history lists the rules that
they stored, the earliest first.  A reading that fails stores the rules of the groups before its
failure.  Left out are clashes of types only, which callers must avoid. -/
inductive Built : List KeyedRule → Filter → Prop
  | empty : Built [] .empty
  | add {history : List KeyedRule} {f g : Filter} (built : Built history f) (name : String)
      (type : ScalarType) (values : List type.Value) (comparator : Comparator)
      (added : f.add name type values comparator = .ok g) :
      Built (history ++ g.rulesSince f name type) g
  | parseKey {history : List KeyedRule} {f : Filter} (built : Built history f) (s : Schema)
      (key : String) (type : ScalarType) (raw : String)
      (noClash : ∀ c, (s.parseKey key type raw f).status ≠ .error (.clash c)) :
      Built (history ++ (s.parseKey key type raw f).filter.rulesSince f key type)
        (s.parseKey key type raw f).filter

/-- The history lists the rules of the filter, and those of each type divide its arena. -/
structure Chronicles (f : Filter) (history : List KeyedRule) : Prop where
  rules : ∀ name, f.storedRules name = KeyedRule.ofKey history name
  types : ∀ e ∈ history, ∃ k, f.key? e.key = some k ∧ k.type = e.type
  tiles : ∀ type, Tiles 0 ((KeyedRule.ofType history type).map StoredRule.indices)
    (f.arenas.get type).length
  perm : ∀ type, (FilterKey.rulesOf f.keys type).Perm (KeyedRule.ofType history type)

variable {f g : Filter} {history : List KeyedRule} {name : String} {type : ScalarType}

lemma chronicles_empty : empty.Chronicles [] where
  rules _ := rfl
  types e he := by cases he
  tiles type := by
    rw [show (empty.arenas.get type).length = 0 by rw [empty, Arenas.get_empty]; rfl]
    exact .nil 0
  perm _ := .nil

lemma rulesSince_eq (type : ScalarType) {stored : List StoredRule}
    (h : g.storedRules name = f.storedRules name ++ stored) :
    g.rulesSince f name type = stored.map fun r => ⟨name, type, r⟩ := by
  rw [rulesSince, h, List.drop_left]

/-- One admitted addition is one more entry of the history. -/
lemma Chronicles.append (hf : f.Chronicles history) (h : f.Admits name type)
    (values : List type.Value) (comparator : Comparator) :
    (f.append name type values comparator).Chronicles
      (history ++ [⟨name, type, f.storedRule type values comparator⟩]) := by
  refine ⟨fun other => ?_, fun e he => ?_, fun t => ?_, fun t => ?_⟩
  · rw [KeyedRule.ofKey_concat, ← hf.rules other]
    by_cases hname : name = other
    · subst hname
      rw [storedRules_append, if_pos rfl]
    · rw [storedRules_append_of_ne fun heq => hname heq.symm, if_neg hname, List.append_nil]
  · rcases List.mem_append.1 he with he | he
    · obtain ⟨k, hk, htype⟩ := hf.types e he
      obtain ⟨k', hk', htype'⟩ := exists_key?_append name hk values comparator
      exact ⟨k', hk', htype'.trans htype⟩
    · obtain rfl := List.mem_singleton.1 he
      cases hold : f.key? name with
      | none => exact ⟨_, key?_append_of_none hold values comparator, rfl⟩
      | some k => exact ⟨_, key?_append_of_some hold values comparator, h k hold⟩
  · rw [KeyedRule.ofType_concat, append_arenas]
    by_cases ht : type = t
    · subst ht
      have hlen : ((f.arenas.append type values).get type).length =
          (f.arenas.get type).length + values.length := by
        rw [Arenas.get_append_self, List.length_append]
      rw [if_pos rfl, List.map_append, hlen]
      exact (hf.tiles type).concat (Nat.le_add_right _ _)
    · rw [if_neg ht, List.append_nil, Arenas.get_append_of_ne _ _ fun heq => ht heq.symm]
      exact hf.tiles t
  · rw [KeyedRule.ofType_concat, append_keys]
    exact (FilterKey.perm_rulesOf_insert h _ t).trans ((hf.perm t).append_right _)

end Filter

namespace Target

variable {target : Target} {f g : Filter} {history : List KeyedRule}

/-- Extending a filter puts rules behind those of the key. -/
lemma Extends.exists_storedRules (h : target.Extends f g) :
    ∃ stored, g.storedRules target.key = f.storedRules target.key ++ stored := by
  refine h.preserves (P := fun g => ∃ stored,
    g.storedRules target.key = f.storedRules target.key ++ stored) ⟨[], by simp⟩ ?_
  rintro g r ⟨stored, hstored⟩ _ _
  refine ⟨stored ++ [g.storedRule target.type r.values r.comparator], ?_⟩
  rw [Filter.storedRules_append, hstored, List.append_assoc]

/-- Extending a filter appends the rules that it stores to the history. -/
lemma Extends.chronicles (h : target.Extends f g) (hf : f.Chronicles history) :
    g.Chronicles (history ++ g.rulesSince f target.key target.type) := by
  induction h generalizing history with
  | refl f =>
    have hnone : f.rulesSince f target.key target.type = [] := by
      rw [Filter.rulesSince, List.drop_length, List.map_nil]
    rw [hnone, List.append_nil]
    exact hf
  | @append f g r admits _ more ih =>
    obtain ⟨stored, hstored⟩ := more.exists_storedRules
    have hsecond := Filter.rulesSince_eq target.type hstored
    rw [Filter.storedRules_append, List.append_assoc] at hstored
    have hfirst := Filter.rulesSince_eq target.type hstored
    have hstep := ih (hf.append admits r.values r.comparator)
    rw [hsecond, List.append_assoc] at hstep
    rw [hfirst, List.map_append, List.map_singleton]
    exact hstep

end Target

namespace Filter

variable {f : Filter} {history : List KeyedRule}

lemma Built.chronicles (h : Built history f) : f.Chronicles history := by
  induction h with
  | empty => exact chronicles_empty
  | @add history f g built name type values comparator added ih =>
    obtain ⟨hadmits, rfl⟩ := (add_eq_ok_iff f name type values comparator g).1 added
    rw [rulesSince_eq type (storedRules_append f name values comparator)]
    exact ih.append hadmits values comparator
  | parseKey built s key type raw noClash ih =>
    exact ((s.target key type).extends_readInto raw _).chronicles ih

lemma Built.recorded (h : Built history f) : f.Recorded := by
  induction h with
  | empty => exact recorded_empty
  | @add history f g built name type values comparator added ih =>
    obtain ⟨hadmits, rfl⟩ := (add_eq_ok_iff f name type values comparator g).1 added
    exact ih.append hadmits values comparator
  | parseKey built s key type raw noClash ih => exact Schema.recorded_parseKey ih s key type raw

/-- A key of a recorded filter has been created by a rule. -/
lemma Recorded.rules_ne_nil (hf : f.Recorded) {k : FilterKey} (hk : k ∈ f.keys) :
    k.rules ≠ [] := by
  have hall : ∀ k ∈ f.keys, k.rules ≠ [] := by
    refine hf.induction (P := fun g => ∀ k ∈ g.keys, k.rules ≠ []) (fun k hk => by cases hk) ?_
    intro g name type values comparator hg _ k hk
    rcases FilterKey.mem_insert hk with hmem | rfl | ⟨old, -, rfl⟩
    · exact hg k hmem
    · exact List.cons_ne_nil _ _
    · exact List.append_ne_nil_of_right_ne_nil _ (List.cons_ne_nil _ _)
  exact hall k hk

/-- The ranges of the rules of one type do not overlap. -/
lemma Chronicles.pairwise_apart (h : f.Chronicles history) (type : ScalarType) :
    (FilterKey.rulesOf f.keys type).Pairwise fun r r' => r.indices.Apart r'.indices := by
  have hsymm : ∀ {r r' : StoredRule}, r.indices.Apart r'.indices → r'.indices.Apart r.indices :=
    fun hapart => hapart.symm
  rw [(h.perm type).pairwise_iff hsymm]
  exact (List.pairwise_map.1 (h.tiles type).pairwise).imp Or.inl

/-- Every value of an arena belongs to one rule. -/
lemma Chronicles.countP_covers (h : f.Chronicles history) {type : ScalarType} {i : Nat}
    (hi : i < (f.arenas.get type).length) :
    (FilterKey.rulesOf f.keys type).countP (fun r => r.indices.Covers i) = 1 := by
  have hcount := (h.tiles type).countP_covers (Nat.zero_le i) hi
  rw [List.countP_map] at hcount
  rw [(h.perm type).countP_eq]
  exact hcount

end Filter

/-- In a filter that additions and readings have built, readings that failed among them, the keys
have different names and at least one rule each.  The history of the filter lists the rules of all
keys, and for every type the ranges of its rules divide the arena: they follow one another from its
beginning to its end.  So all ranges refer to values, no two of one type overlap, and every value
belongs to one rule. -/
theorem ranges_divide_arenas {history : List KeyedRule} {f : Filter}
    (h : Filter.Built history f) :
    (f.keys.map FilterKey.name).Nodup ∧
      (∀ k ∈ f.keys, k.rules ≠ [] ∧ k.rules = KeyedRule.ofKey history k.name) ∧
      (∀ e ∈ history, ∃ k ∈ f.keys, k.name = e.key ∧ k.type = e.type) ∧
      (∀ type, Tiles 0 ((KeyedRule.ofType history type).map StoredRule.indices)
        (f.arenas.get type).length) ∧
      (∀ k ∈ f.keys, ∀ r ∈ k.rules, r.indices.Within (f.arenas.get k.type).length ∧
        ∃ values, f.values? k.type r = some values) ∧
      (∀ type, (FilterKey.rulesOf f.keys type).Pairwise
        fun r r' => r.indices.Apart r'.indices) ∧
      ∀ type i, i < (f.arenas.get type).length →
        (FilterKey.rulesOf f.keys type).countP (fun r => r.indices.Covers i) = 1 := by
  have hrecorded := h.recorded
  have hchronicles := h.chronicles
  refine ⟨hrecorded.nodup, fun k hk => ⟨hrecorded.rules_ne_nil hk, ?_⟩, fun e he => ?_,
    hchronicles.tiles, fun k hk r hr => ?_, hchronicles.pairwise_apart,
    fun type i hi => hchronicles.countP_covers hi⟩
  · rw [← hchronicles.rules, Filter.storedRules, hrecorded.key?_eq_some hk]
  · obtain ⟨k, hk, htype⟩ := hchronicles.types e he
    have hname : k.name = e.key := by simpa using List.find?_some hk
    exact ⟨k, List.mem_of_find?_eq_some hk, hname, htype⟩
  · have hwithin := hrecorded.inBounds k hk r hr
    obtain ⟨values, hvalues, -⟩ := IndexRange.exists_slice?_eq_some hwithin
    exact ⟨hwithin, values, hvalues⟩

/-- A reading that fails in its second group, between two additions to another key of its type. -/
theorem ranges_divide_arenas_of_failed_reading :
    let role := Filter.empty.append "role" .string ["a", "b"] .is
    let read := (Schema.empty.parseKey "name" .string "eq!c|lt!d,e" role).filter
    let f := read.append "role" .string ["d"] .equals
    (Schema.empty.parseKey "name" .string "eq!c|lt!d,e" role).status =
        .error (.rejected (.commaNotAllowed "name" .lessThan .unified ⟨9, 10⟩)) ∧
      ∃ history, Filter.Built history f ∧
        (KeyedRule.ofType history .string).map StoredRule.indices = [⟨0, 2⟩, ⟨2, 3⟩, ⟨3, 4⟩] ∧
        Tiles 0 ((KeyedRule.ofType history .string).map StoredRule.indices)
          (f.arenas.get .string).length ∧
        (FilterKey.rulesOf f.keys .string).countP (fun r => r.indices.Covers 3) = 1 := by
  intro role read f
  have hstatus : (Schema.empty.parseKey "name" .string "eq!c|lt!d,e" role).status =
      .error (.rejected (.commaNotAllowed "name" .lessThan .unified ⟨9, 10⟩)) := by decide +kernel
  have hrole : Filter.Built _ role := .add .empty "role" .string ["a", "b"] .is rfl
  have hread : Filter.Built _ read :=
    hrole.parseKey Schema.empty "name" .string "eq!c|lt!d,e" fun c hclash => by
      rw [hstatus] at hclash
      cases hclash
  have hf : Filter.Built _ f := hread.add "role" .string ["d"] .equals rfl
  obtain ⟨-, -, -, htiles, -, -, hcovers⟩ := ranges_divide_arenas hf
  exact ⟨hstatus, _, hf, by decide +kernel, htiles .string,
    hcovers .string 3 (by decide +kernel)⟩

end QueryFilter
