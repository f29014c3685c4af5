import Mathlib.Tactic.Common
import QueryFilter.Filter

/-!
# Appending rules to a filter

`Filter.append` puts the values of a rule behind all values of their type and the rule behind all
rules of its key.  This module says what the filter answers afterwards.

Most properties of a filter speak of its rules one by one: of the range of a rule and of the arena
that it refers to.  `Filter.EveryRule` is the general form, and `Filter.EveryRule.append` the one
place where such a property is carried over an addition.  The first instance is `Filter.InBounds`:
every range lies inside its arena.  In a filter with that property an addition changes the answer
for its own key only.
-/

namespace QueryFilter

/-! ### Ranges of a growing list -/

namespace IndexRange

variable {α : Type}

/-- The range lies inside a list of some length. -/
def Within (r : IndexRange) (length : Nat) : Prop :=
  r.start ≤ r.stop ∧ r.stop ≤ length

/-- What a range refers to stays the same when the list grows. -/
lemma slice?_append {r : IndexRange} {xs : List α} (h : r.Within xs.length) (ys : List α) :
    r.slice? (xs ++ ys) = r.slice? xs := by
  obtain ⟨hstart, hstop⟩ := h
  have hlen : r.start ≤ r.stop ∧ r.stop ≤ (xs ++ ys).length := by
    rw [List.length_append]
    omega
  rw [slice?, slice?, if_pos hlen, if_pos ⟨hstart, hstop⟩, List.take_append_of_le_length hstop]

/-- The range behind a list refers to what is put there. -/
lemma slice?_behind (xs ys : List α) :
    IndexRange.slice? ⟨xs.length, xs.length + ys.length⟩ (xs ++ ys) = some ys := by
  rw [slice?, if_pos (by simp), ← List.length_append, List.take_length, List.drop_left]

lemma within_of_slice?_eq_some {r : IndexRange} {xs ys : List α} (h : r.slice? xs = some ys) :
    r.Within xs.length := by
  unfold slice? at h
  split at h
  · assumption
  · simp at h

/-- A range inside a list refers to as many elements as it spans. -/
lemma exists_slice?_eq_some {r : IndexRange} {xs : List α} (h : r.Within xs.length) :
    ∃ ys, r.slice? xs = some ys ∧ ys.length = r.stop - r.start := by
  obtain ⟨hstart, hstop⟩ := h
  refine ⟨(xs.take r.stop).drop r.start, if_pos ⟨hstart, hstop⟩, ?_⟩
  rw [List.length_drop, List.length_take, Nat.min_eq_left hstop]

end IndexRange

/-! ### Keys -/

namespace FilterKey

variable {name : String} {type : ScalarType} {rule : StoredRule} {ks : List FilterKey}

/-- A key after an insertion was there before, or is new, or is the key of the name with one rule
more. -/
lemma mem_insert {k : FilterKey} (h : k ∈ insert name type rule ks) :
    k ∈ ks ∨ k = ⟨name, type, [rule]⟩ ∨
      ∃ old, ks.find? (·.name = name) = some old ∧
        k = { old with rules := old.rules ++ [rule] } := by
  induction ks with
  | nil => exact .inr (.inl (by simpa [insert] using h))
  | cons k' ks ih =>
    rw [insert] at h
    by_cases hk : k'.name = name
    · rw [if_pos hk] at h
      rcases List.mem_cons.1 h with rfl | h
      · exact .inr (.inr ⟨k', by simp [hk], rfl⟩)
      · exact .inl (List.mem_cons_of_mem _ h)
    · rw [if_neg hk] at h
      rcases List.mem_cons.1 h with rfl | h
      · exact .inl List.mem_cons_self
      · rw [List.find?_cons_of_neg (by simpa using hk)]
        exact (ih h).imp_left (List.mem_cons_of_mem _)

/-- Looking up the name of an insertion finds a new key if there was none. -/
lemma find?_insert_of_none (h : ks.find? (·.name = name) = none) :
    (insert name type rule ks).find? (·.name = name) = some ⟨name, type, [rule]⟩ := by
  induction ks with
  | nil => simp [insert]
  | cons k ks ih =>
    have hk : ¬ k.name = name := by
      intro hk
      simp [hk] at h
    rw [List.find?_cons_of_neg (by simpa using hk)] at h
    rw [insert, if_neg hk, List.find?_cons_of_neg (by simpa using hk), ih h]

/-- Looking up the name of an insertion finds its key with one rule more. -/
lemma find?_insert_of_some {old : FilterKey} (h : ks.find? (·.name = name) = some old) :
    (insert name type rule ks).find? (·.name = name) =
      some { old with rules := old.rules ++ [rule] } := by
  induction ks with
  | nil => simp at h
  | cons k ks ih =>
    rw [insert]
    by_cases hk : k.name = name
    · rw [List.find?_cons_of_pos (by simpa using hk)] at h
      obtain rfl := Option.some.inj h
      rw [if_pos hk, List.find?_cons_of_pos (by simpa using hk)]
    · rw [List.find?_cons_of_neg (by simpa using hk)] at h
      rw [if_neg hk, List.find?_cons_of_neg (by simpa using hk), ih h]

/-- Looking up another name finds what was there. -/
lemma find?_insert_of_ne {other : String} (h : other ≠ name) :
    (insert name type rule ks).find? (·.name = other) = ks.find? (·.name = other) := by
  induction ks with
  | nil => simp [insert, h.symm]
  | cons k ks ih =>
    rw [insert]
    by_cases hk : k.name = name
    · have hne : ¬ k.name = other := fun heq => h (heq.symm.trans hk)
      rw [if_pos hk, List.find?_cons_of_neg (by simpa using hne),
        List.find?_cons_of_neg (by simpa using hne)]
    · rw [if_neg hk, List.find?_cons, List.find?_cons, ih]

/-- An insertion keeps the names in their order; a new name stands at the end. -/
lemma map_name_insert :
    (insert name type rule ks).map FilterKey.name =
      if name ∈ ks.map FilterKey.name then ks.map FilterKey.name
      else ks.map FilterKey.name ++ [name] := by
  induction ks with
  | nil => simp [insert]
  | cons k ks ih =>
    rw [insert]
    by_cases hk : k.name = name
    · simp [hk]
    · have hne : ¬ name = k.name := fun heq => hk heq.symm
      rw [if_neg hk, List.map_cons, ih, List.map_cons]
      by_cases hmem : name ∈ ks.map FilterKey.name
      · rw [if_pos hmem, if_pos (List.mem_cons_of_mem _ hmem)]
      · rw [if_neg hmem, if_neg (by rw [List.mem_cons, not_or]; exact ⟨hne, hmem⟩),
          List.cons_append]

end FilterKey

namespace Filter

/-- The filter has no key of the name, or one of the type: a rule of the type can be added. -/
def Admits (f : Filter) (name : String) (type : ScalarType) : Prop :=
  ∀ k, f.key? name = some k → k.type = type

/-- Every rule of the filter has a property, which may depend on the arenas and on the type of the
key. -/
def EveryRule (P : Arenas → ScalarType → StoredRule → Prop) (f : Filter) : Prop :=
  ∀ k ∈ f.keys, ∀ r ∈ k.rules, P f.arenas k.type r

/-- The range of every rule lies inside the arena of its key's type. -/
def InBounds (f : Filter) : Prop :=
  f.EveryRule fun arenas type rule => rule.indices.Within (arenas.get type).length

/-- The rule that an addition stores: its range is the one behind the arena of its type. -/
def storedRule (f : Filter) (type : ScalarType) (values : List type.Value)
    (comparator : Comparator) : StoredRule :=
  ⟨comparator, ⟨(f.arenas.get type).length, (f.arenas.get type).length + values.length⟩⟩

/-- The rules of a key as they are stored; none if there is no such key. -/
def storedRules (f : Filter) (name : String) : List StoredRule :=
  match f.key? name with
  | some k => k.rules
  | none => []

/-- A stored rule has the comparator of a rule and refers to its values. -/
def Stores (f : Filter) {type : ScalarType} (rule : Rule type) (stored : StoredRule) : Prop :=
  stored.comparator = rule.comparator ∧ f.values? type stored = some rule.values

/-- Append rules to a key, one after another. -/
def appendAll (f : Filter) (name : String) (type : ScalarType) (rules : List (Rule type)) :
    Filter :=
  rules.foldl (fun g r => g.append name type r.values r.comparator) f

section Append

variable {f : Filter} {name : String} {type : ScalarType}

lemma add_eq_ok (h : f.Admits name type) (values : List type.Value) (comparator : Comparator) :
    f.add name type values comparator = .ok (f.append name type values comparator) :=
  (add_eq_ok_iff f name type values comparator _).2 ⟨h, rfl⟩

/-- Where there is no key, a rule of any type can be added. -/
lemma admits_of_none (h : f.key? name = none) (type : ScalarType) : f.Admits name type := by
  intro k hk
  rw [h] at hk
  cases hk

/-- An addition to a name without a key creates one. -/
lemma key?_append_of_none (h : f.key? name = none) (values : List type.Value)
    (comparator : Comparator) :
    (f.append name type values comparator).key? name =
      some ⟨name, type, [f.storedRule type values comparator]⟩ :=
  FilterKey.find?_insert_of_none h

/-- An addition to a key gives it one rule more. -/
lemma key?_append_of_some {k : FilterKey} (h : f.key? name = some k) (values : List type.Value)
    (comparator : Comparator) :
    (f.append name type values comparator).key? name =
      some { k with rules := k.rules ++ [f.storedRule type values comparator] } :=
  FilterKey.find?_insert_of_some h

lemma key?_append_of_ne {other : String} (h : other ≠ name) (values : List type.Value)
    (comparator : Comparator) :
    (f.append name type values comparator).key? other = f.key? other :=
  FilterKey.find?_insert_of_ne h

/-- An addition leaves the type of every key as it is. -/
lemma exists_key?_append (name : String) {other : String} {k : FilterKey}
    (h : f.key? other = some k) (values : List type.Value) (comparator : Comparator) :
    ∃ k', (f.append name type values comparator).key? other = some k' ∧ k'.type = k.type := by
  by_cases hname : other = name
  · subst hname
    exact ⟨_, key?_append_of_some h values comparator, rfl⟩
  · exact ⟨k, (key?_append_of_ne hname values comparator).trans h, rfl⟩

/-- An addition leaves the type of its key as it is, or sets it. -/
lemma Admits.append (h : f.Admits name type) (values : List type.Value) (comparator : Comparator) :
    (f.append name type values comparator).Admits name type := by
  intro k hk
  cases hold : f.key? name with
  | none =>
    rw [key?_append_of_none hold] at hk
    obtain rfl := Option.some.inj hk
    rfl
  | some old =>
    rw [key?_append_of_some hold] at hk
    obtain rfl := Option.some.inj hk
    exact h old hold

/-- A property of rules is carried over an addition when the old rules keep it while the arena
grows and the new rule has it. -/
lemma EveryRule.append {P : Arenas → ScalarType → StoredRule → Prop} (hf : f.EveryRule P)
    (h : f.Admits name type) {values : List type.Value} {comparator : Comparator}
    (old : ∀ t r, P f.arenas t r → P (f.arenas.append type values) t r)
    (new : P (f.arenas.append type values) type (f.storedRule type values comparator)) :
    (f.append name type values comparator).EveryRule P := by
  intro k hk r hr
  rw [append_keys] at hk
  rw [append_arenas]
  rcases FilterKey.mem_insert hk with hmem | rfl | ⟨k₀, hfind, rfl⟩
  · exact old _ _ (hf k hmem r hr)
  · obtain rfl := List.mem_singleton.1 hr
    exact new
  · have htype : k₀.type = type := h k₀ hfind
    rcases List.mem_append.1 hr with hr | hr
    · exact old _ _ (hf k₀ (List.mem_of_find?_eq_some hfind) r hr)
    · obtain rfl := List.mem_singleton.1 hr
      rw [htype]
      exact new

/-- The arenas only grow. -/
lemma exists_get_append (arenas : Arenas) (type t : ScalarType) (values : List type.Value) :
    ∃ more, (arenas.append type values).get t = arenas.get t ++ more := by
  by_cases h : t = type
  · subst h
    exact ⟨values, arenas.get_append_self t values⟩
  · exact ⟨[], by rw [arenas.get_append_of_ne values h, List.append_nil]⟩

lemma slice?_append_arenas {arenas : Arenas} {t : ScalarType} {r : IndexRange}
    (h : r.Within (arenas.get t).length) (type : ScalarType) (values : List type.Value) :
    r.slice? ((arenas.append type values).get t) = r.slice? (arenas.get t) := by
  obtain ⟨more, hmore⟩ := exists_get_append arenas type t values
  rw [hmore, IndexRange.slice?_append h]

lemma InBounds.append (hf : f.InBounds) (h : f.Admits name type) (values : List type.Value)
    (comparator : Comparator) : (f.append name type values comparator).InBounds := by
  refine EveryRule.append hf h ?_ ?_
  · rintro t r ⟨hstart, hstop⟩
    obtain ⟨more, hmore⟩ := exists_get_append f.arenas type t values
    refine ⟨hstart, ?_⟩
    rw [hmore, List.length_append]
    omega
  · refine ⟨Nat.le_add_right _ _, ?_⟩
    rw [Arenas.get_append_self, List.length_append]
    exact Nat.le_refl _

/-- A rule in bounds has as many values as its range is wide. -/
lemma length_values?_getD {type : ScalarType} {r : StoredRule}
    (h : r.indices.Within (f.arenas.get type).length) :
    ((f.values? type r).getD []).length = r.indices.stop - r.indices.start := by
  obtain ⟨values, hvalues, hlen⟩ := IndexRange.exists_slice?_eq_some h
  rw [values?, hvalues, Option.getD_some, hlen]

/-- The rules of a stored key with their values. -/
lemma get_eq_of_key? {t : ScalarType} {k : FilterKey} (hk : f.key? name = some k)
    (ht : k.type = t) :
    f.get name t = k.rules.map fun r => ⟨r.comparator, (f.values? t r).getD []⟩ := by
  rw [get, hk]
  exact if_pos ht

lemma get_eq_nil {t : ScalarType} (h : ∀ k, f.key? name = some k → k.type ≠ t) :
    f.get name t = [] := by
  rw [get]
  split
  · next k hk => exact if_neg (h k hk)
  · rfl

/-- The values of the rules of a stored key stay what they are. -/
lemma map_values?_append {k : FilterKey} (hf : f.InBounds) (hk : k ∈ f.keys) (name : String)
    (values : List type.Value) (comparator : Comparator) :
    (k.rules.map fun r => (⟨r.comparator,
        ((f.append name type values comparator).values? k.type r).getD []⟩ : Rule k.type)) =
      k.rules.map fun r => ⟨r.comparator, (f.values? k.type r).getD []⟩ := by
  refine List.map_congr_left fun r hr => ?_
  rw [values?, append_arenas, slice?_append_arenas (hf k hk r hr), values?]

/-- The rule of an addition refers to its values. -/
lemma values?_storedRule (f : Filter) (name : String) (values : List type.Value)
    (comparator : Comparator) :
    (f.append name type values comparator).values? type (f.storedRule type values comparator) =
      some values := by
  rw [values?, append_arenas, Arenas.get_append_self, storedRule, IndexRange.slice?_behind]

/-- An addition puts its rule behind the others of its key. -/
lemma get_append_self (hf : f.InBounds) (h : f.Admits name type) (values : List type.Value)
    (comparator : Comparator) :
    (f.append name type values comparator).get name type =
      f.get name type ++ [⟨comparator, values⟩] := by
  have hnew := values?_storedRule f name values comparator
  cases hold : f.key? name with
  | none =>
    have hempty : f.get name type = [] := get_eq_nil fun k hk => by simp [hold] at hk
    rw [get_eq_of_key? (key?_append_of_none hold values comparator) rfl, hempty, List.map_singleton,
      hnew]
    rfl
  | some k =>
    obtain rfl : k.type = type := h k hold
    rw [get_eq_of_key? (key?_append_of_some hold values comparator) rfl, get_eq_of_key? hold rfl,
      List.map_append, map_values?_append hf (List.mem_of_find?_eq_some hold), List.map_singleton,
      hnew]
    rfl

/-- An addition leaves the rules of the other keys alone, and of its own key there are none of any
other type. -/
lemma get_append_of_ne (hf : f.InBounds) (h : f.Admits name type) (values : List type.Value)
    (comparator : Comparator) {other : String} {t : ScalarType} (hne : other ≠ name ∨ t ≠ type) :
    (f.append name type values comparator).get other t = f.get other t := by
  by_cases hname : other = name
  · subst hname
    have ht : t ≠ type := hne.resolve_left fun hnot => hnot rfl
    have hnone : ∀ {g : Filter}, g.Admits other type → g.get other t = [] := fun hg =>
      get_eq_nil fun k hk heq => ht (heq.symm.trans (hg k hk))
    rw [hnone h, hnone (h.append values comparator)]
  · have hkey : (f.append name type values comparator).key? other = f.key? other :=
      key?_append_of_ne hname values comparator
    cases hk : f.key? other with
    | none => rw [get, get, hkey, hk]
    | some k =>
      by_cases ht : k.type = t
      · subst ht
        rw [get_eq_of_key? (hkey.trans hk) rfl, get_eq_of_key? hk rfl,
          map_values?_append hf (List.mem_of_find?_eq_some hk)]
      · have hno : ∀ k', f.key? other = some k' → k'.type ≠ t := fun k' hk' => by
          rw [hk] at hk'
          obtain rfl := Option.some.inj hk'
          exact ht
        rw [get_eq_nil hno, get_eq_nil fun k' hk' => hno k' (hkey ▸ hk')]

/-- An addition puts a rule behind the stored ones of its key. -/
lemma storedRules_append (f : Filter) (name : String) (values : List type.Value)
    (comparator : Comparator) :
    (f.append name type values comparator).storedRules name =
      f.storedRules name ++ [f.storedRule type values comparator] := by
  rw [storedRules, storedRules]
  cases hold : f.key? name with
  | none => rw [key?_append_of_none hold, List.nil_append]
  | some k => rw [key?_append_of_some hold]

lemma storedRules_append_of_ne {other : String} (h : other ≠ name) (values : List type.Value)
    (comparator : Comparator) :
    (f.append name type values comparator).storedRules other = f.storedRules other := by
  rw [storedRules, key?_append_of_ne h, storedRules]

/-- What a stored rule refers to stays the same. -/
lemma Stores.append {t : ScalarType} {rule : Rule t} {stored : StoredRule}
    (h : f.Stores rule stored) (name : String) (values : List type.Value)
    (comparator : Comparator) :
    (f.append name type values comparator).Stores rule stored := by
  obtain ⟨hcomparator, hvalues⟩ := h
  rw [values?] at hvalues
  refine ⟨hcomparator, ?_⟩
  rw [values?, append_arenas,
    slice?_append_arenas (IndexRange.within_of_slice?_eq_some hvalues), hvalues]

/-! ### Appending several rules -/

lemma appendAll_cons (f : Filter) (name : String) (rule : Rule type) (rules : List (Rule type)) :
    f.appendAll name type (rule :: rules) =
      (f.append name type rule.values rule.comparator).appendAll name type rules := rfl

/-- Rules are appended in two portions. -/
lemma appendAll_append (f : Filter) (name : String) (rules rules' : List (Rule type)) :
    f.appendAll name type (rules ++ rules') =
      (f.appendAll name type rules).appendAll name type rules' :=
  List.foldl_append

lemma Admits.appendAll (h : f.Admits name type) (rules : List (Rule type)) :
    (f.appendAll name type rules).Admits name type := by
  induction rules generalizing f with
  | nil => exact h
  | cons r rules ih => exact ih (h.append r.values r.comparator)

lemma key?_appendAll_of_ne {other : String} (h : other ≠ name) (rules : List (Rule type)) :
    (f.appendAll name type rules).key? other = f.key? other := by
  induction rules generalizing f with
  | nil => rfl
  | cons r rules ih => rw [appendAll_cons, ih, key?_append_of_ne h]

/-- Appended rules change nothing for other keys, nor for their own key under their type. -/
lemma Admits.appendAll_of_imp {other : String} {t : ScalarType} (h : f.Admits other t)
    (htype : other = name → t = type) (rules : List (Rule type)) :
    (f.appendAll name type rules).Admits other t := by
  by_cases hname : other = name
  · subst hname
    obtain rfl := htype rfl
    exact h.appendAll rules
  · intro k hk
    rw [key?_appendAll_of_ne hname] at hk
    exact h k hk

lemma Stores.appendAll {t : ScalarType} {rule : Rule t} {stored : StoredRule}
    (h : f.Stores rule stored) (name : String) (rules : List (Rule type)) :
    (f.appendAll name type rules).Stores rule stored := by
  induction rules generalizing f with
  | nil => exact h
  | cons r rules ih => exact ih (h.append name r.values r.comparator)

/-- Appended rules are stored behind the others of their key, in their order. -/
lemma exists_storedRules_appendAll (f : Filter) (name : String) (rules : List (Rule type)) :
    ∃ stored, (f.appendAll name type rules).storedRules name = f.storedRules name ++ stored ∧
      List.Forall₂ (f.appendAll name type rules).Stores rules stored := by
  induction rules generalizing f with
  | nil => exact ⟨[], (List.append_nil _).symm, .nil⟩
  | cons r rules ih =>
    obtain ⟨stored, hstored, hstores⟩ := ih (f.append name type r.values r.comparator)
    have hfirst : (f.append name type r.values r.comparator).Stores r
        (f.storedRule type r.values r.comparator) :=
      ⟨rfl, values?_storedRule f name r.values r.comparator⟩
    refine ⟨f.storedRule type r.values r.comparator :: stored, ?_,
      .cons (hfirst.appendAll name rules) hstores⟩
    rw [appendAll_cons, hstored, storedRules_append, List.append_assoc, List.singleton_append]

/-- The rules of a key are those that its stored rules stand for. -/
lemma get_eq_of_stores {rules : List (Rule type)} (h : f.Admits name type)
    (hstores : List.Forall₂ f.Stores rules (f.storedRules name)) : f.get name type = rules := by
  have hmap : (f.storedRules name).map
      (fun s => (⟨s.comparator, (f.values? type s).getD []⟩ : Rule type)) = rules := by
    generalize f.storedRules name = stored at hstores
    induction hstores with
    | nil => rfl
    | cons hfirst _ ih => rw [List.map_cons, ih, hfirst.1, hfirst.2, Option.getD_some]
  rw [← hmap, storedRules]
  cases hk : f.key? name with
  | none => exact get_eq_nil fun k hk' => by simp [hk] at hk'
  | some k => exact get_eq_of_key? hk (h k hk)

/-- Rules that are appended to a key without rules are the rules of the key. -/
lemma get_appendAll_of_none (h : f.key? name = none) (rules : List (Rule type)) :
    (f.appendAll name type rules).get name type = rules := by
  have hadmits : f.Admits name type := admits_of_none h type
  obtain ⟨stored, hstored, hstores⟩ := exists_storedRules_appendAll f name rules
  have hempty : f.storedRules name = [] := by rw [storedRules, h]
  rw [hempty, List.nil_append] at hstored
  refine get_eq_of_stores (hadmits.appendAll rules) ?_
  rw [hstored]
  exact hstores

/-- Appended rules stand behind the others of their key, in their order. -/
lemma get_appendAll_self (hf : f.InBounds) (h : f.Admits name type) (rules : List (Rule type)) :
    (f.appendAll name type rules).get name type = f.get name type ++ rules := by
  induction rules generalizing f with
  | nil => exact (List.append_nil _).symm
  | cons r rules ih =>
    rw [appendAll_cons, ih (hf.append h r.values r.comparator) (h.append r.values r.comparator),
      get_append_self hf h, List.append_assoc, List.singleton_append]

lemma get_appendAll_of_ne (hf : f.InBounds) (h : f.Admits name type) (rules : List (Rule type))
    {other : String} {t : ScalarType} (hne : other ≠ name ∨ t ≠ type) :
    (f.appendAll name type rules).get other t = f.get other t := by
  induction rules generalizing f with
  | nil => rfl
  | cons r rules ih =>
    rw [appendAll_cons, ih (hf.append h r.values r.comparator) (h.append r.values r.comparator),
      get_append_of_ne hf h r.values r.comparator hne]

end Append

end Filter

end QueryFilter
