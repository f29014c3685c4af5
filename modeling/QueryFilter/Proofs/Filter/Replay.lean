import Mathlib.Data.Finset.Card
import Mathlib.Data.List.Induction
import QueryFilter.Proofs.Filter.Append

/-!
# Filters and their logs

A filter is what a log of additions has built, and it answers as the log does.
-/

namespace QueryFilter

/-! ## Filters as logs of additions

A filter says no more than which rules were added to which keys, in which order.  `Addition` is one
such event, `Filter.replay` builds the filter of a list of them, and the remaining functions read
off the list what the filter is meant to answer: its keys in the order of their first additions, the
type of a key, and the rules of a key.
-/

/-- The addition of a rule to a key. -/
structure Addition where
  key : String
  type : ScalarType
  values : List type.Value
  comparator : Comparator

namespace Addition

/-- No key is used with two types. -/
def Consistent (log : List Addition) : Prop :=
  ∀ a ∈ log, ∀ b ∈ log, a.key = b.key → a.type = b.type

/-- The keys of a log, in the order of their first additions. -/
def keys (log : List Addition) : List String :=
  (log.map Addition.key).eraseDups

/-- The type of a key: that of its first addition. -/
def typeOf? (log : List Addition) (key : String) : Option ScalarType :=
  (log.find? (·.key = key)).map Addition.type

/-- The values of an addition, if they have the given type. -/
def valuesAs? (a : Addition) (type : ScalarType) : Option (List type.Value) :=
  if h : a.type = type then some (h ▸ a.values) else none

/-- The rules of a type that were added to a key, in order. -/
def rules (log : List Addition) (key : String) (type : ScalarType) : List (Rule type) :=
  (log.filter (·.key = key)).filterMap fun a =>
    (a.valuesAs? type).map fun values => ⟨a.comparator, values⟩

end Addition

namespace Filter

/-- Add the rule of an event. -/
def record (f : Filter) (a : Addition) : Except TypeClash Filter :=
  f.add a.key a.type a.values a.comparator

/-- Add the rules of a list of events. -/
def recordAll (f : Filter) (log : List Addition) : Except TypeClash Filter :=
  log.foldlM record f

/-- The filter of a log. -/
def replay (log : List Addition) : Except TypeClash Filter :=
  empty.recordAll log

@[simp] theorem recordAll_nil (f : Filter) : f.recordAll [] = .ok f := rfl

theorem recordAll_append (f : Filter) (log log' : List Addition) :
    f.recordAll (log ++ log') = f.recordAll log >>= fun g => g.recordAll log' := by
  simp [recordAll, List.foldlM_append]

end Filter

/-! ## Filters that additions have built

A filter is recorded when some log of additions builds it and no addition of the log is refused.
These are the filters that exist outside of this library.  `Filter.Recorded.induction` is the one
induction over such logs: what the empty filter has, and what an admitted addition preserves, every
recorded filter has.  Two properties are derived from it here: ranges lie inside their arenas, and
no two keys have one name.
-/

namespace Filter

/-- The filter is that of a log of additions. -/
def Recorded (f : Filter) : Prop :=
  ∃ log, replay log = .ok f

variable {f : Filter} {name : String} {type : ScalarType}

lemma recorded_empty : empty.Recorded :=
  ⟨[], rfl⟩

/-- The filter of a log and one more addition. -/
lemma replay_concat {log : List Addition} {a : Addition} {g : Filter} (hf : replay log = .ok f)
    (h : f.record a = .ok g) : replay (log ++ [a]) = .ok g := by
  have hlast : f.recordAll [a] = .ok g := by
    rw [recordAll, List.foldlM_cons, h]
    rfl
  rw [replay] at hf
  rw [replay, recordAll_append, hf]
  exact hlast

/-- One more admitted addition is one more entry of the log. -/
lemma Recorded.append (hf : f.Recorded) (h : f.Admits name type) (values : List type.Value)
    (comparator : Comparator) : (f.append name type values comparator).Recorded := by
  obtain ⟨log, hlog⟩ := hf
  have hrecord : f.record ⟨name, type, values, comparator⟩ =
      .ok (f.append name type values comparator) := add_eq_ok h values comparator
  exact ⟨log ++ [⟨name, type, values, comparator⟩], replay_concat hlog hrecord⟩

/-- The last addition of a log is an admitted one. -/
lemma exists_of_recordAll_concat {log : List Addition} {a : Addition}
    (h : empty.recordAll (log ++ [a]) = .ok f) :
    ∃ g, empty.recordAll log = .ok g ∧ g.Admits a.key a.type ∧
      f = g.append a.key a.type a.values a.comparator := by
  rw [recordAll_append] at h
  cases hlog : empty.recordAll log with
  | error e =>
    rw [hlog] at h
    exact absurd h (by simp [bind, Except.bind])
  | ok g =>
    have hadd : g.add a.key a.type a.values a.comparator = .ok f := by
      rw [hlog] at h
      change g.recordAll [a] = .ok f at h
      rw [recordAll, List.foldlM_cons] at h
      cases hrecord : g.record a with
      | error e =>
        rw [hrecord] at h
        exact absurd h (by simp [bind, Except.bind])
      | ok g' =>
        rw [hrecord] at h
        obtain rfl : g' = f := Except.ok.inj h
        exact hrecord
    exact ⟨g, rfl, (add_eq_ok_iff g a.key a.type a.values a.comparator f).1 hadd⟩

/-- What the empty filter has and admitted additions preserve, every recorded filter has. -/
lemma Recorded.induction {P : Filter → Prop} (hf : f.Recorded) (start : P .empty)
    (step : ∀ g name type values comparator, P g → g.Admits name type →
      P (g.append name type values comparator)) : P f := by
  obtain ⟨log, hlog⟩ := hf
  rw [replay] at hlog
  induction log using List.reverseRecOn generalizing f with
  | nil =>
    obtain rfl : empty = f := Except.ok.inj hlog
    exact start
  | append_singleton log a ih =>
    obtain ⟨g, hg, hadmits, rfl⟩ := exists_of_recordAll_concat hlog
    exact step g _ _ _ _ (ih hg) hadmits

/-- The ranges of a recorded filter lie inside its arenas. -/
lemma Recorded.inBounds (hf : f.Recorded) : f.InBounds := by
  refine hf.induction ?_ fun g _ _ values comparator hg h => hg.append h values comparator
  intro k hk
  cases hk

/-- The keys of a recorded filter have different names. -/
lemma Recorded.nodup (hf : f.Recorded) : (f.keys.map FilterKey.name).Nodup := by
  refine hf.induction (P := fun g => (g.keys.map FilterKey.name).Nodup) List.nodup_nil ?_
  intro g name type values comparator hg _
  rw [append_keys, FilterKey.map_name_insert]
  by_cases hmem : name ∈ g.keys.map FilterKey.name
  · rw [if_pos hmem]
    exact hg
  · rw [if_neg hmem]
    refine List.nodup_append.2 ⟨hg, by simp, ?_⟩
    intro other hother _ hlast heq
    exact hmem (List.mem_singleton.1 hlast ▸ heq ▸ hother)

/-- Looking up the name of a key finds the key. -/
lemma Recorded.key?_eq_some (hf : f.Recorded) {k : FilterKey} (hk : k ∈ f.keys) :
    f.key? k.name = some k := by
  have hnodup := hf.nodup
  rw [key?]
  generalize f.keys = ks at hk hnodup
  induction ks with
  | nil => cases hk
  | cons k' ks ih =>
    rw [List.map_cons, List.nodup_cons] at hnodup
    rcases List.mem_cons.1 hk with rfl | hk
    · exact List.find?_cons_of_pos (by simp)
    · have hne : ¬ k'.name = k.name := by
        intro heq
        exact hnodup.1 (heq ▸ List.mem_map_of_mem hk)
      rw [List.find?_cons_of_neg (by simpa using hne)]
      exact ih hk hnodup.2

end Filter

/-! ## Filters answer as their logs do

The values of all keys of one type share an arena, and a rule knows its values by a range only.
What a filter answers is nevertheless what was added to it: `Filter.Answers` compares a filter with
a log of additions, by the names of the keys, their types, and the rules of every key under every
type.

One admitted addition preserves the relation (`Filter.Answers.append`), since it leaves the rules of
all other keys alone and puts one rule behind those of its own key.  A log without two types for one
key is replayed without a refusal, so its filter answers as it does (`Filter.exists_replay`).
-/

/-! ### Logs that grow -/

/-- Removing later repetitions keeps a last element that is new. -/
lemma eraseDups_concat {α : Type} [BEq α] [LawfulBEq α] (xs : List α) (x : α) [Decidable (x ∈ xs)] :
    (xs ++ [x]).eraseDups = if x ∈ xs then xs.eraseDups else xs.eraseDups ++ [x] := by
  rw [List.eraseDups_append]
  by_cases hmem : x ∈ xs
  · simp [List.removeAll, hmem]
  · simp [List.removeAll, hmem, List.eraseDups_cons]

namespace Addition

variable {log : List Addition} {a : Addition} {key : String} {type : ScalarType}

/-- The rule of an addition. -/
def rule (a : Addition) : Rule a.type :=
  ⟨a.comparator, a.values⟩

lemma keys_concat (log : List Addition) (a : Addition) :
    keys (log ++ [a]) =
      if a.key ∈ log.map Addition.key then keys log else keys log ++ [a.key] := by
  rw [keys, List.map_append, List.map_singleton, eraseDups_concat]
  rfl

lemma mem_keys_iff : key ∈ keys log ↔ key ∈ log.map Addition.key :=
  List.mem_eraseDups

/-- The type of a key is that of its first addition, which may be the last of the log. -/
lemma typeOf?_concat (log : List Addition) (a : Addition) (key : String) :
    typeOf? (log ++ [a]) key =
      (typeOf? log key).or (if a.key = key then some a.type else none) := by
  rw [typeOf?, typeOf?, List.find?_append, Option.map_or]
  by_cases hkey : a.key = key
  · rw [List.find?_cons_of_pos (by simpa using hkey), if_pos hkey]
    rfl
  · rw [List.find?_cons_of_neg (by simpa using hkey), if_neg hkey]
    rfl

/-- The rules of the key of the last addition get one more. -/
lemma rules_concat_self (log : List Addition) (a : Addition) :
    rules (log ++ [a]) a.key a.type = rules log a.key a.type ++ [a.rule] := by
  have hlast : ([a].filter fun b => b.key = a.key) = [a] := by simp
  rw [rules, List.filter_append, List.filterMap_append, hlast, List.filterMap_cons]
  simp [rules, valuesAs?, rule]

/-- The rules of other keys, and those of other types, stay as they are. -/
lemma rules_concat_of_ne (log : List Addition) (a : Addition) (h : key ≠ a.key ∨ type ≠ a.type) :
    rules (log ++ [a]) key type = rules log key type := by
  have hlast : (([a].filter fun b => b.key = key).filterMap fun b =>
      (b.valuesAs? type).map fun values => (⟨b.comparator, values⟩ : Rule type)) = [] := by
    by_cases hkey : a.key = key
    · have htype : ¬ a.type = type := fun heq => h.elim (fun hne => hne hkey.symm) fun hne =>
        hne heq.symm
      simp [hkey, valuesAs?, htype]
    · simp [hkey]
  rw [rules, List.filter_append, List.filterMap_append, hlast, List.append_nil, rules]

/-- A key that has only additions of one type has all of them as rules. -/
lemma map_rules_of_forall (h : ∀ a ∈ log, a.key = key → a.type = type) :
    (rules log key type).map (Sigma.mk type) =
      (log.filter (·.key = key)).map fun a => ⟨a.type, a.rule⟩ := by
  have hall : ∀ a ∈ log.filter (·.key = key), a.type = type := by
    intro a ha
    obtain ⟨hmem, hkey⟩ := List.mem_filter.1 ha
    exact h a hmem (by simpa using hkey)
  rw [rules]
  generalize log.filter (·.key = key) = additions at hall
  induction additions with
  | nil => rfl
  | cons a additions ih =>
    obtain rfl := hall a List.mem_cons_self
    have htail := ih fun b hb => hall b (List.mem_cons_of_mem _ hb)
    have hself : (a.valuesAs? a.type).map (fun values => (⟨a.comparator, values⟩ : Rule a.type)) =
        some a.rule := by
      simp [valuesAs?, rule]
    rw [List.filterMap_cons, hself, List.map_cons, List.map_cons, htail]

/-- A key without additions of a type has no rules of the type. -/
lemma rules_eq_nil (h : ∀ a ∈ log, a.key = key → a.type ≠ type) : rules log key type = [] := by
  rw [rules, List.filterMap_eq_nil_iff]
  intro a ha
  obtain ⟨hmem, hkey⟩ := List.mem_filter.1 ha
  have hne : ¬ a.type = type := h a hmem (by simpa using hkey)
  simp [valuesAs?, hne]

lemma Consistent.of_append {log' : List Addition} (h : Consistent (log ++ log')) :
    Consistent log := fun a ha b hb =>
  h a (List.mem_append_left _ ha) b (List.mem_append_left _ hb)

/-- All additions of a consistent log to a key have the type of the key. -/
lemma Consistent.type_eq (h : Consistent log) (htype : typeOf? log key = some type) (ha : a ∈ log)
    (hkey : a.key = key) : type = a.type := by
  rw [typeOf?, Option.map_eq_some_iff] at htype
  obtain ⟨b, hb, rfl⟩ := htype
  have hbkey : b.key = key := by simpa using List.find?_some hb
  exact h b (List.mem_of_find?_eq_some hb) a ha (hbkey.trans hkey.symm)

/-- The last addition of a consistent log has the type that its key has before. -/
lemma Consistent.type_of_concat (h : Consistent (log ++ [a]))
    (htype : typeOf? log a.key = some type) : type = a.type := by
  have hlast : typeOf? (log ++ [a]) a.key = some type := by
    rw [typeOf?_concat, htype, Option.some_or]
  exact h.type_eq hlast (by simp) rfl

end Addition

/-! ### Filters and their logs -/

namespace Filter

/-- The filter has the keys of the log in the order of their first additions, with the types of
these, and the rules that were added to them. -/
structure Answers (f : Filter) (log : List Addition) : Prop where
  names : f.keys.map FilterKey.name = Addition.keys log
  types : ∀ key, (f.key? key).map FilterKey.type = Addition.typeOf? log key
  rules : ∀ key type, f.get key type = Addition.rules log key type

variable {f : Filter} {log : List Addition} {a : Addition}

lemma answers_empty : empty.Answers [] :=
  ⟨rfl, fun _ => rfl, fun _ _ => rfl⟩

/-- A rule can be added when the log has no other type for its key. -/
lemma Answers.admits (h : f.Answers log) {key : String} {type : ScalarType}
    (hlog : ∀ t, Addition.typeOf? log key = some t → t = type) : f.Admits key type := by
  intro k hk
  refine hlog k.type ?_
  rw [← h.types key, hk]
  rfl

/-- One admitted addition is one more entry of the log. -/
lemma Answers.append (h : f.Answers log) (hin : f.InBounds) (hadmits : f.Admits a.key a.type) :
    (f.append a.key a.type a.values a.comparator).Answers (log ++ [a]) := by
  refine ⟨?_, fun key => ?_, fun key type => ?_⟩
  · have hmem : a.key ∈ f.keys.map FilterKey.name ↔ a.key ∈ log.map Addition.key := by
      rw [h.names, Addition.mem_keys_iff]
    rw [append_keys, FilterKey.map_name_insert, Addition.keys_concat, h.names]
    rw [h.names] at hmem
    exact if_congr hmem rfl rfl
  · rw [Addition.typeOf?_concat, ← h.types key]
    by_cases hkey : key = a.key
    · subst hkey
      rw [if_pos rfl]
      cases hold : f.key? a.key with
      | none =>
        rw [key?_append_of_none hold]
        rfl
      | some k =>
        rw [key?_append_of_some hold]
        rfl
    · rw [key?_append_of_ne hkey, if_neg fun heq => hkey heq.symm, Option.or_none]
  · by_cases hself : key = a.key ∧ type = a.type
    · obtain ⟨rfl, rfl⟩ := hself
      rw [get_append_self hin hadmits, h.rules, Addition.rules_concat_self]
      rfl
    · have hne : key ≠ a.key ∨ type ≠ a.type := by
        by_cases hkey : key = a.key
        · exact .inr fun htype => hself ⟨hkey, htype⟩
        · exact .inl hkey
      rw [get_append_of_ne hin hadmits a.values a.comparator hne, h.rules,
        Addition.rules_concat_of_ne log a hne]

/-- The next addition of a consistent log is not refused. -/
lemma Answers.record_eq_ok (h : f.Answers log) (hlog : Addition.Consistent (log ++ [a])) :
    f.Admits a.key a.type ∧ f.record a = .ok (f.append a.key a.type a.values a.comparator) := by
  have hadmits : f.Admits a.key a.type := h.admits fun _ ht => hlog.type_of_concat ht
  exact ⟨hadmits, add_eq_ok hadmits a.values a.comparator⟩

/-- A consistent log is replayed, and its filter answers as the log does. -/
lemma exists_replay (hlog : Addition.Consistent log) :
    ∃ f, replay log = .ok f ∧ f.Answers log := by
  induction log using List.reverseRecOn with
  | nil => exact ⟨empty, rfl, answers_empty⟩
  | append_singleton log a ih =>
    obtain ⟨f, hf, hanswers⟩ := ih hlog.of_append
    have hrecorded : f.Recorded := ⟨log, hf⟩
    obtain ⟨hadmits, hrecord⟩ := hanswers.record_eq_ok hlog
    exact ⟨f.append a.key a.type a.values a.comparator, replay_concat hf hrecord,
      hanswers.append hrecorded.inBounds hadmits⟩

/-- The filter of a log has as many keys as the log has different ones. -/
lemma Answers.size_eq (h : f.Answers log) (hnodup : (f.keys.map FilterKey.name).Nodup) :
    f.size = (log.map Addition.key).toFinset.card := by
  have hnames : (f.keys.map FilterKey.name).toFinset = (log.map Addition.key).toFinset := by
    ext key
    rw [List.mem_toFinset, List.mem_toFinset, h.names, Addition.mem_keys_iff]
  rw [← hnames, List.toFinset_card_of_nodup hnodup, List.length_map, size]

end Filter

/-- The filter of a log in which no key is used with two types says what the log says.  Its keys are
those of the log, each once, in the order of their first additions and with the types of these.  The
rules of a key under its type are its additions in order, and under every other type there are none.
One more addition puts one rule behind those of its key and changes the rules of no other key. -/
theorem replay_answers_log (log : List Addition) (hlog : Addition.Consistent log) :
    ∃ f, Filter.replay log = .ok f ∧
      f.keys.map FilterKey.name = Addition.keys log ∧
      (f.keys.map FilterKey.name).Nodup ∧
      f.size = (log.map Addition.key).toFinset.card ∧
      (∀ k ∈ f.keys, ∀ a ∈ log, a.key = k.name → a.type = k.type) ∧
      (∀ a ∈ log, (f.get a.key a.type).map (Sigma.mk a.type) =
        (log.filter (·.key = a.key)).map fun b => ⟨b.type, b.rule⟩) ∧
      (∀ key type, (∀ a ∈ log, a.key = key → a.type ≠ type) → f.get key type = []) ∧
      ∀ a, Addition.Consistent (log ++ [a]) →
        ∃ g, f.record a = .ok g ∧ Filter.replay (log ++ [a]) = .ok g ∧
          g.get a.key a.type = f.get a.key a.type ++ [a.rule] ∧
          ∀ key type, key ≠ a.key → g.get key type = f.get key type := by
  obtain ⟨f, hf, h⟩ := Filter.exists_replay hlog
  have hrecorded : f.Recorded := ⟨log, hf⟩
  refine ⟨f, hf, h.names, hrecorded.nodup, h.size_eq hrecorded.nodup, ?_, ?_, ?_, ?_⟩
  · intro k hk a ha hkey
    have hfound : f.key? k.name = some k := hrecorded.key?_eq_some hk
    have htype : Addition.typeOf? log k.name = some k.type := by
      rw [← h.types, hfound]
      rfl
    rw [Addition.typeOf?, Option.map_eq_some_iff] at htype
    obtain ⟨b, hb, hbtype⟩ := htype
    have hbkey : b.key = k.name := by simpa using List.find?_some hb
    rw [← hbtype]
    exact hlog a ha b (List.mem_of_find?_eq_some hb) (hkey.trans hbkey.symm)
  · intro a ha
    rw [h.rules]
    exact Addition.map_rules_of_forall fun b hb hkey => hlog b hb a ha hkey
  · intro key type hno
    rw [h.rules, Addition.rules_eq_nil hno]
  · intro a hnext
    obtain ⟨hadmits, hrecord⟩ := h.record_eq_ok hnext
    refine ⟨f.append a.key a.type a.values a.comparator, hrecord,
      Filter.replay_concat hf hrecord, ?_, ?_⟩
    · exact Filter.get_append_self hrecorded.inBounds hadmits a.values a.comparator
    · intro key type hne
      exact Filter.get_append_of_ne hrecorded.inBounds hadmits a.values a.comparator (.inl hne)

/-- Two keys of one type whose additions alternate, one of them without values, keep their rules
apart. -/
theorem replay_answers_log_of_alternating :
    let log : List Addition :=
      [⟨"role", .string, ["a", "b"], .equals⟩, ⟨"views", .integer, [1], .greaterThan⟩,
        ⟨"name", .string, [], .like⟩, ⟨"role", .string, ["c"], .is⟩]
    Addition.Consistent log ∧
      ∃ f, Filter.replay log = .ok f ∧ f.keys.map FilterKey.name = ["role", "views", "name"] ∧
        f.size = 3 ∧
        (f.get "role" .string).map (Sigma.mk ScalarType.string) =
          [⟨.string, ⟨.equals, ["a", "b"]⟩⟩, ⟨.string, ⟨.is, ["c"]⟩⟩] ∧
        f.get "role" .integer = [] := by
  intro log
  have hlog : Addition.Consistent log := by
    unfold Addition.Consistent
    decide
  obtain ⟨f, hf, hnames, -, hsize, -, hrules, hother, -⟩ := replay_answers_log log hlog
  have hkeys : Addition.keys log = ["role", "views", "name"] := by decide
  refine ⟨hlog, f, hf, hnames.trans hkeys, hsize.trans (by decide), ?_, hother "role" .integer ?_⟩
  · exact hrules ⟨"role", .string, ["a", "b"], .equals⟩ List.mem_cons_self
  · decide

end QueryFilter
