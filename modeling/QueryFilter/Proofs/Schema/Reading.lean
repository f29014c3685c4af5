import QueryFilter.Proofs.Grammar.Acceptance

/-!
# Reading a source

A schema reads the values of its keys into one filter, one after another.  Since reading a value
does not depend on what the filter has already (`Target.exists_readInto_eq`), every value can be
judged on its own, with the empty filter: `Schema.Accepts` says that the value of an entry is
accepted there, and `Schema.rulesOf` gives its rules.

If all values are accepted, the filter is that of a log of additions
(`Schema.replay_additions`), and `Filter.Answers` says what it answers.  Otherwise reading ends at
the first entry whose value is refused, and with the failure that the value has on its own
(`Schema.parse_eq_error`).
-/

namespace QueryFilter

/-! ### Names with repetitions -/

section EraseDups

variable {α : Type} [DecidableEq α]

/-- Behind a list, repetitions of one element count as one. -/
lemma eraseDups_append_of_forall_eq {a : α} {ys : List α} (hne : ys ≠ []) (h : ∀ y ∈ ys, y = a)
    (xs : List α) : (xs ++ ys).eraseDups = (xs ++ [a]).eraseDups := by
  induction ys using List.reverseRecOn with
  | nil => exact absurd rfl hne
  | append_singleton ys y ih =>
    obtain rfl : y = a := h y (by simp)
    by_cases hnil : ys = []
    · rw [hnil, List.nil_append]
    · have hinit := ih hnil fun z hz => h z (List.mem_append_left _ hz)
      have hmem : y ∈ xs ++ ys := by
        obtain ⟨z, hz⟩ := List.exists_mem_of_ne_nil ys hnil
        obtain rfl : z = y := h z (List.mem_append_left _ hz)
        exact List.mem_append_right _ hz
      rw [← List.append_assoc, eraseDups_concat, if_pos hmem, hinit]

/-- What an element contributes depends on the different elements before it only. -/
lemma eraseDups_concat_congr {xs xs' : List α} (h : xs.eraseDups = xs'.eraseDups) (x : α) :
    (xs ++ [x]).eraseDups = (xs' ++ [x]).eraseDups := by
  have hmem : x ∈ xs ↔ x ∈ xs' := by rw [← List.mem_eraseDups, h, List.mem_eraseDups]
  rw [eraseDups_concat, eraseDups_concat, h]
  exact if_congr hmem rfl rfl

/-- Repetitions are erased once and for all. -/
lemma eraseDups_eraseDups (xs : List α) :
    xs.eraseDups.eraseDups = xs.eraseDups := by
  induction xs using List.reverseRecOn with
  | nil => rfl
  | append_singleton xs x ih =>
    rw [eraseDups_concat]
    by_cases hx : x ∈ xs
    · rw [if_pos hx, ih]
    · have hx' : x ∉ xs.eraseDups := mt List.mem_eraseDups.1 hx
      rw [if_neg hx, eraseDups_concat, if_neg hx', ih]

end EraseDups

/-! ### Rules as additions -/

namespace Addition

variable {type : ScalarType}

/-- The addition of a rule to a key. -/
def ofRule (key : String) (r : Rule type) : Addition :=
  ⟨key, type, r.values, r.comparator⟩

lemma rules_append (log log' : List Addition) (key : String) (type : ScalarType) :
    rules (log ++ log') key type = rules log key type ++ rules log' key type := by
  rw [rules, List.filter_append, List.filterMap_append]
  rfl

/-- The rules that were added to a key are its rules. -/
lemma rules_map_ofRule (key : String) (rs : List (Rule type)) :
    rules (rs.map (ofRule key)) key type = rs := by
  induction rs with
  | nil => rfl
  | cons r rs ih =>
    have hfirst : rules [ofRule key r] key type = [r] := by simp [rules, ofRule, valuesAs?]
    rw [List.map_cons, ← List.singleton_append, rules_append, hfirst, ih, List.singleton_append]

end Addition

namespace Filter

variable {f : Filter} {key : String} {type : ScalarType}

/-- Appending rules is recording their additions. -/
lemma recordAll_map_ofRule (h : f.Admits key type) (rs : List (Rule type)) :
    f.recordAll (rs.map (Addition.ofRule key)) = .ok (f.appendAll key type rs) := by
  induction rs generalizing f with
  | nil => rfl
  | cons r rs ih =>
    have hfirst :
        f.record (Addition.ofRule key r) = .ok (f.append key type r.values r.comparator) :=
      add_eq_ok h r.values r.comparator
    rw [List.map_cons, recordAll, List.foldlM_cons, hfirst, appendAll_cons]
    exact ih (h.append r.values r.comparator)

end Filter

/-! ### Values on their own -/

/-- A text that stands for rules stands for at least one. -/
lemma Target.Denotes.ne_nil {target : Target} {text : List Char} {rules : List (Rule target.type)}
    (h : target.Denotes text rules) : rules ≠ [] := by
  cases h with
  | bare => exact List.cons_ne_nil _ _
  | groups isGroups denotes =>
    rintro rfl
    obtain rfl := List.forall₂_nil_right_iff.1 denotes
    cases isGroups

namespace Schema

variable {s : Schema} {source : Source} {key : String} {type : ScalarType} {raw : String}

/-- The rules of a value that is read on its own. -/
def rulesOf (s : Schema) (key : String) (type : ScalarType) (raw : String) : List (Rule type) :=
  (s.parseKey key type raw .empty).filter.get key type

/-- An accepted value has rules, and they are appended to every filter. -/
lemma parseKey_eq_of_accepted (h : (s.parseKey key type raw .empty).status = .ok ()) :
    s.rulesOf key type raw ≠ [] ∧ ∀ f, f.Admits key type →
      s.parseKey key type raw f = ⟨.ok (), f.appendAll key type (s.rulesOf key type raw)⟩ := by
  have hok : (s.target key type).readInto raw .empty =
      ⟨.ok (), (s.parseKey key type raw .empty).filter⟩ := by
    rw [← h, parseKey]
  obtain ⟨rules, hdenotes, hfilter⟩ := Target.exists_denotes_of_readInto hok
  have hrules : s.rulesOf key type raw = rules := by
    rw [rulesOf, hfilter]
    exact Filter.get_appendAll_of_none rfl rules
  rw [hrules]
  exact ⟨hdenotes.ne_nil, fun f hf => Target.readInto_of_denotes hf hdenotes⟩

/-- A value is refused by every filter with the failure that it has on its own. -/
lemma status_parseKey_eq {f : Filter} (hf : f.Admits key type) :
    (s.parseKey key type raw f).status = (s.parseKey key type raw .empty).status := by
  obtain ⟨status, rules, h⟩ := (s.target key type).exists_readInto_eq raw
  rw [parseKey, parseKey, h f hf, h .empty (Filter.admits_of_none rfl type)]

/-! ### Entries -/

/-- No name is declared with two types. -/
def Consistent (s : Schema) : Prop :=
  ∀ e ∈ s.keys, ∀ e' ∈ s.keys, e.1 = e'.1 → e.2 = e'.2

/-- The value that the source has for a declared key, if it has one, is accepted on its own. -/
def Accepts (s : Schema) (source : Source) (entry : String × ScalarType) : Prop :=
  ∀ raw, source.lookup entry.1 = some raw →
    (s.parseKey entry.1 entry.2 raw .empty).status = .ok ()

/-- The additions that reading the value of a declared key comes to. -/
def additions (s : Schema) (source : Source) (entry : String × ScalarType) : List Addition :=
  match source.lookup entry.1 with
  | none => []
  | some raw => (s.rulesOf entry.1 entry.2 raw).map (Addition.ofRule entry.1)

variable {entry : String × ScalarType} {entries : List (String × ScalarType)} {f : Filter}

lemma additions_of_none (h : source.lookup entry.1 = none) : s.additions source entry = [] := by
  rw [additions, h]

lemma additions_of_some (h : source.lookup entry.1 = some raw) :
    s.additions source entry =
      (s.rulesOf entry.1 entry.2 raw).map (Addition.ofRule entry.1) := by
  rw [additions, h]

lemma key_type_of_mem_additions {a : Addition} (h : a ∈ s.additions source entry) :
    a.key = entry.1 ∧ a.type = entry.2 := by
  cases hraw : source.lookup entry.1 with
  | none =>
    rw [additions_of_none hraw] at h
    cases h
  | some raw =>
    rw [additions_of_some hraw] at h
    obtain ⟨r, -, rfl⟩ := List.mem_map.1 h
    exact ⟨rfl, rfl⟩

/-- Additions for declared keys do not use a key with two types. -/
lemma Consistent.additions (h : s.Consistent) (source : Source) :
    Addition.Consistent (s.keys.flatMap (s.additions source)) := by
  intro a ha b hb hkey
  obtain ⟨e, he, hae⟩ := List.mem_flatMap.1 ha
  obtain ⟨e', he', hbe⟩ := List.mem_flatMap.1 hb
  obtain ⟨hakey, hatype⟩ := key_type_of_mem_additions hae
  obtain ⟨hbkey, hbtype⟩ := key_type_of_mem_additions hbe
  rw [hatype, hbtype]
  refine h e he e' he' ?_
  rw [← hakey, ← hbkey, hkey]

/-- Reading an accepted entry records its additions. -/
lemma exists_parseEntry_eq_ok (h : s.Accepts source entry) (hf : f.Admits entry.1 entry.2) :
    ∃ rules : List (Rule entry.2),
      s.parseEntry source f entry = .ok (f.appendAll entry.1 entry.2 rules) ∧
        f.recordAll (s.additions source entry) = .ok (f.appendAll entry.1 entry.2 rules) := by
  cases hraw : source.lookup entry.1 with
  | none =>
    refine ⟨[], ?_, ?_⟩
    · rw [parseEntry, hraw]
      rfl
    · rw [additions_of_none hraw]
      rfl
  | some raw =>
    obtain ⟨-, hparse⟩ := parseKey_eq_of_accepted (h raw hraw)
    refine ⟨s.rulesOf entry.1 entry.2 raw, ?_, ?_⟩
    · rw [parseEntry, hraw]
      simp only
      rw [hparse f hf]
      rfl
    · rw [additions_of_some hraw]
      exact Filter.recordAll_map_ofRule hf _

/-- Reading accepted entries records their additions, and leaves what the filter admits. -/
lemma exists_foldlM_eq_ok (hs : s.Consistent) (hsub : ∀ e ∈ entries, e ∈ s.keys)
    (h : ∀ e ∈ entries, s.Accepts source e) (hf : ∀ e ∈ s.keys, f.Admits e.1 e.2) :
    ∃ g, entries.foldlM (s.parseEntry source) f = .ok g ∧
      f.recordAll (entries.flatMap (s.additions source)) = .ok g ∧
      ∀ e ∈ s.keys, g.Admits e.1 e.2 := by
  induction entries generalizing f with
  | nil => exact ⟨f, rfl, rfl, hf⟩
  | cons entry entries ih =>
    have hmem : entry ∈ s.keys := hsub entry List.mem_cons_self
    obtain ⟨rules, hparse, hrecord⟩ :=
      exists_parseEntry_eq_ok (h entry List.mem_cons_self) (hf entry hmem)
    have hnext : ∀ e ∈ s.keys, (f.appendAll entry.1 entry.2 rules).Admits e.1 e.2 := fun e he =>
      (hf e he).appendAll_of_imp (hs e he entry hmem) rules
    obtain ⟨g, hfold, hlog, hg⟩ := ih (fun e he => hsub e (List.mem_cons_of_mem _ he))
      (fun e he => h e (List.mem_cons_of_mem _ he)) hnext
    refine ⟨g, ?_, ?_, hg⟩
    · rw [List.foldlM_cons, hparse]
      exact hfold
    · rw [List.flatMap_cons, Filter.recordAll_append, hrecord]
      exact hlog

/-- If all values are accepted, the filter is that of the additions of all entries. -/
lemma replay_additions (hs : s.Consistent) (h : ∀ e ∈ s.keys, s.Accepts source e) :
    ∃ f, s.parse source = .ok f ∧
      Filter.replay (s.keys.flatMap (s.additions source)) = .ok f := by
  have hempty : ∀ e ∈ s.keys, Filter.empty.Admits e.1 e.2 := fun e _ =>
    Filter.admits_of_none rfl e.2
  obtain ⟨f, hparse, hreplay, -⟩ := exists_foldlM_eq_ok hs (fun _ he => he) h hempty
  exact ⟨f, hparse, hreplay⟩

/-- Reading ends at an entry whose value is refused when those before it are accepted. -/
lemma parse_eq_error (hs : s.Consistent) {before after : List (String × ScalarType)}
    (hkeys : s.keys = before ++ entry :: after) (h : ∀ e ∈ before, s.Accepts source e)
    (hraw : source.lookup entry.1 = some raw) {failure : ParseFailure}
    (hfailure : (s.parseKey entry.1 entry.2 raw .empty).status = .error failure) :
    s.parse source = .error failure := by
  have hsub : ∀ e ∈ before, e ∈ s.keys := by
    intro e he
    rw [hkeys]
    exact List.mem_append_left _ he
  have hmem : entry ∈ s.keys := by
    rw [hkeys]
    exact List.mem_append_right _ List.mem_cons_self
  have hempty : ∀ e ∈ s.keys, Filter.empty.Admits e.1 e.2 := fun e _ =>
    Filter.admits_of_none rfl e.2
  obtain ⟨g, hfold, -, hg⟩ := exists_foldlM_eq_ok hs hsub h hempty
  have hentry : s.parseEntry source g entry = .error failure := by
    rw [parseEntry, hraw]
    simp only
    rw [Outcome.toExcept, status_parseKey_eq (hg entry hmem), hfailure]
    rfl
  rw [parse, hkeys, List.foldlM_append, hfold]
  change (entry :: after).foldlM (s.parseEntry source) g = _
  rw [List.foldlM_cons, hentry]
  rfl

/-- Of values that are not all accepted, one is the first that is refused. -/
lemma exists_first_refused (h : ¬ ∀ e ∈ entries, s.Accepts source e) :
    ∃ before entry after raw failure, entries = before ++ entry :: after ∧
      (∀ e ∈ before, s.Accepts source e) ∧ source.lookup entry.1 = some raw ∧
      (s.parseKey entry.1 entry.2 raw .empty).status = .error failure := by
  induction entries with
  | nil => exact absurd (fun e he => by cases he) h
  | cons entry entries ih =>
    by_cases hfirst : s.Accepts source entry
    · have hrest : ¬ ∀ e ∈ entries, s.Accepts source e := by
        intro hall
        exact h (List.forall_mem_cons.2 ⟨hfirst, hall⟩)
      obtain ⟨before, entry', after, raw, failure, rfl, hbefore, hraw, hfailure⟩ := ih hrest
      exact ⟨entry :: before, entry', after, raw, failure, rfl,
        List.forall_mem_cons.2 ⟨hfirst, hbefore⟩, hraw, hfailure⟩
    · rw [Accepts] at hfirst
      push Not at hfirst
      obtain ⟨raw, hraw, hrefused⟩ := hfirst
      cases hstatus : (s.parseKey entry.1 entry.2 raw .empty).status with
      | ok u => exact absurd hstatus hrefused
      | error failure =>
        have hnone : ∀ e ∈ [], s.Accepts source e := fun e he => by cases he
        exact ⟨[], entry, entries, raw, failure, rfl, hnone, hraw, hstatus⟩

/-! ### What the log of a source says -/

/-- The keys of the log are the names that the source has, in the order of declaration. -/
lemma keys_additions (h : ∀ e ∈ entries, s.Accepts source e) :
    Addition.keys (entries.flatMap (s.additions source)) =
      ((entries.filter fun e => (source.lookup e.1).isSome).map Prod.fst).eraseDups := by
  induction entries using List.reverseRecOn with
  | nil => rfl
  | append_singleton entries entry ih =>
    have hinit := ih fun e he => h e (List.mem_append_left _ he)
    rw [Addition.keys] at hinit ⊢
    rw [List.flatMap_append, List.flatMap_singleton, List.map_append, List.filter_append,
      List.map_append]
    cases hraw : source.lookup entry.1 with
    | none => simpa [additions_of_none hraw, hraw] using hinit
    | some raw =>
      obtain ⟨hne, -⟩ := parseKey_eq_of_accepted (h entry (by simp) raw hraw)
      have hblock : ∀ name ∈ (s.additions source entry).map Addition.key, name = entry.1 := by
        intro name hname
        obtain ⟨a, ha, rfl⟩ := List.mem_map.1 hname
        exact (key_type_of_mem_additions ha).1
      have hblock_ne : (s.additions source entry).map Addition.key ≠ [] := by
        simpa [additions_of_some hraw] using hne
      have hlast : ([entry].filter fun e => (source.lookup e.1).isSome) = [entry] := by
        simp [hraw]
      rw [eraseDups_append_of_forall_eq hblock_ne hblock, hlast, List.map_singleton]
      exact eraseDups_concat_congr hinit entry.1

/-- The rules of a key are the rules of its value, once for each declaration. -/
lemma rules_additions (hraw : source.lookup key = some raw)
    (htype : ∀ e ∈ entries, e.1 = key → e.2 = type) :
    Addition.rules (entries.flatMap (s.additions source)) key type =
      (List.replicate (entries.countP (·.1 = key)) (s.rulesOf key type raw)).flatten := by
  induction entries with
  | nil => rfl
  | cons entry entries ih =>
    have hrest := ih fun e he => htype e (List.mem_cons_of_mem _ he)
    rw [List.flatMap_cons, Addition.rules_append, hrest]
    by_cases hkey : entry.1 = key
    · obtain ⟨name, t⟩ := entry
      obtain rfl : name = key := hkey
      obtain rfl : t = type := htype (name, t) List.mem_cons_self rfl
      have hself : Addition.rules (s.additions source (name, t)) name t = s.rulesOf name t raw := by
        rw [additions_of_some hraw]
        exact Addition.rules_map_ofRule name _
      rw [hself, List.countP_cons_of_pos (by simp), List.replicate_succ, List.flatten_cons]
    · have hnone : Addition.rules (s.additions source entry) key type = [] :=
        Addition.rules_eq_nil fun a ha heq =>
          absurd ((key_type_of_mem_additions ha).1.symm.trans heq) hkey
      rw [hnone, List.nil_append, List.countP_cons_of_neg (by simpa using hkey)]

/-! ### Sources -/

/-- A schema looks up the declared keys only. -/
lemma parse_congr {source' : Source}
    (h : ∀ e ∈ s.keys, source'.lookup e.1 = source.lookup e.1) :
    s.parse source' = s.parse source := by
  rw [parse, parse]
  generalize Filter.empty = f
  generalize s.keys = entries at h
  induction entries generalizing f with
  | nil => rfl
  | cons entry entries ih =>
    have hentry : s.parseEntry source' f entry = s.parseEntry source f entry := by
      rw [parseEntry, parseEntry, h entry List.mem_cons_self]
    rw [List.foldlM_cons, List.foldlM_cons, hentry]
    cases s.parseEntry source f entry with
    | error e => rfl
    | ok g => exact ih g fun e he => h e (List.mem_cons_of_mem _ he)

end Schema

/-- Pairs of other keys do not change the first value of a key. -/
lemma lookup_filter {α : Type} {p : String × α → Bool} {key : String}
    (h : ∀ value, p (key, value) = true) (pairs : List (String × α)) :
    (pairs.filter p).lookup key = pairs.lookup key := by
  induction pairs with
  | nil => rfl
  | cons pair pairs ih =>
    obtain ⟨k, value⟩ := pair
    by_cases hkey : key = k
    · subst hkey
      rw [List.filter_cons_of_pos (h value), List.lookup_cons, List.lookup_cons]
      simp
    · have hne : (key == k) = false := beq_eq_false_iff_ne.2 hkey
      rw [List.lookup_cons, hne]
      by_cases hp : p (k, value) = true
      · rw [List.filter_cons_of_pos hp, List.lookup_cons, hne]
        exact ih
      · rw [List.filter_cons_of_neg hp]
        exact ih

/-- One more pair changes the value of its own key only. -/
lemma Dictionary.get?_ofPairs_concat {α : Type} {key : String} (pairs : List (String × α))
    (pair : String × α) :
    (ofPairs (pairs ++ [pair])).get? key =
      if pair.1 = key then some pair.2 else (ofPairs pairs).get? key := by
  have hinsert : ofPairs (pairs ++ [pair]) = (ofPairs pairs).insert pair.1 pair.2 := by
    rw [ofPairs, ofPairs, List.foldl_append]
    rfl
  rw [hinsert, get?_insert]
  exact if_congr eq_comm rfl rfl

/-- A dictionary built from pairs has the value of the last pair with a key. -/
lemma Dictionary.get?_ofPairs {α : Type} (pairs : List (String × α)) (key : String) :
    (ofPairs pairs).get? key = ((pairs.filter (·.1 = key)).getLast?).map Prod.snd := by
  induction pairs using List.reverseRecOn with
  | nil => rfl
  | append_singleton pairs pair ih =>
    rw [get?_ofPairs_concat, ih, List.filter_append]
    by_cases hkey : pair.1 = key
    · simp [hkey]
    · simp [hkey]

/-- Pairs of other keys do not change the last value of a key. -/
lemma Dictionary.get?_ofPairs_filter {α : Type} {p : String × α → Bool} {key : String}
    (h : ∀ value, p (key, value) = true) (pairs : List (String × α)) :
    (ofPairs (pairs.filter p)).get? key = (ofPairs pairs).get? key := by
  have hpairs : (pairs.filter p).filter (·.1 = key) = pairs.filter (·.1 = key) := by
    rw [List.filter_filter]
    refine List.filter_congr fun pair _ => ?_
    by_cases hkey : pair.1 = key
    · subst hkey
      simp [h pair.2]
    · simp [hkey]
  rw [get?_ofPairs, get?_ofPairs, hpairs]

/-- If the values of all declared keys that a source has are accepted, each on its own, the source
is read to a filter.  Its keys are the names of these keys in the order of their first declarations,
with the declared types, and a key has the rules of its value once for each time it is declared.
Otherwise reading fails as the first value does that is refused, in the order of declaration.  Pairs
whose keys are not declared make no difference. -/
theorem parse_reads_entries (s : Schema) (hs : s.Consistent) (source : Source) :
    ((∀ e ∈ s.keys, s.Accepts source e) → ∃ f, s.parse source = .ok f ∧
        f.keys.map FilterKey.name =
          ((s.keys.filter fun e => (source.lookup e.1).isSome).map Prod.fst).eraseDups ∧
        (∀ k ∈ f.keys, (k.name, k.type) ∈ s.keys) ∧
        ∀ e ∈ s.keys, ∀ raw, source.lookup e.1 = some raw →
          f.get e.1 e.2 = (List.replicate (s.keys.countP (·.1 = e.1))
            ((s.parseKey e.1 e.2 raw .empty).filter.get e.1 e.2)).flatten) ∧
      ((¬ ∀ e ∈ s.keys, s.Accepts source e) → ∃ before entry after raw failure,
        s.keys = before ++ entry :: after ∧ (∀ e ∈ before, s.Accepts source e) ∧
          source.lookup entry.1 = some raw ∧
          (s.parseKey entry.1 entry.2 raw .empty).status = .error failure ∧
          s.parse source = .error failure) ∧
      (∀ source' : Source, (∀ e ∈ s.keys, source'.lookup e.1 = source.lookup e.1) →
        s.parse source' = s.parse source) ∧
      ∀ pairs : List (String × String),
        s.parse (.ofList (pairs.filter fun p => p.1 ∈ s.keys.map Prod.fst)) =
            s.parse (.ofList pairs) ∧
          s.parse (.ofDictionary (pairs.filter fun p => p.1 ∈ s.keys.map Prod.fst)) =
            s.parse (.ofDictionary pairs) := by
  refine ⟨fun h => ?_, fun h => ?_, fun source' h => Schema.parse_congr h, fun pairs => ?_⟩
  · obtain ⟨f, hparse, hreplay⟩ := Schema.replay_additions hs h
    obtain ⟨g, hg, hanswers⟩ := Filter.exists_replay (hs.additions source)
    obtain rfl : f = g := Except.ok.inj (hreplay.symm.trans hg)
    refine ⟨f, hparse, ?_, fun k hk => ?_, fun e he raw hraw => ?_⟩
    · rw [hanswers.names, Schema.keys_additions h]
    · have hrecorded : f.Recorded := ⟨_, hreplay⟩
      have htype := hanswers.types k.name
      rw [hrecorded.key?_eq_some hk, Option.map_some, Addition.typeOf?] at htype
      obtain ⟨a, ha, hatype⟩ := Option.map_eq_some_iff.1 htype.symm
      have hakey : a.key = k.name := by simpa using List.find?_some ha
      obtain ⟨e, he, hae⟩ := List.mem_flatMap.1 (List.mem_of_find?_eq_some ha)
      obtain ⟨hekey, hetype⟩ := Schema.key_type_of_mem_additions hae
      rw [← hakey, ← hatype, hekey, hetype]
      exact he
    · rw [hanswers.rules, Schema.rules_additions hraw fun e' he' hkey => hs e' he' e he hkey]
      rfl
  · obtain ⟨before, entry, after, raw, failure, hkeys, hbefore, hraw, hfailure⟩ :=
      Schema.exists_first_refused h
    exact ⟨before, entry, after, raw, failure, hkeys, hbefore, hraw, hfailure,
      Schema.parse_eq_error hs hkeys hbefore hraw hfailure⟩
  · have hdeclared : ∀ e ∈ s.keys, ∀ value : String,
        (fun p : String × String => decide (p.1 ∈ s.keys.map Prod.fst)) (e.1, value) = true :=
      fun e he value => decide_eq_true (List.mem_map_of_mem he)
    exact ⟨Schema.parse_congr fun e he => lookup_filter (hdeclared e he) pairs,
      Schema.parse_congr fun e he => Dictionary.get?_ofPairs_filter (hdeclared e he) pairs⟩

/-- A name that is declared twice has its rules twice; with a value that is no number, reading the
same schema fails. -/
theorem parse_reads_entries_of_repeated_name :
    let s := ((Schema.empty.declare "a" .string).declare "n" .integer).declare "a" .string
    s.Consistent ∧
      (∃ f, s.parse (.ofList [("n", "gt!1"), ("z", "|"), ("a", "eq!x|lt!y")]) = .ok f ∧
        f.keys.map FilterKey.name = ["a", "n"] ∧
        (f.get "a" .string).map (fun r => (r.comparator, r.values)) =
          [(.equals, ["x"]), (.lessThan, ["y"]), (.equals, ["x"]), (.lessThan, ["y"])]) ∧
      ∃ failure, s.parse (.ofList [("n", "gt!q"), ("a", "eq!x")]) = .error failure := by
  intro s
  have hs : s.Consistent := by
    unfold Schema.Consistent
    decide
  obtain ⟨hread, -, -, -⟩ :=
    parse_reads_entries s hs (.ofList [("n", "gt!1"), ("z", "|"), ("a", "eq!x|lt!y")])
  obtain ⟨-, hrefused, -, -⟩ := parse_reads_entries s hs (.ofList [("n", "gt!q"), ("a", "eq!x")])
  refine ⟨hs, ?_, ?_⟩
  · have haccepts : ∀ e ∈ s.keys,
        s.Accepts (.ofList [("n", "gt!1"), ("z", "|"), ("a", "eq!x|lt!y")]) e := by
      intro e he raw hraw
      rcases List.mem_cons.1 he with rfl | he
      · obtain rfl : "eq!x|lt!y" = raw := Option.some.inj hraw
        decide +kernel
      · rcases List.mem_cons.1 he with rfl | he
        · obtain rfl : "gt!1" = raw := Option.some.inj hraw
          decide +kernel
        · obtain rfl := List.mem_singleton.1 he
          obtain rfl : "eq!x|lt!y" = raw := Option.some.inj hraw
          decide +kernel
    obtain ⟨f, hparse, hnames, -, hrules⟩ := hread haccepts
    refine ⟨f, hparse, hnames.trans (by decide), ?_⟩
    have ha : f.get "a" .string = _ := hrules ("a", .string) (by decide) "eq!x|lt!y" rfl
    rw [ha]
    decide +kernel
  · have hno : ¬ ∀ e ∈ s.keys, s.Accepts (.ofList [("n", "gt!q"), ("a", "eq!x")]) e := by
      intro hall
      have hn : (s.parseKey "n" .integer "gt!q" .empty).status = .ok () :=
        hall ("n", .integer) (by decide) "gt!q" rfl
      exact absurd hn (by decide +kernel)
    obtain ⟨-, -, -, -, failure, -, -, -, -, hfailure⟩ := hrefused hno
    exact ⟨failure, hfailure⟩

end QueryFilter
