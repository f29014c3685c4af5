import QueryFilter.Proofs.Schema.Keys
import QueryFilter.Proofs.Sql.Compilation

/-!
# The two profiles

Under the profile `strictIs` only `is` takes lists, under `unified` also `eq` does.  A schema reads
a source under `strictIs` exactly if it reads it under `unified`, to the same filter, and no rule of
the filter says that a column equals one of several values (`parse_strictIs_iff`).

The two readings are compared step by step.  A text stands for the same rules under both profiles if
the rules under `eq` have one value each (`Target.denotes_strictIs_iff`), so reading one entry keeps
the two in step (`Schema.parseEntry_strictIs_iff`): in the filter before, these rules have one value
and `strictIs` accepts, or in the filter after, they have one value and `unified` accepts.
-/

namespace QueryFilter

/-- A rule under `eq` has one value. -/
def Rule.SingleEquals {type : ScalarType} (r : Rule type) : Prop :=
  r.comparator = .equals → r.values.length = 1

/-- A stored rule under `eq` refers to one value. -/
def StoredRule.SingleEquals (r : StoredRule) : Prop :=
  r.comparator = .equals → r.indices.stop - r.indices.start = 1

/-! ### Texts under the two profiles -/

namespace Target

variable {target : Target}

/-- The same key under another profile. -/
abbrev withProfile (target : Target) (profile : Profile) : Target :=
  { target with profile := profile }

/-- Every group of the long form has a value. -/
lemma slices_ne_nil {before text : List Char} {groups : List WrittenGroup}
    (h : GroupsText before groups text) : ∀ group ∈ groups, group.slices ≠ [] := by
  have hfirst : ∀ {before text group}, GroupText before group text → group.slices ≠ [] := by
    intro before text group hgroup
    obtain ⟨-, values⟩ := hgroup
    cases values <;> exact List.cons_ne_nil _ _
  induction h with
  | single first => exact List.forall_mem_singleton.2 (hfirst first)
  | cons first settled more ih => exact List.forall_mem_cons.2 ⟨hfirst first, ih⟩

/-- A group with values stands for a rule under `strictIs` if it does under `unified` and the rule
has one value under `eq`. -/
lemma groupDenotes_strictIs_iff {group : WrittenGroup} {rule : Rule target.type}
    (hne : group.slices ≠ []) :
    (target.withProfile .strictIs).GroupDenotes group rule ↔
      (target.withProfile .unified).GroupDenotes group rule ∧ rule.SingleEquals := by
  constructor
  · rintro ⟨hcomparator, harity, hvalues⟩
    have hlength : group.slices.length = rule.values.length := hvalues.length_eq
    have hpos : 0 < group.slices.length := List.length_pos_iff.2 hne
    refine ⟨⟨hcomparator, fun hlong => ?_, hvalues⟩, fun hequals => ?_⟩
    · exact Profile.isMembership_of_acceptsList (harity hlong)
    · by_contra hlength_ne
      have haccepts : Profile.strictIs.acceptsList rule.comparator = true := harity (by omega)
      rw [hequals] at haccepts
      cases haccepts
  · rintro ⟨⟨hcomparator, harity, hvalues⟩, hsingle⟩
    have hlength : group.slices.length = rule.values.length := hvalues.length_eq
    refine ⟨hcomparator, fun hlong => ?_, hvalues⟩
    have haccepts : rule.comparator.isMembership = true := harity hlong
    have hnot : rule.comparator ≠ .equals := by
      intro hequals
      have hone := hsingle hequals
      omega
    cases hrule : rule.comparator with
    | is => rfl
    | equals => exact absurd hrule hnot
    | lessThan | greaterThan | lessOrEqual | greaterOrEqual | like =>
      rw [hrule] at haccepts
      cases haccepts

lemma forall₂_groupDenotes_strictIs_iff {groups : List WrittenGroup}
    {rules : List (Rule target.type)} (hne : ∀ group ∈ groups, group.slices ≠ []) :
    List.Forall₂ (target.withProfile .strictIs).GroupDenotes groups rules ↔
      List.Forall₂ (target.withProfile .unified).GroupDenotes groups rules ∧
        ∀ r ∈ rules, r.SingleEquals := by
  induction groups generalizing rules with
  | nil =>
    rw [List.forall₂_nil_left_iff, List.forall₂_nil_left_iff]
    constructor
    · rintro rfl
      exact ⟨rfl, List.forall_mem_nil _⟩
    · exact And.left
  | cons group groups ih =>
    obtain ⟨hgroup, hgroups⟩ := List.forall_mem_cons.1 hne
    cases rules with
    | nil => simp
    | cons rule rules =>
      rw [List.forall₂_cons, List.forall₂_cons, List.forall_mem_cons,
        groupDenotes_strictIs_iff hgroup, ih hgroups]
      exact and_and_and_comm

/-- The two forms of a text that stands for rules.  A case analysis on `Denotes` itself is not to be
had for `withProfile`, as the type of the rules mentions the target. -/
lemma denotes_iff {text : List Char} {rules : List (Rule target.type)} :
    target.Denotes text rules ↔
      (∃ value, BareText text ∧ target.Reads text value ∧ rules = [⟨.equals, [value]⟩]) ∨
        ∃ groups, GroupsText [] groups text ∧ List.Forall₂ target.GroupDenotes groups rules := by
  constructor
  · intro h
    cases h with
    | bare isBare reads => exact .inl ⟨_, isBare, reads, rfl⟩
    | groups isGroups denotes => exact .inr ⟨_, isGroups, denotes⟩
  · rintro (⟨value, isBare, reads, rfl⟩ | ⟨groups, isGroups, denotes⟩)
    · exact .bare isBare reads
    · exact .groups isGroups denotes

/-- A text stands for rules under `strictIs` if it does under `unified` and the rules under `eq`
have one value each. -/
lemma denotes_strictIs_iff {text : List Char} {rules : List (Rule target.type)} :
    (target.withProfile .strictIs).Denotes text rules ↔
      (target.withProfile .unified).Denotes text rules ∧ ∀ r ∈ rules, r.SingleEquals := by
  rw [denotes_iff, denotes_iff]
  constructor
  · rintro (⟨value, isBare, reads, rfl⟩ | ⟨groups, isGroups, denotes⟩)
    · exact ⟨.inl ⟨value, isBare, reads, rfl⟩, List.forall_mem_singleton.2 fun _ => rfl⟩
    · have hboth := (forall₂_groupDenotes_strictIs_iff (slices_ne_nil isGroups)).1 denotes
      exact ⟨.inr ⟨groups, isGroups, hboth.1⟩, hboth.2⟩
  · rintro ⟨⟨value, isBare, reads, rfl⟩ | ⟨groups, isGroups, denotes⟩, hsingle⟩
    · exact .inl ⟨value, isBare, reads, rfl⟩
    · have hboth := (forall₂_groupDenotes_strictIs_iff (slices_ne_nil isGroups)).2
        ⟨denotes, hsingle⟩
      exact .inr ⟨groups, isGroups, hboth⟩

/-- A filter accepts a value if it admits the type of the key and the text stands for rules, which
are appended. -/
lemma readInto_eq_ok_iff {raw : String} {f g : Filter} :
    target.readInto raw f = ⟨.ok (), g⟩ ↔
      f.Admits target.key target.type ∧ ∃ rules, target.Denotes raw.toList rules ∧
        g = f.appendAll target.key target.type rules := by
  constructor
  · intro h
    exact ⟨admits_of_status_readInto (congrArg Outcome.status h), exists_denotes_of_readInto h⟩
  · rintro ⟨hadmits, rules, hdenotes, rfl⟩
    exact readInto_of_denotes hadmits hdenotes

end Target

/-! ### Filters in which rules under `eq` have one value -/

/-- What every rule has after an insertion, the old rules and the new one have. -/
lemma FilterKey.forall_rules_insert_iff {P : StoredRule → Prop} {name : String} {type : ScalarType}
    {rule : StoredRule} {ks : List FilterKey} :
    (∀ k ∈ insert name type rule ks, ∀ r ∈ k.rules, P r) ↔
      (∀ k ∈ ks, ∀ r ∈ k.rules, P r) ∧ P rule := by
  induction ks with
  | nil => simp [insert]
  | cons k ks ih =>
    rw [insert]
    by_cases hk : k.name = name
    · rw [if_pos hk, List.forall_mem_cons, List.forall_mem_cons, List.forall_mem_append,
        List.forall_mem_singleton]
      exact and_right_comm
    · rw [if_neg hk, List.forall_mem_cons, List.forall_mem_cons, ih]
      exact and_assoc.symm

namespace Filter

variable {f : Filter} {name : String} {type : ScalarType}

/-- The rules under `eq` have one value each. -/
def SingleEquals (f : Filter) : Prop :=
  ∀ k ∈ f.keys, ∀ r ∈ k.rules, r.SingleEquals

lemma singleEquals_append_iff (r : Rule type) :
    (f.append name type r.values r.comparator).SingleEquals ↔ f.SingleEquals ∧ r.SingleEquals := by
  have hrule : (f.storedRule type r.values r.comparator).SingleEquals ↔ r.SingleEquals := by
    rw [StoredRule.SingleEquals, storedRule, Nat.add_sub_cancel_left, Rule.SingleEquals]
  rw [← hrule]
  exact FilterKey.forall_rules_insert_iff

lemma singleEquals_appendAll_iff (rules : List (Rule type)) :
    (f.appendAll name type rules).SingleEquals ↔ f.SingleEquals ∧ ∀ r ∈ rules, r.SingleEquals := by
  induction rules generalizing f with
  | nil => exact ⟨fun h => ⟨h, List.forall_mem_nil _⟩, And.left⟩
  | cons r rules ih =>
    rw [appendAll_cons, ih, singleEquals_append_iff, List.forall_mem_cons, and_assoc]

/-- The condition on the ranges of a recorded filter says the same of its values. -/
lemma Recorded.singleEquals_iff (hf : f.Recorded) :
    f.SingleEquals ↔ ∀ k ∈ f.keys, ∀ r ∈ f.get k.name k.type, r.SingleEquals := by
  refine forall₂_congr fun k hk => ?_
  rw [get_eq_of_key? (hf.key?_eq_some hk) rfl, List.forall_mem_map]
  refine forall₂_congr fun r hr => ?_
  rw [Rule.SingleEquals, length_values?_getD (hf.inBounds k hk r hr)]
  rfl

end Filter

/-! ### Sources under the two profiles -/

namespace Schema

variable {s : Schema} {source : Source} {f g : Filter}

/-- The same keys under another profile. -/
def withProfile (s : Schema) (profile : Profile) : Schema :=
  { s with profile := profile }

lemma denotes_strictIs_iff {key : String} {type : ScalarType} {text : List Char}
    {rules : List (Rule type)} :
    ((s.withProfile .strictIs).target key type).Denotes text rules ↔
      ((s.withProfile .unified).target key type).Denotes text rules ∧ ∀ r ∈ rules, r.SingleEquals :=
  @Target.denotes_strictIs_iff (s.target key type) text rules

/-- Reading an entry ends well if the source has no value for it, or the filter admits the declared
type and the value stands for rules, which are appended. -/
lemma parseEntry_eq_ok_iff_denotes {entry : String × ScalarType} :
    s.parseEntry source f entry = .ok g ↔
      (source.lookup entry.1 = none ∧ g = f) ∨
        ∃ raw, source.lookup entry.1 = some raw ∧ f.Admits entry.1 entry.2 ∧
          ∃ rules, (s.target entry.1 entry.2).Denotes raw.toList rules ∧
            g = f.appendAll entry.1 entry.2 rules := by
  rw [parseEntry]
  cases source.lookup entry.1 with
  | none => simp [eq_comm]
  | some raw =>
    simp only [reduceCtorEq, false_and, false_or, Option.some.injEq, exists_eq_left']
    exact Outcome.toExcept_eq_ok_iff.trans Target.readInto_eq_ok_iff

/-- Reading an entry keeps the two profiles in step. -/
lemma parseEntry_strictIs_iff (entry : String × ScalarType) :
    ((s.withProfile .strictIs).parseEntry source f entry = .ok g ∧ f.SingleEquals) ↔
      ((s.withProfile .unified).parseEntry source f entry = .ok g ∧ g.SingleEquals) := by
  rw [parseEntry_eq_ok_iff_denotes, parseEntry_eq_ok_iff_denotes]
  constructor
  · rintro ⟨⟨hraw, rfl⟩ | ⟨raw, hraw, hadmits, rules, hdenotes, rfl⟩, hf⟩
    · exact ⟨.inl ⟨hraw, rfl⟩, hf⟩
    · obtain ⟨hunified, hrules⟩ := denotes_strictIs_iff.1 hdenotes
      exact ⟨.inr ⟨raw, hraw, hadmits, rules, hunified, rfl⟩,
        (Filter.singleEquals_appendAll_iff rules).2 ⟨hf, hrules⟩⟩
  · rintro ⟨⟨hraw, rfl⟩ | ⟨raw, hraw, hadmits, rules, hdenotes, rfl⟩, hg⟩
    · exact ⟨.inl ⟨hraw, rfl⟩, hg⟩
    · obtain ⟨hf, hrules⟩ := (Filter.singleEquals_appendAll_iff rules).1 hg
      exact ⟨.inr ⟨raw, hraw, hadmits, rules,
        denotes_strictIs_iff.2 ⟨hdenotes, hrules⟩, rfl⟩, hf⟩

/-- Reading entries one after another keeps the two profiles in step. -/
lemma foldlM_strictIs_iff (entries : List (String × ScalarType)) :
    (entries.foldlM ((s.withProfile .strictIs).parseEntry source) f = .ok g ∧ f.SingleEquals) ↔
      (entries.foldlM ((s.withProfile .unified).parseEntry source) f = .ok g ∧ g.SingleEquals) := by
  induction entries generalizing f with
  | nil =>
    refine and_congr_right fun h => ?_
    obtain rfl : f = g := Except.ok.inj h
    rfl
  | cons entry entries ih =>
    rw [foldlM_cons_eq_ok_iff, foldlM_cons_eq_ok_iff]
    constructor
    · rintro ⟨⟨m, hentry, hrest⟩, hf⟩
      obtain ⟨hentry', hm⟩ := (parseEntry_strictIs_iff entry).1 ⟨hentry, hf⟩
      obtain ⟨hrest', hg⟩ := ih.1 ⟨hrest, hm⟩
      exact ⟨⟨m, hentry', hrest'⟩, hg⟩
    · rintro ⟨⟨m, hentry, hrest⟩, hg⟩
      obtain ⟨hrest', hm⟩ := ih.2 ⟨hrest, hg⟩
      obtain ⟨hentry', hf⟩ := (parseEntry_strictIs_iff entry).2 ⟨hentry, hm⟩
      exact ⟨⟨m, hentry', hrest'⟩, hf⟩

end Schema

/-- A schema under `strictIs` reads a source to a filter exactly if it does under `unified` and no
rule of the filter says that a column equals one of several values. -/
theorem parse_strictIs_iff (s : Schema) (source : Source) (f : Filter) :
    (s.withProfile .strictIs).parse source = .ok f ↔
      (s.withProfile .unified).parse source = .ok f ∧
        ∀ k ∈ f.keys, ∀ r ∈ f.get k.name k.type, r.comparator = .equals → r.values.length = 1 := by
  have hempty : Filter.empty.SingleEquals := List.forall_mem_nil _
  have hstep := @Schema.foldlM_strictIs_iff s source .empty f s.keys
  constructor
  · intro h
    obtain ⟨hunified, hsingle⟩ := hstep.1 ⟨h, hempty⟩
    exact ⟨hunified, (Schema.parsed_of_parse h).recorded.singleEquals_iff.1 hsingle⟩
  · rintro ⟨h, hsingle⟩
    have hranges := (Schema.parsed_of_parse h).recorded.singleEquals_iff.2 hsingle
    exact (hstep.2 ⟨h, hranges⟩).1

end QueryFilter
