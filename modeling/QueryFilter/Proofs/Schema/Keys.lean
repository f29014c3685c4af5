import QueryFilter.Proofs.Grammar.FirstGroup
import QueryFilter.Proofs.Schema.Reading

/-!
# Keys and their types

What a reading leaves under the names that were declared, and when the types of a name clash.
-/

namespace QueryFilter

/-! ## The keys that a reading leaves

A name may be declared several times, and with different types.  `Schema.parseEntry_eq_ok_iff` says
what reading one entry can do if it ends well, for every filter: the value is accepted on its own,
the filter admits the declared type, and the rules of the value are appended.  `Schema.Leaves` says
what this comes to for several entries: the keys of the filter have names and types that were
declared, and every entry whose name the source has was accepted and finds its key with the type of
its own.
-/

/-! ### Keys under appended rules -/

namespace Filter

variable {f : Filter} {name : String} {type : ScalarType}

/-- A key after an addition has a name and a type that a key had before, or those of the
addition. -/
lemma name_type_of_mem_append {values : List type.Value} {comparator : Comparator} {k : FilterKey}
    (hk : k ∈ (f.append name type values comparator).keys) :
    (k.name, k.type) = (name, type) ∨ ∃ k' ∈ f.keys, (k.name, k.type) = (k'.name, k'.type) := by
  rw [append_keys] at hk
  rcases FilterKey.mem_insert hk with hmem | rfl | ⟨old, hfind, rfl⟩
  · exact .inr ⟨k, hmem, rfl⟩
  · exact .inl rfl
  · exact .inr ⟨old, List.mem_of_find?_eq_some hfind, rfl⟩

lemma name_type_of_mem_appendAll {rules : List (Rule type)} {k : FilterKey}
    (hk : k ∈ (f.appendAll name type rules).keys) :
    (k.name, k.type) = (name, type) ∨ ∃ k' ∈ f.keys, (k.name, k.type) = (k'.name, k'.type) := by
  induction rules generalizing f with
  | nil => exact .inr ⟨k, hk, rfl⟩
  | cons r rules ih =>
    rcases ih hk with hself | ⟨k', hk', heq⟩
    · exact .inl hself
    · rcases name_type_of_mem_append hk' with hself | ⟨k₀, hk₀, heq₀⟩
      · exact .inl (heq.trans hself)
      · exact .inr ⟨k₀, hk₀, heq.trans heq₀⟩

/-- Appended rules leave the type of every key as it is. -/
lemma exists_key?_appendAll (name : String) {other : String} {k : FilterKey}
    (h : f.key? other = some k) (rules : List (Rule type)) :
    ∃ k', (f.appendAll name type rules).key? other = some k' ∧ k'.type = k.type := by
  induction rules generalizing f k with
  | nil => exact ⟨k, h, rfl⟩
  | cons r rules ih =>
    obtain ⟨k₁, hk₁, htype₁⟩ := exists_key?_append name h r.values r.comparator
    obtain ⟨k₂, hk₂, htype₂⟩ := ih hk₁
    exact ⟨k₂, hk₂, htype₂.trans htype₁⟩

/-- Where rules are appended there is a key, and it has their type. -/
lemma exists_key?_appendAll_self (h : f.Admits name type) {rules : List (Rule type)}
    (hne : rules ≠ []) : ∃ k, (f.appendAll name type rules).key? name = some k ∧ k.type = type := by
  have hadmits := h.appendAll rules
  cases rules with
  | nil => exact absurd rfl hne
  | cons r rules =>
    have hfirst : ∃ k, (f.append name type r.values r.comparator).key? name = some k := by
      cases hold : f.key? name with
      | none => exact ⟨_, key?_append_of_none hold r.values r.comparator⟩
      | some k => exact ⟨_, key?_append_of_some hold r.values r.comparator⟩
    obtain ⟨k, hk⟩ := hfirst
    obtain ⟨k', hk', -⟩ := exists_key?_appendAll name hk rules
    exact ⟨k', hk', hadmits k' hk'⟩

end Filter

/-! ### Folds that can fail -/

section Fold

variable {α β ε : Type} {step : β → α → Except ε β}

/-- A fold ends well when its first step does and then the fold over the rest. -/
lemma foldlM_cons_eq_ok_iff {xs : List α} {x : α} {b c : β} :
    (x :: xs).foldlM step b = .ok c ↔ ∃ b', step b x = .ok b' ∧ xs.foldlM step b' = .ok c := by
  rw [List.foldlM_cons]
  cases step b x with
  | error e =>
    constructor
    · exact nofun
    · rintro ⟨b', hb', -⟩
      cases hb'
  | ok b' =>
    constructor
    · intro h
      exact ⟨b', rfl, h⟩
    · rintro ⟨b'', hb'', h⟩
      obtain rfl := Except.ok.inj hb''
      exact h

/-- A fold over one element more ends well when its last step does. -/
lemma exists_of_foldlM_concat {xs : List α} {x : α} {b c : β}
    (h : (xs ++ [x]).foldlM step b = .ok c) :
    ∃ b', xs.foldlM step b = .ok b' ∧ step b' x = .ok c := by
  induction xs generalizing b with
  | nil =>
    obtain ⟨c', hlast, hnil⟩ := foldlM_cons_eq_ok_iff.1 h
    obtain rfl : c' = c := Except.ok.inj hnil
    exact ⟨b, rfl, hlast⟩
  | cons y xs ih =>
    obtain ⟨b₁, hfirst, hrest⟩ := foldlM_cons_eq_ok_iff.1 h
    obtain ⟨b', hinit, hlast⟩ := ih hrest
    exact ⟨b', foldlM_cons_eq_ok_iff.2 ⟨b₁, hfirst, hinit⟩, hlast⟩

/-- A fold fails at the first element whose step does. -/
lemma foldlM_eq_error_iff {xs : List α} {b : β} {e : ε} :
    xs.foldlM step b = .error e ↔ ∃ before x after b', xs = before ++ x :: after ∧
      before.foldlM step b = .ok b' ∧ step b' x = .error e := by
  constructor
  · intro h
    induction xs generalizing b with
    | nil => cases h
    | cons x xs ih =>
      rw [List.foldlM_cons] at h
      cases hx : step b x with
      | error e' =>
        rw [hx] at h
        obtain rfl : e' = e := Except.error.inj h
        exact ⟨[], x, xs, b, rfl, rfl, hx⟩
      | ok b' =>
        rw [hx] at h
        obtain ⟨before, y, after, b'', rfl, hbefore, hy⟩ := ih h
        refine ⟨x :: before, y, after, b'', rfl, ?_, hy⟩
        rw [List.foldlM_cons, hx]
        exact hbefore
  · rintro ⟨before, x, after, b', rfl, hbefore, hx⟩
    rw [List.foldlM_append, hbefore]
    change (x :: after).foldlM step b' = .error e
    rw [List.foldlM_cons, hx]
    rfl

end Fold

/-! ### Entries -/

lemma Outcome.toExcept_eq_ok_iff {o : Outcome} {f : Filter} :
    o.toExcept = .ok f ↔ o = ⟨.ok (), f⟩ := by
  obtain ⟨status, filter⟩ := o
  cases status with
  | error e => simp [toExcept, Except.map]
  | ok u => simp [toExcept, Except.map]

namespace Schema

variable {s : Schema} {source : Source} {f g : Filter} {entry : String × ScalarType}
  {entries : List (String × ScalarType)}

/-- Reading an entry ends well if the source has no value for it, or a value that is accepted on its
own by a filter that admits the declared type.  Then the rules of the value are appended. -/
lemma parseEntry_eq_ok_iff :
    s.parseEntry source f entry = .ok g ↔
      (source.lookup entry.1 = none ∧ g = f) ∨
        ∃ raw, source.lookup entry.1 = some raw ∧ f.Admits entry.1 entry.2 ∧
          (s.parseKey entry.1 entry.2 raw .empty).status = .ok () ∧
          g = f.appendAll entry.1 entry.2 (s.rulesOf entry.1 entry.2 raw) := by
  rw [parseEntry]
  cases source.lookup entry.1 with
  | none => simp [eq_comm]
  | some raw =>
    simp only [reduceCtorEq, false_and, false_or, Option.some.injEq, exists_eq_left']
    rw [Outcome.toExcept_eq_ok_iff]
    constructor
    · intro h
      have hstatus := congrArg Outcome.status h
      have hadmits : f.Admits entry.1 entry.2 := Target.admits_of_status_readInto hstatus
      have haccepted : (s.parseKey entry.1 entry.2 raw .empty).status = .ok () :=
        (status_parseKey_eq hadmits).symm.trans hstatus
      obtain ⟨-, hparse⟩ := parseKey_eq_of_accepted haccepted
      exact ⟨hadmits, haccepted, congrArg Outcome.filter (h.symm.trans (hparse f hadmits))⟩
    · rintro ⟨hadmits, haccepted, rfl⟩
      exact (parseKey_eq_of_accepted haccepted).2 f hadmits

/-- What reading some entries leaves, if it ends well. -/
structure Leaves (s : Schema) (source : Source) (entries : List (String × ScalarType))
    (f : Filter) : Prop where
  /-- The keys were declared with their types. -/
  declared : ∀ k ∈ f.keys, (k.name, k.type) ∈ entries
  accepted : ∀ e ∈ entries, s.Accepts source e
  /-- An entry whose name the source has finds its key with the type of its own. -/
  typed : ∀ e ∈ entries, (source.lookup e.1).isSome →
    ∃ k, f.key? e.1 = some k ∧ k.type = e.2

/-- Reading one entry more. -/
lemma Leaves.parseEntry (hf : s.Leaves source entries f)
    (h : s.parseEntry source f entry = .ok g) : s.Leaves source (entries ++ [entry]) g := by
  rcases parseEntry_eq_ok_iff.1 h with ⟨hraw, rfl⟩ | ⟨raw, hraw, hadmits, haccepted, rfl⟩
  · refine ⟨fun k hk => List.mem_append_left _ (hf.declared k hk), ?_, ?_⟩
    · intro e he raw heraw
      rcases List.mem_append.1 he with he | he
      · exact hf.accepted e he raw heraw
      · obtain rfl := List.mem_singleton.1 he
        rw [hraw] at heraw
        cases heraw
    · intro e he hsome
      rcases List.mem_append.1 he with he | he
      · exact hf.typed e he hsome
      · obtain rfl := List.mem_singleton.1 he
        rw [hraw] at hsome
        cases hsome
  · have hrules : s.rulesOf entry.1 entry.2 raw ≠ [] := (parseKey_eq_of_accepted haccepted).1
    refine ⟨fun k hk => ?_, ?_, ?_⟩
    · rcases Filter.name_type_of_mem_appendAll hk with hself | ⟨k', hk', heq⟩
      · rw [hself]
        exact List.mem_append_right _ (List.mem_singleton_self entry)
      · rw [heq]
        exact List.mem_append_left _ (hf.declared k' hk')
    · intro e he raw' heraw
      rcases List.mem_append.1 he with he | he
      · exact hf.accepted e he raw' heraw
      · obtain rfl := List.mem_singleton.1 he
        obtain rfl : raw = raw' := Option.some.inj (hraw.symm.trans heraw)
        exact haccepted
    · intro e he hsome
      rcases List.mem_append.1 he with he | he
      · obtain ⟨k, hk, htype⟩ := hf.typed e he hsome
        obtain ⟨k', hk', htype'⟩ :=
          Filter.exists_key?_appendAll entry.1 hk (s.rulesOf entry.1 entry.2 raw)
        exact ⟨k', hk', htype'.trans htype⟩
      · obtain rfl := List.mem_singleton.1 he
        exact Filter.exists_key?_appendAll_self hadmits hrules

/-- Reading entries one after another. -/
lemma leaves_of_foldlM (h : entries.foldlM (s.parseEntry source) .empty = .ok f) :
    s.Leaves source entries f := by
  induction entries using List.reverseRecOn generalizing f with
  | nil =>
    obtain rfl : Filter.empty = f := Except.ok.inj h
    refine ⟨fun k hk => ?_, fun e he => ?_, fun e he => ?_⟩
    · cases hk
    · cases he
    · cases he
  | append_singleton entries entry ih =>
    obtain ⟨g, hg, hlast⟩ := exists_of_foldlM_concat h
    exact (ih hg).parseEntry hlast

end Schema

/-! ## Clashes of types

A name that is declared with two types makes the filter refuse rules, unless the reading ends
before.  `parse_clash_iff` says exactly when: at an entry that comes after another one of the same
name and with another type, if the source has the name, everything before was read, and the literals
of the first group are values of the later type.

At such an entry the value has been accepted under the earlier type, so its grammar is in order; the
key is there with the earlier type (`Schema.Leaves.typed`), and what the first group does is known
from `Target.exists_readInto_eq_error`.  At any other entry the filter admits the declared type,
since its keys have no types but those of earlier entries (`Schema.Leaves.declared`), and then there
is no clash.  Beside clashes and parse errors there are literals that overflow in the format of
timestamps, whatever types the names have (`not_rejected_of_consistent`).
-/

namespace Schema

variable {s : Schema} {source : Source} {f : Filter} {entry : String × ScalarType}
  {entries : List (String × ScalarType)} {raw : String}

lemma parseEntry_eq_error_iff {failure : ParseFailure} :
    s.parseEntry source f entry = .error failure ↔
      ∃ raw, source.lookup entry.1 = some raw ∧
        (s.parseKey entry.1 entry.2 raw f).status = .error failure := by
  rw [parseEntry]
  cases source.lookup entry.1 with
  | none => simp
  | some raw =>
    simp only [Option.some.injEq, exists_eq_left', Outcome.toExcept]
    cases (s.parseKey entry.1 entry.2 raw f).status with
    | ok u => simp [Except.map]
    | error e => simp [Except.map]

/-- A value clashes only after an entry of the same name and with another type. -/
lemma Leaves.exists_of_clash (hf : s.Leaves source entries f) {c : TypeClash}
    (h : (s.parseKey entry.1 entry.2 raw f).status = .error (.clash c)) :
    ∃ e ∈ entries, e.1 = entry.1 ∧ e.2 ≠ entry.2 := by
  have hno : ¬ f.Admits (s.target entry.1 entry.2).key (s.target entry.1 entry.2).type :=
    fun hadmits => Target.status_readInto_ne_clash hadmits raw c h
  have hkey : ∃ k, f.key? entry.1 = some k ∧ k.type ≠ entry.2 := by
    rw [Filter.Admits] at hno
    push Not at hno
    exact hno
  obtain ⟨k, hk, htype⟩ := hkey
  have hname : k.name = entry.1 := by simpa using List.find?_some hk
  exact ⟨(k.name, k.type), hf.declared k (List.mem_of_find?_eq_some hk), hname, htype⟩

/-- After an entry of the same name and with another type, a value clashes exactly if the literals
of its first group are values of the later type. -/
lemma Leaves.clash_iff (hf : s.Leaves source entries f) (hraw : source.lookup entry.1 = some raw)
    {e : String × ScalarType} (he : e ∈ entries) (hname : e.1 = entry.1) (htype : e.2 ≠ entry.2) :
    (∃ c, (s.parseKey entry.1 entry.2 raw f).status = .error (.clash c)) ↔
      ∀ l ∈ firstLiterals raw, (entry.2.read? s.format l).isSome := by
  have heraw : source.lookup e.1 = some raw := by rw [hname, hraw]
  have haccepted : (((s.target entry.1 entry.2).withType e.2).readInto raw .empty).status =
      .ok () := by
    have hown := hf.accepted e he raw heraw
    rw [hname] at hown
    exact hown
  obtain ⟨k, hk, hktype⟩ := hf.typed e he (Option.isSome_of_eq_some heraw)
  have hno : ¬ f.Admits entry.1 entry.2 := by
    intro hadmits
    rw [hname] at hk
    exact htype (hktype.symm.trans (hadmits k hk))
  obtain ⟨failure, hread, hclash⟩ := Target.exists_readInto_eq_error haccepted hno
  have hstatus : (s.parseKey entry.1 entry.2 raw f).status = .error failure :=
    congrArg Outcome.status hread
  have hliterals : (∃ c, failure = .clash c) ↔
      ∀ l ∈ firstLiterals raw, (entry.2.read? s.format l).isSome := hclash
  rw [hstatus, ← hliterals]
  simp

/-- What ends a reading is a parse error, a clash, or an overflow in reading a timestamp. -/
lemma overflows_of_parse {literal : String} (h : s.parse source = .error (.overflow literal)) :
    (∃ key, (key, .timestamp) ∈ s.keys) ∧ s.format.overflows literal = true := by
  obtain ⟨before, ⟨key, type⟩, after, f, hkeys, -, hentry⟩ := foldlM_eq_error_iff.1 h
  obtain ⟨raw, -, hstatus⟩ := parseEntry_eq_error_iff.1 hentry
  have hoverflows : type.overflows s.format literal = true :=
    Target.overflows_of_status_readInto hstatus
  cases type with
  | timestamp =>
    refine ⟨⟨key, ?_⟩, hoverflows⟩
    rw [hkeys]
    exact List.mem_append_right before List.mem_cons_self
  | integer | unsignedInteger | float | string => cases hoverflows

/-- Types do not clash in a reading if no name has two of them. -/
lemma parse_ne_clash (hs : s.Consistent) (source : Source) (c : TypeClash) :
    s.parse source ≠ .error (.clash c) := by
  intro hparse
  by_cases h : ∀ e ∈ s.keys, s.Accepts source e
  · obtain ⟨f, hf, -⟩ := replay_additions hs h
    rw [hf] at hparse
    cases hparse
  · obtain ⟨before, entry, after, raw, failure, hkeys, hbefore, hraw, hfailure⟩ :=
      exists_first_refused h
    have herror := parse_eq_error hs hkeys hbefore hraw hfailure
    obtain rfl : .clash c = failure := Except.error.inj (hparse.symm.trans herror)
    exact Target.status_readInto_ne_clash (Filter.admits_of_none rfl entry.2) raw c hfailure

end Schema

/-- Reading a source ends in a clash of types exactly if the source has the name of some entry, all
entries before it are read, one of them declares the same name with another type, and the literals
of the first group of the value are values of the later type.  So nothing clashes if no name is
declared with two types.

What else can end a reading is a parse error, or a literal that overflows in the format of
timestamps. -/
theorem parse_clash_iff (s : Schema) (source : Source) :
    ((∃ c, s.parse source = .error (.clash c)) ↔
        ∃ before entry after f raw, s.keys = before ++ entry :: after ∧
          source.lookup entry.1 = some raw ∧
          Schema.parse { s with keys := before } source = .ok f ∧
          (∃ e ∈ before, e.1 = entry.1 ∧ e.2 ≠ entry.2) ∧
          ∀ l ∈ firstLiterals raw, (entry.2.read? s.format l).isSome) ∧
      (s.Consistent → ∀ c, s.parse source ≠ .error (.clash c)) ∧
      ∀ failure, s.parse source = .error failure →
        (∃ error, failure = .rejected error) ∨ (∃ c, failure = .clash c) ∨
          ∃ literal, failure = .overflow literal ∧ s.format.overflows literal = true := by
  have hiff : (∃ c, s.parse source = .error (.clash c)) ↔
      ∃ before entry after f raw, s.keys = before ++ entry :: after ∧
        source.lookup entry.1 = some raw ∧
        Schema.parse { s with keys := before } source = .ok f ∧
        (∃ e ∈ before, e.1 = entry.1 ∧ e.2 ≠ entry.2) ∧
        ∀ l ∈ firstLiterals raw, (entry.2.read? s.format l).isSome := by
    constructor
    · rintro ⟨c, hc⟩
      obtain ⟨before, entry, after, f, hkeys, hbefore, hentry⟩ := foldlM_eq_error_iff.1 hc
      obtain ⟨raw, hraw, hstatus⟩ := Schema.parseEntry_eq_error_iff.1 hentry
      have hf : s.Leaves source before f := Schema.leaves_of_foldlM hbefore
      obtain ⟨e, he, hname, htype⟩ := hf.exists_of_clash hstatus
      have hliterals := (hf.clash_iff hraw he hname htype).1 ⟨c, hstatus⟩
      exact ⟨before, entry, after, f, raw, hkeys, hraw, hbefore, ⟨e, he, hname, htype⟩, hliterals⟩
    · rintro ⟨before, entry, after, f, raw, hkeys, hraw, hbefore, ⟨e, he, hname, htype⟩, hliterals⟩
      have hf : s.Leaves source before f := Schema.leaves_of_foldlM hbefore
      obtain ⟨c, hstatus⟩ := (hf.clash_iff hraw he hname htype).2 hliterals
      have hentry := Schema.parseEntry_eq_error_iff.2 ⟨raw, hraw, hstatus⟩
      exact ⟨c, foldlM_eq_error_iff.2 ⟨before, entry, after, f, hkeys, hbefore, hentry⟩⟩
  refine ⟨hiff, fun hs c hc => ?_, fun failure h => ?_⟩
  · obtain ⟨before, entry, after, -, -, hkeys, -, -, ⟨e, he, hname, htype⟩, -⟩ := hiff.1 ⟨c, hc⟩
    have hmem : e ∈ s.keys := by
      rw [hkeys]
      exact List.mem_append_left _ he
    have hentry : entry ∈ s.keys := by
      rw [hkeys]
      exact List.mem_append_right _ List.mem_cons_self
    exact htype (hs e hmem entry hentry hname)
  · cases failure with
    | rejected error => exact .inl ⟨error, rfl⟩
    | clash c => exact .inr (.inl ⟨c, rfl⟩)
    | overflow literal => exact .inr (.inr ⟨literal, rfl, (Schema.overflows_of_parse h).2⟩)

/-- The second reading of a name clashes although its last group is no number.  Declared as a number
alone, the same name is refused by a parse error. -/
theorem parse_clash_of_two_types :
    let source := Source.ofList [("k", "gt!1|eq!x"), ("a", "2.5")]
    let two := ((Schema.empty.declare "a" .float).declare "k" .string).declare "k" .integer
    let one := (Schema.empty.declare "a" .float).declare "k" .integer
    (∃ c, two.parse source = .error (.clash c)) ∧
      one.Consistent ∧ ∃ error, one.parse source = .error (.rejected error) := by
  intro source two one
  obtain ⟨hclash, -, -⟩ := parse_clash_iff two source
  obtain ⟨-, hnone, hothers⟩ := parse_clash_iff one source
  have hone : one.Consistent := by
    unfold Schema.Consistent
    decide
  refine ⟨hclash.2 ?_, hone, ?_⟩
  · have hliterals : firstLiterals "gt!1|eq!x" = ["1"] := by decide +kernel
    have hnumber : (ScalarType.integer.read? .internet "1").isSome := by decide +kernel
    refine ⟨[("a", .float), ("k", .string)], ("k", .integer), [], _, "gt!1|eq!x", rfl, rfl, rfl,
      ⟨("k", .string), by decide, rfl, by decide⟩, fun l hl => ?_⟩
    rw [hliterals] at hl
    obtain rfl := List.mem_singleton.1 hl
    exact hnumber
  · have hfails : ∃ failure, one.parse source = .error failure := ⟨_, rfl⟩
    obtain ⟨failure, hfailure⟩ := hfails
    rcases hothers failure hfailure with ⟨error, rfl⟩ | ⟨c, rfl⟩ | ⟨literal, -, hoverflows⟩
    · exact ⟨error, hfailure⟩
    · exact absurd hfailure (hnone hone c)
    · cases hoverflows

/-- A day of a week in a year that is too early overflows, though no name has two types. -/
theorem not_rejected_of_consistent :
    ¬∀ (s : Schema) (source : Source), s.Consistent → ∀ failure, s.parse source = .error failure →
      ∃ error, failure = .rejected error := by
  intro h
  let s : Schema := ⟨[("day", .timestamp)], .pattern "%G-W%V-%u", .unified⟩
  have hs : s.Consistent := by
    unfold Schema.Consistent
    decide
  have hstatus : (s.parseKey "day" .timestamp "-2147483648-W01-1" .empty).status =
      .error (.overflow "-2147483648-W01-1") := by decide +kernel
  have hentry : s.parseEntry (.ofList [("day", "-2147483648-W01-1")]) .empty ("day", .timestamp) =
      .error (.overflow "-2147483648-W01-1") :=
    Schema.parseEntry_eq_error_iff.2 ⟨"-2147483648-W01-1", rfl, hstatus⟩
  have hparse : s.parse (.ofList [("day", "-2147483648-W01-1")]) =
      .error (.overflow "-2147483648-W01-1") :=
    foldlM_eq_error_iff.2 ⟨[], ("day", .timestamp), [], .empty, rfl, rfl, hentry⟩
  obtain ⟨error, herror⟩ := h s _ hs _ hparse
  cases herror

end QueryFilter
