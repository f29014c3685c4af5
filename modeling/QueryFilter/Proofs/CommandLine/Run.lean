import QueryFilter.CommandLine.Report
import QueryFilter.Proofs.Config.RoundTrip
import QueryFilter.Proofs.Schema.Keys
import QueryFilter.Proofs.Sql.Rendering

/-!
# What a run of the command line prints

A run is followed from its pairs to what it prints.  Without a configuration the keys are strings,
so the only thing that can go wrong is a value that is refused, and the output is written from the
first values of the keys alone (`pairRules`, `rulesOutput`).  With a configuration the schema and
the columns are those of the file.

In both cases the compiler has columns and the filter comes from reading, so that it is always
rendered (`Report.ofInvocation_eq`): no run fails in rendering.
-/

namespace QueryFilter

/-- What a run prints of rules: the text of their clause, and a numbered line for each parameter. -/
def rulesOutput (style : PlaceholderStyle) (rules : List ColumnRule) : String :=
  linesText (clauseText style rules ::
    (rules.flatMap ColumnRule.parameters).mapIdx fun i p =>
      "  " ++ integerText (i + 1 : Nat) ++ ": " ++ p.listing)

/-- The rules of the first value of a key, read as a string, on the column that is named like it. -/
def firstRules (pairs : List (String × String)) (key : String) : List ColumnRule :=
  match pairs.lookup key with
  | some raw => (Schema.empty.rulesOf key .string raw).map fun r => ⟨key, key, .string, r⟩
  | none => []

/-- The rules of the first values, key by key, in the order in which the keys appear. -/
def pairRules (pairs : List (String × String)) : List ColumnRule :=
  (distinctKeys pairs).flatMap (firstRules pairs)

/-- The first value of a key is accepted as a string, on its own. -/
def FirstAccepted (pairs : List (String × String)) (key : String) : Prop :=
  ∀ raw, pairs.lookup key = some raw →
    (Schema.empty.parseKey key .string raw .empty).status = .ok ()

namespace Report

/-- The run ends well and prints a text. -/
def Succeeds (r : Report) (text : String) : Prop :=
  r.code = 0 ∧ r.output = text ∧ r.error = ""

/-- The run fails with the message of a parse error. -/
def FailsParsing (r : Report) (error : ParseError) : Prop :=
  r.code = 1 ∧ r.output = "" ∧
    r.error = linesText ["", "Error: parsing filter: " ++ error.message, ""]

/-- The run panics before it has printed anything. -/
def Panics (r : Report) : Prop :=
  r.code = 101 ∧ r.output = "" ∧ r.error = ""

lemma succeeds_printed (text : String) : (printed text).Succeeds text :=
  ⟨rfl, rfl, rfl⟩

lemma failsParsing_failed (e : ParseError) : (failed (.parsing e)).FailsParsing e := by
  have hmessage : "Error: " ++ ("parsing filter: " ++ e.message) =
      "Error: parsing filter: " ++ e.message := by
    rw [← String.append_assoc]
    rfl
  refine ⟨rfl, rfl, ?_⟩
  rw [← hmessage]
  rfl

/-- Lines are numbered from the first one on. -/
lemma parameterLines_eq_mapIdx (next : Nat) (ps : List Parameter) :
    parameterLines next ps = ps.mapIdx fun i p =>
      "  " ++ integerText (next + i : Nat) ++ ": " ++ p.listing := by
  induction ps generalizing next with
  | nil => rfl
  | cons p ps ih =>
    rw [parameterLines, List.mapIdx_cons, ih]
    simp only [Nat.add_zero, Nat.add_assoc, Nat.add_comm 1]

variable {i : Invocation} {contents : String → Except FileFault ByteArray}

/-- A setup that a configuration file gives. -/
lemma setup_of_loadFile {path : String} {c : Config} (hconfig : i.config = some path)
    (h : Config.loadFile path (contents path) = .ok c) :
    i.setup contents = .ok ⟨c.schema, ⟨c.placeholder, some c.columns⟩⟩ := by
  unfold Invocation.setup
  rw [hconfig]
  simp only [h]
  rfl

/-- A run is set up with columns, or its configuration is not loaded. -/
lemma setup_cases (i : Invocation) (contents : String → Except FileFault ByteArray) :
    (∃ path fault, i.setup contents = .error (.loading path fault)) ∨
      ∃ s style columns, i.setup contents = .ok ⟨s, ⟨style, some columns⟩⟩ := by
  cases hconfig : i.config with
  | none =>
    right
    unfold Invocation.setup
    rw [hconfig]
    exact ⟨_, _, _, rfl⟩
  | some path =>
    cases hload : Config.loadFile path (contents path) with
    | ok c => exact .inr ⟨_, _, _, setup_of_loadFile hconfig hload⟩
    | error fault =>
      refine .inl ⟨path, fault, ?_⟩
      unfold Invocation.setup
      rw [hconfig]
      simp only [hload]
      rfl

/-- A run with a setup prints the rules on columns of the filter that it reads, or fails as reading
does. -/
lemma ofInvocation_eq {s : Schema} {style : PlaceholderStyle} {columns : Dictionary String}
    (h : i.setup contents = .ok ⟨s, ⟨style, some columns⟩⟩) :
    ofInvocation i contents =
      match s.parse (.ofList i.pairs) with
      | .ok f => printed (rulesOutput style (f.columnRules columns))
      | .error failure => ofParseFailure failure := by
  unfold ofInvocation
  rw [h]
  dsimp only
  cases hparse : s.parse (.ofList i.pairs) with
  | error failure => rfl
  | ok f =>
    have hrender := (Schema.parsed_of_parse hparse).render_eq_ok style columns
    have hlines := parameterLines_eq_mapIdx 1
      ((f.columnRules columns).flatMap ColumnRule.parameters)
    simp only [hrender]
    unfold Clause.lines rulesOutput
    simp only [hlines, Nat.add_comm 1]

/-- No run fails in rendering. -/
lemma ofInvocation_ne_rendering (i : Invocation) (contents : String → Except FileFault ByteArray)
    (e : CompileError) : ofInvocation i contents ≠ failed (.rendering e) := by
  intro hreport
  rcases setup_cases i contents with ⟨path, fault, hsetup⟩ | ⟨s, style, columns, hsetup⟩
  · unfold ofInvocation at hreport
    rw [hsetup] at hreport
    cases hreport
  · rw [ofInvocation_eq hsetup] at hreport
    split at hreport
    · cases hreport
    · next failure _ => cases failure <;> cases hreport

end Report

/-! ### Keys that are strings -/

/-- The schema in which all keys are strings. -/
def stringSchema (keys : List String) : Schema :=
  { Schema.empty with keys := keys.map fun key => (key, .string) }

/-- The columns that have the names of their keys. -/
def ownColumns (keys : List String) : Dictionary String :=
  .ofPairs (keys.map fun key => (key, key))

section Untyped

variable {pairs : List (String × String)}

/-- Every key has a first value. -/
lemma exists_lookup_of_mem_distinctKeys {key : String} (h : key ∈ distinctKeys pairs) :
    ∃ raw, pairs.lookup key = some raw := by
  unfold distinctKeys at h
  rw [List.mem_eraseDups] at h
  obtain ⟨pair, hpair, rfl⟩ := List.mem_map.1 h
  have hsome : (pairs.lookup pair.1).isSome = true :=
    List.lookup_isSome_iff.2 ⟨pair, hpair, beq_self_eq_true pair.1⟩
  exact Option.isSome_iff_exists.1 hsome

lemma get?_ownColumns {keys : List String} {key : String} (h : key ∈ keys) :
    (ownColumns keys).get? key = some key := by
  have hmem : (key, key) ∈ (keys.map fun key => (key, key)).filter (·.1 = key) :=
    List.mem_filter.2 ⟨List.mem_map_of_mem h, decide_eq_true rfl⟩
  have hlast := List.getLast?_eq_some_getLast (List.ne_nil_of_mem hmem)
  obtain ⟨hmap, hkey⟩ := List.mem_filter.1 (List.mem_of_getLast? hlast)
  obtain ⟨key', -, heq⟩ := List.mem_map.1 hmap
  unfold ownColumns
  rw [Dictionary.get?_ofPairs, hlast, Option.map_some, ← heq]
  rw [← heq] at hkey
  exact congrArg some (of_decide_eq_true hkey)

lemma consistent_stringSchema (keys : List String) : (stringSchema keys).Consistent := by
  have htype : ∀ e ∈ (stringSchema keys).keys, e.2 = .string := by
    intro e he
    obtain ⟨key, -, rfl⟩ := List.mem_map.1 he
    rfl
  intro e he e' he' _
  rw [htype e he, htype e' he']

/-- Each of some different keys is declared once. -/
lemma countP_stringSchema {keys : List String} (hnodup : keys.Nodup) {key : String}
    (h : key ∈ keys) : (stringSchema keys).keys.countP (·.1 = key) = 1 := by
  have hcount : keys.count key = 1 := List.count_eq_one_of_mem hnodup h
  unfold stringSchema
  rw [List.countP_map, ← hcount]
  exact List.countP_congr fun k _ => by simp

/-- If the first values of all keys are accepted, the pairs are read to a filter, and its rules on
columns are those of the first values. -/
lemma exists_parse_stringSchema (h : ∀ key ∈ distinctKeys pairs, FirstAccepted pairs key) :
    ∃ f, (stringSchema (distinctKeys pairs)).parse (.ofList pairs) = .ok f ∧
      f.columnRules (ownColumns (distinctKeys pairs)) = pairRules pairs := by
  have hs := consistent_stringSchema (distinctKeys pairs)
  have haccepts : ∀ e ∈ (stringSchema (distinctKeys pairs)).keys,
      (stringSchema (distinctKeys pairs)).Accepts (.ofList pairs) e := by
    intro e he
    obtain ⟨key, hkey, rfl⟩ := List.mem_map.1 he
    exact h key hkey
  obtain ⟨f, hparse, hreplay⟩ := Schema.replay_additions hs haccepts
  obtain ⟨g, hg, hanswers⟩ := Filter.exists_replay (hs.additions (.ofList pairs))
  obtain rfl : f = g := Except.ok.inj (hreplay.symm.trans hg)
  have hrecorded : f.Recorded := ⟨_, hreplay⟩
  have hnames : f.keys.map FilterKey.name = distinctKeys pairs := by
    have hall : ((stringSchema (distinctKeys pairs)).keys.filter fun e =>
        ((Source.ofList pairs).lookup e.1).isSome) = (stringSchema (distinctKeys pairs)).keys := by
      refine List.filter_eq_self.2 fun e he => ?_
      obtain ⟨key, hkey, rfl⟩ := List.mem_map.1 he
      exact Option.isSome_iff_exists.2 (exists_lookup_of_mem_distinctKeys hkey)
    have hkeys : (stringSchema (distinctKeys pairs)).keys.map Prod.fst = distinctKeys pairs := by
      unfold stringSchema
      rw [List.map_map]
      exact List.map_id _
    rw [hanswers.names, Schema.keys_additions haccepts, hall, hkeys]
    exact eraseDups_eraseDups _
  have hnodup : (distinctKeys pairs).Nodup := hnames ▸ hrecorded.nodup
  have hleaves := Schema.leaves_of_foldlM hparse
  have hrules : ∀ k ∈ f.keys,
      f.columnRulesOf (ownColumns (distinctKeys pairs)) k = firstRules pairs k.name := by
    intro k hk
    obtain ⟨key, hkey, hdeclared⟩ := List.mem_map.1 (hleaves.declared k hk)
    obtain ⟨name, type, stored⟩ := k
    obtain ⟨rfl, rfl⟩ := Prod.mk.inj hdeclared
    obtain ⟨raw, hraw⟩ := exists_lookup_of_mem_distinctKeys hkey
    have hget : f.get key .string = Schema.empty.rulesOf key .string raw := by
      have htype : ∀ e ∈ (stringSchema (distinctKeys pairs)).keys, e.1 = key → e.2 = .string := by
        intro e he _
        obtain ⟨_, -, rfl⟩ := List.mem_map.1 he
        rfl
      rw [hanswers.rules, Schema.rules_additions hraw htype, countP_stringSchema hnodup hkey,
        List.replicate_one, List.flatten_singleton]
      rfl
    unfold Filter.columnRulesOf firstRules
    rw [get?_ownColumns hkey, hraw]
    simp only [hget]
  refine ⟨f, hparse, ?_⟩
  have hflat : f.columnRules (ownColumns (distinctKeys pairs)) =
      f.keys.flatMap fun k => firstRules pairs k.name := List.flatMap_congr hrules
  rw [hflat, pairRules, ← hnames, List.flatMap_map]

/-- If the first value of some key is refused, reading fails as the first such key does, with a
parse error: a string never overflows, and its key never has another type. -/
lemma exists_error_of_stringSchema (h : ¬ ∀ key ∈ distinctKeys pairs, FirstAccepted pairs key) :
    ∃ before key after raw error, distinctKeys pairs = before ++ key :: after ∧
      (∀ key ∈ before, FirstAccepted pairs key) ∧ pairs.lookup key = some raw ∧
      (Schema.empty.parseKey key .string raw .empty).status = .error (.rejected error) ∧
      (stringSchema (distinctKeys pairs)).parse (.ofList pairs) = .error (.rejected error) := by
  have hs := consistent_stringSchema (distinctKeys pairs)
  have hrefused : ¬ ∀ e ∈ (stringSchema (distinctKeys pairs)).keys,
      (stringSchema (distinctKeys pairs)).Accepts (.ofList pairs) e := by
    intro hall
    exact h fun key hkey => hall (key, .string) (List.mem_map_of_mem hkey)
  obtain ⟨before, entry, after, raw, failure, hkeys, hbefore, hraw, hfailure⟩ :=
    Schema.exists_first_refused hrefused
  have hparse := Schema.parse_eq_error hs hkeys hbefore hraw hfailure
  obtain ⟨keys, rest, hsplit, rfl, hrest⟩ := List.map_eq_append_iff.1 hkeys
  obtain ⟨key, keys', rfl, rfl, rfl⟩ := List.map_eq_cons_iff.1 hrest
  have hadmits : Filter.empty.Admits key .string := Filter.admits_of_none rfl .string
  cases failure with
  | clash c => exact absurd hfailure (Target.status_readInto_ne_clash hadmits raw c)
  | overflow literal =>
    have hoverflows := Target.overflows_of_status_readInto hfailure
    cases hoverflows
  | rejected error =>
    exact ⟨keys, key, keys', raw, error, hsplit,
      fun k hk => hbefore (k, .string) (List.mem_map_of_mem hk), hraw, hfailure, hparse⟩

end Untyped

/-- Without a configuration, the keys are strings and are declared in the order of their first
appearance.  If their first values are accepted, the run prints the clause of the rules of these
values, key by key and each on the column that is named like its key, and then the parameters,
numbered from one.  Otherwise it fails with the parse error of the first key whose first value is
refused.

With a configuration that is loaded and gives no name two types, the run prints the clause of what
it reads, or fails with a parse error, or panics at a literal of a timestamp key that overflows in
the format of timestamps.

No run fails in rendering. -/
theorem run_renders_pairs (pairs : List (String × String)) (numbered : Bool)
    (contents : String → Except FileFault ByteArray) :
    (let report := Report.ofInvocation ⟨none, numbered, pairs⟩ contents
      let style : PlaceholderStyle := if numbered then .numbered else .positional
      (∃ setup, Invocation.setup ⟨none, numbered, pairs⟩ contents = .ok setup ∧
          setup.schema.keys = (pairs.map Prod.fst).eraseDups.map fun key => (key, .string)) ∧
        ((∀ key ∈ distinctKeys pairs, FirstAccepted pairs key) →
          report.Succeeds (rulesOutput style (pairRules pairs))) ∧
        ((¬ ∀ key ∈ distinctKeys pairs, FirstAccepted pairs key) →
          ∃ before key after raw error, distinctKeys pairs = before ++ key :: after ∧
            (∀ key ∈ before, FirstAccepted pairs key) ∧ pairs.lookup key = some raw ∧
            (Schema.empty.parseKey key .string raw .empty).status = .error (.rejected error) ∧
            report.FailsParsing error)) ∧
      (∀ path c, Config.loadFile path (contents path) = .ok c → c.schema.Consistent →
        let report := Report.ofInvocation ⟨some path, numbered, pairs⟩ contents
        (∃ f, c.schema.parse (.ofList pairs) = .ok f ∧
            report.Succeeds (rulesOutput c.placeholder (f.columnRules c.columns))) ∨
          (∃ error, c.schema.parse (.ofList pairs) = .error (.rejected error) ∧
            report.FailsParsing error) ∨
          ∃ key literal, (key, .timestamp) ∈ c.schema.keys ∧
            c.schema.parse (.ofList pairs) = .error (.overflow literal) ∧
            c.schema.format.overflows literal = true ∧ report.Panics) ∧
      ∀ config error,
        Report.ofInvocation ⟨config, numbered, pairs⟩ contents ≠ .failed (.rendering error) := by
  refine ⟨?_, fun path c hload hs => ?_, fun config error =>
    Report.ofInvocation_ne_rendering _ contents error⟩
  · intro report style
    have hsetup : Invocation.setup ⟨none, numbered, pairs⟩ contents =
        .ok ⟨stringSchema (distinctKeys pairs), ⟨style, some (ownColumns (distinctKeys pairs))⟩⟩ :=
      rfl
    have hreport : report = _ := Report.ofInvocation_eq hsetup
    refine ⟨⟨_, hsetup, rfl⟩, fun h => ?_, fun h => ?_⟩
    · obtain ⟨f, hparse, hrules⟩ := exists_parse_stringSchema h
      rw [hreport, hparse, ← hrules]
      exact Report.succeeds_printed _
    · obtain ⟨before, key, after, raw, error, hkeys, hbefore, hraw, hstatus, hparse⟩ :=
        exists_error_of_stringSchema h
      refine ⟨before, key, after, raw, error, hkeys, hbefore, hraw, hstatus, ?_⟩
      rw [hreport, hparse]
      exact Report.failsParsing_failed error
  · intro report
    have hreport : report = _ := Report.ofInvocation_eq (Report.setup_of_loadFile rfl hload)
    rw [hreport]
    cases hparse : c.schema.parse (.ofList pairs) with
    | ok f => exact .inl ⟨f, rfl, Report.succeeds_printed _⟩
    | error failure =>
      cases failure with
      | rejected error => exact .inr (.inl ⟨error, rfl, Report.failsParsing_failed error⟩)
      | clash clash => exact absurd hparse (Schema.parse_ne_clash hs _ clash)
      | overflow literal =>
        obtain ⟨⟨key, hkey⟩, hoverflows⟩ := Schema.overflows_of_parse hparse
        exact .inr (.inr ⟨key, literal, hkey, rfl, hoverflows, rfl, rfl, rfl⟩)

/-- The second value of a key is not read.  As a number the first one is refused. -/
theorem run_renders_pairs_of_repeated_key :
    let pairs := [("b", "eq!2|like!x"), ("a", "1"), ("b", "!")]
    let c : Config := ⟨.numbered, .strictIs, none, [⟨"b", .integer, some "t.b"⟩]⟩
    let contents : String → Except FileFault ByteArray := fun _ => .ok c.text.toUTF8
    (∀ key ∈ distinctKeys pairs, FirstAccepted pairs key) ∧
      (Report.ofInvocation ⟨none, true, pairs⟩ contents).Succeeds (linesText
        ["WHERE b = $1 AND b LIKE $2 AND a = $3", "  1: String(Some(\"2\"))",
          "  2: String(Some(\"x%\"))", "  3: String(Some(\"1\"))"]) ∧
      Config.loadFile "c.json" (contents "c.json") = .ok c ∧ c.schema.Consistent ∧
      ∃ error, (Report.ofInvocation ⟨some "c.json", true, pairs⟩ contents).FailsParsing error := by
  intro pairs c contents
  obtain ⟨⟨-, hprinted, -⟩, hconfig, -⟩ := run_renders_pairs pairs true contents
  have haccepted : ∀ key ∈ distinctKeys pairs, FirstAccepted pairs key := by
    intro key hkey raw hraw
    have hkeys : distinctKeys pairs = ["b", "a"] := by decide +kernel
    rw [hkeys] at hkey
    rcases List.mem_cons.1 hkey with rfl | hkey
    · obtain rfl : "eq!2|like!x" = raw := Option.some.inj hraw
      decide +kernel
    · obtain rfl := List.mem_singleton.1 hkey
      obtain rfl : "1" = raw := Option.some.inj hraw
      decide +kernel
  have houtput : rulesOutput .numbered (pairRules pairs) = linesText
      ["WHERE b = $1 AND b LIKE $2 AND a = $3", "  1: String(Some(\"2\"))",
        "  2: String(Some(\"x%\"))", "  3: String(Some(\"1\"))"] := by
    decide +kernel
  have hload : Config.loadFile "c.json" (contents "c.json") = .ok c := c.loadFile_toUTF8 "c.json"
  have hs : c.schema.Consistent := by
    unfold Schema.Consistent
    decide
  have hstatus : (c.schema.parseKey "b" .integer "eq!2|like!x" .empty).status =
      .error (.rejected (.conversion "b" "x" .integer .internet)) := by decide +kernel
  have hparse : c.schema.parse (.ofList pairs) =
      .error (.rejected (.conversion "b" "x" .integer .internet)) :=
    foldlM_eq_error_iff.2 ⟨[], ("b", .integer), [], .empty, rfl, rfl,
      Schema.parseEntry_eq_error_iff.2 ⟨"eq!2|like!x", rfl, hstatus⟩⟩
  refine ⟨haccepted, ?_, hload, hs, ?_⟩
  · rw [← houtput]
    exact hprinted haccepted
  · rcases hconfig "c.json" c hload hs with
      ⟨f, hf, -⟩ | ⟨error, -, herror⟩ | ⟨key, literal, -, hliteral, -⟩
    · rw [hparse] at hf
      cases hf
    · exact ⟨error, herror⟩
    · rw [hparse] at hliteral
      cases hliteral

/-- A run panics at a day of a week in a year that is too early. -/
theorem not_failsParsing_of_consistent_config :
    ¬∀ (pairs : List (String × String)) (numbered : Bool)
      (contents : String → Except FileFault ByteArray) (path : String) (c : Config), pairs ≠ [] →
        Config.loadFile path (contents path) = .ok c → c.schema.Consistent →
          let report := Report.ofInvocation ⟨some path, numbered, pairs⟩ contents
          report.code = 0 ∨ ∃ error, report.FailsParsing error := by
  intro h
  let c : Config := ⟨.positional, .unified, some "%G-W%V-%u", [⟨"day", .timestamp, none⟩]⟩
  let pairs := [("day", "-2147483648-W01-1")]
  let contents : String → Except FileFault ByteArray := fun _ => .ok c.text.toUTF8
  have hload : Config.loadFile "c.json" (contents "c.json") = .ok c := c.loadFile_toUTF8 "c.json"
  have hs : c.schema.Consistent := by
    unfold Schema.Consistent
    decide
  have hstatus : (c.schema.parseKey "day" .timestamp "-2147483648-W01-1" .empty).status =
      .error (.overflow "-2147483648-W01-1") := by decide +kernel
  have hparse : c.schema.parse (.ofList pairs) = .error (.overflow "-2147483648-W01-1") :=
    foldlM_eq_error_iff.2 ⟨[], ("day", .timestamp), [], .empty, rfl, rfl,
      Schema.parseEntry_eq_error_iff.2 ⟨"-2147483648-W01-1", rfl, hstatus⟩⟩
  have hsetup : Invocation.setup ⟨some "c.json", false, pairs⟩ contents =
      .ok ⟨c.schema, ⟨c.placeholder, some c.columns⟩⟩ := Report.setup_of_loadFile rfl hload
  have hreport : Report.ofInvocation ⟨some "c.json", false, pairs⟩ contents =
      .panicked (.overflow "-2147483648-W01-1") := by
    rw [Report.ofInvocation_eq hsetup, hparse]
    rfl
  have hrun := h pairs false contents "c.json" c (List.cons_ne_nil _ _) hload hs
  simp only [hreport] at hrun
  rcases hrun with hcode | ⟨error, hcode, -, -⟩
  · exact absurd hcode (by decide)
  · exact absurd hcode (by decide)

end QueryFilter
