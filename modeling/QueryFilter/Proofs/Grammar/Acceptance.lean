import Mathlib.Data.List.Forall2
import QueryFilter.Proofs.Grammar.Machine
import QueryFilter.Proofs.Token.Lexer

/-!
# Which values are accepted, and what they mean

The query values that are accepted are those of a grammar that speaks of texts only, and the rules
that they are read to are those that the grammar gives them.
-/

namespace QueryFilter

/-! ## The language of query values

Here it is said which texts are query values and what they mean, without tokens and without a
machine.  `GroupsText` is the grammar of the long form: groups joined by bars, each a keyword, the
mark, and values joined by commas.  `BareText` is the short form, a single literal.
`Target.Denotes` relates a text to the rules that it stands for under the type of a key.

Every part of a text is judged in its place: the first argument of the grammar's relations is the
text before the part, last character first, and a separator counts only where the run of backslashes
before it has even length.
-/

/-- A group as it is written: its keyword, and the slices of its values. -/
structure WrittenGroup where
  keyword : List Char
  slices : List (List Char)

/-- Values joined by commas that are not escaped. -/
inductive ListText : List Char → List (List Char) → List Char → Prop
  | single {before slice : List Char} (isSlice : IsSlice before slice) :
      ListText before [slice] slice
  | cons {before slice rest : List Char} {slices : List (List Char)}
      (isSlice : IsSlice before slice) (settled : Settled (slice.reverse ++ before))
      (more : ListText (',' :: (slice.reverse ++ before)) slices rest) :
      ListText before (slice :: slices) (slice ++ ',' :: rest)

/-- A keyword, the mark, and a list of values. -/
inductive GroupText (before : List Char) : WrittenGroup → List Char → Prop
  | mk {word list : List Char} {slices : List (List Char)} (known : word ∈ keywords)
      (values : ListText ('!' :: (word.reverse ++ before)) slices list) :
      GroupText before ⟨word, slices⟩ (word ++ '!' :: list)

/-- Groups joined by bars that are not escaped. -/
inductive GroupsText : List Char → List WrittenGroup → List Char → Prop
  | single {before text : List Char} {group : WrittenGroup} (first : GroupText before group text) :
      GroupsText before [group] text
  | cons {before text rest : List Char} {group : WrittenGroup} {groups : List WrittenGroup}
      (first : GroupText before group text) (settled : Settled (text.reverse ++ before))
      (more : GroupsText ('|' :: (text.reverse ++ before)) groups rest) :
      GroupsText before (group :: groups) (text ++ '|' :: rest)

/-- The short form: nothing, a mark, a delimiter or a keyword alone, or a value that does not start
with a keyword. -/
def BareText (text : List Char) : Prop :=
  text = [] ∨ text = ['!'] ∨ text = ['|'] ∨ text = [','] ∨ text ∈ keywords ∨
    (IsSlice [] text ∧ NoKeyword text)

/-- The literal that a slice stands for. -/
def literal (slice : List Char) : String :=
  String.ofList (unescape slice)

namespace Target

/-- The slice stands for a value of the key's type. -/
def Reads (target : Target) (slice : List Char) (value : target.type.Value) : Prop :=
  target.type.read? target.format (literal slice) = some value

/-- The rule that a group stands for: its comparator is the one that the keyword spells, which takes
a list if there is more than one value, and its values are those of the slices. -/
structure GroupDenotes (target : Target) (group : WrittenGroup) (rule : Rule target.type) :
    Prop where
  comparator : Comparator.ofChars? group.keyword = some rule.comparator
  arity : 1 < group.slices.length → target.profile.acceptsList rule.comparator = true
  values : List.Forall₂ target.Reads group.slices rule.values

/-- The rules that a text stands for. -/
inductive Denotes (target : Target) : List Char → List (Rule target.type) → Prop
  /-- The short form stands for the equality with its literal. -/
  | bare {text : List Char} {value : target.type.Value} (isBare : BareText text)
      (reads : target.Reads text value) : Denotes target text [⟨.equals, [value]⟩]
  /-- The long form stands for one rule a group. -/
  | groups {text : List Char} {groups : List WrittenGroup} {rules : List (Rule target.type)}
      (isGroups : GroupsText [] groups text)
      (denotes : List.Forall₂ target.GroupDenotes groups rules) : Denotes target text rules

end Target

/-! ## Reading a text

The grammar machine runs on the tokens of a text.  `Target.Accepts` says that such a run ends well
from somewhere inside a text, and the next token of the text decides how it goes on
(`Target.accepts_iff_of_nextToken`).  With this, the machine is compared with the grammar of
`GroupsText`: `Target.accepts_of_groupsText` and `Target.exists_groupsText_of_accepts` are the two
directions, each for one list of values first.

`Target.readInto` runs the machine only on texts with two or more tokens; `BareText` holds of the
others.
-/

/-! ### Short texts -/

/-- A short text is its own next token. -/
lemma BareText.exists_nextToken {text : List Char} (h : BareText text) (hne : text ≠ []) :
    ∃ kind, NextToken false text kind text [] := by
  rcases h with rfl | rfl | rfl | rfl | hkey | ⟨hslice, hplain⟩
  · exact absurd rfl hne
  · exact ⟨_, .mark []⟩
  · exact ⟨_, .bar []⟩
  · exact ⟨_, .comma []⟩
  · exact ⟨_, by simpa using NextToken.keyword rfl hkey []⟩
  · have hvalue : NextToken false (text ++ []) .value text [] :=
      .value hslice (.inr (by rwa [List.append_nil])) trivial
    exact ⟨_, by rwa [List.append_nil] at hvalue⟩

/-- A text is short when nothing follows its next token. -/
lemma bareText_iff_of_nextToken {text slice rest : List Char} {kind : TokenKind}
    (h : NextToken false text kind slice rest) : BareText text ↔ rest = [] := by
  constructor
  · intro hbare
    obtain ⟨kind', h'⟩ := hbare.exists_nextToken h.ne_nil
    exact (h.unique h').2.2
  · rintro rfl
    cases h with
    | mark => exact .inr (.inl rfl)
    | keyword _ known =>
      rw [List.append_nil]
      exact .inr (.inr (.inr (.inr (.inl known))))
    | bar => exact .inr (.inr (.inl rfl))
    | comma => exact .inr (.inr (.inr (.inl rfl)))
    | value isSlice plain =>
      rw [List.append_nil] at plain ⊢
      have hplain := plain.resolve_left Bool.false_ne_true
      exact .inr (.inr (.inr (.inr (.inr ⟨isSlice, hplain⟩))))

namespace Target

variable {target : Target}

/-- A short text is a single literal. -/
lemma readInto_eq_readBare {raw : String} (h : BareText raw.toList) (f : Filter) :
    target.readInto raw f = target.readBare (literal raw.toList) f := by
  rw [readInto, tokenize_eq_tokensAt]
  by_cases hne : raw.toList = []
  · rw [hne, tokensAt]
    rfl
  · obtain ⟨kind, hnext⟩ := h.exists_nextToken hne
    rw [hnext.tokensAt_eq, tokensAt]
    rfl

/-- On a text that is not short the machine runs. -/
lemma readInto_eq_run {raw : String} (h : ¬ BareText raw.toList) (f : Filter) :
    target.readInto raw f =
      target.run (.start f)
        (tokensAt 0 false raw.toList ++ [Token.endOfInput (byteLength raw.toList)]) := by
  rw [readInto, tokenize_eq_tokensAt]
  have hne : raw.toList ≠ [] := fun hnil => h (.inl hnil)
  obtain ⟨kind, slice, rest, hnext⟩ := NextToken.exists_of_ne_nil false hne
  have hrest : rest ≠ [] := mt (bareText_iff_of_nextToken hnext).2 h
  obtain ⟨kind', slice', rest', hnext'⟩ :=
    NextToken.exists_of_ne_nil (markedAfter false kind) hrest
  rw [hnext.tokensAt_eq, hnext'.tokensAt_eq]

/-! ### Runs inside a text -/

/-- The machine reads a text to its end, and leaves a filter.  The text begins at byte `offset`, and
`marked` says whether a mark has been seen since the last bar. -/
def Accepts (target : Target) (length : Nat) (p : Progress) (offset : Nat) (marked : Bool)
    (cs : List Char) (g : Filter) : Prop :=
  target.run p (tokensAt offset marked cs ++ [Token.endOfInput length]) = ⟨.ok (), g⟩

variable {length offset : Nat} {p : Progress} {marked : Bool} {cs : List Char} {g : Filter}

/-- The end of the text is accepted when it closes a group. -/
lemma accepts_nil_iff :
    target.Accepts length p offset marked [] g ↔
      p.last = some .value ∧ target.close p.comparator p.literals p.filter = .ok g := by
  rw [Accepts, tokensAt, List.nil_append]
  constructor
  · intro h
    obtain ⟨q, hq, hrun⟩ := exists_advance_of_run_eq_ok h
    rw [run] at hrun
    cases hq with
    | close kind last closes =>
      obtain rfl := congrArg Outcome.filter hrun
      exact ⟨last, closes⟩
    | keyword kind | mark kind | value kind | comma kind => cases kind
  · rintro ⟨hlast, hclose⟩
    rw [run_cons_of_advance (.close (.inr rfl) hlast hclose), run]

/-- The machine reads the next token and goes on with the rest. -/
lemma accepts_iff_of_nextToken {kind : TokenKind} {slice rest : List Char}
    (h : NextToken marked cs kind slice rest) :
    target.Accepts length p offset marked cs g ↔
      ∃ q, target.Advance p (Token.cut kind offset slice) q ∧
        target.Accepts length q (offset + byteLength slice) (markedAfter marked kind) rest g := by
  rw [Accepts, h.tokensAt_eq, List.cons_append]
  constructor
  · exact exists_advance_of_run_eq_ok
  · rintro ⟨q, hq, hrun⟩
    rwa [run_cons_of_advance hq]

end Target

/-- The machine after the values of a group. -/
def Progress.afterValues (p : Progress) (slices : List (List Char)) : Progress :=
  { p with last := some .value, literals := p.literals ++ slices.map literal }

/-- The machine after the values of a group whose keyword spells a comparator. -/
def Progress.afterGroup (p : Progress) (comparator : Comparator) (slices : List (List Char)) :
    Progress :=
  { p with last := some .value, comparator := comparator, literals := slices.map literal }

namespace Target

variable {target : Target} {length offset : Nat} {p : Progress} {g : Filter}

/-! ### What the grammar derives is read -/

/-- A list of values is read up to its end. -/
lemma accepts_of_listText {before text rest : List Char} {slices : List (List Char)}
    (h : ListText before slices text) (hbefore : Settled before)
    (hstops : Stops (text.reverse ++ before) rest)
    (hlast : p.last = some .mark ∨ p.last = some .comma)
    (harity : 1 < slices.length → target.profile.acceptsList p.comparator = true)
    (hrest : ∀ offset', target.Accepts length (p.afterValues slices) offset' true rest g) :
    target.Accepts length p offset true (text ++ rest) g := by
  induction h generalizing p offset with
  | @single before slice isSlice =>
    have hnext : NextToken true (slice ++ rest) .value slice rest :=
      .value ((isSlice_iff_of_settled hbefore slice).1 isSlice) (.inl rfl)
        ((stops_append_iff hbefore _ rest).1 hstops)
    exact (accepts_iff_of_nextToken hnext).2 ⟨_, .value rfl hlast, hrest _⟩
  | @cons before slice more slices isSlice settled hmore ih =>
    have hnext : NextToken true (slice ++ (',' :: (more ++ rest))) .value slice
        (',' :: (more ++ rest)) :=
      .value ((isSlice_iff_of_settled hbefore slice).1 isSlice) (.inl rfl)
        ⟨rfl, (settled_append_iff hbefore _).1 settled⟩
    have hpos : 0 < slices.length := by cases hmore <;> simp
    have haccepts := harity (by rw [List.length_cons]; omega)
    rw [List.append_assoc, List.cons_append]
    refine (accepts_iff_of_nextToken hnext).2 ⟨_, .value rfl hlast, ?_⟩
    refine (accepts_iff_of_nextToken (.comma _)).2 ⟨_, .comma rfl rfl haccepts, ?_⟩
    refine ih (settled_cons _ (by decide)) (by simpa using hstops) (.inr rfl)
      (fun _ => haccepts) fun offset' => ?_
    have heq : Progress.afterValues
        { p with last := some .comma, literals := p.literals ++ [literal slice] } slices =
        p.afterValues (slice :: slices) := by
      simp [Progress.afterValues]
    exact (congrArg (target.Accepts length · offset' true rest g) heq).mpr (hrest offset')

/-- A group is read up to its end. -/
lemma accepts_of_groupText {before text rest : List Char} {group : WrittenGroup}
    {rule : Rule target.type} (h : GroupText before group text)
    (hdenotes : target.GroupDenotes group rule) (hstops : Stops (text.reverse ++ before) rest)
    (hlast : p.last = none ∨ p.last = some .bar) (hliterals : p.literals = [])
    (hrest : ∀ offset', target.Accepts length
      (p.afterGroup rule.comparator group.slices) offset' true rest g) :
    target.Accepts length p offset false (text ++ rest) g := by
  obtain ⟨known, values⟩ := h
  next word list slices =>
  have hspells : Comparator.ofKeyword? (Token.cut .keyword offset word).text =
      some rule.comparator := by
    rw [Comparator.ofKeyword?, Token.cut_text_toList, unescape_keyword word known]
    exact hdenotes.comparator
  rw [List.append_assoc, List.cons_append]
  refine (accepts_iff_of_nextToken (.keyword rfl known _)).2 ⟨_, .keyword rfl hlast hspells, ?_⟩
  refine (accepts_iff_of_nextToken (.mark _)).2 ⟨_, .mark rfl rfl, ?_⟩
  refine accepts_of_listText values (settled_cons _ (by decide)) (by simpa using hstops)
    (.inl rfl) hdenotes.arity fun offset' => ?_
  simpa [Progress.afterValues, Progress.afterGroup, hliterals] using hrest offset'

/-- Closing a group appends the rule that it stands for. -/
lemma close_of_groupDenotes {group : WrittenGroup} {rule : Rule target.type}
    (hdenotes : target.GroupDenotes group rule) {f : Filter}
    (hadmits : f.Admits target.key target.type) :
    target.close rule.comparator (group.slices.map literal) f =
      .ok (f.append target.key target.type rule.values rule.comparator) :=
  close_eq_ok_iff.2 ⟨hadmits, rule.values, List.forall₂_map_left_iff.2 hdenotes.values, rfl⟩

/-- Groups are read to the end of the text, and their rules are appended one by one. -/
lemma accepts_of_groupsText {before text : List Char} {groups : List WrittenGroup}
    {rules : List (Rule target.type)} (h : GroupsText before groups text)
    (hdenotes : List.Forall₂ target.GroupDenotes groups rules)
    (hlast : p.last = none ∨ p.last = some .bar) (hliterals : p.literals = [])
    (hadmits : p.filter.Admits target.key target.type) :
    target.Accepts length p offset false text
      (p.filter.appendAll target.key target.type rules) := by
  induction h generalizing p offset rules with
  | @single before text group first =>
    obtain ⟨rule, rules, hrule, hnil, rfl⟩ := List.forall₂_cons_left_iff.1 hdenotes
    obtain rfl := List.forall₂_nil_left_iff.1 hnil
    rw [← List.append_nil text]
    refine accepts_of_groupText first hrule trivial hlast hliterals fun offset' => ?_
    exact accepts_nil_iff.2 ⟨rfl, close_of_groupDenotes hrule hadmits⟩
  | cons first settled more ih =>
    obtain ⟨rule, rules, hrule, hrules, rfl⟩ := List.forall₂_cons_left_iff.1 hdenotes
    refine accepts_of_groupText first hrule ⟨rfl, settled⟩ hlast hliterals fun offset' => ?_
    refine (accepts_iff_of_nextToken (.bar _)).2
      ⟨_, .close (.inl rfl) rfl (close_of_groupDenotes hrule hadmits), ?_⟩
    rw [Filter.appendAll_cons]
    exact ih hrules (.inr rfl) rfl (hadmits.append rule.values rule.comparator)

/-! ### What is read is derived by the grammar -/

/-- Where the machine expects a value, the next token is one. -/
lemma exists_value_of_accepts {cs : List Char}
    (hlast : p.last = some .mark ∨ p.last = some .comma)
    (h : target.Accepts length p offset true cs g) :
    ∃ slice rest offset', cs = slice ++ rest ∧ IsSlice [] slice ∧ Stops slice.reverse rest ∧
      target.Accepts length (p.afterValues [slice]) offset' true rest g := by
  by_cases hcs : cs = []
  · subst hcs
    obtain ⟨hvalue, -⟩ := accepts_nil_iff.1 h
    simp [hvalue] at hlast
  obtain ⟨kind, slice, rest, hnext⟩ := NextToken.exists_of_ne_nil true hcs
  obtain ⟨q, hq, hrest⟩ := (accepts_iff_of_nextToken hnext).1 h
  cases hq with
  | keyword _ last => rcases last with last | last <;> simp [last] at hlast
  | mark _ last | comma _ last | close _ last => simp [last] at hlast
  | value hkind =>
    obtain rfl : kind = .value := hkind
    cases hnext with
    | value isSlice _ stops => exact ⟨slice, rest, _, rfl, isSlice, stops, hrest⟩

/-- Where the machine expects a keyword, the next token is one, and it spells a comparator. -/
lemma exists_keyword_of_accepts {cs : List Char} (hlast : p.last = none ∨ p.last = some .bar)
    (h : target.Accepts length p offset false cs g) :
    ∃ word comparator rest offset', cs = word ++ rest ∧ word ∈ keywords ∧
      Comparator.ofChars? word = some comparator ∧
      target.Accepts length { p with last := some .keyword, comparator := comparator } offset' false
        rest g := by
  have hstart : ∀ kind, kind ≠ TokenKind.bar → p.last ≠ some kind := by
    rintro kind hkind hp
    rcases hlast with hlast | hlast
    · simp [hp] at hlast
    · exact hkind (Option.some.inj (hp.symm.trans hlast))
  by_cases hcs : cs = []
  · subst hcs
    exact absurd (accepts_nil_iff.1 h).1 (hstart _ (by decide))
  obtain ⟨kind, word, rest, hnext⟩ := NextToken.exists_of_ne_nil false hcs
  obtain ⟨q, hq, hrest⟩ := (accepts_iff_of_nextToken hnext).1 h
  cases hq with
  | mark _ last | comma _ last | close _ last => exact absurd last (hstart _ (by decide))
  | value _ last =>
    rcases last with last | last <;> exact absurd last (hstart _ (by decide))
  | @keyword hkind _ comparator spells =>
    obtain rfl : kind = .keyword := hkind
    cases hnext with
    | keyword _ known rest =>
      rw [Comparator.ofKeyword?, Token.cut_text_toList, unescape_keyword word known] at spells
      exact ⟨word, comparator, rest, _, rfl, known, spells, hrest⟩

/-- Behind a keyword the next token is the mark. -/
lemma exists_mark_of_accepts {cs : List Char} (hlast : p.last = some .keyword)
    (h : target.Accepts length p offset false cs g) :
    ∃ rest offset', cs = '!' :: rest ∧
      target.Accepts length { p with last := some .mark } offset' true rest g := by
  by_cases hcs : cs = []
  · subst hcs
    obtain ⟨hvalue, -⟩ := accepts_nil_iff.1 h
    simp [hvalue] at hlast
  obtain ⟨kind, slice, rest, hnext⟩ := NextToken.exists_of_ne_nil false hcs
  obtain ⟨q, hq, hrest⟩ := (accepts_iff_of_nextToken hnext).1 h
  cases hq with
  | keyword _ last | value _ last => rcases last with last | last <;> simp [last] at hlast
  | comma _ last | close _ last => simp [last] at hlast
  | mark hkind =>
    obtain rfl : kind = .mark := hkind
    cases hnext with
    | mark rest => exact ⟨rest, _, rfl, hrest⟩

/-- Where the machine expects a value, it reads a list of values up to a bar or to the end.  The
induction is on the length of the text. -/
lemma exists_listText_of_accepts {before cs : List Char} (hbefore : Settled before)
    (hlast : p.last = some .mark ∨ p.last = some .comma)
    (h : target.Accepts length p offset true cs g) :
    ∃ slices text rest offset', cs = text ++ rest ∧ ListText before slices text ∧
      (rest = [] ∨ ∃ more, rest = '|' :: more ∧ Settled (text.reverse ++ before)) ∧
      (1 < slices.length → target.profile.acceptsList p.comparator = true) ∧
      target.Accepts length (p.afterValues slices) offset' true rest g := by
  induction hn : cs.length using Nat.strong_induction_on generalizing before cs p offset with
  | _ n ih =>
    obtain ⟨slice, rest, offset', rfl, hslice, hstops, hrest⟩ := exists_value_of_accepts hlast h
    rw [← isSlice_iff_of_settled hbefore] at hslice
    rcases rest with _ | ⟨d, rest⟩
    · exact ⟨[slice], slice, [], offset', rfl, .single hslice, .inl rfl, by simp, hrest⟩
    obtain ⟨hdel, hsettled⟩ := hstops
    rw [← settled_append_iff hbefore] at hsettled
    rcases isDelimiter_iff.1 hdel with rfl | rfl
    · exact ⟨[slice], slice, '|' :: rest, offset', rfl, .single hslice,
        .inr ⟨rest, rfl, hsettled⟩, by simp, hrest⟩
    -- After a comma another value is expected.
    obtain ⟨q, hq, hmore⟩ := (accepts_iff_of_nextToken (.comma rest)).1 hrest
    cases hq with
    | keyword hkind | mark hkind | value hkind => cases hkind
    | close hkind => rcases hkind with hkind | hkind <;> cases hkind
    | comma _ _ haccepts =>
      have hlt : rest.length < n := by
        rw [← hn, List.length_append, List.length_cons]
        omega
      have hcomma : Settled (',' :: (slice.reverse ++ before)) := settled_cons _ (by decide)
      obtain ⟨slices, text, tail, offset'', hsplit, hlist, hend, -, hafter⟩ :=
        ih rest.length hlt hcomma (.inr rfl) hmore rfl
      refine ⟨slice :: slices, slice ++ ',' :: text, tail, offset'', by rw [hsplit]; simp,
        .cons hslice hsettled hlist, ?_, fun _ => haccepts, ?_⟩
      · refine hend.imp_right ?_
        rintro ⟨more, rfl, hset⟩
        exact ⟨more, rfl, by simpa using hset⟩
      · simpa [Progress.afterValues] using hafter

/-- Where the machine expects a keyword, it reads a group up to a bar or to the end. -/
lemma exists_groupText_of_accepts (before : List Char) {cs : List Char}
    (hlast : p.last = none ∨ p.last = some .bar) (hliterals : p.literals = [])
    (h : target.Accepts length p offset false cs g) :
    ∃ group comparator text rest offset', cs = text ++ rest ∧ GroupText before group text ∧
      Comparator.ofChars? group.keyword = some comparator ∧
      (1 < group.slices.length → target.profile.acceptsList comparator = true) ∧
      (rest = [] ∨ ∃ more, rest = '|' :: more ∧ Settled (text.reverse ++ before)) ∧
      target.Accepts length (p.afterGroup comparator group.slices) offset' true rest g := by
  obtain ⟨word, comparator, _, _, rfl, known, spells, hword⟩ := exists_keyword_of_accepts hlast h
  obtain ⟨_, _, rfl, hmark⟩ := exists_mark_of_accepts rfl hword
  have hmarked : Settled ('!' :: (word.reverse ++ before)) := settled_cons _ (by decide)
  obtain ⟨slices, list, rest, offset', rfl, hlist, hend, harity, hafter⟩ :=
    exists_listText_of_accepts hmarked (.inl rfl) hmark
  refine ⟨⟨word, slices⟩, comparator, word ++ '!' :: list, rest, offset', by simp,
    .mk known hlist, spells, harity, ?_, ?_⟩
  · refine hend.imp_right ?_
    rintro ⟨more, rfl, hset⟩
    exact ⟨more, rfl, by simpa using hset⟩
  · simpa [Progress.afterValues, Progress.afterGroup, hliterals] using hafter

/-- Where a group is closed, its literals are values, and it stands for the rule that is
appended. -/
lemma exists_groupDenotes_of_close {group : WrittenGroup} {comparator : Comparator} {f : Filter}
    (hspells : Comparator.ofChars? group.keyword = some comparator)
    (harity : 1 < group.slices.length → target.profile.acceptsList comparator = true)
    (hclose : target.close comparator (group.slices.map literal) f = .ok g) :
    ∃ rule, target.GroupDenotes group rule ∧
      g = f.append target.key target.type rule.values rule.comparator := by
  obtain ⟨-, values, hvalues, rfl⟩ := close_eq_ok_iff.1 hclose
  have hreads : List.Forall₂ target.Reads group.slices values :=
    (List.forall₂_map_left_iff (f := literal)).1 hvalues
  exact ⟨⟨comparator, values⟩, ⟨hspells, harity, hreads⟩, rfl⟩

/-- Where the machine expects a keyword, it reads groups to the end of the text, and appends a rule
for each of them.  The induction is on the length of the text. -/
lemma exists_groupsText_of_accepts (before : List Char) {cs : List Char}
    (hlast : p.last = none ∨ p.last = some .bar) (hliterals : p.literals = [])
    (h : target.Accepts length p offset false cs g) :
    ∃ groups rules, GroupsText before groups cs ∧
      List.Forall₂ target.GroupDenotes groups rules ∧
      g = p.filter.appendAll target.key target.type rules := by
  induction hn : cs.length using Nat.strong_induction_on generalizing before cs p offset with
  | _ n ih =>
    obtain ⟨group, comparator, text, rest, offset', rfl, htext, hspells, harity, hend, hafter⟩ :=
      exists_groupText_of_accepts before hlast hliterals h
    rcases hend with rfl | ⟨more, rfl, hsettled⟩
    · obtain ⟨-, hclose⟩ := accepts_nil_iff.1 hafter
      obtain ⟨rule, hrule, rfl⟩ := exists_groupDenotes_of_close hspells harity hclose
      rw [List.append_nil]
      exact ⟨[group], [rule], .single htext, .cons hrule .nil, rfl⟩
    · obtain ⟨q, hq, hrest⟩ := (accepts_iff_of_nextToken (.bar more)).1 hafter
      cases hq with
      | keyword hkind | mark hkind | value hkind | comma hkind => cases hkind
      | close _ _ hclose =>
        obtain ⟨rule, hrule, rfl⟩ := exists_groupDenotes_of_close hspells harity hclose
        have hlt : more.length < n := by
          rw [← hn, List.length_append, List.length_cons]
          omega
        obtain ⟨groups, rules, hgroups, hrules, hg⟩ :=
          ih more.length hlt ('|' :: (text.reverse ++ before)) (.inr rfl) rfl hrest rfl
        exact ⟨group :: groups, rule :: rules, .cons htext hsettled hgroups, .cons hrule hrules, hg⟩

end Target

/-! ## Acceptance

A query value is accepted exactly when `Target.Denotes` gives it rules, and then these rules are
appended to its key.  The two directions are `Target.readInto_of_denotes` and
`Target.exists_denotes_of_readInto`.
-/

namespace Target

variable {target : Target} {raw : String} {f g : Filter}

/-- The short form is accepted when its group is closed. -/
lemma readBare_eq_ok_iff {text : String} :
    target.readBare text f = ⟨.ok (), g⟩ ↔ target.close .equals [text] f = .ok g := by
  rw [readBare]
  cases target.close .equals [text] f with
  | ok g' => simp
  | error e => simp

/-- The long form is not short: a keyword is followed by a mark. -/
lemma not_bareText_of_groupsText {before text : List Char} {groups : List WrittenGroup}
    (h : GroupsText before groups text) : ¬ BareText text := by
  have hfirst : ∃ word rest, word ∈ keywords ∧ text = word ++ '!' :: rest := by
    cases h with
    | single first =>
      obtain ⟨known, values⟩ := first
      exact ⟨_, _, known, rfl⟩
    | cons first =>
      obtain ⟨known, values⟩ := first
      exact ⟨_, _, known, by rw [List.append_assoc, List.cons_append]⟩
  obtain ⟨word, rest, known, rfl⟩ := hfirst
  rw [bareText_iff_of_nextToken (.keyword rfl known _)]
  exact List.cons_ne_nil _ _

/-- A text that denotes rules is accepted, and they are appended. -/
lemma readInto_of_denotes (hf : f.Admits target.key target.type)
    {rules : List (Rule target.type)} (h : target.Denotes raw.toList rules) :
    target.readInto raw f = ⟨.ok (), f.appendAll target.key target.type rules⟩ := by
  cases h with
  | @bare value isBare reads =>
    rw [readInto_eq_readBare isBare, readBare_eq_ok_iff, close_eq_ok_iff]
    exact ⟨hf, [value], .cons reads .nil, rfl⟩
  | groups isGroups denotes =>
    rw [readInto_eq_run (not_bareText_of_groupsText isGroups)]
    exact accepts_of_groupsText (p := .start f) isGroups denotes (.inl rfl) rfl hf

/-- A text that is accepted denotes rules, and they are appended. -/
lemma exists_denotes_of_readInto (h : target.readInto raw f = ⟨.ok (), g⟩) :
    ∃ rules, target.Denotes raw.toList rules ∧
      g = f.appendAll target.key target.type rules := by
  by_cases hbare : BareText raw.toList
  · rw [readInto_eq_readBare hbare, readBare_eq_ok_iff, close_eq_ok_iff] at h
    obtain ⟨-, values, hvalues, rfl⟩ := h
    obtain ⟨value, rest, hvalue, hnil, rfl⟩ := List.forall₂_cons_left_iff.1 hvalues
    obtain rfl := List.forall₂_nil_left_iff.1 hnil
    exact ⟨_, .bare hbare hvalue, rfl⟩
  · rw [readInto_eq_run hbare] at h
    obtain ⟨groups, rules, hgroups, hrules, hg⟩ :=
      exists_groupsText_of_accepts [] (p := .start f) (.inl rfl) rfl h
    exact ⟨rules, .groups hgroups hrules, hg⟩

end Target

/-- A value is accepted exactly when its text denotes rules: in the short form the equality with its
literal, in the long form one rule a group.  The filter then has these rules behind the others of
the key, in their order, and its other keys are what they were.

The last two statements are about the answers of the filter.  They ask for ranges that lie inside
the arenas, as they do in every filter that additions have built. -/
theorem parseKey_ok_iff_denotes (s : Schema) (key : String) (type : ScalarType) (raw : String)
    (f : Filter) (hf : f.Admits key type) :
    ((s.parseKey key type raw f).status = .ok () ↔
        ∃ rules, (s.target key type).Denotes raw.toList rules) ∧
      ∀ (rules : List (Rule type)) (g : Filter), (s.target key type).Denotes raw.toList rules →
        (s.parseKey key type raw f).filter = g →
        g = f.appendAll key type rules ∧
          (∃ stored, g.storedRules key = f.storedRules key ++ stored ∧
            List.Forall₂ g.Stores rules stored) ∧
          (∀ other, other ≠ key → g.key? other = f.key? other) ∧
          (f.InBounds → g.get key type = f.get key type ++ rules) ∧
          (f.InBounds → ∀ other t, other ≠ key ∨ t ≠ type → g.get other t = f.get other t) := by
  refine ⟨⟨fun h => ?_, ?_⟩, fun rules g h hg => ?_⟩
  · have hok : (s.target key type).readInto raw f =
        ⟨.ok (), (s.parseKey key type raw f).filter⟩ := by
      rw [← h, Schema.parseKey]
    obtain ⟨rules, hrules, -⟩ := Target.exists_denotes_of_readInto hok
    exact ⟨rules, hrules⟩
  · rintro ⟨rules, hrules⟩
    exact congrArg Outcome.status (Target.readInto_of_denotes hf hrules)
  · obtain rfl : g = f.appendAll key type rules :=
      hg.symm.trans (congrArg Outcome.filter (Target.readInto_of_denotes hf h))
    exact ⟨rfl, Filter.exists_storedRules_appendAll f key rules,
      fun other hne => Filter.key?_appendAll_of_ne hne rules,
      fun hin => Filter.get_appendAll_self hin hf rules,
      fun hin other t hne => Filter.get_appendAll_of_ne hin hf rules hne⟩

/-- A list under `is` and a second group are accepted. -/
theorem parseKey_ok_of_two_groups :
    Filter.empty.Admits "level" .integer ∧
      ∃ rules, (Schema.empty.target "level" .integer).Denotes "is!1,2|lt!9".toList rules ∧
        (Schema.empty.parseKey "level" .integer "is!1,2|lt!9" .empty).filter =
          Filter.empty.appendAll "level" .integer rules := by
  have hadmits : Filter.empty.Admits "level" .integer := by
    intro k hk
    cases hk
  have h := parseKey_ok_iff_denotes Schema.empty "level" .integer "is!1,2|lt!9" .empty hadmits
  obtain ⟨rules, hrules⟩ := h.1.1 (by decide +kernel)
  exact ⟨hadmits, rules, hrules, (h.2 rules _ hrules rfl).1⟩

end QueryFilter
