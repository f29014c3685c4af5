import Mathlib.Tactic.Common
import QueryFilter.Proofs.Grammar.Acceptance

/-!
# Writing rules as query values

Rules can be written as a query value that is read back to them, since their values can be.
-/

namespace QueryFilter

/-! ## Literals that read back

The text of a value is a literal of its type, and reading it gives the value back.  This holds of
the integers of both kinds, which are written in decimal, and of strings.
-/

/-- Decimal digits do not start with a sign. -/
lemma head?_digits_ne {c : Char} (h : c.isDigit = false) (n : Nat) : (digits n).head? ≠ some c := by
  intro hhead
  have hmem : c ∈ digits n := List.mem_of_mem_head? (by rw [hhead]; rfl)
  have hdigit := Nat.isDigit_of_mem_toDigits (by decide) (by decide) hmem
  rw [h] at hdigit
  exact absurd hdigit Bool.false_ne_true

/-- Digits without a sign read back. -/
lemma positive?_digits (n : Nat) : positive? (digits n) = some n := by
  unfold positive?
  split
  · next cs hcs => exact absurd (by rw [hcs]; rfl) (head?_digits_ne (c := '+') (by decide) n)
  · exact natural?_digits n

/-- The decimal text of an integer reads back. -/
lemma integer?_integerText (n : Int) : integer? (integerText n).toList = some n := by
  rw [integerText, String.toList_ofList]
  by_cases hneg : n < 0
  · rw [if_pos hneg, integer?, natural?_digits]
    change some (-(n.natAbs : Int)) = some n
    exact congrArg some (by omega)
  · rw [if_neg hneg]
    unfold integer?
    split
    · next cs hcs =>
      exact absurd (by rw [hcs]; rfl) (head?_digits_ne (c := '-') (by decide) n.natAbs)
    · rw [positive?_digits]
      change some (n.natAbs : Int) = some n
      exact congrArg some (by omega)

lemma readInt64?_int64Text (n : Int64) : readInt64? (int64Text n) = some n := by
  have hlower := n.le_toInt
  have hupper := n.toInt_lt
  rw [readInt64?, int64Text, integer?_integerText]
  simp only
  rw [if_pos ⟨by omega, by omega⟩, Int64.ofInt_toInt]

lemma readUInt64?_uint64Text (n : UInt64) : readUInt64? (uint64Text n) = some n := by
  have hupper : n.toNat < wordCount := n.toNat_lt
  have htext : (uint64Text n).toList = digits n.toNat := by
    rw [uint64Text, integerText, String.toList_ofList, if_neg (by omega), Int.natAbs_natCast]
  rw [readUInt64?, htext, positive?_digits]
  simp only
  rw [if_pos hupper, UInt64.ofNat_toNat]

namespace ScalarType

/-- The values that a list of groups can carry: integers of both kinds, and strings that are not
empty. -/
def Encodable : (t : ScalarType) → t.Value → Prop
  | .integer, _ | .unsignedInteger, _ => True
  | .string, s => s ≠ ""
  | .float, _ | .timestamp, _ => False

/-- The text of such a value reads back. -/
lemma read?_text {t : ScalarType} {v : t.Value} (h : t.Encodable v) (format : TimestampFormat) :
    t.read? format (t.text v) = some v := by
  cases t with
  | integer => exact readInt64?_int64Text v
  | unsignedInteger => exact readUInt64?_uint64Text v
  | string => rfl
  | float | timestamp => exact h.elim

/-- The text of such a value is not empty. -/
lemma text_ne_nil {t : ScalarType} {v : t.Value} (h : t.Encodable v) : (t.text v).toList ≠ [] := by
  have hinteger : ∀ n : Int, (integerText n).toList ≠ [] := by
    intro n
    rw [integerText, String.toList_ofList]
    split
    · exact List.cons_ne_nil _ _
    · exact digits_ne_nil _
  cases t with
  | integer => exact hinteger _
  | unsignedInteger => exact hinteger _
  | string =>
    intro hnil
    exact h (String.toList_eq_nil_iff.1 hnil)
  | float | timestamp => exact h.elim

end ScalarType

/-! ## Rules that read back

`encodeRules` writes rules in the long form: every value is escaped, values are joined by commas and
groups by bars.  An escaped text is a slice in every place where a value may stand
(`isSlice_escape`), and it leaves the run of backslashes even behind it (`settled_escape`), so the
separators that are put behind it count.  Hence the written text denotes the rules that it was
written from, and reading it gives them back.
-/

/-! ### Escaped texts as slices -/

lemma isSpecial_of_isDelimiter {c : Char} (h : isDelimiter c = true) : isSpecial c = true := by
  rcases isDelimiter_iff.1 h with rfl | rfl <;> rfl

/-- After a settled place, escaping pairs and plain characters alternate: the place behind an
escaped text is settled again. -/
lemma settled_escape {before : List Char} (h : Settled before) (cs : List Char) :
    Settled ((escape cs).reverse ++ before) := by
  induction cs generalizing before with
  | nil => exact h
  | cons c cs ih =>
    rw [escape]
    by_cases hc : isSpecial c = true
    · rw [if_pos hc, List.reverse_cons, List.reverse_cons, List.append_assoc, List.append_assoc]
      exact ih (settled_pair h c)
    · have hback : c ≠ '\\' := by
        rintro rfl
        exact hc rfl
      rw [if_neg hc, List.reverse_cons, List.append_assoc]
      exact ih (settled_cons before hback)

/-- Every delimiter of an escaped text is escaped. -/
lemma escaped_escape {before : List Char} (h : Settled before) (cs : List Char) :
    Escaped before (escape cs) := by
  induction cs generalizing before with
  | nil => exact escaped_nil before
  | cons c cs ih =>
    rw [escape]
    by_cases hc : isSpecial c = true
    · rw [if_pos hc, escaped_cons, escaped_cons]
      refine ⟨fun hdel => absurd hdel (by decide), fun _ => ?_, ih (settled_pair h c)⟩
      rw [Settled] at h
      rw [backslashRun_backslash]
      omega
    · have hback : c ≠ '\\' := by
        rintro rfl
        exact hc rfl
      rw [if_neg hc, escaped_cons]
      exact ⟨fun hdel => absurd (isSpecial_of_isDelimiter hdel) hc, ih (settled_cons before hback)⟩

/-- An escaped text can stand wherever a value can. -/
lemma isSlice_escape {before cs : List Char} (h : Settled before) (hne : cs ≠ []) :
    IsSlice before (escape cs) := by
  obtain ⟨c, cs, rfl⟩ := List.exists_cons_of_ne_nil hne
  refine ⟨?_, ?_, escaped_escape h _⟩
  · rw [escape]
    split <;> exact List.cons_ne_nil _ _
  · rw [escape]
    split
    · simp
    · next hc =>
      rintro heq
      obtain rfl : c = '!' := by simpa using heq
      exact hc rfl

/-- Escaped texts, joined by commas, are a list of values, and the place behind them is settled. -/
lemma listText_escape {before : List Char} (h : Settled before) {texts : List (List Char)}
    (hne : texts ≠ []) (htexts : ∀ t ∈ texts, t ≠ []) :
    ListText before (texts.map escape) ([','].intercalate (texts.map escape)) ∧
      Settled (([','].intercalate (texts.map escape)).reverse ++ before) := by
  induction texts generalizing before with
  | nil => exact absurd rfl hne
  | cons t texts ih =>
    have hslice := isSlice_escape h (htexts t List.mem_cons_self)
    have hsettled := settled_escape h t
    by_cases hnil : texts = []
    · subst hnil
      rw [List.map_singleton, List.intercalate_singleton]
      exact ⟨.single hslice, hsettled⟩
    · have hcomma : Settled (',' :: ((escape t).reverse ++ before)) :=
        settled_cons _ (by decide)
      obtain ⟨hlist, hend⟩ :=
        ih hcomma hnil fun t' ht' => htexts t' (List.mem_cons_of_mem _ ht')
      rw [List.map_cons, List.intercalate_cons_of_ne_nil (by simpa using hnil), List.append_assoc,
        List.singleton_append]
      exact ⟨.cons hslice hsettled hlist, by simpa using hend⟩

/-! ### Written rules -/

/-- A word spells a comparator: it is its keyword, or the other spelling of `like`. -/
def Spells (word : String) (comparator : Comparator) : Prop :=
  word = comparator.keyword ∨ (comparator = .like ∧ word = "lk")

/-- A rule with the spelling of its comparator. -/
structure SpelledRule (type : ScalarType) where
  word : String
  rule : Rule type

namespace SpelledRule

variable {type : ScalarType}

/-- The rule can be written: its values can, there is at least one, and several only under a
comparator that takes a list. -/
structure Encodable (profile : Profile) (r : SpelledRule type) : Prop where
  spells : Spells r.word r.rule.comparator
  ne_nil : r.rule.values ≠ []
  arity : 1 < r.rule.values.length → profile.acceptsList r.rule.comparator = true
  values : ∀ v ∈ r.rule.values, type.Encodable v

/-- The rule as a group: its word, and its values with their special characters escaped. -/
def group (r : SpelledRule type) : WrittenGroup where
  keyword := r.word.toList
  slices := r.rule.values.map fun v => escape (type.text v).toList

/-- The text of a rule: its word, the mark, and its values joined by commas. -/
def text (r : SpelledRule type) : List Char :=
  r.word.toList ++ '!' :: [','].intercalate r.group.slices

end SpelledRule

/-- The query value that stands for rules: their texts joined by bars. -/
def encodeRules {type : ScalarType} (rules : List (SpelledRule type)) : String :=
  String.ofList (['|'].intercalate (rules.map SpelledRule.text))

section Encoding

variable {type : ScalarType} {target : Target}

lemma Spells.ofChars? {word : String} {comparator : Comparator} (h : Spells word comparator) :
    Comparator.ofChars? word.toList = some comparator := by
  rcases h with rfl | ⟨rfl, rfl⟩
  · exact Comparator.ofKeyword?_keyword comparator
  · rfl

lemma Spells.mem_keywords {word : String} {comparator : Comparator} (h : Spells word comparator) :
    word.toList ∈ keywords := by
  rw [← isSome_ofChars?_iff, h.ofChars?]
  rfl

/-- The text of a rule is a group, and the place behind it is settled. -/
lemma SpelledRule.groupText {profile : Profile} {r : SpelledRule type} (h : r.Encodable profile)
    (before : List Char) :
    GroupText before r.group r.text ∧ Settled (r.text.reverse ++ before) := by
  have hmark : Settled ('!' :: (r.word.toList.reverse ++ before)) :=
    settled_cons _ (by decide)
  have hslices : (r.rule.values.map fun v => (type.text v).toList).map escape = r.group.slices := by
    rw [List.map_map]
    rfl
  have hne : (r.rule.values.map fun v => (type.text v).toList) ≠ [] := by
    simpa using h.ne_nil
  have htexts : ∀ t ∈ r.rule.values.map fun v => (type.text v).toList, t ≠ [] := by
    intro t ht
    obtain ⟨v, hv, rfl⟩ := List.mem_map.1 ht
    exact ScalarType.text_ne_nil (h.values v hv)
  obtain ⟨hlist, hend⟩ := listText_escape hmark hne htexts
  rw [hslices] at hlist hend
  refine ⟨.mk h.spells.mem_keywords hlist, ?_⟩
  simpa [SpelledRule.text] using hend

/-- The texts of rules, joined by bars, are groups. -/
lemma groupsText_encode {profile : Profile} {rules : List (SpelledRule type)} (hne : rules ≠ [])
    (h : ∀ r ∈ rules, r.Encodable profile) (before : List Char) :
    GroupsText before (rules.map SpelledRule.group)
      (['|'].intercalate (rules.map SpelledRule.text)) := by
  induction rules generalizing before with
  | nil => exact absurd rfl hne
  | cons r rules ih =>
    obtain ⟨hgroup, hsettled⟩ := SpelledRule.groupText (h r List.mem_cons_self) before
    by_cases hnil : rules = []
    · subst hnil
      rw [List.map_singleton, List.map_singleton, List.intercalate_singleton]
      exact .single hgroup
    · rw [List.map_cons, List.map_cons, List.intercalate_cons_of_ne_nil (by simpa using hnil),
        List.append_assoc, List.singleton_append]
      exact .cons hgroup hsettled
        (ih hnil (fun r' hr' => h r' (List.mem_cons_of_mem _ hr')) _)

/-- A written rule stands for itself. -/
lemma SpelledRule.groupDenotes {r : SpelledRule target.type} (h : r.Encodable target.profile) :
    target.GroupDenotes r.group r.rule := by
  refine ⟨h.spells.ofChars?, fun hlen => h.arity (by simpa [SpelledRule.group] using hlen), ?_⟩
  rw [SpelledRule.group, List.forall₂_map_left_iff, List.forall₂_same]
  intro v hv
  rw [Target.Reads, literal, unescape_escape, String.ofList_toList]
  exact ScalarType.read?_text (h.values v hv) target.format

/-- Written rules denote the rules that they were written from. -/
lemma denotes_encodeRules {rules : List (SpelledRule target.type)} (hne : rules ≠ [])
    (h : ∀ r ∈ rules, r.Encodable target.profile) :
    target.Denotes (encodeRules rules).toList (rules.map SpelledRule.rule) := by
  rw [encodeRules, String.toList_ofList]
  refine .groups (groupsText_encode hne h []) ?_
  rw [List.forall₂_map_left_iff, List.forall₂_map_right_iff, List.forall₂_same]
  exact fun r hr => SpelledRule.groupDenotes (h r hr)

/-- A backslash, any character, and an escaped text are a value that no keyword starts. -/
lemma bareText_pair (c : Char) (cs : List Char) : BareText ('\\' :: c :: escape cs) := by
  have hplain : NoKeyword ('\\' :: c :: escape cs) := by
    rintro word hmem ⟨rest, hrest⟩
    obtain ⟨d, ds, rfl, -, -, hback⟩ := keyword_head hmem
    exact hback (List.cons.inj hrest).1
  have hstart : Settled [] := rfl
  refine .inr (.inr (.inr (.inr (.inr ⟨⟨List.cons_ne_nil _ _, by simp, ?_⟩, hplain⟩))))
  rw [escaped_cons, escaped_cons]
  exact ⟨fun hdel => absurd hdel (by decide), fun _ => rfl,
    escaped_escape (settled_pair hstart c) cs⟩

end Encoding

/-- Reading undoes writing.  Rules that are written in the long form, with either spelling of
`like`, are read back as they are, comparators and values in order; and a string whose first
character is escaped anyway is read back in the short form. -/
theorem parseKey_encodeRules (s : Schema) (key : String) (f : Filter) :
    (∀ (type : ScalarType) (rules : List (SpelledRule type)), rules ≠ [] →
        (∀ r ∈ rules, r.Encodable s.profile) → f.key? key = none →
        s.parseKey key type (encodeRules rules) f =
            ⟨.ok (), f.appendAll key type (rules.map SpelledRule.rule)⟩ ∧
          (f.appendAll key type (rules.map SpelledRule.rule)).get key type =
            rules.map SpelledRule.rule) ∧
      ∀ (c : Char) (cs : List Char), f.Admits key .string →
        s.parseKey key .string (String.ofList ('\\' :: c :: escape cs)) f =
          ⟨.ok (), f.appendAll key .string [⟨.equals, [String.ofList (c :: cs)]⟩]⟩ := by
  refine ⟨fun type rules hne h hnone => ?_, fun c cs hadmits => ?_⟩
  · have hadmits : f.Admits key type := fun k hk => by simp [hnone] at hk
    have hdenotes : (s.target key type).Denotes (encodeRules rules).toList
        (rules.map SpelledRule.rule) := denotes_encodeRules hne h
    exact ⟨Target.readInto_of_denotes hadmits hdenotes, Filter.get_appendAll_of_none hnone _⟩
  · have hreads : (s.target key .string).Reads ('\\' :: c :: escape cs)
        (String.ofList (c :: cs)) := by
      have hliteral : literal ('\\' :: c :: escape cs) = String.ofList (c :: cs) := by
        rw [literal, unescape_pair, unescape_escape]
      exact congrArg some hliteral
    refine Target.readInto_of_denotes hadmits ?_
    rw [String.toList_ofList]
    exact .bare (bareText_pair c cs) hreads

/-- Two groups whose values have special characters and keywords in them are read back, and so is
the one value of a short form that would otherwise be a group. -/
theorem parseKey_encodeRules_of_special :
    Schema.empty.parseKey "name" .string "lk!a\\|b\\\\|eq!\\!x,is" .empty =
        ⟨.ok (), Filter.empty.appendAll "name" .string
          [⟨.like, ["a|b\\"]⟩, ⟨.equals, ["!x", "is"]⟩]⟩ ∧
      Schema.empty.parseKey "name" .string "\\is\\!a" .empty =
        ⟨.ok (), Filter.empty.appendAll "name" .string [⟨.equals, ["is!a"]⟩]⟩ := by
  obtain ⟨hlong, hshort⟩ := parseKey_encodeRules Schema.empty "name" .empty
  constructor
  · let rules : List (SpelledRule .string) :=
      [⟨"lk", ⟨.like, ["a|b\\"]⟩⟩, ⟨"eq", ⟨.equals, ["!x", "is"]⟩⟩]
    have hvalues : ∀ {vs : List String}, "" ∉ vs → ∀ v ∈ vs, ScalarType.Encodable .string v := by
      rintro vs hempty v hv rfl
      exact hempty hv
    have hrules : ∀ r ∈ rules, r.Encodable Schema.empty.profile := by
      intro r hr
      rcases List.mem_cons.1 hr with rfl | hr
      · exact ⟨.inr ⟨rfl, rfl⟩, by decide, by decide, hvalues (by decide)⟩
      · obtain rfl := List.mem_singleton.1 hr
        exact ⟨.inl rfl, by decide, by decide, hvalues (by decide)⟩
    exact (hlong .string rules (List.cons_ne_nil _ _) hrules rfl).1
  · have hadmits : Filter.empty.Admits "name" .string := by
      intro k hk
      cases hk
    exact hshort 'i' ['s', '!', 'a'] hadmits

end QueryFilter
