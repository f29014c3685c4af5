import QueryFilter.Proofs.Grammar.Acceptance
import QueryFilter.Proofs.Grammar.FirstGroup
import QueryFilter.Proofs.Token.Tiling

/-!
# Query values put together

Two laws of texts that are put together: a bar reads as one value after the other, and `eq!` may
be put before the short form.
-/

namespace QueryFilter

/-! ## Reading two values one after the other

Two query values that are joined by a bar are read as the one and then the other: the second one is
read only if the first ends well, into the filter that the first has left.  `Outcome.andThen` is
this way to go on, and `parseKey_append_bar` the law.

The tokens of the joined value are those of the parts with a bar between them.  Three facts about
the machine make one run over them into two.  A run does not look ahead (`Target.run_append`).  A
bar closes a group as the end of the input does (`Target.run_closing`), and behind it the machine is
at a beginning again, whatever its comparator is (`Target.run_eq_run_start`).  And a token may be
moved: its place shows in errors only (`Target.run_map_shift`).
-/

/-! ### Failures that are moved -/

/-- The error, with its place moved by `n` bytes. -/
def ParseError.shift (n : Nat) : ParseError → ParseError
  | unexpectedToken key expected found => unexpectedToken key expected (found.shift n)
  | invalidComparator key found => invalidComparator key (found.shift n)
  | commaNotAllowed key comparator profile span =>
    commaNotAllowed key comparator profile (span.shift n)
  | conversion key literal type format => conversion key literal type format

/-- The failure, with its place moved by `n` bytes. -/
def ParseFailure.shift (n : Nat) : ParseFailure → ParseFailure
  | rejected error => rejected (error.shift n)
  | clash c => clash c
  | overflow literal => overflow literal

namespace Outcome

/-- The outcome, with the place of its failure moved by `n` bytes. -/
def shift (n : Nat) (o : Outcome) : Outcome :=
  ⟨o.status.mapError (ParseFailure.shift n), o.filter⟩

/-- Go on with the filter that a reading has left, if it has ended well. -/
def andThen (o : Outcome) (next : Filter → Outcome) : Outcome :=
  match o.status with
  | .ok _ => next o.filter
  | .error _ => o

@[simp] lemma shift_filter (n : Nat) (o : Outcome) : (o.shift n).filter = o.filter := rfl

lemma shift_status_eq_ok_iff {n : Nat} {o : Outcome} :
    (o.shift n).status = .ok () ↔ o.status = .ok () := by
  obtain ⟨status, f⟩ := o
  cases status with
  | ok _ => exact iff_of_true rfl rfl
  | error e =>
    constructor
    · intro h
      cases h
    · intro h
      cases h

end Outcome

namespace Target

variable {target : Target} {p q : Progress} {t : Token} {failure : ParseFailure}

/-! ### Tokens that are moved -/

/-- A token is accepted wherever it stands. -/
lemma Advance.shift (h : target.Advance p t q) (n : Nat) : target.Advance p (t.shift n) q := by
  cases h with
  | keyword kind last spells => exact .keyword (t := t.shift n) kind last spells
  | mark kind last => exact .mark (t := t.shift n) kind last
  | value kind last => exact .value (t := t.shift n) kind last
  | comma kind last accepts => exact .comma (t := t.shift n) kind last accepts
  | close kind last closes => exact .close (t := t.shift n) kind last closes

/-- A group that is not closed fails without a place. -/
lemma shift_of_close_eq_error {comparator : Comparator} {literals : List String} {f : Filter}
    (h : target.close comparator literals f = .error failure) (n : Nat) :
    failure.shift n = failure := by
  rcases close_eq_error h with ⟨l, -, -, rfl⟩ | ⟨-, -, c, rfl⟩
  · unfold refusal
    split
    · rfl
    · rfl
  · rfl

/-- A token is refused wherever it stands, and its failure names the place. -/
lemma Refuse.shift (h : target.Refuse p t failure) (n : Nat) :
    target.Refuse p (t.shift n) (failure.shift n) := by
  cases h with
  | misplaced follows => exact .misplaced (t := t.shift n) follows
  | unknown kind last spells => exact .unknown (t := t.shift n) kind last spells
  | comma kind last accepts => exact .comma (t := t.shift n) kind last accepts
  | close kind last fails =>
    rw [shift_of_close_eq_error fails]
    exact .close (t := t.shift n) kind last fails

/-- A run over tokens that are moved differs in the place of its failure only. -/
lemma run_map_shift (target : Target) (n : Nat) (p : Progress) (ts : List Token) :
    target.run p (ts.map (Token.shift n)) = (target.run p ts).shift n := by
  induction ts generalizing p with
  | nil => rfl
  | cons t ts ih =>
    rw [List.map_cons, run, run]
    cases hstep : target.step p t with
    | ok q =>
      rw [step_eq_ok_iff.2 ((step_eq_ok_iff.1 hstep).shift n)]
      exact ih q
    | error e =>
      rw [step_eq_error_iff.2 ((step_eq_error_iff.1 hstep).shift n)]
      rfl

/-! ### Between two groups -/

/-- Where a group is expected, the machine reads as it does at the start. -/
lemma run_eq_run_start (target : Target) (hlast : p.last = none ∨ p.last = some .bar)
    (hliterals : p.literals = []) (ts : List Token) :
    target.run p ts = target.run (.start p.filter) ts := by
  obtain ⟨last, comparator, literals, f⟩ := p
  obtain rfl : literals = [] := hliterals
  have hfollow : ∀ kind : TokenKind, kind.mayFollow last = kind.mayFollow none := by
    intro kind
    rcases hlast with rfl | rfl <;> cases kind <;> rfl
  have hexpected : Expectation.after last = Expectation.after none := by
    rcases hlast with rfl | rfl <;> rfl
  have hstep : ∀ t, target.step ⟨last, comparator, [], f⟩ t = target.step (.start f) t := by
    intro t
    unfold step Progress.start
    simp only [hfollow, hexpected]
    cases hkind : t.kind with
    | keyword => rfl
    -- Nothing but a keyword may stand here, so the comparator is not looked at.
    | mark | value | comma | bar | stop => rfl
  cases ts with
  | nil => rfl
  | cons t ts =>
    rw [run, run, hstep]
    rfl

/-- A bar closes a group, or fails to, as the end of the input does. -/
lemma run_closing (target : Target) (p : Progress) (length : Nat) :
    (∃ g, target.run p [Token.endOfInput length] = ⟨.ok (), g⟩ ∧
        ∀ t ts, t.kind = .bar → target.run p (t :: ts) = target.run (.start g) ts) ∨
      ∃ e, target.run p [Token.endOfInput length] = ⟨.error e, p.filter⟩ ∧
        ∀ t ts, t.kind = .bar → ∃ e', target.run p (t :: ts) = ⟨.error e', p.filter⟩ := by
  cases hstep : target.step p (Token.endOfInput length) with
  | ok q =>
    have hend : target.run p [Token.endOfInput length] = ⟨.ok (), q.filter⟩ := by
      rw [run, hstep]
      rfl
    cases step_eq_ok_iff.1 hstep with
    | keyword kind | mark kind | value kind | comma kind => cases kind
    | @close _ last g closes =>
      refine .inl ⟨g, hend, fun t ts hbar => ?_⟩
      rw [run_cons_of_advance (.close (.inl hbar) last closes)]
      exact run_eq_run_start target (.inr (congrArg some hbar)) rfl ts
  | error e =>
    have hend : target.run p [Token.endOfInput length] = ⟨.error e, p.filter⟩ := by
      rw [run, hstep]
    have hrefuse : ∀ t : Token, t.kind = .bar → ∃ e', target.Refuse p t e' := by
      intro t hbar
      cases step_eq_error_iff.1 hstep with
      | misplaced follows => exact ⟨_, .misplaced (by rw [hbar]; exact follows)⟩
      | unknown kind | comma kind => cases kind
      | close _ last fails => exact ⟨_, .close (.inl hbar) last fails⟩
    refine .inr ⟨e, hend, fun t ts hbar => ?_⟩
    obtain ⟨e', he'⟩ := hrefuse t hbar
    refine ⟨e', ?_⟩
    rw [run, step_eq_error_iff.2 he']

/-- Tokens with a bar between them are read as the tokens before it, and those behind it from a
beginning if that ends well. -/
lemma run_append_bar (target : Target) (p : Progress) (ts us : List Token) {bar : Token}
    (hbar : bar.kind = .bar) (length : Nat) :
    let first := target.run p (ts ++ [Token.endOfInput length])
    let joined := target.run p (ts ++ bar :: us)
    (first.status = .ok () → joined = target.run (.start first.filter) us) ∧
      (first.status ≠ .ok () → joined.status ≠ .ok () ∧ joined.filter = first.filter) := by
  intro first joined
  have hfailed : ∀ (e : ParseFailure) (f : Filter),
      (⟨.error e, f⟩ : Outcome).status ≠ .ok () := fun e f h => by cases h
  rcases target.run_append p ts with ⟨e, f, hrun⟩ | ⟨q, hrun⟩
  · have hfirst : first = ⟨.error e, f⟩ := hrun _
    have hjoined : joined = ⟨.error e, f⟩ := hrun _
    rw [hfirst, hjoined]
    exact ⟨fun h => absurd h (hfailed e f), fun _ => ⟨hfailed e f, rfl⟩⟩
  · have hfirst : first = target.run q [Token.endOfInput length] := hrun _
    have hjoined : joined = target.run q (bar :: us) := hrun _
    rw [hfirst, hjoined]
    rcases target.run_closing q length with ⟨g, hend, hnext⟩ | ⟨e, hend, hnext⟩
    · rw [hend, hnext bar us hbar]
      exact ⟨fun _ => rfl, fun h => absurd rfl h⟩
    · obtain ⟨e', he'⟩ := hnext bar us hbar
      rw [hend, he']
      exact ⟨fun h => absurd h (hfailed e q.filter), fun _ => ⟨hfailed e' q.filter, rfl⟩⟩

/-- On two or more tokens the machine runs. -/
lemma readInto_of_two_tokens {raw : String} (h : 2 ≤ (tokenize raw).length) (f : Filter) :
    target.readInto raw f =
      target.run (.start f) (tokenize raw ++ [Token.endOfInput (byteLength raw.toList)]) := by
  unfold readInto
  split
  · next hnil =>
    rw [hnil] at h
    cases h
  · next t hone =>
    rw [hone] at h
    exact absurd h (Nat.lt_irrefl 1)
  · rfl

end Target

/-- The tokens of two values that a bar joins, up to the end of the input.  The end is that of the
second value, and it is moved like the other tokens of that value. -/
lemma exists_tokens_of_append_bar {a : String} (hend : Settled a.toList.reverse) (b : String) :
    ∃ bar : Token, bar.kind = .bar ∧
      tokenize (a ++ "|" ++ b) ++ [Token.endOfInput (byteLength (a ++ "|" ++ b).toList)] =
        tokenize a ++ bar :: (tokenize b ++ [Token.endOfInput (byteLength b.toList)]).map
          (Token.shift (a.utf8ByteSize + 1)) := by
  have htext : (a ++ "|" ++ b).toList = a.toList ++ '|' :: b.toList := by simp
  have hlength : byteLength (a ++ "|" ++ b).toList =
      byteLength b.toList + (a.utf8ByteSize + 1) := by
    have hbar : Char.utf8Size '|' = 1 := rfl
    rw [htext, byteLength_append, byteLength_cons, hbar, byteLength_toList a]
    omega
  refine ⟨Token.cut .bar a.utf8ByteSize ['|'], rfl, ?_⟩
  rw [hlength, tokenize_eq_tokensAt, tokenize_eq_tokensAt, tokenize_eq_tokensAt, htext,
    tokensAt_append_bar hend, byteLength_toList, Nat.zero_add, List.map_append, ← tokensAt_add,
    Nat.zero_add, List.append_assoc]
  rfl

/-- A value that a bar joins of two, the bar not escaped, is read as the first one, and if that ends
well as the second one. -/
lemma Target.readInto_append_bar (target : Target) {a b : String} (hend : Settled a.toList.reverse)
    (ha : 2 ≤ (tokenize a).length) (hb : 2 ≤ (tokenize b).length) (f : Filter) :
    let first := target.readInto a f
    let joined := target.readInto (a ++ "|" ++ b) f
    (first.status = .ok () →
        joined = (target.readInto b first.filter).shift (a.utf8ByteSize + 1)) ∧
      (first.status ≠ .ok () → joined.status ≠ .ok () ∧ joined.filter = first.filter) := by
  intro first joined
  obtain ⟨bar, hbar, htokens⟩ := exists_tokens_of_append_bar hend b
  have hlong : 2 ≤ (tokenize (a ++ "|" ++ b)).length := by
    have hlength := congrArg List.length htokens
    simp only [List.length_append, List.length_cons, List.length_nil, List.length_map] at hlength
    omega
  have hfirst : first = target.run (.start f)
      (tokenize a ++ [Token.endOfInput (byteLength a.toList)]) := readInto_of_two_tokens ha f
  have hjoined : joined = target.run (.start f)
      (tokenize a ++ bar :: (tokenize b ++ [Token.endOfInput (byteLength b.toList)]).map
        (Token.shift (a.utf8ByteSize + 1))) := by
    rw [← htokens]
    exact readInto_of_two_tokens hlong f
  rw [readInto_of_two_tokens hb first.filter, ← run_map_shift, hfirst, hjoined]
  exact target.run_append_bar (.start f) (tokenize a) _ hbar (byteLength a.toList)

/-- A value `a|b` of two values with two or more tokens each, the bar not escaped, is read as `a`
and then as `b`.  It is accepted if both are, each into the filter that is there when it is read,
and the filter that it leaves is the one that they leave, also where one of them is refused.  Behind
an accepted `a` it ends as `b` does, with the same failure, whose place is counted from the
beginning of `a`. -/
theorem parseKey_append_bar (s : Schema) (key : String) (type : ScalarType) (a b : String)
    (f : Filter) (hend : Settled a.toList.reverse) (ha : 2 ≤ (tokenize a).length)
    (hb : 2 ≤ (tokenize b).length) :
    let first := s.parseKey key type a f
    let second := s.parseKey key type b first.filter
    let joined := s.parseKey key type (a ++ "|" ++ b) f
    (joined.status = .ok () ↔ first.status = .ok () ∧ second.status = .ok ()) ∧
      joined.filter = (first.andThen (s.parseKey key type b)).filter ∧
      (first.status = .ok () → joined = second.shift (a.utf8ByteSize + 1)) := by
  intro first second joined
  obtain ⟨haccepted, hrefused⟩ := (s.target key type).readInto_append_bar hend ha hb f
  by_cases hok : first.status = .ok ()
  · have hshift : joined = second.shift (a.utf8ByteSize + 1) := haccepted hok
    refine ⟨?_, ?_, fun _ => hshift⟩
    · rw [hshift, Outcome.shift_status_eq_ok_iff]
      exact ⟨fun h => ⟨hok, h⟩, fun h => h.2⟩
    · rw [hshift, Outcome.shift_filter, Outcome.andThen, hok]
  · obtain ⟨hstatus, hfilter⟩ := hrefused hok
    refine ⟨iff_of_false hstatus fun h => hok h.1, hfilter.trans ?_, fun h => absurd h hok⟩
    rw [Outcome.andThen]
    split
    · next u hu => exact absurd hu hok
    · rfl

/-- The second group of the second value is refused.  Its comma is reported at its place in the
joined value, and the rules of the two groups before it are there. -/
theorem parseKey_append_bar_of_refused_comma :
    Settled "is!1,2".toList.reverse ∧ 2 ≤ (tokenize "is!1,2").length ∧
      2 ≤ (tokenize "gt!0|lt!8,9").length ∧
      (Schema.empty.parseKey "level" .integer "is!1,2" .empty).status = .ok () ∧
      (Schema.empty.parseKey "level" .integer ("is!1,2" ++ "|" ++ "gt!0|lt!8,9") .empty).status =
        .error (.rejected (.commaNotAllowed "level" .lessThan .unified ⟨16, 17⟩)) ∧
      (Schema.empty.parseKey "level" .integer ("is!1,2" ++ "|" ++ "gt!0|lt!8,9") .empty).filter =
        ((Schema.empty.parseKey "level" .integer "is!1,2" .empty).andThen
          (Schema.empty.parseKey "level" .integer "gt!0|lt!8,9")).filter := by
  have hend : Settled "is!1,2".toList.reverse := by decide +kernel
  have ha : 2 ≤ (tokenize "is!1,2").length := by decide +kernel
  have hb : 2 ≤ (tokenize "gt!0|lt!8,9").length := by decide +kernel
  have hok : (Schema.empty.parseKey "level" .integer "is!1,2" .empty).status = .ok () := by
    decide +kernel
  obtain ⟨-, hfilter, hshift⟩ :=
    parseKey_append_bar Schema.empty "level" .integer "is!1,2" "gt!0|lt!8,9" .empty hend ha hb
  refine ⟨hend, ha, hb, hok, ?_, hfilter⟩
  rw [hshift hok]
  decide +kernel

/-! ## The short form and its expansion

A value of a single token is short for an `eq` group of its text, and the group may be written out:
`eq!` before a value, or before a keyword that stands alone, changes nothing.  The short form is
read without the machine and the expansion by it, so the two have to agree on where the literal
ends, on what it stands for, and on the outcome.

Behind a mark a keyword is plain text, and a token that is all of the text ends where it did
(`NextToken.behind_mark`).  The machine therefore has one literal when the text ends, and closes the
group with it as the short form does (`Target.run_endOfInput`).
-/

/-- A keyword can be the slice of a value. -/
lemma isSlice_keyword {word : List Char} (h : word ∈ keywords) : IsSlice [] word := by
  obtain ⟨c, cs, rfl, hmark, -⟩ := keyword_head h
  refine ⟨List.cons_ne_nil c cs, by simpa using hmark, ?_⟩
  intro a d b heq hd
  have hplain := isDelimiter_eq_false_of_mem _ h d (by simp [heq])
  rw [hplain] at hd
  exact absurd hd Bool.false_ne_true

/-- The slice of a value or of a keyword can be that of a value. -/
lemma NextToken.isSlice {marked : Bool} {text slice rest : List Char} {kind : TokenKind}
    (h : NextToken marked text kind slice rest) (hkind : kind = .value ∨ kind = .keyword) :
    IsSlice [] slice := by
  cases h with
  | value isSlice => exact isSlice
  | keyword _ known => exact isSlice_keyword known
  | mark | bar | comma => simp at hkind

/-- A value or a keyword that is all of a text is a value behind a mark. -/
lemma NextToken.behind_mark {text : List Char} {kind : TokenKind}
    (h : NextToken false text kind text []) (hkind : kind = .value ∨ kind = .keyword) :
    NextToken true text .value text [] := by
  have hnext : NextToken true (text ++ []) .value text [] :=
    .value (h.isSlice hkind) (.inl rfl) trivial
  rwa [List.append_nil] at hnext

/-- A text with a single token is all of that token. -/
lemma nextToken_of_tokenize_eq_singleton {raw : String} {t : Token} (h : tokenize raw = [t]) :
    NextToken false raw.toList t.kind raw.toList [] ∧ t.text = literal raw.toList := by
  rw [tokenize_eq_tokensAt] at h
  have hne : raw.toList ≠ [] := by
    intro hnil
    rw [hnil, tokensAt] at h
    cases h
  obtain ⟨kind, slice, rest, hnext⟩ := NextToken.exists_of_ne_nil false hne
  rw [hnext.tokensAt_eq] at h
  obtain ⟨rfl, hrest⟩ := List.cons.inj h
  have hnil : rest = [] := by
    by_contra hne
    obtain ⟨_, _, _, hmore⟩ := NextToken.exists_of_ne_nil (markedAfter false kind) hne
    rw [hmore.tokensAt_eq] at hrest
    cases hrest
  obtain rfl : raw.toList = slice := by rw [hnext.eq_append, hnil, List.append_nil]
  exact ⟨hnil ▸ hnext, rfl⟩

namespace Target

variable {target : Target} {p : Progress} {f : Filter}

/-- At the end of the input an `eq` group with one literal is closed like the short form. -/
lemma run_endOfInput {text : String} (hlast : p.last = some .value)
    (hcomparator : p.comparator = .equals) (hliterals : p.literals = [text]) (length : Nat) :
    target.run p [Token.endOfInput length] = target.readBare text p.filter := by
  rw [readBare, run, ← hcomparator, ← hliterals]
  cases hclose : target.close p.comparator p.literals p.filter with
  | ok g =>
    rw [step_eq_ok_iff.2 (.close (.inr rfl) hlast hclose)]
    rfl
  | error e => rw [step_eq_error_iff.2 (.close (.inr rfl) hlast hclose)]

/-- An `eq` group with one value is read like the short form with its literal. -/
lemma readInto_equals_group {raw : String} (hvalue : NextToken true raw.toList .value raw.toList [])
    (f : Filter) : target.readInto ("eq!" ++ raw) f = target.readBare (literal raw.toList) f := by
  have htext : ("eq!" ++ raw).toList = ['e', 'q'] ++ '!' :: raw.toList := by simp
  have hkeyword : NextToken false (['e', 'q'] ++ '!' :: raw.toList) .keyword ['e', 'q']
      ('!' :: raw.toList) := .keyword rfl (by simp [keywords]) _
  have hlong : ¬ BareText ("eq!" ++ raw).toList := by
    rw [htext, bareText_iff_of_nextToken hkeyword]
    exact List.cons_ne_nil _ _
  rw [readInto_eq_run hlong, htext, hkeyword.tokensAt_eq, (NextToken.mark _).tokensAt_eq,
    markedAfter, hvalue.tokensAt_eq, tokensAt]
  rw [List.cons_append, run_cons_of_advance (.keyword rfl (.inl rfl) rfl)]
  rw [List.cons_append, run_cons_of_advance (.mark rfl rfl)]
  rw [List.cons_append, run_cons_of_advance (.value rfl (.inl rfl))]
  exact run_endOfInput rfl rfl rfl _

/-- What becomes of the short form where the type of the key is admitted. -/
lemma readBare_cases (hf : f.Admits target.key target.type) (text : String) :
    (∃ g, target.readBare text f = ⟨.ok (), g⟩) ∨
      target.readBare text f =
        ⟨.error (.rejected (.conversion target.key text target.type target.format)), f⟩ ∨
      (target.type.overflows target.format text = true ∧
        target.readBare text f = ⟨.error (.overflow text), f⟩) := by
  unfold readBare
  cases hclose : target.close .equals [text] f with
  | ok g => exact .inl ⟨g, rfl⟩
  | error e =>
    rcases close_eq_error hclose with ⟨l, hl, -, rfl⟩ | ⟨hno, -, -⟩
    · obtain rfl := List.mem_singleton.1 hl
      unfold refusal
      by_cases hoverflows : target.type.overflows target.format l = true
      · rw [if_pos hoverflows]
        exact .inr (.inr ⟨hoverflows, rfl⟩)
      · rw [if_neg hoverflows]
        exact .inr (.inl rfl)
    · exact absurd hf hno

end Target

/-- A value that is a single literal or a single keyword is read like the `eq` group of its text.
Both are accepted and leave one filter, or both leave the filter as it was and refuse the text, with
one error if it is no value of the type, or because reading it overflows. -/
theorem parseKey_equals_group (s : Schema) (key : String) (type : ScalarType) (raw : String)
    (f : Filter) (t : Token) (hf : f.Admits key type) (htokens : tokenize raw = [t])
    (hkind : t.kind = .value ∨ t.kind = .keyword) :
    s.parseKey key type ("eq!" ++ raw) f = s.parseKey key type raw f ∧
      ((∃ g, s.parseKey key type raw f = ⟨.ok (), g⟩) ∨
        s.parseKey key type raw f =
          ⟨.error (.rejected (.conversion key t.text type s.format)), f⟩ ∨
        (type.overflows s.format t.text = true ∧
          s.parseKey key type raw f = ⟨.error (.overflow t.text), f⟩)) := by
  obtain ⟨hnext, htext⟩ := nextToken_of_tokenize_eq_singleton htokens
  have hshort : s.parseKey key type raw f = (s.target key type).readBare t.text f := by
    unfold Schema.parseKey Target.readInto
    rw [htokens]
  have hgroup : s.parseKey key type ("eq!" ++ raw) f = (s.target key type).readBare t.text f := by
    rw [htext]
    exact Target.readInto_equals_group (hnext.behind_mark hkind) f
  rw [hshort, hgroup]
  exact ⟨rfl, Target.readBare_cases hf t.text⟩

/-- A keyword that stands alone is a text for a string key, and no number for another, with and
without `eq!` before it. -/
theorem parseKey_equals_group_of_lone_keyword :
    Filter.empty.Admits "kind" .string ∧ Filter.empty.Admits "level" .integer ∧
      tokenize "like" = [⟨.keyword, "like", ⟨0, 4⟩⟩] ∧
      Schema.empty.parseKey "kind" .string ("eq!" ++ "like") .empty =
        ⟨.ok (), Filter.empty.append "kind" .string ["like"] .equals⟩ ∧
      Schema.empty.parseKey "level" .integer ("eq!" ++ "like") .empty =
        ⟨.error (.rejected (.conversion "level" "like" .integer .internet)), .empty⟩ := by
  have hadmits : ∀ name type, Filter.empty.Admits name type := by
    intro name type k hk
    cases hk
  have htokens : tokenize "like" = [⟨.keyword, "like", ⟨0, 4⟩⟩] := by decide +kernel
  have htext := parseKey_equals_group Schema.empty "kind" .string "like" .empty _
    (hadmits _ _) htokens (.inr rfl)
  have hnumber := parseKey_equals_group Schema.empty "level" .integer "like" .empty _
    (hadmits _ _) htokens (.inr rfl)
  exact ⟨hadmits _ _, hadmits _ _, htokens, htext.1.trans rfl, hnumber.1.trans rfl⟩

/-- A literal that is refused need not be reported as no value of the type: a day of a week in a
year that is too early overflows, in the short form and in the group. -/
theorem not_accepted_or_conversion_of_single_token :
    ¬∀ (s : Schema) (key : String) (type : ScalarType) (raw : String) (f : Filter) (t : Token),
      f.Admits key type → tokenize raw = [t] → t.kind = .value ∨ t.kind = .keyword →
        (∃ g, s.parseKey key type raw f = ⟨.ok (), g⟩ ∧
            s.parseKey key type ("eq!" ++ raw) f = ⟨.ok (), g⟩) ∨
          ∃ text, s.parseKey key type raw f =
              ⟨.error (.rejected (.conversion key text type s.format)), f⟩ ∧
            s.parseKey key type ("eq!" ++ raw) f =
              ⟨.error (.rejected (.conversion key text type s.format)), f⟩ := by
  intro h
  have hadmits : Filter.empty.Admits "day" .timestamp := by
    intro k hk
    cases hk
  have htokens : tokenize "-2147483648-W01-1" = [⟨.value, "-2147483648-W01-1", ⟨0, 17⟩⟩] := by
    decide +kernel
  have hoverflow : (Schema.parseKey ⟨[], .pattern "%G-W%V-%u", .unified⟩ "day" .timestamp
      "-2147483648-W01-1" .empty).status = .error (.overflow "-2147483648-W01-1") := by
    decide +kernel
  rcases h ⟨[], .pattern "%G-W%V-%u", .unified⟩ "day" .timestamp "-2147483648-W01-1" .empty _
    hadmits htokens (.inl rfl) with ⟨g, hg, -⟩ | ⟨text, htext, -⟩
  · rw [hg] at hoverflow
    cases hoverflow
  · rw [htext] at hoverflow
    cases hoverflow

end QueryFilter
