import QueryFilter.Proofs.Grammar.Acceptance
import QueryFilter.Proofs.Grammar.FirstGroup
import QueryFilter.Proofs.Token.Tiling

/-!
# What errors say about a value

An error names a place in the query value, and what it says about that place is so.  A token that is
reported as unexpected is a token of the value, or its end, and never one at which nothing at all is
expected.  A comma that is reported stands in the value without being escaped, and the comparator of
the report is the one that the keyword of its group spells.  No keyword is reported as unknown,
since the tokenizer cuts keywords that spell a comparator only.

`Target.Report` lists what can be reported.  The comparator is followed through the value by
`Progress.Behind`, which describes the text that has been read by the last token of it: behind a
keyword, a mark or the first value the text ends with the beginning of a group, whose keyword spells
the comparator, and behind a comma the comparator takes lists, so that no later comma of the group
is refused.  An accepted token preserves it (`Target.Advance.behind`), a refused one is reported
(`Target.Refuse.report`), and the run follows by induction on its tokens.
-/

namespace QueryFilter

/-- A group may begin behind the text: it is empty, or ends with a bar that is not escaped. -/
def Opens (front : List Char) : Prop :=
  front = [] ∨ ∃ more, front = more ++ ['|'] ∧ Settled more.reverse

/-- The text ends with the beginning of a group.  The keyword of the group spells the comparator,
and `rest` follows the keyword. -/
def EndsInGroup (comparator : Comparator) (rest front : List Char) : Prop :=
  ∃ start word, front = start ++ (word ++ rest) ∧ Opens start ∧
    Comparator.ofChars? word = some comparator

lemma EndsInGroup.append {comparator : Comparator} {rest front : List Char}
    (h : EndsInGroup comparator rest front) (more : List Char) :
    EndsInGroup comparator (rest ++ more) (front ++ more) := by
  obtain ⟨start, word, rfl, hopens, hspells⟩ := h
  exact ⟨start, word, by simp only [List.append_assoc], hopens, hspells⟩

/-- A keyword, the mark and a value make a group of the grammar. -/
lemma groupText_of_isSlice {comparator : Comparator} {word slice : List Char}
    (hspells : Comparator.ofChars? word = some comparator) (hslice : IsSlice [] slice)
    (before : List Char) : GroupText before ⟨word, [slice]⟩ (word ++ '!' :: slice) := by
  have hknown : word ∈ keywords := isSome_ofChars?_iff.1 (Option.isSome_of_eq_some hspells)
  have hsettled : Settled ('!' :: (word.reverse ++ before)) := settled_cons _ (by decide)
  exact .mk hknown (.single ((isSlice_iff_of_settled hsettled slice).2 hslice))

/-- What the last token of a text that has been read says about the text. -/
def Progress.Behind (profile : Profile) (front : List Char) (p : Progress) : Prop :=
  match p.last with
  | none | some .bar => Opens front
  | some .keyword => EndsInGroup p.comparator [] front
  | some .mark => EndsInGroup p.comparator ['!'] front
  | some .value =>
    profile.acceptsList p.comparator = true ∨
      ∃ slice, IsSlice [] slice ∧ EndsInGroup p.comparator ('!' :: slice) front
  | some .comma => profile.acceptsList p.comparator = true
  | some .stop => False

namespace Target

/-- What can be reported about a text. -/
inductive Report (target : Target) (raw : List Char) : ParseError → Prop
  /-- A token of the text, where something else is expected. -/
  | token {expected : Expectation} {found : Token} {left slice right : List Char}
      (splits : raw = left ++ (slice ++ right)) (stands : StandsBetween found left slice right)
      (expected_ne : expected ≠ .nothing) :
      Report target raw (.unexpectedToken target.key expected found)
  /-- The end of the text, where something else is expected. -/
  | endOfInput {expected : Expectation} (expected_ne : expected ≠ .nothing) :
      Report target raw
        (.unexpectedToken target.key expected (Token.endOfInput (byteLength raw)))
  /-- A comma that is not escaped, behind a group whose comparator takes no list. -/
  | comma {comparator : Comparator} {start text right : List Char} {group : WrittenGroup}
      (splits : raw = start ++ text ++ ',' :: right) (opens : Opens start)
      (isGroup : GroupText start.reverse group text)
      (spells : Comparator.ofChars? group.keyword = some comparator)
      (settled : Settled (start ++ text).reverse)
      (accepts : target.profile.acceptsList comparator = false) :
      Report target raw (.commaNotAllowed target.key comparator target.profile
        ⟨byteLength (start ++ text), byteLength (start ++ text) + 1⟩)
  /-- A literal that is no value of the type. -/
  | conversion (literal : String) :
      Report target raw (.conversion target.key literal target.type target.format)

variable {target : Target} {p q : Progress} {raw front cs slice rest : List Char}
  {marked : Bool} {kind : TokenKind} {error : ParseError}

/-- A group that is not closed is reported by one of its literals. -/
lemma report_of_close {comparator : Comparator} {literals : List String} {f : Filter}
    (h : target.close comparator literals f = .error (.rejected error)) :
    target.Report raw error := by
  rcases close_eq_error h with ⟨l, -, -, hl⟩ | ⟨-, -, c, hc⟩
  · unfold refusal at hl
    split at hl
    · cases hl
    · obtain rfl := ParseFailure.rejected.inj hl
      exact .conversion l
  · cases hc

/-- Something is expected wherever a text has been read. -/
lemma expected_ne_nothing {profile : Profile} (hp : p.Behind profile front) :
    Expectation.after p.last ≠ .nothing := by
  intro hnothing
  unfold Progress.Behind at hp
  cases hlast : p.last with
  | none =>
    rw [hlast] at hnothing
    cases hnothing
  | some kind =>
    rw [hlast] at hnothing hp
    cases kind with
    | stop => exact hp
    | mark | bar | comma | keyword | value => cases hnothing

/-- The text behind an accepted token is described by it. -/
lemma Advance.behind (hp : p.Behind target.profile front) (hfront : Settled front.reverse)
    (hnext : NextToken marked cs kind slice rest)
    (h : target.Advance p (Token.cut kind (byteLength front) slice) q) :
    q.Behind target.profile (front ++ slice) := by
  unfold Progress.Behind at hp
  cases h with
  | @keyword hkind last comparator spells =>
    obtain rfl : kind = .keyword := hkind
    cases hnext with
    | keyword unmarked known rest =>
      rw [Comparator.ofKeyword?, Token.cut_text_toList, unescape_keyword slice known] at spells
      have hopens : Opens front := by
        rcases last with last | last
        all_goals
          rw [last] at hp
          exact hp
      exact ⟨front, slice, by rw [List.append_nil], hopens, spells⟩
  | mark hkind last =>
    obtain rfl : kind = .mark := hkind
    rw [last] at hp
    cases hnext with
    | mark rest => exact EndsInGroup.append hp ['!']
  | value hkind last =>
    obtain rfl : kind = .value := hkind
    cases hnext with
    | value isSlice =>
      rcases last with last | last
      · rw [last] at hp
        exact .inr ⟨slice, isSlice, EndsInGroup.append hp slice⟩
      · rw [last] at hp
        exact .inl hp
  | comma _ _ accepts => exact accepts
  | close hkind last closes =>
    rcases hkind with hkind | hkind
    · obtain rfl : kind = .bar := hkind
      cases hnext with
      | bar rest => exact .inr ⟨front, rfl, hfront⟩
    · obtain rfl : kind = .stop := hkind
      cases hnext

/-- A refused token of a text is reported. -/
lemma Refuse.report (hp : p.Behind target.profile front) (hfront : Settled front.reverse)
    (hnext : NextToken marked cs kind slice rest) (hraw : raw = front ++ cs)
    (h : target.Refuse p (Token.cut kind (byteLength front) slice) (.rejected error)) :
    target.Report raw error := by
  rw [hnext.eq_append] at hraw
  generalize hfailure : ParseFailure.rejected error = failure at h
  cases h with
  | misplaced follows =>
    obtain rfl := ParseFailure.rejected.inj hfailure
    have hstands : StandsBetween (Token.cut kind (byteLength front) slice) front slice rest :=
      ⟨hfront, ⟨marked, hnext.eq_append ▸ hnext⟩, rfl⟩
    exact .token hraw hstands (expected_ne_nothing hp)
  | unknown hkind last spells =>
    obtain rfl : kind = .keyword := hkind
    cases hnext with
    | keyword unmarked known rest =>
      rw [Comparator.ofKeyword?, Token.cut_text_toList, unescape_keyword slice known] at spells
      have hsome := isSome_ofChars?_iff.2 known
      rw [spells] at hsome
      cases hsome
  | comma hkind last accepts =>
    obtain rfl := ParseFailure.rejected.inj hfailure
    obtain rfl : kind = .comma := hkind
    unfold Progress.Behind at hp
    rw [last] at hp
    rcases hp with haccepts | ⟨value, hvalue, start, word, rfl, hopens, hspells⟩
    · exact absurd (haccepts.symm.trans accepts) Bool.true_eq_false.mp
    · cases hnext with
      | comma rest =>
        exact .comma hraw hopens (groupText_of_isSlice hspells hvalue _) hspells hfront accepts
  | close _ _ fails =>
    obtain rfl := hfailure
    exact report_of_close fails

/-- The end of the input, if it is refused, is reported. -/
lemma Refuse.report_endOfInput (hp : p.Behind target.profile front)
    (h : target.Refuse p (Token.endOfInput (byteLength raw)) (.rejected error)) :
    target.Report raw error := by
  generalize hfailure : ParseFailure.rejected error = failure at h
  cases h with
  | misplaced follows =>
    obtain rfl := ParseFailure.rejected.inj hfailure
    exact .endOfInput (expected_ne_nothing hp)
  | unknown hkind | comma hkind => cases hkind
  | close _ _ fails =>
    obtain rfl := hfailure
    exact report_of_close fails

/-- The error of a run from some place of a text is reported. -/
lemma report_of_status_run (hraw : raw = front ++ cs) (hfront : cs ≠ [] → Settled front.reverse)
    (hp : p.Behind target.profile front)
    (h : (target.run p (tokensAt (byteLength front) marked cs ++
      [Token.endOfInput (byteLength raw)])).status = .error (.rejected error)) :
    target.Report raw error := by
  induction marked, cs using NextToken.induction generalizing front p with
  | nil marked =>
    rw [tokensAt, List.nil_append, run] at h
    cases hstep : target.step p (Token.endOfInput (byteLength raw)) with
    | ok q =>
      rw [hstep] at h
      cases h
    | error e =>
      rw [hstep] at h
      obtain rfl := Except.error.inj h
      exact (step_eq_error_iff.1 hstep).report_endOfInput hp
  | @token marked cs kind slice rest hnext ih =>
    have hsettled := hfront hnext.ne_nil
    rw [hnext.tokensAt_eq, List.cons_append, run] at h
    cases hstep : target.step p (Token.cut kind (byteLength front) slice) with
    | ok q =>
      rw [hstep, ← byteLength_append] at h
      have hbehind : rest ≠ [] → Settled (front ++ slice).reverse := fun hne => by
        rw [List.reverse_append]
        exact hnext.settled_behind hsettled hne
      refine ih ?_ hbehind ((step_eq_ok_iff.1 hstep).behind hp hsettled hnext) h
      rw [hraw, hnext.eq_append, List.append_assoc]
    | error e =>
      rw [hstep] at h
      obtain rfl := Except.error.inj h
      exact (step_eq_error_iff.1 hstep).report hp hsettled hnext hraw

/-- The error of a value is reported. -/
lemma report_of_status_readInto {raw : String} {f : Filter}
    (h : (target.readInto raw f).status = .error (.rejected error)) :
    target.Report raw.toList error := by
  by_cases hbare : BareText raw.toList
  · rw [readInto_eq_readBare hbare, readBare] at h
    cases hclose : target.close .equals [literal raw.toList] f with
    | ok g =>
      rw [hclose] at h
      cases h
    | error e =>
      rw [hclose] at h
      obtain rfl := Except.error.inj h
      exact report_of_close hclose
  · rw [readInto_eq_run hbare] at h
    have hstart : (Progress.start f).Behind target.profile [] := .inl rfl
    have hfront : raw.toList ≠ [] → Settled [].reverse := fun _ => settled_nil
    exact report_of_status_run rfl hfront hstart h

end Target

/-- The end of the input is not cut from a text. -/
lemma NextToken.kind_ne_stop {marked : Bool} {cs slice rest : List Char} {kind : TokenKind}
    (h : NextToken marked cs kind slice rest) : kind ≠ .stop := by
  rintro rfl
  cases h

/-- A token of a text, reported with its place and its text: the place is not empty and stands
between characters, and the text is that of the place without its escapes. -/
lemma StandsBetween.located {raw : String} {t : Token} {left slice right : List Char}
    (h : StandsBetween t left slice right) (hraw : raw.toList = left ++ (slice ++ right)) :
    t.span.start < t.span.stop ∧ t.span.stop ≤ raw.utf8ByteSize ∧ t.span.Separates raw ∧
      t.kind ≠ .stop ∧ t.text = String.ofList (unescape (t.span.slice raw).toList) := by
  obtain ⟨marked, hnext⟩ := h.next
  have hpos := byteLength_pos hnext.slice_ne_nil
  have hlength : raw.utf8ByteSize = byteLength left + byteLength slice + byteLength right := by
    rw [← byteLength_toList, hraw, byteLength_append, byteLength_append, Nat.add_assoc]
  rw [h.span_eq]
  refine ⟨Nat.lt_add_of_pos_right hpos, ?_, separates_of_eq_append hraw,
    hnext.kind_ne_stop, ?_⟩
  · rw [hlength]
    exact Nat.le_add_right _ _
  · rw [slice_eq_ofList hraw, String.toList_ofList]
    exact h.text_eq

/-- What the errors of a value say is so, whatever the key and the filter.  No keyword is reported
as unknown.  An unexpected token stands where something is expected.  It is the end of the input, at
the last byte of the value, or its place lies in the value between characters and is not empty, and
the reported text is what stands there without its escapes.  A comma that is reported is one byte of
the value and not escaped.  The text before it ends with a group, which begins at the start of the
value or behind a bar that is not escaped, and whose keyword spells the comparator of the report,
which takes no lists. -/
theorem parseKey_reports (s : Schema) (key : String) (type : ScalarType) (raw : String) (f : Filter)
    (error : ParseError) (h : (s.parseKey key type raw f).status = .error (.rejected error)) :
    (∀ k found, error ≠ .invalidComparator k found) ∧
      (∀ k expected found, error = .unexpectedToken k expected found →
        expected ≠ .nothing ∧ found.span.start ≤ found.span.stop ∧
          found.span.stop ≤ raw.utf8ByteSize ∧ found.span.Separates raw ∧
          (found.span.start = found.span.stop → found.kind = .stop) ∧
          (found.kind = .stop → found = Token.endOfInput raw.utf8ByteSize) ∧
          (found.kind ≠ .stop →
            found.text = String.ofList (unescape (found.span.slice raw).toList) ∧
              found.describe = found.kind.title ++ " `" ++ found.text ++ "`")) ∧
      ∀ k comparator profile span, error = .commaNotAllowed k comparator profile span →
        profile = s.profile ∧ s.profile.acceptsList comparator = false ∧
          ∃ start text right group, raw.toList = start ++ text ++ ',' :: right ∧ Opens start ∧
            GroupText start.reverse group text ∧
            Comparator.ofChars? group.keyword = some comparator ∧
            Settled (start ++ text).reverse ∧
            span = ⟨byteLength (start ++ text), byteLength (start ++ text) + 1⟩ ∧
            span.slice raw = "," := by
  have hreport : (s.target key type).Report raw.toList error := Target.report_of_status_readInto h
  refine ⟨?_, ?_, ?_⟩
  · rintro k found rfl
    cases hreport
  · rintro k expected found rfl
    cases hreport with
    | token splits stands expected_ne =>
      obtain ⟨hlt, hle, hseparates, hstop, htext⟩ := stands.located splits
      refine ⟨expected_ne, Nat.le_of_lt hlt, hle, hseparates, ?_, fun h => absurd h hstop, ?_⟩
      · intro heq
        exact absurd heq (Nat.ne_of_lt hlt)
      · intro _
        refine ⟨htext, ?_⟩
        unfold Token.describe
        split
        · next hkind => exact absurd hkind hstop
        · rfl
    | endOfInput expected_ne =>
      have hend : String.Pos.Raw.IsValid raw ⟨byteLength raw.toList⟩ :=
        isValid_byteLength (List.append_nil _).symm
      rw [byteLength_toList] at hend ⊢
      exact ⟨expected_ne, Nat.le_refl _, Nat.le_refl _, ⟨hend, hend⟩, fun _ => rfl, fun _ => rfl,
        fun hstop => absurd rfl hstop⟩
  · rintro k comparator profile span rfl
    cases hreport with
    | @comma _ start text right group splits opens isGroup spells settled accepts =>
      have hslice : raw.toList = (start ++ text) ++ ([','] ++ right) := splits
      exact ⟨rfl, accepts, start, text, right, group, splits, opens, isGroup, spells, settled, rfl,
        slice_eq_ofList hslice⟩

/-- A comma behind two bytes and an escaped delimiter, in the second group of the value. -/
theorem parseKey_reports_of_second_group :
    (Schema.empty.parseKey "name" .string "is!é,\\\\|lt!b\\,c,d" .empty).status =
        .error (.rejected (.commaNotAllowed "name" .lessThan .unified ⟨16, 17⟩)) ∧
      Span.slice "is!é,\\\\|lt!b\\,c,d" ⟨16, 17⟩ = "," ∧
      ∃ start text right group,
        "is!é,\\\\|lt!b\\,c,d".toList = start ++ text ++ ',' :: right ∧ Opens start ∧
          GroupText start.reverse group text ∧
          Comparator.ofChars? group.keyword = some .lessThan := by
  have hstatus : (Schema.empty.parseKey "name" .string "is!é,\\\\|lt!b\\,c,d" .empty).status =
      .error (.rejected (.commaNotAllowed "name" .lessThan .unified ⟨16, 17⟩)) := by
    decide +kernel
  obtain ⟨-, -, hcomma⟩ := parseKey_reports _ _ _ _ _ _ hstatus
  obtain ⟨-, -, start, text, right, group, hraw, hopens, hgroup, hspells, -, -, hslice⟩ :=
    hcomma _ _ _ _ rfl
  exact ⟨hstatus, hslice, start, text, right, group, hraw, hopens, hgroup, hspells⟩

end QueryFilter
