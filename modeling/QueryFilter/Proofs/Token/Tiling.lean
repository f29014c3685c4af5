import Mathlib.Data.List.Chain
import Mathlib.Data.String.Basic
import QueryFilter.Proofs.Token.Lexer

/-!
# Tokens and their places

Where the tokens of a query value stand, how they cover it, and what becomes of them when two query
values are joined.
-/

namespace QueryFilter

/-! ## Where tokens stand

`StandsBetween t left slice right` says that the token `t` was cut from `slice`, with `left` before
it and `right` behind it.  Every token of a query value stands somewhere in it
(`exists_standsBetween_of_mem`), and every character of a query value lies in the slice of a token
(`exists_mem_tokenize_of_eq`).  Facts about single characters and single tokens follow from these
two by cases on the next token.
-/

/-- The token `t` is cut from `slice`, which stands behind `left` and in front of `right`. -/
structure StandsBetween (t : Token) (left slice right : List Char) : Prop where
  /-- The place behind `left` is not inside an escaping pair. -/
  settled : Settled left.reverse
  /-- The slice is that of the next token behind `left`. -/
  next : ∃ marked, NextToken marked (slice ++ right) t.kind slice right
  /-- The token has the text and the place of the slice. -/
  eq_cut : t = Token.cut t.kind (byteLength left) slice

lemma tokensAt_eq_nil_iff {offset : Nat} {marked : Bool} {cs : List Char} :
    tokensAt offset marked cs = [] ↔ cs = [] := by
  cases cs with
  | nil => simp [tokensAt]
  | cons c cs => simp [tokensAt]

/-- A token among those of the last part of a text stands in the text.  It is the last token if
the text ends behind it. -/
lemma exists_standsBetween_of_tokensAt_eq {front cs : List Char} {marked : Bool} {t : Token}
    {ts us : List Token} (hfront : cs ≠ [] → Settled front.reverse)
    (h : tokensAt (byteLength front) marked cs = ts ++ t :: us) :
    ∃ left slice right, front ++ cs = left ++ (slice ++ right) ∧
      StandsBetween t left slice right ∧ (us = [] ↔ right = []) := by
  induction marked, cs using NextToken.induction generalizing front ts with
  | nil marked => simp [tokensAt] at h
  | @token marked cs kind slice rest hnext ih =>
    have hsettled := hfront hnext.ne_nil
    obtain rfl := hnext.eq_append
    rw [hnext.tokensAt_eq] at h
    rcases ts with _ | ⟨u, ts⟩
    · obtain ⟨rfl, rfl⟩ := List.cons.inj h
      exact ⟨front, slice, rest, rfl, ⟨hsettled, ⟨marked, hnext⟩, rfl⟩, tokensAt_eq_nil_iff⟩
    · have hbehind : rest ≠ [] → Settled (front ++ slice).reverse := fun hne => by
        rw [List.reverse_append]
        exact hnext.settled_behind hsettled hne
      have hrest := (List.cons.inj h).2
      rw [← byteLength_append] at hrest
      rw [← List.append_assoc]
      exact ih hbehind hrest

/-- Every character of a part of a text lies in the slice of a token of that part. -/
lemma exists_mem_tokensAt_of_eq {front cs a b : List Char} {c : Char} (marked : Bool)
    (hfront : cs ≠ [] → Settled front.reverse) (h : cs = a ++ c :: b) :
    ∃ left x y right t, t ∈ tokensAt (byteLength front) marked cs ∧ front ++ a = left ++ x ∧
      b = y ++ right ∧ StandsBetween t left (x ++ c :: y) right := by
  induction marked, cs using NextToken.induction generalizing front a with
  | nil marked => simp at h
  | @token marked cs kind slice rest hnext ih =>
    have hsettled := hfront hnext.ne_nil
    obtain rfl := hnext.eq_append
    have hbehind : rest ≠ [] → Settled (front ++ slice).reverse := fun hne => by
      rw [List.reverse_append]
      exact hnext.settled_behind hsettled hne
    rw [hnext.tokensAt_eq, ← byteLength_append]
    -- The character is in the slice, or it is in the rest.
    have hcases : (∃ y, slice = a ++ c :: y ∧ b = y ++ rest) ∨
        ∃ a', a = slice ++ a' ∧ rest = a' ++ c :: b := by
      rcases List.append_eq_append_iff.1 h with ⟨a', ha, hrest⟩ | ⟨y, hslice, hb⟩
      · exact .inr ⟨a', ha, hrest⟩
      · rcases y with _ | ⟨d, y⟩
        · exact .inr ⟨[], by simpa using hslice.symm, hb.symm⟩
        · obtain ⟨rfl, rfl⟩ := List.cons.inj hb
          exact .inl ⟨y, hslice, rfl⟩
    rcases hcases with ⟨y, rfl, rfl⟩ | ⟨a', rfl, hrest⟩
    · exact ⟨front, a, y, rest, _, List.mem_cons_self, rfl, rfl, hsettled, ⟨marked, hnext⟩, rfl⟩
    · obtain ⟨left, x, y, right, t, hmem, ha, hb, ht⟩ := ih hbehind hrest
      exact ⟨left, x, y, right, t, List.mem_cons_of_mem _ hmem, by rw [← ha, List.append_assoc],
        hb, ht⟩

/-- Every token of a query value stands somewhere in it, and at its end if it is the last one. -/
lemma exists_standsBetween_of_eq {raw : String} {t : Token} {ts us : List Token}
    (h : tokenize raw = ts ++ t :: us) :
    ∃ left slice right, raw.toList = left ++ (slice ++ right) ∧
      StandsBetween t left slice right ∧ (us = [] ↔ right = []) := by
  have hstart : raw.toList ≠ [] → Settled [].reverse := fun _ => settled_nil
  rw [tokenize_eq_tokensAt] at h
  exact exists_standsBetween_of_tokensAt_eq hstart h

lemma exists_standsBetween_of_mem {raw : String} {t : Token} (h : t ∈ tokenize raw) :
    ∃ left slice right, raw.toList = left ++ (slice ++ right) ∧
      StandsBetween t left slice right := by
  obtain ⟨ts, us, heq⟩ := List.append_of_mem h
  obtain ⟨left, slice, right, hraw, hstands, -⟩ := exists_standsBetween_of_eq heq
  exact ⟨left, slice, right, hraw, hstands⟩

/-- Every character of a query value lies in the slice of a token. -/
lemma exists_mem_tokenize_of_eq {raw : String} {a b : List Char} {c : Char}
    (h : raw.toList = a ++ c :: b) :
    ∃ left x y right t, t ∈ tokenize raw ∧ a = left ++ x ∧ b = y ++ right ∧
      StandsBetween t left (x ++ c :: y) right := by
  have hstart : raw.toList ≠ [] → Settled [].reverse := fun _ => settled_nil
  rw [tokenize_eq_tokensAt]
  exact exists_mem_tokensAt_of_eq false hstart h

/-! ### Places in bytes -/

/-- The byte at a place belongs to the range. -/
def Span.Holds (s : Span) (place : Nat) : Prop :=
  s.start ≤ place ∧ place < s.stop

/-- Of two beginnings of a text, the one that takes fewer bytes is a beginning of the other. -/
lemma exists_eq_append_of_byteLength_le {a b left right : List Char} (h : a ++ b = left ++ right)
    (hle : byteLength left ≤ byteLength a) : ∃ x, a = left ++ x ∧ x ++ b = right := by
  rcases List.append_eq_append_iff.1 h with ⟨x, hleft, hb⟩ | ⟨x, ha, hright⟩
  · have hx : x = [] := by
      by_contra hne
      have hpos := byteLength_pos hne
      rw [hleft, byteLength_append] at hle
      omega
    subst hx
    exact ⟨[], by simpa using hleft.symm, hb⟩
  · exact ⟨x, ha, hright.symm⟩

/-- A character whose place lies in the bytes of a part of a text belongs to this part. -/
lemma exists_of_place {a b left slice right : List Char} {c : Char}
    (h : a ++ c :: b = left ++ (slice ++ right)) (hstart : byteLength left ≤ byteLength a)
    (hstop : byteLength a < byteLength left + byteLength slice) :
    ∃ x y, a = left ++ x ∧ slice = x ++ c :: y ∧ b = y ++ right := by
  obtain ⟨x, rfl, hx⟩ := exists_eq_append_of_byteLength_le h hstart
  rcases List.append_eq_append_iff.1 hx with ⟨z, hslice, hz⟩ | ⟨z, hxz, -⟩
  · rcases z with _ | ⟨d, y⟩
    · rw [hslice, List.append_nil, byteLength_append] at hstop
      exact absurd hstop (Nat.lt_irrefl _)
    · obtain ⟨rfl, rfl⟩ := List.cons.inj hz
      exact ⟨x, y, rfl, hslice, rfl⟩
  · simp only [hxz, byteLength_append] at hstop
    omega

namespace StandsBetween

variable {t : Token} {left slice right : List Char}

lemma span_eq (h : StandsBetween t left slice right) :
    t.span = ⟨byteLength left, byteLength left + byteLength slice⟩ :=
  congrArg Token.span h.eq_cut

lemma text_eq (h : StandsBetween t left slice right) : t.text = String.ofList (unescape slice) :=
  congrArg Token.text h.eq_cut

end StandsBetween

/-- A token whose range holds the place of a character has the character in its slice. -/
lemma exists_standsBetween_of_holds {raw : String} {a b : List Char} {c : Char} {t : Token}
    (h : raw.toList = a ++ c :: b) (ht : t ∈ tokenize raw) (hholds : t.span.Holds (byteLength a)) :
    ∃ left x y right, a = left ++ x ∧ b = y ++ right ∧
      StandsBetween t left (x ++ c :: y) right := by
  obtain ⟨left, slice, right, hraw, hstands⟩ := exists_standsBetween_of_mem ht
  rw [hstands.span_eq] at hholds
  obtain ⟨x, y, ha, rfl, hb⟩ := exists_of_place (h.symm.trans hraw) hholds.1 hholds.2
  exact ⟨left, x, y, right, ha, hb, hstands⟩

/-! ## Tokens cover a query value

The ranges of the tokens of a query value cover its bytes from the first to the last, one right
behind the other, so that the slices at these ranges, put together, are the query value again.
Places are bytes of the UTF-8 text here: `String.utf8ByteSize` is its length, and a range can be cut
out where both ends are positions between characters.

`tokenize_lossless` collects this with what a token of each kind is cut from (`Spelled`) and with
the kinds that may follow each other.
-/

section Tiling

/-! ### Ranges of bytes -/

/-- Ranges that are not empty follow one another without a gap from a place to a later one. -/
inductive Span.Tiles : Nat → List Span → Nat → Prop
  | nil (place : Nat) : Span.Tiles place [] place
  | cons {s : Span} {spans : List Span} {stop : Nat} (nonempty : s.start < s.stop)
      (more : Span.Tiles s.stop spans stop) : Span.Tiles s.start (s :: spans) stop

/-- The part of a text at a range of bytes. -/
def Span.slice (raw : String) (s : Span) : String :=
  String.Pos.Raw.extract raw ⟨s.start⟩ ⟨s.stop⟩

/-- Both ends of the range stand between characters of the text. -/
def Span.Separates (raw : String) (s : Span) : Prop :=
  String.Pos.Raw.IsValid raw ⟨s.start⟩ ∧ String.Pos.Raw.IsValid raw ⟨s.stop⟩

lemma byteLength_eq_utf8Len (cs : List Char) : byteLength cs = String.utf8Len cs := by
  induction cs with
  | nil => rfl
  | cons c cs ih => rw [byteLength_cons, ih, String.utf8Len_cons, Nat.add_comm]

/-- Lengths are those of the UTF-8 text. -/
lemma utf8ByteSize_ofList (cs : List Char) : (String.ofList cs).utf8ByteSize = byteLength cs := by
  rw [String.utf8ByteSize_ofList, byteLength_eq_utf8Len]

lemma byteLength_toList (raw : String) : byteLength raw.toList = raw.utf8ByteSize := by
  rw [← utf8ByteSize_ofList, String.ofList_toList]

/-- Between two parts of a text there is a position. -/
lemma isValid_byteLength {raw : String} {left right : List Char} (h : raw.toList = left ++ right) :
    String.Pos.Raw.IsValid raw ⟨byteLength left⟩ := by
  rw [String.Pos.Raw.isValid_iff_exists_append]
  refine ⟨String.ofList left, String.ofList right, ?_, ?_⟩
  · rw [← String.ofList_append, ← h, String.ofList_toList]
  · rw [← utf8ByteSize_ofList]
    rfl

/-- A part of a text is cut out at its place. -/
lemma slice_eq_ofList {raw : String} {left slice right : List Char}
    (h : raw.toList = left ++ (slice ++ right)) :
    Span.slice raw ⟨byteLength left, byteLength left + byteLength slice⟩ = String.ofList slice := by
  have hraw : raw = String.ofList (left ++ slice ++ right) := by
    rw [List.append_assoc, ← h, String.ofList_toList]
  rw [hraw, Span.slice, byteLength_eq_utf8Len, byteLength_eq_utf8Len]
  exact String.extract_of_valid left slice right

lemma separates_of_eq_append {raw : String} {left slice right : List Char}
    (h : raw.toList = left ++ (slice ++ right)) :
    Span.Separates raw ⟨byteLength left, byteLength left + byteLength slice⟩ := by
  refine ⟨isValid_byteLength h, ?_⟩
  rw [← byteLength_append]
  exact isValid_byteLength (by rw [h, List.append_assoc])

/-! ### Slices and kinds -/

/-- What a token of each kind is cut from, and the text that it has: the slice itself, without its
escapes if it is a value. -/
inductive Spelled : TokenKind → String → String → Prop
  | mark : Spelled .mark "!" "!"
  | bar : Spelled .bar "|" "|"
  | comma : Spelled .comma "," ","
  | keyword {word : String} (known : word.toList ∈ keywords) : Spelled .keyword word word
  | value {slice : String} (nonempty : slice ≠ "") :
      Spelled .value slice (String.ofList (unescape slice.toList))

/-- Marks and delimiters take one byte. -/
lemma Spelled.utf8ByteSize_eq_one {kind : TokenKind} {slice text : String}
    (h : Spelled kind slice text) (hkind : kind = .mark ∨ kind = .bar ∨ kind = .comma) :
    slice.utf8ByteSize = 1 := by
  cases h with
  | mark | bar | comma => rfl
  | keyword | value => simp at hkind

/-- A token has the text that its kind gives it. -/
lemma StandsBetween.spelled {t : Token} {left slice right : List Char}
    (h : StandsBetween t left slice right) :
    Spelled t.kind (String.ofList slice) t.text := by
  obtain ⟨marked, hnext⟩ := h.next
  rw [h.text_eq]
  generalize t.kind = kind at hnext
  generalize slice ++ right = text at hnext
  cases hnext with
  | mark => exact .mark
  | bar => exact .bar
  | comma => exact .comma
  | keyword _ known =>
    rw [unescape_keyword slice known]
    exact .keyword (by rwa [String.toList_ofList])
  | value isSlice =>
    have hne : String.ofList slice ≠ "" := by simpa using isSlice.ne_nil
    simpa using Spelled.value hne

variable {marked : Bool} {cs : List Char}

/-- The tokens of a text tile it. -/
lemma tiles_tokensAt (offset : Nat) (marked : Bool) (cs : List Char) :
    Span.Tiles offset ((tokensAt offset marked cs).map Token.span) (offset + byteLength cs) := by
  induction marked, cs using NextToken.induction generalizing offset with
  | nil marked =>
    rw [tokensAt]
    exact .nil offset
  | @token marked cs kind slice rest hnext ih =>
    have hlt : offset < offset + byteLength slice :=
      Nat.lt_add_of_pos_right (byteLength_pos hnext.slice_ne_nil)
    rw [hnext.tokensAt_eq, hnext.eq_append, byteLength_append, ← Nat.add_assoc]
    exact .cons (s := ⟨offset, offset + byteLength slice⟩) hlt (ih (offset + byteLength slice))

/-- The slices of the tokens of a text make up the text. -/
lemma join_slices {raw : String} {front : List Char} (marked : Bool)
    (h : raw.toList = front ++ cs) :
    String.join ((tokensAt (byteLength front) marked cs).map fun t => t.span.slice raw) =
      String.ofList cs := by
  induction marked, cs using NextToken.induction generalizing front with
  | nil marked =>
    rw [tokensAt]
    rfl
  | @token marked cs kind slice rest hnext ih =>
    obtain rfl := hnext.eq_append
    have hraw : raw.toList = front ++ slice ++ rest := by rw [h, List.append_assoc]
    have hbehind := ih hraw
    rw [byteLength_append] at hbehind
    rw [hnext.tokensAt_eq, List.map_cons, String.join_cons, hbehind, Token.cut_span,
      slice_eq_ofList h, String.ofList_append]

/-- A value is followed by a delimiter, if by anything. -/
lemma isChain_tokensAt (offset : Nat) (marked : Bool) (cs : List Char) :
    (tokensAt offset marked cs).IsChain fun t u =>
      t.kind = .value → u.kind = .bar ∨ u.kind = .comma := by
  induction marked, cs using NextToken.induction generalizing offset with
  | nil marked =>
    rw [tokensAt]
    exact .nil
  | @token marked cs kind slice rest hnext ih =>
    rw [hnext.tokensAt_eq, List.isChain_cons]
    refine ⟨fun u hu hkind => ?_, ih _⟩
    obtain rfl : kind = .value := hkind
    cases hnext with
    | value _ _ stops =>
      rcases rest with _ | ⟨d, more⟩
      · rw [tokensAt] at hu
        cases hu
      · rw [(NextToken.delimiter stops.1 more).tokensAt_eq] at hu
        obtain rfl := Option.some.inj hu
        rcases isDelimiter_iff.1 stops.1 with rfl | rfl
        · exact .inl rfl
        · exact .inr rfl

/-- After a mark no keyword comes before the next bar. -/
lemma exists_bar_of_marked {offset : Nat} {ts us : List Token} {t : Token}
    (hmarked : marked = true) (h : tokensAt offset marked cs = ts ++ t :: us)
    (hkind : t.kind = .keyword) : ∃ u ∈ ts, u.kind = .bar := by
  induction marked, cs using NextToken.induction generalizing offset ts with
  | nil marked =>
    rw [tokensAt] at h
    simp at h
  | @token marked cs kind slice rest hnext ih =>
    rw [hnext.tokensAt_eq] at h
    rcases ts with _ | ⟨s, ts⟩
    · obtain ⟨rfl, -⟩ := List.cons.inj h
      obtain rfl : kind = .keyword := hkind
      cases hnext with
      | keyword unmarked => simp [hmarked] at unmarked
    · obtain ⟨rfl, hbehind⟩ := List.cons.inj h
      by_cases hbar : kind = .bar
      · exact ⟨_, List.mem_cons_self, hbar⟩
      · have hafter : markedAfter marked kind = true := by
          cases kind <;> simp_all [markedAfter]
        obtain ⟨u, hu, hubar⟩ := ih hafter hbehind
        exact ⟨u, List.mem_cons_of_mem _ hu, hubar⟩

/-- Between a mark and a keyword behind it there is a bar. -/
lemma exists_bar_of_tokensAt_eq {offset : Nat} {ts us vs : List Token} {m t : Token}
    (h : tokensAt offset marked cs = ts ++ m :: (us ++ t :: vs)) (hmark : m.kind = .mark)
    (hkind : t.kind = .keyword) : ∃ u ∈ us, u.kind = .bar := by
  induction marked, cs using NextToken.induction generalizing offset ts with
  | nil marked =>
    rw [tokensAt] at h
    simp at h
  | @token marked cs kind slice rest hnext ih =>
    rw [hnext.tokensAt_eq] at h
    rcases ts with _ | ⟨s, ts⟩
    · obtain ⟨rfl, hbehind⟩ := List.cons.inj h
      obtain rfl : kind = .mark := hmark
      exact exists_bar_of_marked rfl hbehind hkind
    · exact ih (List.cons.inj h).2

/-- The tokens of a query value lose nothing of it.  Their ranges are not empty, stand between
characters and follow one another from its first byte to its last, and the slices at them make up
the query value.  A token of each kind is spelled as its slice says, so marks and delimiters take
one byte.  A value is followed by a delimiter only, and after a mark there is no keyword before the
next bar. -/
theorem tokenize_lossless (raw : String) :
    Span.Tiles 0 ((tokenize raw).map Token.span) raw.utf8ByteSize ∧
      (tokenize raw = [] ↔ raw = "") ∧
      String.join ((tokenize raw).map fun t => t.span.slice raw) = raw ∧
      (∀ t ∈ tokenize raw, t.span.Separates raw ∧ Spelled t.kind (t.span.slice raw) t.text ∧
        (t.kind = .mark ∨ t.kind = .bar ∨ t.kind = .comma → t.span.stop = t.span.start + 1)) ∧
      ((tokenize raw).IsChain fun t u => t.kind = .value → u.kind = .bar ∨ u.kind = .comma) ∧
      ∀ ts m us t vs, tokenize raw = ts ++ m :: (us ++ t :: vs) → m.kind = .mark →
        t.kind = .keyword → ∃ u ∈ us, u.kind = .bar := by
  have htiles := tiles_tokensAt 0 false raw.toList
  have hjoin := join_slices false (List.nil_append raw.toList).symm
  have hchain := isChain_tokensAt 0 false raw.toList
  rw [byteLength_toList, Nat.zero_add, ← tokenize_eq_tokensAt] at htiles
  rw [byteLength_nil, ← tokenize_eq_tokensAt, String.ofList_toList] at hjoin
  rw [← tokenize_eq_tokensAt] at hchain
  refine ⟨htiles, ⟨?_, ?_⟩, hjoin, ?_, hchain, ?_⟩
  · intro hnil
    rw [← hjoin, hnil]
    rfl
  · rintro rfl
    rfl
  · intro t ht
    obtain ⟨left, slice, right, hraw, hstands⟩ := exists_standsBetween_of_mem ht
    have hspelled := hstands.spelled
    rw [hstands.span_eq, slice_eq_ofList hraw]
    refine ⟨separates_of_eq_append hraw, hspelled, ?_⟩
    intro hkind
    rw [← hspelled.utf8ByteSize_eq_one hkind, utf8ByteSize_ofList]
  · intro ts m us t vs h
    rw [tokenize_eq_tokensAt] at h
    exact exists_bar_of_tokensAt_eq h

/-- Two groups, the first with a list: the ranges of their tokens, what a value is cut from, and the
bar that comes before the keyword of the second group. -/
theorem tokenize_lossless_of_two_groups :
    tokenize "eq!é,b|is" =
        [⟨.keyword, "eq", ⟨0, 2⟩⟩, ⟨.mark, "!", ⟨2, 3⟩⟩, ⟨.value, "é", ⟨3, 5⟩⟩,
          ⟨.comma, ",", ⟨5, 6⟩⟩, ⟨.value, "b", ⟨6, 7⟩⟩, ⟨.bar, "|", ⟨7, 8⟩⟩,
          ⟨.keyword, "is", ⟨8, 10⟩⟩] ∧
      Span.Tiles 0 [⟨0, 2⟩, ⟨2, 3⟩, ⟨3, 5⟩, ⟨5, 6⟩, ⟨6, 7⟩, ⟨7, 8⟩, ⟨8, 10⟩] 10 ∧
      Spelled .value (Span.slice "eq!é,b|is" ⟨3, 5⟩) "é" ∧
      ∃ u ∈ [⟨.value, "é", ⟨3, 5⟩⟩, ⟨.comma, ",", ⟨5, 6⟩⟩, ⟨.value, "b", ⟨6, 7⟩⟩,
        ⟨.bar, "|", ⟨7, 8⟩⟩], Token.kind u = .bar := by
  have htokens : tokenize "eq!é,b|is" =
      [⟨.keyword, "eq", ⟨0, 2⟩⟩, ⟨.mark, "!", ⟨2, 3⟩⟩, ⟨.value, "é", ⟨3, 5⟩⟩,
        ⟨.comma, ",", ⟨5, 6⟩⟩, ⟨.value, "b", ⟨6, 7⟩⟩, ⟨.bar, "|", ⟨7, 8⟩⟩,
        ⟨.keyword, "is", ⟨8, 10⟩⟩] := by decide +kernel
  obtain ⟨htiles, -, -, hslices, -, hbars⟩ := tokenize_lossless "eq!é,b|is"
  rw [htokens] at htiles hslices hbars
  have hvalue := hslices ⟨.value, "é", ⟨3, 5⟩⟩ (by simp)
  exact ⟨htokens, htiles, hvalue.2.1,
    hbars [⟨.keyword, "eq", ⟨0, 2⟩⟩] ⟨.mark, "!", ⟨2, 3⟩⟩ _ ⟨.keyword, "is", ⟨8, 10⟩⟩ []
      rfl rfl rfl⟩

end Tiling

/-! ## Query values joined by a bar

A bar that is not escaped cuts a query value in two, and each part is tokenized as it would be
alone.  `NextToken.append_delimiter` is the reason: a delimiter behind a text ends the last token
where the end of the text ended it, and changes no other token.

`tokenize_append_bar` puts this together.  The tokens behind the bar are those of the second part,
moved by the length of what is before them.
-/

/-- The range, moved by `n` bytes. -/
def Span.shift (n : Nat) (s : Span) : Span :=
  ⟨s.start + n, s.stop + n⟩

/-- The token, moved by `n` bytes. -/
def Token.shift (n : Nat) (t : Token) : Token :=
  { t with span := t.span.shift n }

/-- A text that is moved has its tokens moved. -/
lemma tokensAt_add (offset n : Nat) (marked : Bool) (cs : List Char) :
    tokensAt (offset + n) marked cs = (tokensAt offset marked cs).map (Token.shift n) := by
  induction marked, cs using NextToken.induction generalizing offset with
  | nil marked =>
    rw [tokensAt, tokensAt]
    rfl
  | @token marked cs kind slice rest hnext ih =>
    have hcut : Token.cut kind (offset + n) slice = (Token.cut kind offset slice).shift n := by
      simp [Token.cut, Token.shift, Span.shift, Nat.add_right_comm]
    rw [hnext.tokensAt_eq, hnext.tokensAt_eq, List.map_cons, ← ih, hcut, Nat.add_right_comm]

namespace NextToken

variable {marked : Bool} {cs slice rest : List Char} {kind : TokenKind}

/-- A delimiter that is not escaped, behind a text, leaves its next token as it is. -/
lemma append_delimiter {d : Char} (h : NextToken marked cs kind slice rest)
    (hd : isDelimiter d = true) (hend : Settled cs.reverse) (ds : List Char) :
    NextToken marked (cs ++ d :: ds) kind slice (rest ++ d :: ds) := by
  cases h with
  | mark rest => exact .mark _
  | keyword unmarked known rest =>
    rw [List.append_assoc]
    exact .keyword unmarked known _
  | bar rest => exact .bar _
  | comma rest => exact .comma _
  | value isSlice plain stops =>
    have hplain : marked = true ∨ NoKeyword (slice ++ rest ++ d :: ds) :=
      plain.imp_right fun hno => hno.append_delimiter hd ds
    rw [List.append_assoc] at hplain ⊢
    apply NextToken.value isSlice hplain
    rcases rest with _ | ⟨e, rest⟩
    · rw [List.append_nil] at hend
      exact ⟨hd, hend⟩
    · exact stops

/-- The rest behind a token is settled at its end if the whole text is. -/
lemma settled_rest (h : NextToken marked cs kind slice rest) (hend : Settled cs.reverse) :
    Settled rest.reverse := by
  by_cases hrest : rest = []
  · rw [hrest]
    exact settled_nil
  · rw [h.eq_append, List.reverse_append, settled_append_iff (h.settled_of_ne_nil hrest)] at hend
    exact hend

end NextToken

/-- A bar that is not escaped separates the tokens of two texts. -/
lemma tokensAt_append_bar {marked : Bool} {cs : List Char} (hend : Settled cs.reverse)
    (offset : Nat) (ds : List Char) :
    tokensAt offset marked (cs ++ '|' :: ds) =
      tokensAt offset marked cs ++
        Token.cut .bar (offset + byteLength cs) ['|'] ::
          tokensAt (offset + byteLength cs + 1) false ds := by
  induction marked, cs using NextToken.induction generalizing offset with
  | nil marked =>
    rw [List.nil_append, (NextToken.bar ds).tokensAt_eq, tokensAt]
    rfl
  | @token marked cs kind slice rest hnext ih =>
    have hjoined := hnext.append_delimiter (d := '|') rfl hend ds
    rw [hjoined.tokensAt_eq, ih (hnext.settled_rest hend), hnext.tokensAt_eq, List.cons_append]
    rw [show byteLength cs = byteLength slice + byteLength rest by
      rw [← byteLength_append, ← hnext.eq_append], Nat.add_assoc]

/-- A bar that no odd run of backslashes precedes separates two query values: the tokens are those
of the first, the bar, and those of the second, which are moved behind the bar. -/
theorem tokenize_append_bar (a b : String) (h : Settled a.toList.reverse) :
    tokenize (a ++ "|" ++ b) =
      tokenize a ++ [⟨.bar, "|", ⟨a.utf8ByteSize, a.utf8ByteSize + 1⟩⟩] ++
        (tokenize b).map (Token.shift (a.utf8ByteSize + 1)) := by
  have htext : (a ++ "|" ++ b).toList = a.toList ++ '|' :: b.toList := by simp
  rw [tokenize_eq_tokensAt, tokenize_eq_tokensAt, tokenize_eq_tokensAt, htext,
    tokensAt_append_bar h, ← tokensAt_add, byteLength_toList, Nat.zero_add, Nat.zero_add,
    List.append_assoc]
  rfl

/-- The bar behind an escaped backslash separates two groups. -/
theorem tokenize_append_bar_of_escaped_backslash :
    Settled "eq!é\\\\".toList.reverse ∧
      tokenize ("eq!é\\\\" ++ "|" ++ "is!a") =
        [⟨.keyword, "eq", ⟨0, 2⟩⟩, ⟨.mark, "!", ⟨2, 3⟩⟩, ⟨.value, "é\\", ⟨3, 7⟩⟩,
          ⟨.bar, "|", ⟨7, 8⟩⟩, ⟨.keyword, "is", ⟨8, 10⟩⟩, ⟨.mark, "!", ⟨10, 11⟩⟩,
          ⟨.value, "a", ⟨11, 12⟩⟩] := by
  have hsettled : Settled "eq!é\\\\".toList.reverse := by decide +kernel
  refine ⟨hsettled, (tokenize_append_bar _ "is!a" hsettled).trans ?_⟩
  decide +kernel

end QueryFilter
