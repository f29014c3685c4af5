import QueryFilter.Proofs.Token.Tiling

/-!
# The states of the lexer

`Lexer.after raw n` is the lexer of a query value after `n` calls, and `Lexer.Loops` are the states
that a call goes through while its window grows.  `BetweenCalls` and `BeforeCharacter` say what
holds in states of the two kinds, in terms of the fields of the lexer and the places of the text.

Both follow from `Lexer.Reached`, which divides the text into what has been returned and what has
not.  A call moves the division behind the next token (`Lexer.exists_reached`), and inside a call
every state is a growing window (`Lexer.Loops.growing`).  `Lexer.calls_keep_invariant` collects this
with the progress of the calls.
-/

namespace QueryFilter

/-- Ranges that are not empty need a byte each. -/
lemma Span.Tiles.length_le {spans : List Span} {start stop : Nat}
    (h : Span.Tiles start spans stop) : start + spans.length ≤ stop := by
  induction h with
  | nil place => exact Nat.le_refl _
  | cons nonempty _ ih =>
    rw [List.length_cons]
    omega

namespace Lexer

/-! ### States -/

/-- The lexer of a query value after a number of calls. -/
def after (raw : String) : Nat → Lexer
  | 0 => initial raw.toList
  | n + 1 => (after raw n).next.2

/-- What the next call returns after a number of calls. -/
def answer (raw : String) (n : Nat) : Option Token :=
  (after raw n).next.1

/-- The last token that a number of calls have returned. -/
def last? (raw : String) : Nat → Option Token
  | 0 => none
  | n + 1 => (answer raw n).or (last? raw n)

/-- Where the text ends that a token, the last one returned, was cut from. -/
def emitted : Option Token → Nat
  | none => 0
  | some t => t.span.stop

/-- The states in which a call from `l` asks for a character. -/
inductive Loops (l : Lexer) : Lexer → Prop
  | enter (idle : l.pending = none) : Loops l l
  | grow {w w' grown : Lexer} {c : Char} (earlier : Loops l w) (taken : w.bump? = some (c, w'))
      (grows : w'.read c = (none, grown)) : Loops l grown

/-- Between two calls the window is empty and ends at a character boundary.  Backslashes are counted
at the end of the input only, and a delimiter is held back only behind a value, which ends in front
of it. -/
structure BetweenCalls (raw : String) (last : Option Token) (l : Lexer) : Prop where
  input : l.input = raw.toList
  start : l.start = l.position
  position_le : l.position ≤ raw.utf8ByteSize
  boundary : String.Pos.Raw.IsValid raw ⟨l.position⟩
  escapes : l.position < raw.utf8ByteSize → l.escapes = 0
  pending : l.pending ≠ none → ∃ t, last = some t ∧ t.kind = .value ∧ t.span.stop + 1 = l.position

/-- When a character is taken, the backslashes that end the window are counted.  The window is no
token yet: its delimiters are escaped in the text, and it is neither the mark nor a keyword that
would be cut. -/
structure BeforeCharacter (raw : String) (w : Lexer) : Prop where
  input : w.input = raw.toList
  escapes : w.escapes = backslashRun w.window.reverse
  escaped : ∀ a d b, raw.toList = a ++ d :: b → isDelimiter d = true →
    w.start ≤ byteLength a → byteLength a < w.position → backslashRun a.reverse % 2 = 1
  unmarked : w.window ≠ ['!']
  plain : w.afterMark = false → Comparator.ofChars? w.window = none

/-! ### Between two calls -/

/-- After `n` calls the tokens of `before` have been returned and those of `cs` have not. -/
structure Reached (raw : String) (n : Nat) (before cs : List Char) (marked : Bool) : Prop where
  text : raw.toList = before ++ cs
  settled : cs ≠ [] → Settled before.reverse
  rests : (after raw n).Rests marked before cs
  emitted : emitted (last? raw n) = byteLength before
  held : (after raw n).pending ≠ none → ∃ t, last? raw n = some t ∧ t.kind = .value

variable {raw : String} {n : Nat} {before cs : List Char} {marked : Bool}

/-- A call moves the place behind the next token, or it leaves everything as it is. -/
lemma exists_reached (raw : String) (n : Nat) :
    ∃ before cs marked, Reached raw n before cs marked := by
  induction n with
  | zero =>
    exact ⟨[], raw.toList, false, rfl, fun _ => settled_nil, rests_initial _, rfl,
      fun hheld => absurd rfl hheld⟩
  | succ n ih =>
    obtain ⟨before, cs, marked, h⟩ := ih
    by_cases hcs : cs = []
    · subst hcs
      have hnext := h.rests.next_nil
      have hafter : after raw (n + 1) = after raw n := congrArg Prod.snd hnext
      have hlast : last? raw (n + 1) = last? raw n := by
        rw [last?, answer, hnext, Option.none_or]
      exact ⟨before, [], marked, h.text, h.settled, hafter ▸ h.rests, hlast ▸ h.emitted,
        by rw [hafter, hlast]; exact h.held⟩
    · have hreturns := h.rests.returns_next hcs
      generalize hfound : (after raw n).next = found at hreturns
      obtain ⟨hnext, hrests, hheld⟩ := hreturns
      next kind slice rest l =>
      have hafter : after raw (n + 1) = l := congrArg Prod.snd hfound
      have hlast : last? raw (n + 1) = some (Token.cut kind (byteLength before) slice) := by
        rw [last?, answer, hfound, Option.some_or]
      refine ⟨before ++ slice, rest, markedAfter marked kind, ?_, fun hrest => ?_,
        hafter ▸ hrests, ?_, ?_⟩
      · rw [h.text, hnext.eq_append, List.append_assoc]
      · rw [List.reverse_append]
        exact hnext.settled_behind (h.settled hcs) hrest
      · rw [hlast, byteLength_append]
        rfl
      · rw [hafter]
        exact fun hne => ⟨_, hlast, hheld hne⟩

/-- The window is empty at a place of the text. -/
lemma Ready.betweenCalls {l : Lexer} (h : l.Ready before cs) (htext : raw.toList = before ++ cs)
    {last : Option Token}
    (hpending : l.pending ≠ none → ∃ t, last = some t ∧ t.kind = .value ∧
      t.span.stop + 1 = byteLength before) : BetweenCalls raw last l := by
  have hstart := h.place.start
  have hposition : l.position = byteLength before := h.place.position
  have hlength : raw.utf8ByteSize = byteLength before + byteLength cs := by
    rw [← byteLength_toList, htext, byteLength_append]
  rw [← hposition] at hpending hlength hstart
  exact
    { input := h.place.input.trans htext.symm
      start := hstart
      position_le := by omega
      boundary := hposition ▸ isValid_byteLength htext
      escapes := by
        intro hlt
        apply h.counted
        rintro rfl
        simp [hlength] at hlt
      pending := hpending }

lemma Reached.betweenCalls (h : Reached raw n before cs marked) :
    BetweenCalls raw (last? raw n) (after raw n) := by
  have htext := h.text
  have hheld := h.held
  cases h.rests with
  | idle ready pending => exact ready.betweenCalls htext fun hne => absurd pending hne
  | @holding d rest delimiter ready =>
    refine ready.betweenCalls (by simp [htext]) fun hne => ?_
    obtain ⟨t, hlast, hvalue⟩ := hheld hne
    have hstop : t.span.stop = byteLength before := by
      rw [← h.emitted, hlast]
      rfl
    have hsize : d.utf8Size = 1 := by rcases isDelimiter_iff.1 delimiter with rfl | rfl <;> rfl
    exact ⟨t, hlast, hvalue, by simp [hstop, hsize]⟩

/-! ### Inside a call -/

/-- A window that takes a character and does not cut a token goes on growing. -/
lemma Growing.of_read {w w' grown : Lexer} {window rest : List Char} {c : Char}
    (h : w.Growing before window rest) (hbump : w.bump? = some (c, w'))
    (hread : w'.read c = (none, grown)) :
    ∃ more, rest = c :: more ∧ grown.Growing before (window ++ [c]) more := by
  rcases rest with _ | ⟨d, more⟩
  · simp [h.place.bump?_nil] at hbump
  rw [h.place.bump?_cons] at hbump
  obtain ⟨rfl, rfl⟩ := Prod.mk.inj (Option.some.inj hbump)
  rcases h.read with hreturns | ⟨grown', hread', -, hgrown⟩
  · rw [hread] at hreturns
    cases hreturns
  · obtain ⟨-, rfl⟩ := Prod.mk.inj (hread.symm.trans hread')
    exact ⟨more, rfl, hgrown⟩

/-- In every state of a call the window grows, if there is anything left to return. -/
lemma Loops.growing {l w : Lexer} (h : l.Rests marked before cs) (hcs : cs ≠ []) (hw : l.Loops w) :
    ∃ window rest, cs = window ++ rest ∧ w.Growing before window rest := by
  induction hw with
  | enter idle => exact ⟨[], cs, rfl, (h.growing idle hcs).1⟩
  | grow earlier taken grows ih =>
    obtain ⟨window, rest, rfl, hgrowing⟩ := ih
    obtain ⟨more, rfl, hgrown⟩ := hgrowing.of_read taken grows
    exact ⟨_, more, by simp, hgrown⟩

/-- A call that has nothing left to return takes no character. -/
lemma Loops.bump?_eq_none {l w : Lexer} (h : l.Rests marked before []) (hw : l.Loops w) :
    w.bump? = none := by
  induction hw with
  | enter =>
    cases h with
    | idle ready => exact ready.place.bump?_nil
  | grow _ taken _ ih => simp [ih] at taken

/-- The answer of a call is found from every state that it goes through. -/
lemma Loops.next_eq {l w : Lexer} (hw : l.Loops w) : l.next = w.scan := by
  induction hw with
  | enter idle => rw [next, idle]
  | grow earlier taken grows ih => rw [ih, scan_of_bump? taken, grows]

/-- A growing window has no token in it. -/
lemma Growing.beforeCharacter {w : Lexer} {window rest : List Char}
    (h : w.Growing before window rest) (htext : raw.toList = before ++ (window ++ rest))
    (hsettled : Settled before.reverse) : BeforeCharacter raw w := by
  have hwindow := h.place.window_eq
  exact
    { input := h.place.input.trans htext.symm
      escapes := by rw [hwindow, h.counted]
      escaped := by
        intro a d b hraw hd hstart hstop
        rw [h.place.start] at hstart
        rw [h.place.position] at hstop
        obtain ⟨x, y, rfl, rfl, rfl⟩ := exists_of_place (hraw.symm.trans htext) hstart hstop
        have hodd := h.escaped x d y rfl hd
        rw [List.append_nil] at hodd
        rw [List.reverse_append, backslashRun_append_mod_two hsettled, hodd]
      unmarked := by
        rw [hwindow]
        rintro rfl
        exact h.unmarked rfl
      plain := by
        intro hafter
        rw [hwindow, ← Option.not_isSome_iff_eq_none, isSome_ofChars?_iff]
        intro hmem
        exact (h.plain.resolve_left (by simp [hafter])) window hmem (List.prefix_refl _) }

lemma Reached.beforeCharacter (h : Reached raw n before cs marked) {w w' : Lexer} {c : Char}
    (hw : (after raw n).Loops w) (hbump : w.bump? = some (c, w')) : BeforeCharacter raw w := by
  have hcs : cs ≠ [] := by
    rintro rfl
    simp [hw.bump?_eq_none h.rests] at hbump
  obtain ⟨window, rest, rfl, hgrowing⟩ := hw.growing h.rests hcs
  exact hgrowing.beforeCharacter h.text (h.settled hcs)

/-! ### All calls -/

/-- A call returns the first token of those that are left. -/
lemma next_fst (l : Lexer) : l.next.1 = l.tokens.head? := by
  rcases hnext : l.next with ⟨_ | t, l'⟩
  · rw [tokens_of_next_none hnext]
    rfl
  · rw [tokens_of_next_some hnext]
    rfl

/-- The lexer after some calls has the rest of the tokens to return. -/
lemma tokens_after (raw : String) (n : Nat) : (after raw n).tokens = (tokenize raw).drop n := by
  induction n with
  | zero => rfl
  | succ n ih =>
    obtain ⟨before, cs, marked, h⟩ := exists_reached raw n
    rw [← List.tail_drop, ← ih, after]
    rcases hnext : (after raw n).next with ⟨_ | t, l⟩
    · have hcs : cs = [] := by
        by_contra hne
        have hreturns := h.rests.returns_next hne
        rw [hnext] at hreturns
        cases hreturns
      subst hcs
      obtain rfl : l = after raw n := congrArg Prod.snd (hnext.symm.trans h.rests.next_nil)
      rw [tokens_of_next_none hnext]
      rfl
    · rw [tokens_of_next_some hnext, List.tail_cons]

/-- The calls return the tokens of the text, and nothing from then on. -/
lemma answer_eq (raw : String) (n : Nat) : answer raw n = (tokenize raw)[n]? := by
  rw [answer, next_fst, tokens_after, List.head?_drop]

/-- A text has no more tokens than bytes. -/
lemma length_tokenize_le (raw : String) : (tokenize raw).length ≤ raw.utf8ByteSize := by
  have hle := (tiles_tokensAt 0 false raw.toList).length_le
  rwa [List.length_map, ← tokenize_eq_tokensAt, Nat.zero_add, Nat.zero_add, byteLength_toList]
    at hle

/-- A token ends behind the text that was returned before it. -/
lemma Reached.emitted_lt (h : Reached raw n before cs marked) {t : Token}
    (ht : answer raw n = some t) :
    Lexer.emitted (last? raw n) < t.span.stop ∧ t.span.stop ≤ raw.utf8ByteSize := by
  have hcs : cs ≠ [] := by
    rintro rfl
    rw [answer, h.rests.next_nil] at ht
    cases ht
  have hreturns := h.rests.returns_next hcs
  rw [answer] at ht
  generalize (after raw n).next = found at hreturns ht
  obtain ⟨hnext, -, -⟩ := hreturns
  next kind slice rest l =>
  obtain rfl := Option.some.inj ht
  have hpos := byteLength_pos hnext.slice_ne_nil
  have hlength : raw.utf8ByteSize = byteLength before + byteLength slice + byteLength rest := by
    rw [← byteLength_toList, h.text, hnext.eq_append, byteLength_append, byteLength_append,
      Nat.add_assoc]
  rw [h.emitted, Token.cut_span, hlength]
  dsimp only
  omega

/-- The states of the lexer and its progress, for every text and after any number of calls.

Between two calls the lexer is as `BetweenCalls` says.  In every state that the next call goes
through and takes a character in, it is as `BeforeCharacter` says, and the call's answer is what is
scanned from there.  A token that the call returns ends behind the text that was returned before,
so there are no more tokens than bytes; the calls return the tokens of the text one by one, and
nothing from then on. -/
theorem calls_keep_invariant (raw : String) (n : Nat) :
    BetweenCalls raw (last? raw n) (after raw n) ∧
      (∀ w c w', (after raw n).Loops w → w.bump? = some (c, w') →
        BeforeCharacter raw w ∧ (after raw n).next = w.scan) ∧
      (∀ t, answer raw n = some t →
        emitted (last? raw n) < t.span.stop ∧ t.span.stop ≤ raw.utf8ByteSize) ∧
      answer raw n = (tokenize raw)[n]? ∧ (tokenize raw).length ≤ raw.utf8ByteSize := by
  obtain ⟨before, cs, marked, h⟩ := exists_reached raw n
  exact ⟨h.betweenCalls, fun w c w' hw hbump => ⟨h.beforeCharacter hw hbump, hw.next_eq⟩,
    fun t ht => h.emitted_lt ht, answer_eq raw n, length_tokenize_le raw⟩

/-- An escaped comma stays in the window of the first call, and the comma behind it is held back
when the call returns. -/
theorem calls_keep_invariant_of_escaped_comma :
    (∃ w w', (initial "a\\,,b".toList).Loops w ∧ w.window = ['a', '\\', ','] ∧
      w.bump? = some (',', w') ∧ BeforeCharacter "a\\,,b" w ∧
      (initial "a\\,,b".toList).next = w.scan) ∧
    (after "a\\,,b" 1).pending = some ⟨.comma, ",", ⟨3, 4⟩⟩ ∧
    BetweenCalls "a\\,,b" (some ⟨.value, "a,", ⟨0, 3⟩⟩) (after "a\\,,b" 1) ∧
    answer "a\\,,b" 1 = some ⟨.comma, ",", ⟨3, 4⟩⟩ ∧
    emitted (some ⟨.value, "a,", ⟨0, 3⟩⟩) < 4 ∧ answer "a\\,,b" 3 = none := by
  obtain ⟨-, hinside, -⟩ := calls_keep_invariant "a\\,,b" 0
  obtain ⟨hbetween, -, hprogress, -⟩ := calls_keep_invariant "a\\,,b" 1
  obtain ⟨-, -, -, hthird, -⟩ := calls_keep_invariant "a\\,,b" 3
  have hlast : last? "a\\,,b" 1 = some ⟨.value, "a,", ⟨0, 3⟩⟩ := by decide +kernel
  have hanswer : answer "a\\,,b" 1 = some ⟨.comma, ",", ⟨3, 4⟩⟩ := by decide +kernel
  have hend : (tokenize "a\\,,b")[3]? = none := by decide +kernel
  rw [hlast] at hbetween hprogress
  -- The window takes the letter, the backslash and the comma before the call comes to its end.
  have hloops : (initial "a\\,,b".toList).Loops ⟨"a\\,,b".toList, 0, 3, false, 0, none⟩ :=
    .grow (.grow (.grow (.enter rfl) rfl rfl) rfl rfl) rfl rfl
  obtain ⟨hbefore, hnext⟩ := hinside _ ',' _ hloops rfl
  exact ⟨⟨_, _, hloops, rfl, rfl, hbefore, hnext⟩, rfl, hbetween, hanswer,
    (hprogress _ hanswer).1, hthird.trans hend⟩

end Lexer

end QueryFilter
