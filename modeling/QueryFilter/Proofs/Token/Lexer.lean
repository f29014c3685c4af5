import Mathlib.Tactic.FinCases
import QueryFilter.Proofs.Token.Boundary

/-!
# What the lexer cuts

The lexer is compared with two readers of tokens that look ahead: the boundary reader, which sees a
text from one boundary on, and a scanner of whole query values.
-/

namespace QueryFilter

/-! ## The lexer reads boundary by boundary

The lexer looks at one character at a time and never ahead.  Its input is divided into what it has
returned, its window and what it has still to read (`Lexer.At`).

Inside a call the window is the beginning of a token that is not complete yet: it has escaped
delimiters only, does not start with a mark, and no keyword starts it together with what follows.
This is `Lexer.Growing`, and `Lexer.Growing.read` says that one more character keeps it or completes
the next token.  Between two calls the window is empty, and at most a delimiter is held back; this
is `Lexer.Rests`.

`Lexer.Rests.returns_next` puts the characters of a call together and `Lexer.Rests.tokens_eq` the
calls: the lexer cuts the tokens that the boundary reader finds.
-/

/-- A word is a keyword when it spells a comparator. -/
lemma isSome_ofChars?_iff {word : List Char} :
    (Comparator.ofChars? word).isSome = true ↔ word ∈ keywords := by
  constructor
  · intro h
    unfold Comparator.ofChars? at h
    split at h <;> simp_all [keywords]
  · intro h
    fin_cases h <;> rfl

/-- No keyword starts a text that grows by a character without becoming a keyword. -/
lemma NoKeyword.concat {cs : List Char} {c : Char} (h : NoKeyword cs) (hc : cs ++ [c] ∉ keywords) :
    NoKeyword (cs ++ [c]) := by
  intro word known hprefix
  rcases List.prefix_concat_iff.1 hprefix with rfl | hprefix
  · exact hc known
  · exact h word known hprefix

/-- A delimiter is escaped at the end of an escaped text if an odd run of backslashes ends it. -/
lemma Escaped.concat {before cs : List Char} {c : Char} (h : Escaped before cs)
    (hc : isDelimiter c = true → backslashRun (cs.reverse ++ before) % 2 = 1) :
    Escaped before (cs ++ [c]) := by
  induction cs generalizing before with
  | nil => exact escaped_cons.2 ⟨hc, escaped_nil _⟩
  | cons d cs ih =>
    obtain ⟨hd, hcs⟩ := escaped_cons.1 h
    exact escaped_cons.2 ⟨hd, ih hcs (by simpa using hc)⟩

namespace Lexer

/-! ### The parts of the input -/

/-- The window of the lexer holds `window`.  It stands behind `before`, and `rest` is still to be
read. -/
structure At (l : Lexer) (before window rest : List Char) : Prop where
  input : l.input = before ++ (window ++ rest)
  start : l.start = byteLength before
  position : l.position = byteLength before + byteLength window

variable {l w : Lexer} {before window rest cs : List Char} {c : Char} {marked : Bool}

/-- The parts depend on the input and on the ends of the window only. -/
lemma At.congr (h : l.At before window rest) (hinput : w.input = l.input)
    (hstart : w.start = l.start) (hposition : w.position = l.position) :
    w.At before window rest :=
  ⟨hinput.trans h.input, hstart.trans h.start, hposition.trans h.position⟩

lemma slice_eq (h : l.input = before ++ (window ++ rest)) :
    l.slice (byteLength before) (byteLength before + byteLength window) = window := by
  rw [slice, h, dropBytes_append, Nat.add_sub_cancel_left, takeBytes_append]

lemma At.window_eq (h : l.At before window rest) : l.window = window := by
  rw [Lexer.window, h.start, h.position, slice_eq h.input]

lemma At.bump?_nil (h : l.At before window []) : l.bump? = none := by
  have hend : byteLength l.input ≤ l.position := by
    rw [h.input, h.position, byteLength_append, List.append_nil]
  rw [bump?, dropBytes_eq_nil hend]

lemma At.bump?_cons (h : l.At before window (c :: rest)) :
    l.bump? = some (c, l.take c) := by
  have hrest : dropBytes l.position l.input = c :: rest := by
    rw [h.position, ← byteLength_append, h.input, ← List.append_assoc, dropBytes_append]
  rw [bump?, hrest]

/-- A character that is taken joins the window. -/
lemma At.take (h : l.At before window (c :: rest)) :
    (l.take c).At before (window ++ [c]) rest where
  input := by simp [Lexer.take, h.input]
  start := h.start
  position := by simp [Lexer.take, h.position, Nat.add_assoc]

/-! ### Between two calls -/

/-- The window is empty behind `before`, and no backslash is counted that `rest` could follow. -/
structure Ready (l : Lexer) (before rest : List Char) : Prop where
  place : l.At before [] rest
  counted : rest ≠ [] → l.escapes = 0

/-- The lexer between two calls.  It has returned `before`, and `rest` is still to be returned; of
this it may have read a delimiter, which it holds back. -/
inductive Rests (l : Lexer) (marked : Bool) (before : List Char) : List Char → Prop
  | idle {rest : List Char} (ready : l.Ready before rest) (pending : l.pending = none)
      (afterMark : l.afterMark = marked) : Rests l marked before rest
  | holding {d : Char} {rest : List Char} (delimiter : isDelimiter d = true)
      (ready : l.Ready (before ++ [d]) rest)
      (pending : l.pending = some (Token.cut (delimiterKind d) (byteLength before) [d]))
      (afterMark : l.afterMark = markedAfter marked (delimiterKind d)) :
      Rests l marked before (d :: rest)

/-- A call has returned the next token of `cs`, and the lexer rests behind it.  It holds a delimiter
only if the token is a value. -/
inductive Returns (marked : Bool) (before cs : List Char) : Option Token × Lexer → Prop
  | mk {kind : TokenKind} {slice rest : List Char} {l : Lexer}
      (next : NextToken marked cs kind slice rest)
      (rests : l.Rests (markedAfter marked kind) (before ++ slice) rest)
      (held : l.pending ≠ none → kind = .value) :
      Returns marked before cs (some (Token.cut kind (byteLength before) slice), l)

/-! ### Cutting -/

/-- A window is empty behind what was cut. -/
lemma At.ready (h : l.At before window rest) {l' : Lexer} (hinput : l'.input = l.input)
    (hstart : l'.start = l.position) (hposition : l'.position = l.position)
    (hcounted : rest ≠ [] → l'.escapes = 0) : l'.Ready (before ++ window) rest where
  place :=
    { input := by simp [hinput, h.input]
      start := by simp [hstart, h.position]
      position := by simp [hposition, h.position] }
  counted := hcounted

lemma value_eq {slice : List Char} (h : l.input = before ++ (slice ++ rest)) :
    l.value (byteLength before) (byteLength before + byteLength slice) =
      Token.cut .value (byteLength before) slice := by
  rw [value, slice_eq h]
  rfl

/-- A window without escapes is cut as it is. -/
lemma At.cutWindow_eq (h : l.At before window rest) (hplain : unescape window = window)
    (kind : TokenKind) :
    l.cutWindow kind =
      (some (Token.cut kind (byteLength before) window),
        { l with start := l.position, escapes := 0 }) := by
  rw [cutWindow, h.window_eq, h.start, h.position, Token.cut, hplain]

/-- A delimiter that ends the window is one byte of the input. -/
lemma At.delimiter_eq (h : l.At before (window ++ [c]) rest) (hc : isDelimiter c = true)
    (kind : TokenKind) :
    l.position = byteLength (before ++ window) + 1 ∧
      l.delimiter kind = Token.cut kind (byteLength (before ++ window)) [c] := by
  have hsize : c.utf8Size = 1 := by rcases isDelimiter_iff.1 hc with rfl | rfl <;> rfl
  have hplain : unescape [c] = [c] := by rcases isDelimiter_iff.1 hc with rfl | rfl <;> rfl
  have hposition : l.position = byteLength (before ++ window) + 1 := by
    simp [h.position, hsize, Nat.add_assoc]
  have hslice := slice_eq (show l.input = before ++ window ++ ([c] ++ rest) by simp [h.input])
  rw [byteLength_cons, hsize, byteLength_nil, Nat.add_zero] at hslice
  refine ⟨hposition, ?_⟩
  rw [delimiter, hposition, Nat.add_sub_cancel, hslice, Token.cut, hplain, byteLength_cons, hsize,
    byteLength_nil]

/-- A delimiter at the start of a window is cut alone. -/
lemma At.cutDelimiter_nil (h : l.At before [c] rest) (hc : isDelimiter c = true)
    (kind : TokenKind) :
    l.cutDelimiter kind =
      (some (Token.cut kind (byteLength before) [c]), { l with start := l.position }) := by
  have hplace : l.At before ([] ++ [c]) rest := h
  obtain ⟨hposition, hdelimiter⟩ := hplace.delimiter_eq hc kind
  rw [List.append_nil] at hposition hdelimiter
  rw [cutDelimiter, hdelimiter, if_neg (by rw [h.start, hposition]; omega)]

/-- A delimiter behind other text is held back, and the text is a value. -/
lemma At.cutDelimiter_value (h : l.At before (window ++ [c]) rest) (hc : isDelimiter c = true)
    (hne : window ≠ []) (kind : TokenKind) :
    l.cutDelimiter kind =
      (some (Token.cut .value (byteLength before) window),
        { l with
          start := l.position
          pending := some (Token.cut kind (byteLength (before ++ window)) [c]) }) := by
  obtain ⟨hposition, hdelimiter⟩ := h.delimiter_eq hc kind
  have hpos : 0 < byteLength window := byteLength_pos hne
  have hvalue : l.value l.start (l.position - 1) = Token.cut .value (byteLength before) window := by
    rw [h.start, hposition, Nat.add_sub_cancel, byteLength_append]
    exact value_eq (show l.input = before ++ (window ++ c :: rest) by simp [h.input])
  rw [cutDelimiter, hdelimiter, hvalue, if_pos]
  rw [h.start, hposition, Nat.add_sub_cancel, byteLength_append]
  omega

/-! ### Inside a call -/

lemma scan_of_end (h : l.bump? = none) : l.scan = l.finish := by
  unfold Lexer.scan
  split
  · rfl
  · next hbump => rw [h] at hbump; cases hbump

/-- A character that is taken ends the scan or leaves it to go on. -/
lemma scan_of_bump? (h : l.bump? = some (c, w)) :
    l.scan = match w.read c with
      | (some token, next) => (some token, next)
      | (none, grown) => grown.scan := by
  conv => lhs; unfold Lexer.scan
  split
  · next hbump => rw [h] at hbump; cases hbump
  · next hbump =>
    rw [h] at hbump
    obtain ⟨rfl, rfl⟩ := Prod.mk.inj (Option.some.inj hbump)
    split <;> next hread => rw [hread]

/-- The window has begun with the next token and does not hold all of it. -/
structure Growing (l : Lexer) (before window rest : List Char) : Prop where
  place : l.At before window rest
  idle : l.pending = none
  counted : l.escapes = backslashRun window.reverse
  unmarked : window.head? ≠ some '!'
  escaped : Escaped [] window
  plain : l.afterMark = true ∨ NoKeyword window

/-- The test for keywords fails after a mark, and on any other word. -/
lemma not_keyword {text : List Char} (h : marked = true ∨ text ∉ keywords) :
    ¬ ((!marked && (Comparator.ofChars? text).isSome) = true) := by
  rw [Bool.and_eq_true, isSome_ofChars?_iff]
  rintro ⟨hunmarked, hmem⟩
  rcases h with hafter | hnot
  · simp [hafter] at hunmarked
  · exact hnot hmem

/-- A keyword is cut as soon as it is complete. -/
lemma read_of_keyword (hmark : l.window ≠ ['!']) (hunmarked : l.afterMark = false)
    (hkey : l.window ∈ keywords) (c : Char) : l.read c = l.cutWindow .keyword := by
  rw [read, if_neg hmark, if_pos]
  rw [hunmarked, isSome_ofChars?_iff.2 hkey]
  rfl

/-- A delimiter that is not escaped cuts the window. -/
lemma read_of_delimiter (hmark : l.window ≠ ['!'])
    (hkey : l.afterMark = true ∨ l.window ∉ keywords) (hc : isDelimiter c = true)
    (hopen : l.escapes % 2 = 0) :
    l.read c =
      { l with
        escapes := 0
        afterMark := markedAfter l.afterMark (delimiterKind c) : Lexer }.cutDelimiter
          (delimiterKind c) := by
  have hending : l.ending? c = some (delimiterKind c) := by
    rw [ending?, if_neg (by omega)]
    rcases isDelimiter_iff.1 hc with rfl | rfl <;> rfl
  rw [read, if_neg hmark, if_neg (not_keyword hkey), hending]
  rcases isDelimiter_iff.1 hc with rfl | rfl
  · cases hafter : l.afterMark <;> rfl
  · cases hafter : l.afterMark <;> rfl

/-- Any other character stays in the window. -/
lemma read_of_plain (hmark : l.window ≠ ['!'])
    (hkey : l.afterMark = true ∨ l.window ∉ keywords)
    (hc : isDelimiter c = true → l.escapes % 2 = 1) : l.read c = (none, l.count c) := by
  have hending : l.ending? c = none := by
    rw [ending?]
    split
    · rfl
    · next heven =>
      have hplain : ¬ isDelimiter c = true := mt hc heven
      unfold delimiter?
      split <;> first | rfl | exact absurd rfl hplain
  rw [read, if_neg hmark, if_neg (not_keyword hkey), hending]

namespace Growing

/-- A window that is a mark is cut. -/
lemma read_mark (h : l.Growing before [] ('!' :: rest)) :
    Returns l.afterMark before ('!' :: rest) ((l.take '!').read '!') := by
  have hplace := h.place.take
  have hcut := At.cutWindow_eq (l := { l.take '!' with afterMark := true })
    (hplace.congr rfl rfl rfl) rfl .mark
  have hwindow : (l.take '!').window = ['!'] := hplace.window_eq
  rw [Lexer.read, if_pos hwindow, hcut]
  exact .mk (.mark rest) (.idle (hplace.ready rfl rfl rfl fun _ => rfl) h.idle rfl)
    fun hne => absurd h.idle hne

/-- A window that is a keyword is cut, unless it stands behind a mark. -/
lemma read_keyword (h : l.Growing before window (c :: rest)) (hmark : window ++ [c] ≠ ['!'])
    (hunmarked : l.afterMark = false) (hkey : window ++ [c] ∈ keywords) :
    Returns l.afterMark before (window ++ c :: rest) ((l.take c).read c) := by
  have hplace := h.place.take
  have hnext : NextToken l.afterMark (window ++ c :: rest) .keyword (window ++ [c]) rest := by
    simpa using NextToken.keyword hunmarked hkey rest
  have hplain : unescape (window ++ [c]) = window ++ [c] := unescape_keyword _ hkey
  rw [← hplace.window_eq] at hmark hkey
  rw [read_of_keyword hmark hunmarked hkey, hplace.cutWindow_eq hplain]
  exact .mk hnext (.idle (hplace.ready rfl rfl rfl fun _ => rfl) h.idle rfl)
    fun hne => absurd h.idle hne

/-- A delimiter that is not escaped ends the window. -/
lemma read_delimiter (h : l.Growing before window (c :: rest)) (hmark : window ++ [c] ≠ ['!'])
    (hkey : l.afterMark = true ∨ window ++ [c] ∉ keywords) (hc : isDelimiter c = true)
    (hopen : l.escapes % 2 = 0) :
    Returns l.afterMark before (window ++ c :: rest) ((l.take c).read c) := by
  have hplace := h.place.take
  rw [← hplace.window_eq] at hmark hkey
  rw [read_of_delimiter (l := l.take c) hmark hkey hc hopen]
  generalize hl' : ({ l.take c with
    escapes := 0, afterMark := markedAfter (l.take c).afterMark (delimiterKind c) } : Lexer) = l'
  have hplace' : l'.At before (window ++ [c]) rest := hl' ▸ hplace.congr rfl rfl rfl
  have hafter : l'.afterMark = markedAfter l.afterMark (delimiterKind c) := by rw [← hl']; rfl
  have hcounted : l'.escapes = 0 := by rw [← hl']
  by_cases hnil : window = []
  · subst hnil
    rw [hplace'.cutDelimiter_nil hc]
    have hidle : l'.pending = none := by rw [← hl']; exact h.idle
    exact .mk (.delimiter hc rest)
      (.idle (hplace'.ready rfl rfl rfl fun _ => hcounted) hidle hafter) fun hne => absurd hidle hne
  · rw [hplace'.cutDelimiter_value hc hnil]
    have hsettled : Settled window.reverse := by rwa [Settled, ← h.counted]
    have hnext : NextToken l.afterMark (window ++ c :: rest) .value window (c :: rest) :=
      .value ⟨hnil, h.unmarked, h.escaped⟩
        (h.plain.imp_right fun hno => hno.append_delimiter hc rest) ⟨hc, hsettled⟩
    have hready : Ready { l' with
        start := l'.position
        pending := some (Token.cut (delimiterKind c) (byteLength (before ++ window)) [c]) }
        (before ++ window ++ [c]) rest := by
      rw [List.append_assoc]
      exact hplace'.ready rfl rfl rfl fun _ => hcounted
    exact .mk hnext (.holding hc hready rfl hafter) fun _ => rfl

/-- Any other character leaves the window growing. -/
lemma read_plain (h : l.Growing before window (c :: rest)) (hmark : window ++ [c] ≠ ['!'])
    (hkey : l.afterMark = true ∨ window ++ [c] ∉ keywords)
    (hc : isDelimiter c = true → l.escapes % 2 = 1) :
    ∃ grown, (l.take c).read c = (none, grown) ∧ grown.afterMark = l.afterMark ∧
      grown.Growing before (window ++ [c]) rest := by
  have hplace := h.place.take
  have hread : (l.take c).read c = (none, (l.take c).count c) :=
    read_of_plain (by rwa [hplace.window_eq]) (by rwa [hplace.window_eq]) hc
  refine ⟨_, hread, rfl, ?_⟩
  exact
    { place := hplace.congr rfl rfl rfl
      idle := h.idle
      counted := by
        rw [List.reverse_append, List.reverse_singleton, List.singleton_append]
        by_cases hback : c = '\\'
        · subst hback
          rw [backslashRun_backslash, ← h.counted]
          rfl
        · rw [backslashRun_cons _ hback]
          exact if_neg hback
      unmarked := by
        rcases window with _ | ⟨d, window⟩
        · simpa using hmark
        · exact h.unmarked
      escaped := h.escaped.concat (by rwa [List.append_nil, ← h.counted])
      plain := by
        rcases h.plain with hafter | hno
        · exact .inl hafter
        · exact hkey.imp_right hno.concat }

/-- One more character completes the next token, or the window goes on growing. -/
lemma read (h : l.Growing before window (c :: rest)) :
    Returns l.afterMark before (window ++ c :: rest) ((l.take c).read c) ∨
      ∃ grown, (l.take c).read c = (none, grown) ∧ grown.afterMark = l.afterMark ∧
        grown.Growing before (window ++ [c]) rest := by
  by_cases hmark : window ++ [c] = ['!']
  · obtain ⟨rfl, rfl⟩ : window = [] ∧ c = '!' := by
      simpa [List.append_eq_singleton_iff] using hmark
    exact .inl h.read_mark
  by_cases hkey : l.afterMark = true ∨ window ++ [c] ∉ keywords
  · by_cases hopen : isDelimiter c = true ∧ l.escapes % 2 = 0
    · exact .inl (h.read_delimiter hmark hkey hopen.1 hopen.2)
    · refine .inr (h.read_plain hmark hkey fun hc => ?_)
      have hodd := not_and.1 hopen hc
      omega
  · rw [not_or, Bool.not_eq_true, not_not] at hkey
    exact .inl (h.read_keyword hmark hkey.1 hkey.2)

/-- At the end of the input, what is in the window is the last value. -/
lemma finish (h : l.Growing before window []) (hne : window ≠ []) :
    Returns l.afterMark before window l.finish := by
  have hend : byteLength l.input = byteLength before + byteLength window := by
    simp [h.place.input]
  have hpos := byteLength_pos hne
  have hnext : NextToken l.afterMark (window ++ []) .value window [] :=
    .value ⟨hne, h.unmarked, h.escaped⟩ (by rw [List.append_nil]; exact h.plain) trivial
  rw [List.append_nil] at hnext
  rw [Lexer.finish, hend, if_pos (by rw [h.place.start]; omega), h.place.start,
    value_eq h.place.input]
  exact .mk hnext (.idle (h.place.ready rfl h.place.position.symm rfl fun hrest => absurd rfl hrest)
    h.idle rfl) fun hheld => absurd h.idle hheld

/-- A growing window completes the next token.  The induction is on what is still to be read. -/
lemma scan (h : l.Growing before window rest) (hne : window ++ rest ≠ []) :
    Returns l.afterMark before (window ++ rest) l.scan := by
  induction rest generalizing l window with
  | nil =>
    rw [List.append_nil] at hne ⊢
    rw [scan_of_end h.place.bump?_nil]
    exact h.finish hne
  | cons c rest ih =>
    rw [scan_of_bump? h.place.bump?_cons]
    rcases h.read with hreturns | ⟨grown, hread, hafter, hgrown⟩
    · revert hreturns
      generalize (l.take c).read c = found
      rintro ⟨hnext, hrests, hheld⟩
      exact .mk hnext hrests hheld
    · rw [hread, ← hafter]
      have hgrows := ih hgrown (by simp)
      rwa [List.append_assoc] at hgrows

end Growing

/-! ### Calls -/

namespace Rests

/-- Without a delimiter held back, the window begins to grow. -/
lemma growing (h : l.Rests marked before cs) (hidle : l.pending = none) (hcs : cs ≠ []) :
    l.Growing before [] cs ∧ l.afterMark = marked := by
  cases h with
  | idle ready pending afterMark =>
    exact ⟨⟨ready.place, pending, ready.counted hcs, by simp, escaped_nil _,
      .inr (by simp [NoKeyword, keywords])⟩, afterMark⟩
  | holding _ _ pending => simp [hidle] at pending

/-- A lexer that has returned the whole input returns nothing and stays as it is. -/
lemma next_nil (h : l.Rests marked before []) : l.next = (none, l) := by
  cases h with
  | idle ready pending =>
    have hstart : ¬ l.start < byteLength l.input := by
      simp [ready.place.input, ready.place.start]
    rw [next, pending]
    dsimp only
    rw [scan_of_end ready.place.bump?_nil, finish, if_neg hstart]

/-- A call returns the next token. -/
lemma returns_next (h : l.Rests marked before cs) (hcs : cs ≠ []) :
    Returns marked before cs l.next := by
  cases h with
  | idle ready pending afterMark =>
    obtain ⟨hgrowing, -⟩ := (Rests.idle ready pending afterMark).growing pending hcs
    rw [next, pending, ← afterMark]
    exact hgrowing.scan hcs
  | @holding d rest delimiter ready pending afterMark =>
    rw [next, pending]
    exact .mk (.delimiter delimiter rest)
      (.idle ⟨ready.place.congr rfl rfl rfl, ready.counted⟩ rfl afterMark)
      fun hheld => absurd rfl hheld

end Rests

lemma tokens_of_next_none (h : l.next = (none, w)) : l.tokens = [] := by
  rw [tokens]
  split
  · rfl
  · next hnext => simp [h] at hnext

lemma tokens_of_next_some {token : Token} (h : l.next = (some token, w)) :
    l.tokens = token :: w.tokens := by
  rw [tokens]
  split
  · next hnext => simp [h] at hnext
  · next hnext =>
    rw [h] at hnext
    obtain ⟨htoken, rfl⟩ := Prod.mk.inj hnext
    rw [Option.some.inj htoken]

/-- The lexer cuts the tokens that the boundary reader finds. -/
theorem Rests.tokens_eq (h : l.Rests marked before cs) :
    l.tokens = tokensAt (byteLength before) marked cs := by
  induction marked, cs using NextToken.induction generalizing l before with
  | nil marked => rw [tokens_of_next_none h.next_nil, tokensAt]
  | @token marked cs kind slice rest hnext ih =>
    have hreturns := h.returns_next hnext.ne_nil
    generalize hfound : l.next = found at hreturns
    cases hreturns with
    | mk hnext' hrests =>
      obtain ⟨rfl, rfl, rfl⟩ := hnext.unique hnext'
      rw [tokens_of_next_some hfound, hnext.tokensAt_eq, ← byteLength_append, ih hrests]

lemma rests_initial (cs : List Char) : (initial cs).Rests false [] cs :=
  .idle ⟨⟨rfl, rfl, rfl⟩, fun _ => rfl⟩ rfl rfl

end Lexer

/-- The tokens of a query value are those of the boundary reader. -/
lemma tokenize_eq_tokensAt (raw : String) : tokenize raw = tokensAt 0 false raw.toList :=
  (Lexer.rests_initial raw.toList).tokens_eq

/-! ## Scanning a whole query value

`scan` goes through a query value from boundary to boundary and looks ahead at each of them: a mark,
a keyword while no mark has been seen, a delimiter, or else a value up to the next delimiter.  Which
delimiters end a value is judged in the whole text, by the run of backslashes that stands before
them anywhere in it, and every token is written out with its kind, text and place.

`tokenize_eq_scan` says that the lexer, which never looks ahead and judges a delimiter by the
backslashes of its own window, cuts the same tokens.  The two ways to judge agree since no
window is opened behind an odd run of backslashes; this is the invariant `Settled` of
`scanAfter_eq_tokensAt`.
-/

/-- The tokens of `text`, which stands after `before` in a query value.  `marked` says whether a
mark has been seen since the last bar.  The text before is given last character first. -/
def scanAfter (before : List Char) (marked : Bool) (text : List Char) : List Token :=
  let place := byteLength before
  match text with
  | [] => []
  | c :: cs =>
    if c = '!' then ⟨.mark, "!", ⟨place, place + 1⟩⟩ :: scanAfter ('!' :: before) true cs
    else
      match if marked then none else leadingKeyword? (c :: cs) with
      | some word =>
        ⟨.keyword, String.ofList word, ⟨place, place + byteLength word⟩⟩ ::
          scanAfter (word.reverse ++ before) marked (cs.drop (word.length - 1))
      | none =>
        if c = '|' then ⟨.bar, "|", ⟨place, place + 1⟩⟩ :: scanAfter ('|' :: before) false cs
        else if c = ',' then
          ⟨.comma, ",", ⟨place, place + 1⟩⟩ :: scanAfter (',' :: before) marked cs
        else
          let slice := c :: valueSlice (c :: before) cs
          ⟨.value, String.ofList (unescape slice), ⟨place, place + byteLength slice⟩⟩ ::
            scanAfter (slice.reverse ++ before) marked (cs.drop (slice.length - 1))
termination_by text.length
decreasing_by all_goals simp only [List.length_drop, List.length_cons]; omega

/-- The tokens of a query value, found by looking ahead from each boundary. -/
def scan (raw : String) : List Token :=
  scanAfter [] false raw.toList

/-- Behind a settled place the scanner finds the next token, as the boundary reader does. -/
lemma scanAfter_of_nextToken {before cs slice rest : List Char} {marked : Bool} {kind : TokenKind}
    (hbefore : Settled before) (h : NextToken marked cs kind slice rest) :
    scanAfter before marked cs =
      Token.cut kind (byteLength before) slice ::
        scanAfter (slice.reverse ++ before) (markedAfter marked kind) rest := by
  cases h with
  | mark rest =>
    rw [scanAfter, if_pos rfl]
    rfl
  | keyword unmarked known rest =>
    obtain ⟨c, cs, rfl, hmark, -⟩ := keyword_head known
    have hfound := leadingKeyword?_append known rest
    have htext : unescape (c :: cs) = c :: cs := unescape_keyword _ known
    rw [List.cons_append] at hfound
    rw [unmarked, List.cons_append, scanAfter, if_neg hmark]
    simp [hfound, Token.cut, htext, markedAfter]
  | bar rest =>
    have hkey : leadingKeyword? ('|' :: rest) = none := by simp [leadingKeyword?, keywords]
    rw [scanAfter, hkey, ite_self]
    rfl
  | comma rest =>
    have hkey : leadingKeyword? (',' :: rest) = none := by simp [leadingKeyword?, keywords]
    rw [scanAfter, hkey, ite_self]
    rfl
  | value isSlice plain stops =>
    -- The whole text before the value and the value itself count the same backslashes.
    have hslice := (isSlice_iff_of_settled hbefore _).2 isSlice
    rw [← stops_append_iff hbefore] at stops
    obtain ⟨c, cs, rfl⟩ := List.exists_cons_of_ne_nil isSlice.ne_nil
    have hmark : c ≠ '!' := by simpa using isSlice.unmarked
    have hdel := NextToken.isDelimiter_head_of_isSlice isSlice
    have hbar : c ≠ '|' := by rintro rfl; exact absurd hdel (by decide)
    have hcomma : c ≠ ',' := by rintro rfl; exact absurd hdel (by decide)
    have hvalue : valueSlice (c :: before) (cs ++ rest) = cs :=
      valueSlice_append (escaped_cons.1 hslice.escaped).2 (by simpa using stops)
    rw [List.cons_append] at plain ⊢
    rw [scanAfter, keywordSearch_eq_none plain]
    simp only [if_neg hmark, if_neg hbar, if_neg hcomma, hvalue, List.length_cons,
      Nat.add_sub_cancel, List.drop_left]
    rfl

/-- Behind a settled place the scanner finds the tokens that the boundary reader finds there. -/
lemma scanAfter_eq_tokensAt {before : List Char} (marked : Bool) (cs : List Char)
    (h : cs ≠ [] → Settled before) :
    scanAfter before marked cs = tokensAt (byteLength before) marked cs := by
  induction marked, cs using NextToken.induction generalizing before with
  | nil marked => rw [scanAfter, tokensAt]
  | @token marked cs kind slice rest hnext ih =>
    have hbefore : Settled before := h hnext.ne_nil
    rw [scanAfter_of_nextToken hbefore hnext, ih (hnext.settled_behind hbefore), hnext.tokensAt_eq,
      byteLength_append, byteLength_reverse, Nat.add_comm (byteLength slice)]

/-- The lexer cuts a query value into the tokens that the scanner finds in it. -/
theorem tokenize_eq_scan (raw : String) : tokenize raw = scan raw := by
  have hstart : raw.toList ≠ [] → Settled [] := fun _ => settled_nil
  calc tokenize raw = tokensAt (byteLength []) false raw.toList := tokenize_eq_tokensAt raw
    _ = scan raw := (scanAfter_eq_tokensAt false raw.toList hstart).symm

example : scan "eq!a\\|b,is|like" =
    [⟨.keyword, "eq", ⟨0, 2⟩⟩, ⟨.mark, "!", ⟨2, 3⟩⟩, ⟨.value, "a|b", ⟨3, 7⟩⟩,
      ⟨.comma, ",", ⟨7, 8⟩⟩, ⟨.value, "is", ⟨8, 10⟩⟩, ⟨.bar, "|", ⟨10, 11⟩⟩,
      ⟨.keyword, "like", ⟨11, 15⟩⟩] := by
  decide +kernel

end QueryFilter
