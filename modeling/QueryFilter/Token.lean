import QueryFilter.Text
import QueryFilter.Vocabulary

/-!
# Tokens

A query value is cut into tokens, and the texts of tokens are freed from escapes.
-/

namespace QueryFilter

/-! ## Escapes

A backslash takes the meaning from the character after it.  `unescape` reads the pairs from left to
right, drops the backslash of each and keeps the character; a backslash with nothing after it is
dropped.  `escape` writes a text in which no character has a meaning, and `unescape` undoes it.
-/

/-- The text that remains when every escaping backslash is dropped. -/
def unescape : List Char → List Char
  | [] => []
  | ['\\'] => []
  | '\\' :: c :: cs => c :: unescape cs
  | c :: cs => c :: unescape cs

/-- The characters with a meaning inside a group: the mark, the delimiters and the backslash. -/
def isSpecial (c : Char) : Bool :=
  c == '!' || c == '|' || c == ',' || c == '\\'

/-- The text with a backslash before each special character. -/
def escape : List Char → List Char
  | [] => []
  | c :: cs => if isSpecial c then '\\' :: c :: escape cs else c :: escape cs

@[simp] theorem unescape_nil : unescape [] = [] := rfl

/-- A pair contributes its second character. -/
@[simp] theorem unescape_pair (c : Char) (cs : List Char) :
    unescape ('\\' :: c :: cs) = c :: unescape cs := by
  simp [unescape]

/-- A character other than the backslash stands for itself. -/
theorem unescape_cons {c : Char} (cs : List Char) (h : c ≠ '\\') :
    unescape (c :: cs) = c :: unescape cs := by
  cases cs <;> simp [unescape, h]

@[simp] theorem unescape_escape (cs : List Char) : unescape (escape cs) = cs := by
  induction cs with
  | nil => rfl
  | cons c cs ih =>
    by_cases h : isSpecial c = true
    · simp [escape, h, ih]
    · have hc : c ≠ '\\' := by
        rintro rfl
        exact h rfl
      simp [escape, h, unescape_cons _ hc, ih]

/-! ## Tokens

A query value is a sequence of tokens: comparator keywords, the mark `!` that ends a keyword, the
delimiters `|` and `,`, and values.  A token keeps the place it was cut from, as a range of byte
offsets, beside its text, in which escapes are already resolved.
-/

/-- The kind of a token.  `stop` stands for the end of the input and is never cut from it. -/
inductive TokenKind where
  | mark
  | bar
  | comma
  | keyword
  | value
  | stop
  deriving DecidableEq, Repr, Inhabited

/-- What a message calls a token of this kind. -/
def TokenKind.title : TokenKind → String
  | .mark => "`!`"
  | .bar => "`|`"
  | .comma => "`,`"
  | .keyword => "comparator"
  | .value => "value"
  | .stop => "end of input"

/-- A half-open range of byte offsets in a query value. -/
structure Span where
  start : Nat
  stop : Nat
  deriving DecidableEq, Repr, Inhabited

/-- A lexical unit of a query value. -/
structure Token where
  kind : TokenKind
  text : String
  span : Span
  deriving DecidableEq, Repr, Inhabited

namespace Token

/-- The token cut from `slice`, which begins at byte `start`.  Its text has the escapes resolved. -/
def cut (kind : TokenKind) (start : Nat) (slice : List Char) : Token where
  kind := kind
  text := String.ofList (unescape slice)
  span := ⟨start, start + byteLength slice⟩

/-- The token that stands for the end of an input of `length` bytes. -/
def endOfInput (length : Nat) : Token where
  kind := .stop
  text := ""
  span := ⟨length, length⟩

/-- How a message describes a token that it did not expect. -/
def describe (t : Token) : String :=
  match t.kind with
  | .stop => TokenKind.stop.title
  | kind => kind.title ++ " `" ++ t.text ++ "`"

@[simp] theorem cut_span (kind : TokenKind) (start : Nat) (slice : List Char) :
    (cut kind start slice).span = ⟨start, start + byteLength slice⟩ := rfl

@[simp] theorem cut_text_toList (kind : TokenKind) (start : Nat) (slice : List Char) :
    (cut kind start slice).text.toList = unescape slice := by
  simp [cut]

end Token

/-! ## Cutting a query value into tokens

A lexer returns the tokens of a query value one by one.  Its window grows over the input by one
character at a time and is cut when it is the mark, a comparator keyword, or ends with a delimiter
that is not escaped.  What is left at the end is the last value.

Two things besides the window decide the next cut.  After a mark, and until the next bar, keywords
are plain text.  And a delimiter is plain text when the run of backslashes before it has odd length.

A delimiter that ends a value is a token too.  It is held back until the value has been returned.
-/

/-- The state of a lexer.  Places are counted in bytes of the input. -/
structure Lexer where
  /-- The query value. -/
  input : List Char
  /-- Where the window begins. -/
  start : Nat
  /-- Where the window ends. -/
  position : Nat
  /-- Whether a mark has been seen since the last bar. -/
  afterMark : Bool
  /-- The number of backslashes that end the window. -/
  escapes : Nat
  /-- The delimiter to be returned after the value in front of it. -/
  pending : Option Token
  deriving DecidableEq, Repr

namespace Lexer

/-- The lexer before anything has been read. -/
def initial (input : List Char) : Lexer :=
  ⟨input, 0, 0, false, 0, none⟩

/-- The text between two places. -/
def slice (l : Lexer) (start stop : Nat) : List Char :=
  takeBytes (stop - start) (dropBytes start l.input)

/-- The text read since the last cut. -/
def window (l : Lexer) : List Char :=
  l.slice l.start l.position

/-- Let the window grow by the character behind it. -/
def take (l : Lexer) (c : Char) : Lexer :=
  { l with position := l.position + c.utf8Size }

/-- Take the next character into the window. -/
def bump? (l : Lexer) : Option (Char × Lexer) :=
  match dropBytes l.position l.input with
  | [] => none
  | c :: _ => some (c, l.take c)

/-- The value between two places. -/
def value (l : Lexer) (start stop : Nat) : Token where
  kind := .value
  text := String.ofList (unescape (l.slice start stop))
  span := ⟨start, stop⟩

/-- The delimiter that ends the window. -/
def delimiter (l : Lexer) (kind : TokenKind) : Token where
  kind := kind
  text := String.ofList (l.slice (l.position - 1) l.position)
  span := ⟨l.position - 1, l.position⟩

/-- Cut the whole window. -/
def cutWindow (l : Lexer) (kind : TokenKind) : Option Token × Lexer :=
  (some ⟨kind, String.ofList l.window, ⟨l.start, l.position⟩⟩,
    { l with start := l.position, escapes := 0 })

/-- Cut the window in front of the delimiter that ends it.  If there is a value, it comes first. -/
def cutDelimiter (l : Lexer) (kind : TokenKind) : Option Token × Lexer :=
  if l.start < l.position - 1 then
    (some (l.value l.start (l.position - 1)),
      { l with start := l.position, pending := some (l.delimiter kind) })
  else (some (l.delimiter kind), { l with start := l.position })

/-- The kind of a delimiter. -/
def delimiter? : Char → Option TokenKind
  | '|' => some .bar
  | ',' => some .comma
  | _ => none

/-- The kind of the delimiter `c`, if it ends the window. -/
def ending? (l : Lexer) (c : Char) : Option TokenKind :=
  if l.escapes % 2 = 1 then none else delimiter? c

/-- Count the backslashes that end the window, the last character of which is `c`. -/
def count (l : Lexer) (c : Char) : Lexer :=
  { l with escapes := if c = '\\' then l.escapes + 1 else 0 }

/-- Cut the window, or let it grow, after it has taken the character `c`. -/
def read (l : Lexer) (c : Char) : Option Token × Lexer :=
  if l.window = ['!'] then { l with afterMark := true }.cutWindow .mark
  else if !l.afterMark && (Comparator.ofChars? l.window).isSome then l.cutWindow .keyword
  else
    match l.ending? c with
    | some kind =>
      { l.count c with afterMark := l.afterMark && kind != TokenKind.bar }.cutDelimiter kind
    | none => (none, l.count c)

/-- Return what is left in the window at the end of the input. -/
def finish (l : Lexer) : Option Token × Lexer :=
  if l.start < byteLength l.input then
    (some (l.value l.start (byteLength l.input)), { l with start := byteLength l.input })
  else (none, l)

/-! ### Termination -/

/-- A character that is taken lies in the input, in front of the new end of the window. -/
theorem of_bump?_eq_some {l w : Lexer} {c : Char} (h : l.bump? = some (c, w)) :
    l.position < byteLength l.input ∧ w = l.take c := by
  unfold bump? at h
  split at h
  · cases h
  · next hrest =>
    obtain ⟨rfl, rfl⟩ := Prod.mk.inj (Option.some.inj h)
    refine ⟨Nat.lt_of_not_le fun hle => ?_, rfl⟩
    rw [dropBytes_eq_nil hle] at hrest
    cases hrest

@[simp] theorem cutWindow_input (l : Lexer) (kind : TokenKind) :
    (l.cutWindow kind).2.input = l.input := rfl

@[simp] theorem cutWindow_position (l : Lexer) (kind : TokenKind) :
    (l.cutWindow kind).2.position = l.position := rfl

@[simp] theorem cutDelimiter_input (l : Lexer) (kind : TokenKind) :
    (l.cutDelimiter kind).2.input = l.input := by
  unfold cutDelimiter
  split <;> rfl

@[simp] theorem cutDelimiter_position (l : Lexer) (kind : TokenKind) :
    (l.cutDelimiter kind).2.position = l.position := by
  unfold cutDelimiter
  split <;> rfl

@[simp] theorem read_input (l : Lexer) (c : Char) : (l.read c).2.input = l.input := by
  unfold read
  split
  · simp
  · split
    · simp
    · split <;> simp [count]

@[simp] theorem read_position (l : Lexer) (c : Char) : (l.read c).2.position = l.position := by
  unfold read
  split
  · simp
  · split
    · simp
    · split <;> simp [count]

/-- Each character that is taken leaves fewer bytes to read. -/
theorem unread_read_lt {l w : Lexer} {c : Char} (h : l.bump? = some (c, w)) :
    byteLength (w.read c).2.input - (w.read c).2.position < byteLength l.input - l.position := by
  obtain ⟨hlt, rfl⟩ := of_bump?_eq_some h
  have hpos := c.utf8Size_pos
  rw [read_input, read_position]
  dsimp only [take]
  omega

/-- Take characters until a token is cut or the input ends. -/
@[semireducible] def scan (l : Lexer) : Option Token × Lexer :=
  match _ : l.bump? with
  | none => l.finish
  | some (c, w) =>
    match _ : w.read c with
    | (some token, next) => (some token, next)
    | (none, grown) => scan grown
termination_by byteLength l.input - l.position
decreasing_by
  next hbump hread =>
  have hlt := unread_read_lt hbump
  rwa [hread] at hlt

/-- The next token and the lexer after it. -/
def next (l : Lexer) : Option Token × Lexer :=
  match l.pending with
  | some token => (some token, { l with pending := none })
  | none => l.scan

/-- A bound on what is still to be returned: the bytes to read, the window and the delimiter that is
held back. -/
def weight (l : Lexer) : Nat :=
  3 * (byteLength l.input - l.position) + (if l.start < byteLength l.input then 1 else 0) +
    l.pending.toList.length

theorem weight_le (l : Lexer) : l.weight ≤ 3 * (byteLength l.input - l.position) + 2 := by
  have hpending : l.pending.toList.length ≤ 1 := by cases l.pending <;> simp
  unfold weight
  split <;> omega

/-- Taking a character makes the lexer lighter, whether or not it cuts a token. -/
theorem weight_read_lt {l w : Lexer} {c : Char} (h : l.bump? = some (c, w)) :
    (w.read c).2.weight < l.weight := by
  have hunread := unread_read_lt h
  have hle := (w.read c).2.weight_le
  have hge : 3 * (byteLength l.input - l.position) ≤ l.weight := by
    unfold weight
    omega
  omega

/-- A lexer that returns a token becomes lighter. -/
theorem weight_scan_lt {l l' : Lexer} {token : Token} (h : l.scan = (some token, l')) :
    l'.weight < l.weight := by
  fun_induction scan l with
  | case1 l hend =>
    unfold finish at h
    split at h
    · next hlt =>
      obtain ⟨-, rfl⟩ := Prod.mk.inj h
      simp [weight, hlt]
    · cases h
  | case2 l c w hbump found next hread =>
    have hlt := weight_read_lt hbump
    rw [hread] at hlt
    obtain ⟨-, rfl⟩ := Prod.mk.inj h
    exact hlt
  | case3 l c w hbump grown hread ih =>
    have hlt := weight_read_lt hbump
    rw [hread] at hlt
    exact Nat.lt_trans (ih h) hlt

theorem weight_next_lt {l l' : Lexer} {token : Token} (h : l.next = (some token, l')) :
    l'.weight < l.weight := by
  unfold next at h
  split at h
  · next hpending =>
    obtain ⟨-, rfl⟩ := Prod.mk.inj h
    simp [weight, hpending]
  · exact weight_scan_lt h

/-- The tokens that the lexer has still to return. -/
@[semireducible] def tokens (l : Lexer) : List Token :=
  match _ : l.next with
  | (none, _) => []
  | (some token, next) => token :: tokens next
termination_by l.weight
decreasing_by exact weight_next_lt ‹_›

end Lexer

/-- The tokens of a query value. -/
def tokenize (raw : String) : List Token :=
  (Lexer.initial raw.toList).tokens

end QueryFilter
