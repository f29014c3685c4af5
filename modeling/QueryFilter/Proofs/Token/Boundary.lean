import Mathlib.Tactic.Common
import QueryFilter.Token

/-!
# Tokens by their boundaries

The tokens of a text are found here from where each one begins, and what stands at such a boundary
is described without any search.
-/

namespace QueryFilter

/-! ## The boundary reader

The tokens of a query value, found from where each one begins.  At every boundary the next token is
decided by what stands there: a mark, a keyword while no mark has been seen, a delimiter, or else a
value, which reaches to the next delimiter that is preceded by an even number of backslashes.
-/

/-- The number of backslashes at the end of a text that is given last character first. -/
def backslashRun (before : List Char) : Nat :=
  (before.takeWhile (· == '\\')).length

/-- The delimiters of a query value. -/
def isDelimiter (c : Char) : Bool :=
  c == '|' || c == ','

/-- The characters up to the next delimiter that follows an even run of backslashes.  The text
before them is given last character first. -/
def valueSlice (before : List Char) : List Char → List Char
  | [] => []
  | c :: cs =>
    if isDelimiter c && backslashRun before % 2 == 0 then [] else c :: valueSlice (c :: before) cs

/-- The keywords, as runs of characters. -/
def keywords : List (List Char) :=
  [['e', 'q'], ['l', 't'], ['g', 't'], ['l', 'e'], ['g', 'e'], ['l', 'i', 'k', 'e'], ['l', 'k'],
    ['i', 's']]

/-- The keyword with which a text starts. -/
def leadingKeyword? (cs : List Char) : Option (List Char) :=
  keywords.find? (·.isPrefixOf cs)

/-- The kind and the slice of the token at a boundary before `c :: cs`. -/
def boundaryToken (marked : Bool) (c : Char) (cs : List Char) : TokenKind × List Char :=
  if c = '!' then (.mark, [c])
  else
    match if marked then none else leadingKeyword? (c :: cs) with
    | some word => (.keyword, word)
    | none =>
      if c = '|' then (.bar, [c])
      else if c = ',' then (.comma, [c])
      else (.value, c :: valueSlice [c] cs)

/-- Whether a mark has been seen since the last bar, after a token of this kind. -/
def markedAfter (marked : Bool) : TokenKind → Bool
  | .mark => true
  | .bar => false
  | _ => marked

theorem ne_nil_of_mem_keywords {word : List Char} (h : word ∈ keywords) : word ≠ [] := by
  rintro rfl
  simp [keywords] at h

/-- The token at a boundary is not empty. -/
theorem boundaryToken_ne_nil (marked : Bool) (c : Char) (cs : List Char) :
    (boundaryToken marked c cs).2 ≠ [] := by
  unfold boundaryToken
  split
  · simp
  · split
    · next word h =>
      refine ne_nil_of_mem_keywords ?_
      split at h
      · simp at h
      · exact List.mem_of_find?_eq_some h
    · split
      · simp
      · split <;> simp

/-- The tokens of a text that begins at byte `offset`, read boundary by boundary. -/
def tokensAt (offset : Nat) (marked : Bool) : List Char → List Token
  | [] => []
  | c :: cs =>
    let found := boundaryToken marked c cs
    Token.cut found.1 offset found.2 ::
      tokensAt (offset + byteLength found.2) (markedAfter marked found.1)
        ((c :: cs).drop found.2.length)
termination_by cs => cs.length
decreasing_by
  have := List.length_pos_iff.2 (boundaryToken_ne_nil marked c cs)
  simp only [List.length_drop, List.length_cons]
  omega

/-! ## What stands at a boundary

The boundary reader decides by one character and a search for keywords what the next token is.
`NextToken` says the same without any search: it relates the text at a boundary to the kind and the
slice of its first token and to the rest of the text.

A text that is not empty has exactly one next token.  `NextToken.exists_of_ne_nil` finds it and
`NextToken.tokensAt_eq` shows that the boundary reader takes it, so every statement about the tokens
of a text can be proved by cases on `NextToken`.

All texts that stand *before* a place are given last character first, as in `backslashRun`.
-/

/-! ### Runs of backslashes -/

@[simp] lemma backslashRun_nil : backslashRun [] = 0 := rfl

@[simp] lemma backslashRun_backslash (before : List Char) :
    backslashRun ('\\' :: before) = backslashRun before + 1 := by
  simp [backslashRun]

/-- A character other than the backslash ends a run of backslashes. -/
lemma backslashRun_cons {c : Char} (before : List Char) (h : c ≠ '\\') :
    backslashRun (c :: before) = 0 := by
  simp [backslashRun, h]

/-- An even run of backslashes before a text does not count towards the parity behind it. -/
lemma backslashRun_append_mod_two {before : List Char} (h : backslashRun before % 2 = 0)
    (cs : List Char) : backslashRun (cs ++ before) % 2 = backslashRun cs % 2 := by
  induction cs with
  | nil => exact h
  | cons c cs ih =>
    by_cases hc : c = '\\'
    · subst hc
      rw [List.cons_append, backslashRun_backslash, backslashRun_backslash]
      omega
    · rw [List.cons_append, backslashRun_cons _ hc, backslashRun_cons _ hc]

lemma isDelimiter_iff {c : Char} : isDelimiter c = true ↔ c = '|' ∨ c = ',' := by
  simp [isDelimiter]

/-- The kind of a delimiter character. -/
def delimiterKind (c : Char) : TokenKind :=
  if c = '|' then .bar else .comma

/-! ### Slices of values -/

/-- Every delimiter of `slice`, which stands after `before`, is escaped: an odd number of
backslashes stands right before it. -/
def Escaped (before slice : List Char) : Prop :=
  ∀ a c b, slice = a ++ c :: b → isDelimiter c = true →
    backslashRun (a.reverse ++ before) % 2 = 1

/-- The place after `before` is not inside an escaping pair. -/
def Settled (before : List Char) : Prop :=
  backslashRun before % 2 = 0

instance (before : List Char) : Decidable (Settled before) :=
  inferInstanceAs (Decidable (_ = _))

/-- Nothing follows after `before`, or a delimiter that is not escaped. -/
def Stops (before : List Char) : List Char → Prop
  | [] => True
  | d :: _ => isDelimiter d = true ∧ Settled before

/-- The slice of a value that stands after `before`: it is not empty, does not start with a mark,
and all its delimiters are escaped. -/
structure IsSlice (before slice : List Char) : Prop where
  ne_nil : slice ≠ []
  unmarked : slice.head? ≠ some '!'
  escaped : Escaped before slice

lemma escaped_nil (before : List Char) : Escaped before [] := by
  intro a c b h
  simp at h

/-- The first character of an escaped text is read before the others. -/
lemma escaped_cons {before cs : List Char} {c : Char} :
    Escaped before (c :: cs) ↔
      (isDelimiter c = true → backslashRun before % 2 = 1) ∧ Escaped (c :: before) cs := by
  constructor
  · intro h
    refine ⟨fun hc => h [] c cs rfl hc, fun a d b hcs hd => ?_⟩
    have := h (c :: a) d b (by rw [hcs, List.cons_append]) hd
    simpa using this
  · rintro ⟨hc, hcs⟩ a d b h hd
    rcases a with _ | ⟨x, a⟩
    · obtain ⟨rfl, -⟩ := List.cons.inj h
      exact hc hd
    · rw [List.cons_append] at h
      obtain ⟨rfl, htail⟩ := List.cons.inj h
      simpa using hcs a d b htail hd

/-- At a settled place, delimiters are judged inside the slice alone. -/
lemma escaped_iff_of_settled {before : List Char} (h : Settled before) (slice : List Char) :
    Escaped before slice ↔ Escaped [] slice := by
  simp only [Escaped, backslashRun_append_mod_two h, List.append_nil]

lemma settled_nil : Settled [] := rfl

/-- The place behind a character other than the backslash is settled. -/
lemma settled_cons {c : Char} (before : List Char) (h : c ≠ '\\') : Settled (c :: before) := by
  rw [Settled, backslashRun_cons before h]

/-- After an escaping pair the run of backslashes is even again. -/
lemma settled_pair {before : List Char} (h : Settled before) (c : Char) :
    Settled (c :: '\\' :: before) := by
  by_cases hc : c = '\\'
  · subst hc
    rw [Settled] at h ⊢
    rw [backslashRun_backslash, backslashRun_backslash]
    omega
  · exact settled_cons _ hc

/-- A backslash at a settled place opens an escaping pair, and one at another place closes one. -/
lemma settled_backslash_iff (before : List Char) :
    Settled ('\\' :: before) ↔ ¬ Settled before := by
  rw [Settled, Settled, backslashRun_backslash]
  omega

lemma settled_append_iff {before : List Char} (h : Settled before) (cs : List Char) :
    Settled (cs ++ before) ↔ Settled cs := by
  rw [Settled, Settled, backslashRun_append_mod_two h]

lemma stops_append_iff {before : List Char} (h : Settled before) (cs rest : List Char) :
    Stops (cs ++ before) rest ↔ Stops cs rest := by
  rcases rest with _ | ⟨d, rest⟩
  · exact Iff.rfl
  · exact and_congr_right fun _ => settled_append_iff h cs

lemma isSlice_iff_of_settled {before : List Char} (h : Settled before) (slice : List Char) :
    IsSlice before slice ↔ IsSlice [] slice := by
  constructor
  · rintro ⟨hne, hmark, hesc⟩
    exact ⟨hne, hmark, (escaped_iff_of_settled h slice).1 hesc⟩
  · rintro ⟨hne, hmark, hesc⟩
    exact ⟨hne, hmark, (escaped_iff_of_settled h slice).2 hesc⟩

/-- The reader of values takes escaped delimiters only. -/
lemma escaped_valueSlice (before cs : List Char) : Escaped before (valueSlice before cs) := by
  induction cs generalizing before with
  | nil => exact escaped_nil before
  | cons c cs ih =>
    rw [valueSlice]
    split
    · exact escaped_nil before
    · next h =>
      refine escaped_cons.2 ⟨fun hc => ?_, ih (c :: before)⟩
      simp only [hc, Bool.true_and, beq_iff_eq] at h
      omega

/-- The reader of values stops at the first delimiter that is not escaped. -/
lemma exists_valueSlice_append (before cs : List Char) :
    ∃ rest, cs = valueSlice before cs ++ rest ∧
      Stops ((valueSlice before cs).reverse ++ before) rest := by
  induction cs generalizing before with
  | nil => exact ⟨[], rfl, trivial⟩
  | cons c cs ih =>
    rw [valueSlice]
    split
    · next h =>
      rw [Bool.and_eq_true, beq_iff_eq] at h
      exact ⟨c :: cs, rfl, h⟩
    · obtain ⟨rest, hcs, hrest⟩ := ih (c :: before)
      refine ⟨rest, ?_, ?_⟩
      · rw [List.cons_append, ← hcs]
      · simpa using hrest

/-- A text that stops after escaped delimiters is read up to there. -/
lemma valueSlice_append {before slice rest : List Char} (hs : Escaped before slice)
    (hr : Stops (slice.reverse ++ before) rest) : valueSlice before (slice ++ rest) = slice := by
  induction slice generalizing before with
  | nil =>
    rcases rest with _ | ⟨d, rest⟩
    · rfl
    · obtain ⟨hd, hset⟩ := hr
      rw [List.nil_append, valueSlice, if_pos]
      rw [Bool.and_eq_true, beq_iff_eq]
      exact ⟨hd, hset⟩
  | cons c slice ih =>
    obtain ⟨hc, hslice⟩ := escaped_cons.1 hs
    rw [List.cons_append, valueSlice, if_neg, ih hslice (by simpa using hr)]
    rw [Bool.and_eq_true, beq_iff_eq]
    rintro ⟨hd, heven⟩
    have := hc hd
    omega

/-! ### Keywords -/

/-- No keyword starts the text. -/
def NoKeyword (cs : List Char) : Prop :=
  ∀ word ∈ keywords, ¬ word <+: cs

lemma leadingKeyword?_eq_none_iff {cs : List Char} : leadingKeyword? cs = none ↔ NoKeyword cs := by
  simp [leadingKeyword?, NoKeyword, List.find?_eq_none]

/-- After a mark, and where no keyword starts the text, none is found. -/
lemma keywordSearch_eq_none {marked : Bool} {cs : List Char} (h : marked = true ∨ NoKeyword cs) :
    (if marked then none else leadingKeyword? cs) = none := by
  rcases h with rfl | hplain
  · rfl
  · rw [leadingKeyword?_eq_none_iff.2 hplain, ite_self]

/-- No keyword starts another one. -/
lemma keyword_eq_of_isPrefix :
    ∀ word ∈ keywords, ∀ word' ∈ keywords, word <+: word' → word = word' := by
  decide

/-- At most one keyword starts a text, and the search finds it. -/
lemma leadingKeyword?_append {word : List Char} (h : word ∈ keywords) (rest : List Char) :
    leadingKeyword? (word ++ rest) = some word := by
  cases hfind : leadingKeyword? (word ++ rest) with
  | none => exact absurd (List.prefix_append word rest) (leadingKeyword?_eq_none_iff.1 hfind word h)
  | some found =>
    have hmem : found ∈ keywords := List.mem_of_find?_eq_some hfind
    have hpre : found <+: word ++ rest := by
      simpa using List.find?_some hfind
    rcases List.prefix_or_prefix_of_prefix hpre (List.prefix_append word rest) with hp | hp
    · rw [keyword_eq_of_isPrefix found hmem word h hp]
    · rw [keyword_eq_of_isPrefix word h found hmem hp]

/-- A keyword has a first character, which is neither a mark nor a delimiter nor a backslash. -/
lemma keyword_head {word : List Char} (h : word ∈ keywords) :
    ∃ c cs, word = c :: cs ∧ c ≠ '!' ∧ isDelimiter c = false ∧ c ≠ '\\' := by
  have hall : ∀ w ∈ keywords, ∃ c, w.head? = some c ∧ c ≠ '!' ∧ isDelimiter c = false ∧
      c ≠ '\\' := by
    simp [keywords, isDelimiter]
  obtain ⟨c, hc, hprops⟩ := hall word h
  obtain ⟨cs, rfl⟩ := List.head?_eq_some_iff.1 hc
  exact ⟨c, cs, rfl, hprops⟩

/-- A keyword has no delimiters. -/
lemma isDelimiter_eq_false_of_mem : ∀ word ∈ keywords, ∀ c ∈ word, isDelimiter c = false := by
  simp [keywords, isDelimiter]

/-- A delimiter behind a text completes no keyword at its start. -/
lemma NoKeyword.append_delimiter {cs : List Char} {d : Char} (h : NoKeyword cs)
    (hd : isDelimiter d = true) (ds : List Char) : NoKeyword (cs ++ d :: ds) := by
  rintro word known ⟨more, heq⟩
  apply h word known
  rcases List.append_eq_append_iff.1 heq with ⟨more', hcs, -⟩ | ⟨last, rfl, hlast⟩
  · exact ⟨more', hcs.symm⟩
  · rcases last with _ | ⟨e, last⟩
    · exact ⟨[], by simp⟩
    · obtain ⟨rfl, -⟩ := List.cons.inj hlast
      have hno := isDelimiter_eq_false_of_mem _ known d (by simp)
      simp [hd] at hno

/-- A keyword has no escapes. -/
lemma unescape_keyword : ∀ word ∈ keywords, unescape word = word := by
  decide

/-! ### The next token -/

/-- The text at a boundary, the kind and the slice of its first token, and the rest.  `marked` says
whether a mark has been seen since the last bar. -/
inductive NextToken (marked : Bool) : List Char → TokenKind → List Char → List Char → Prop
  | mark (rest : List Char) : NextToken marked ('!' :: rest) .mark ['!'] rest
  | keyword {word : List Char} (unmarked : marked = false) (known : word ∈ keywords)
      (rest : List Char) : NextToken marked (word ++ rest) .keyword word rest
  | bar (rest : List Char) : NextToken marked ('|' :: rest) .bar ['|'] rest
  | comma (rest : List Char) : NextToken marked (',' :: rest) .comma [','] rest
  | value {slice rest : List Char} (isSlice : IsSlice [] slice)
      (plain : marked = true ∨ NoKeyword (slice ++ rest)) (stops : Stops slice.reverse rest) :
      NextToken marked (slice ++ rest) .value slice rest

namespace NextToken

variable {marked : Bool} {cs slice rest : List Char} {kind : TokenKind}

/-- A delimiter at a boundary is a token of its own. -/
lemma delimiter {c : Char} (h : isDelimiter c = true) (rest : List Char) :
    NextToken marked (c :: rest) (delimiterKind c) [c] rest := by
  rcases isDelimiter_iff.1 h with rfl | rfl
  · exact .bar rest
  · exact .comma rest

/-- A text splits into its first token and the rest. -/
lemma eq_append (h : NextToken marked cs kind slice rest) : cs = slice ++ rest := by
  cases h <;> simp

lemma slice_ne_nil (h : NextToken marked cs kind slice rest) : slice ≠ [] := by
  cases h with
  | keyword _ known => exact ne_nil_of_mem_keywords known
  | value isSlice => exact isSlice.ne_nil
  | mark | bar | comma => exact List.cons_ne_nil _ _

/-- The rest is shorter than the text. -/
lemma length_rest_lt (h : NextToken marked cs kind slice rest) : rest.length < cs.length := by
  have hpos := List.length_pos_iff.2 h.slice_ne_nil
  rw [h.eq_append, List.length_append]
  omega

lemma ne_nil (h : NextToken marked cs kind slice rest) : cs ≠ [] := by
  rintro rfl
  exact absurd h.length_rest_lt (Nat.not_lt_zero _)

/-- What follows a token does not start inside an escaping pair. -/
lemma settled_of_ne_nil (h : NextToken marked cs kind slice rest) (hrest : rest ≠ []) :
    Settled slice.reverse := by
  cases h with
  | mark | bar | comma => rfl
  | keyword _ known =>
    have hall : ∀ w ∈ keywords, backslashRun w.reverse % 2 = 0 := by decide
    exact hall slice known
  | value _ _ stops =>
    obtain ⟨d, more, rfl⟩ := List.exists_cons_of_ne_nil hrest
    exact stops.2

/-- Behind a settled place the rest of a text is settled again. -/
lemma settled_behind {before : List Char} (h : NextToken marked cs kind slice rest)
    (hbefore : Settled before) (hrest : rest ≠ []) : Settled (slice.reverse ++ before) :=
  (settled_append_iff hbefore _).2 (h.settled_of_ne_nil hrest)

/-- The first character of a slice is not a delimiter. -/
lemma isDelimiter_head_of_isSlice {c : Char} {cs : List Char} (h : IsSlice [] (c :: cs)) :
    isDelimiter c = false := by
  by_contra hc
  have := (escaped_cons.1 h.escaped).1 (by simpa using hc)
  simp at this

/-- Every text that is not empty has a next token. -/
lemma exists_of_ne_nil (marked : Bool) {cs : List Char} (h : cs ≠ []) :
    ∃ kind slice rest, NextToken marked cs kind slice rest := by
  obtain ⟨c, cs, rfl⟩ := List.exists_cons_of_ne_nil h
  by_cases hmark : c = '!'
  · subst hmark
    exact ⟨_, _, _, mark cs⟩
  by_cases hkey : marked = true ∨ NoKeyword (c :: cs)
  · by_cases hbar : c = '|'
    · subst hbar
      exact ⟨_, _, _, bar cs⟩
    by_cases hcomma : c = ','
    · subst hcomma
      exact ⟨_, _, _, comma cs⟩
    -- What is left is a value, which the reader of values delimits.
    obtain ⟨rest, hcs, hstops⟩ := exists_valueSlice_append [c] cs
    have hdel : isDelimiter c = true → backslashRun [] % 2 = 1 := fun hc => by
      rcases isDelimiter_iff.1 hc with rfl | rfl
      · exact absurd rfl hbar
      · exact absurd rfl hcomma
    have hslice : IsSlice [] (c :: valueSlice [c] cs) :=
      ⟨List.cons_ne_nil _ _, by simpa using hmark,
        escaped_cons.2 ⟨hdel, escaped_valueSlice [c] cs⟩⟩
    have hsplit : c :: cs = (c :: valueSlice [c] cs) ++ rest := by
      rw [List.cons_append, ← hcs]
    rw [hsplit] at hkey ⊢
    exact ⟨_, _, _, value hslice hkey (by simpa using hstops)⟩
  · rw [not_or, Bool.not_eq_true, NoKeyword] at hkey
    obtain ⟨hunmarked, hword⟩ := hkey
    push Not at hword
    obtain ⟨word, hknown, rest, hcs⟩ := hword
    rw [← hcs]
    exact ⟨_, _, _, keyword hunmarked hknown rest⟩

/-- Induction over the tokens of a text: what holds of the empty text, and of a text whenever it
holds of the rest behind its next token, holds of every text. -/
@[elab_as_elim]
theorem induction {motive : Bool → List Char → Prop} (nil : ∀ marked, motive marked [])
    (token : ∀ {marked cs kind slice rest}, NextToken marked cs kind slice rest →
      motive (markedAfter marked kind) rest → motive marked cs)
    (marked : Bool) (cs : List Char) : motive marked cs := by
  induction hn : cs.length using Nat.strongRecOn generalizing marked cs with
  | ind n ih =>
    by_cases hcs : cs = []
    · rw [hcs]
      exact nil marked
    · obtain ⟨kind, slice, rest, h⟩ := exists_of_ne_nil marked hcs
      exact token h (ih rest.length (hn ▸ h.length_rest_lt) _ _ rfl)

/-- The boundary reader finds the next token. -/
lemma boundaryToken_eq {c : Char} (h : NextToken marked (c :: cs) kind slice rest) :
    boundaryToken marked c cs = (kind, slice) := by
  generalize htext : c :: cs = text at h
  cases h with
  | mark rest =>
    obtain ⟨rfl, rfl⟩ := List.cons.inj htext
    rfl
  | keyword unmarked known rest =>
    obtain ⟨d, ds, hword, hmark, -⟩ := keyword_head known
    obtain rfl : c = d := by
      rw [hword, List.cons_append] at htext
      exact (List.cons.inj htext).1
    rw [boundaryToken, if_neg hmark, htext, unmarked, leadingKeyword?_append known]
    rfl
  | bar rest =>
    obtain ⟨rfl, rfl⟩ := List.cons.inj htext
    have hkey : leadingKeyword? ('|' :: cs) = none := by simp [leadingKeyword?, keywords]
    simp [boundaryToken, hkey]
  | comma rest =>
    obtain ⟨rfl, rfl⟩ := List.cons.inj htext
    have hkey : leadingKeyword? (',' :: cs) = none := by simp [leadingKeyword?, keywords]
    simp [boundaryToken, hkey]
  | value isSlice plain stops =>
    rcases slice with _ | ⟨d, ds⟩
    · exact absurd rfl isSlice.ne_nil
    obtain ⟨rfl, rfl⟩ := List.cons.inj htext
    have hmark : c ≠ '!' := by simpa using isSlice.unmarked
    have hdel := isDelimiter_head_of_isSlice isSlice
    have hbar : c ≠ '|' := by rintro rfl; exact absurd hdel (by decide)
    have hcomma : c ≠ ',' := by rintro rfl; exact absurd hdel (by decide)
    have hkey : (if marked then none else leadingKeyword? (c :: (ds ++ rest))) = none :=
      keywordSearch_eq_none plain
    have hvalue : valueSlice [c] (ds ++ rest) = ds :=
      valueSlice_append (escaped_cons.1 isSlice.escaped).2 (by simpa using stops)
    rw [boundaryToken, if_neg hmark, List.append_eq, hkey]
    simp only [if_neg hbar, if_neg hcomma, hvalue]

/-- A text has at most one next token. -/
lemma unique {kind' : TokenKind} {slice' rest' : List Char}
    (h : NextToken marked cs kind slice rest) (h' : NextToken marked cs kind' slice' rest') :
    kind = kind' ∧ slice = slice' ∧ rest = rest' := by
  rcases cs with _ | ⟨c, cs⟩
  · exact absurd rfl h.ne_nil
  obtain ⟨rfl, rfl⟩ := Prod.mk.inj (h.boundaryToken_eq.symm.trans h'.boundaryToken_eq)
  exact ⟨rfl, rfl, List.append_cancel_left (h.eq_append.symm.trans h'.eq_append)⟩

/-- The boundary reader takes the next token and goes on with the rest. -/
lemma tokensAt_eq (h : NextToken marked cs kind slice rest) (offset : Nat) :
    tokensAt offset marked cs =
      Token.cut kind offset slice ::
        tokensAt (offset + byteLength slice) (markedAfter marked kind) rest := by
  rcases cs with _ | ⟨c, cs⟩
  · exact absurd rfl h.ne_nil
  have hdrop : (c :: cs).drop slice.length = rest := by
    rw [h.eq_append, List.drop_left]
  rw [tokensAt, h.boundaryToken_eq]
  simp only [hdrop]

end NextToken

end QueryFilter
