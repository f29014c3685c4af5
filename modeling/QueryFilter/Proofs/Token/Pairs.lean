import QueryFilter.Proofs.Token.Tiling

/-!
# Escaping pairs

A backslash and the character after it are a pair, and pairs are read from left to right: `roles`
tells of every character whether it escapes the next one, is escaped, or stands for itself.
`unescape` reads these pairs one by one.  The lexer does not: it counts the backslashes
that end its window, and it starts to count anew behind every token.

`tokenize_respects_pairs` says that the two agree on every query value.  A delimiter is the second
character of a pair exactly when it lies in a value, and otherwise it is a token.  The bridge is
`role_eq`: the role of a character is decided by the parity of the run of backslashes before it.
-/

namespace QueryFilter

/-- The part that a character plays in the escapes of a text. -/
inductive Role where
  /-- A backslash that is the first character of a pair, or has nothing after it. -/
  | escaping
  /-- The second character of a pair. -/
  | escaped
  /-- Any other character. -/
  | plain
  deriving DecidableEq, Repr

/-- The roles of the characters of a text, whose pairs are read from left to right. -/
def roles : List Char → List Role
  | [] => []
  | ['\\'] => [.escaping]
  | '\\' :: _ :: cs => .escaping :: .escaped :: roles cs
  | _ :: cs => .plain :: roles cs

/-! ### Texts made of whole pairs -/

/-- The text is made of pairs and of characters other than the backslash. -/
inductive WholePairs : List Char → Prop
  | nil : WholePairs []
  | pair (c : Char) {cs : List Char} (more : WholePairs cs) : WholePairs ('\\' :: c :: cs)
  | plain {c : Char} {cs : List Char} (other : c ≠ '\\') (more : WholePairs cs) :
      WholePairs (c :: cs)

@[simp] lemma roles_pair (c : Char) (cs : List Char) :
    roles ('\\' :: c :: cs) = .escaping :: .escaped :: roles cs := by
  simp [roles]

lemma roles_cons {c : Char} (cs : List Char) (h : c ≠ '\\') :
    roles (c :: cs) = .plain :: roles cs := by
  cases cs <;> simp [roles, h]

/-- Induction over the pairs of a text, from left to right. -/
@[elab_as_elim]
theorem pairs_induction {motive : List Char → Prop} (nil : motive []) (last : motive ['\\'])
    (pair : ∀ c cs, motive cs → motive ('\\' :: c :: cs))
    (plain : ∀ c cs, c ≠ '\\' → motive cs → motive (c :: cs)) (cs : List Char) : motive cs := by
  induction cs using unescape.induct with
  | case1 => exact nil
  | case2 => exact last
  | case3 c cs ih => exact pair c cs ih
  | case4 c cs hlast hpair ih =>
    have hc : c ≠ '\\' := by
      rintro rfl
      cases cs with
      | nil => exact hlast rfl rfl
      | cons d cs => exact hpair d cs rfl rfl
    exact plain c cs hc ih

/-- A text behind which the run of backslashes is even is made of whole pairs. -/
lemma wholePairs_of_settled {cs : List Char} (h : Settled cs.reverse) : WholePairs cs := by
  induction cs using pairs_induction with
  | nil => exact .nil
  | last => exact absurd h (by decide)
  | pair c cs ih =>
    have hpair : Settled [c, '\\'] := settled_pair settled_nil c
    apply WholePairs.pair c
    apply ih
    rw [← settled_append_iff hpair]
    simpa using h
  | plain c cs hc ih =>
    apply WholePairs.plain hc
    apply ih
    rw [← settled_append_iff (settled_cons [] hc)]
    simpa using h

/-- A place that is not settled is behind a backslash that opens a pair. -/
lemma exists_of_not_settled {cs : List Char} (h : ¬ Settled cs.reverse) :
    ∃ ds, cs = ds ++ ['\\'] ∧ Settled ds.reverse := by
  rcases List.eq_nil_or_concat cs with rfl | ⟨ds, c, rfl⟩
  · exact absurd settled_nil h
  · rw [List.concat_eq_append, List.reverse_append, List.reverse_singleton,
      List.singleton_append] at h
    by_cases hc : c = '\\'
    · subst hc
      rw [settled_backslash_iff, not_not] at h
      exact ⟨ds, List.concat_eq_append, h⟩
    · exact absurd (settled_cons _ hc) h

/-! ### Roles and parity -/

/-- Behind whole pairs the reading of pairs starts anew. -/
lemma roles_append {cs : List Char} (h : WholePairs cs) (ds : List Char) :
    roles (cs ++ ds) = roles cs ++ roles ds := by
  induction h with
  | nil => rfl
  | pair c _ ih => simp [ih]
  | plain other _ ih => simp [roles_cons _ other, ih]

/-- Behind whole pairs `unescape` starts anew. -/
lemma unescape_append {cs : List Char} (h : WholePairs cs) (ds : List Char) :
    unescape (cs ++ ds) = unescape cs ++ unescape ds := by
  induction h with
  | nil => rfl
  | pair c _ ih => simp [ih]
  | plain other _ ih => simp [unescape_cons _ other, ih]

lemma length_roles {cs : List Char} (h : WholePairs cs) : (roles cs).length = cs.length := by
  induction h with
  | nil => rfl
  | pair c _ ih => simp [ih]
  | plain other _ ih => simp [roles_cons _ other, ih]

/-- The second character of a pair is kept, whatever it is. -/
lemma unescape_append_cons {cs : List Char} (h : ¬ Settled cs.reverse) (c : Char)
    (ds : List Char) : unescape (cs ++ c :: ds) = unescape cs ++ c :: unescape ds := by
  obtain ⟨cs, rfl, hcs⟩ := exists_of_not_settled h
  have hwhole := wholePairs_of_settled hcs
  rw [List.append_assoc, unescape_append hwhole, unescape_append hwhole]
  simp [unescape]

/-- The role of a character is decided by the parity of the run of backslashes before it. -/
lemma role_eq (cs : List Char) (c : Char) (ds : List Char) :
    (roles (cs ++ c :: ds))[cs.length]? =
      some (if Settled cs.reverse then if c = '\\' then .escaping else .plain else .escaped) := by
  by_cases h : Settled cs.reverse
  · have hwhole := wholePairs_of_settled h
    rw [roles_append hwhole, List.getElem?_append_right (by rw [length_roles hwhole]),
      length_roles hwhole, Nat.sub_self, if_pos h]
    by_cases hc : c = '\\'
    · subst hc
      cases ds <;> simp [roles]
    · simp [roles_cons _ hc, hc]
  · rw [if_neg h]
    obtain ⟨cs, rfl, hcs⟩ := exists_of_not_settled h
    have hwhole := wholePairs_of_settled hcs
    rw [List.append_assoc, roles_append hwhole, List.getElem?_append_right]
    · simp [length_roles hwhole]
    · simp [length_roles hwhole]

/-- A character is escaped when an odd run of backslashes stands before it. -/
lemma role_eq_escaped_iff (cs : List Char) (c : Char) (ds : List Char) :
    (roles (cs ++ c :: ds))[cs.length]? = some .escaped ↔ ¬ Settled cs.reverse := by
  rw [role_eq]
  by_cases h : Settled cs.reverse
  · by_cases hc : c = '\\' <;> simp [h, hc]
  · simp [h]

/-- A backslash behind an even run of backslashes opens a pair. -/
lemma role_eq_escaping_iff (cs : List Char) (c : Char) (ds : List Char) :
    (roles (cs ++ c :: ds))[cs.length]? = some .escaping ↔ Settled cs.reverse ∧ c = '\\' := by
  rw [role_eq]
  by_cases h : Settled cs.reverse
  · by_cases hc : c = '\\' <;> simp [h, hc]
  · simp [h]

/-- `unescape` drops the characters that escape others and keeps the rest. -/
lemma unescape_eq_filter_roles (cs : List Char) :
    unescape cs = ((cs.zip (roles cs)).filter fun p => p.2 != .escaping).map Prod.fst := by
  induction cs using pairs_induction with
  | nil => rfl
  | last => rfl
  | pair c cs ih => simp [ih]
  | plain c cs hc ih => simp [roles_cons _ hc, unescape_cons _ hc, ih]

/-! ### Roles and tokens -/

namespace StandsBetween

variable {t : Token} {left x y right : List Char} {d : Char}

/-- A delimiter in a value is escaped. -/
lemma not_settled_of_value (h : StandsBetween t left (x ++ d :: y) right)
    (hd : isDelimiter d = true) (hkind : t.kind = .value) : ¬ Settled x.reverse := by
  obtain ⟨marked, hnext⟩ := h.next
  rw [hkind] at hnext
  generalize htext : (x ++ d :: y) ++ right = text at hnext
  generalize hslice : x ++ d :: y = slice at hnext
  cases hnext with
  | value isSlice =>
    have hodd := isSlice.escaped x d y hslice.symm hd
    rw [List.append_nil] at hodd
    rw [Settled]
    omega

/-- A delimiter in a token that is not a value is the whole token. -/
lemma eq_nil_of_not_value (h : StandsBetween t left (x ++ d :: y) right)
    (hd : isDelimiter d = true) (hkind : t.kind ≠ .value) :
    x = [] ∧ y = [] ∧ (t.kind = .bar ∨ t.kind = .comma) := by
  have hsingle : ∀ e, x ++ d :: y = [e] → x = [] ∧ d = e ∧ y = [] := by
    intro e he
    simpa [List.append_eq_singleton_iff] using he
  obtain ⟨marked, hnext⟩ := h.next
  generalize t.kind = kind at hnext hkind ⊢
  generalize htext : (x ++ d :: y) ++ right = text at hnext
  generalize hslice : x ++ d :: y = slice at hnext
  cases hnext with
  | mark =>
    obtain ⟨-, rfl, -⟩ := hsingle _ hslice
    exact absurd hd (by decide)
  | keyword _ known =>
    have hmem : d ∈ slice := by simp [← hslice]
    simp [isDelimiter_eq_false_of_mem slice known d hmem] at hd
  | bar =>
    obtain ⟨hx, -, hy⟩ := hsingle _ hslice
    exact ⟨hx, hy, .inl rfl⟩
  | comma =>
    obtain ⟨hx, -, hy⟩ := hsingle _ hslice
    exact ⟨hx, hy, .inr rfl⟩
  | value => exact absurd rfl hkind

/-- Whether a pair is open behind a part of a slice does not depend on what is before the token. -/
lemma settled_reverse_iff {slice : List Char} (h : StandsBetween t left slice right)
    (x : List Char) : Settled (left ++ x).reverse ↔ Settled x.reverse := by
  rw [List.reverse_append]
  exact settled_append_iff h.settled _

/-- The range of a token holds the places of the characters of its slice. -/
lemma holds (h : StandsBetween t left (x ++ d :: y) right) :
    t.span.Holds (byteLength (left ++ x)) := by
  have hpos := Char.utf8Size_pos d
  rw [h.span_eq, Span.Holds]
  simp only [byteLength_append, byteLength_cons]
  omega

end StandsBetween

/-- The texts of the tokens of a text make up the text without its escapes. -/
lemma join_texts (offset : Nat) (marked : Bool) (cs : List Char) :
    String.join ((tokensAt offset marked cs).map Token.text) = String.ofList (unescape cs) := by
  induction marked, cs using NextToken.induction generalizing offset with
  | nil marked =>
    rw [tokensAt]
    rfl
  | @token marked cs kind slice rest hnext ih =>
    have hsplit : unescape (slice ++ rest) = unescape slice ++ unescape rest := by
      by_cases hrest : rest = []
      · rw [hrest, unescape_nil, List.append_nil, List.append_nil]
      · exact unescape_append (wholePairs_of_settled (hnext.settled_of_ne_nil hrest)) rest
    rw [hnext.tokensAt_eq, List.map_cons, String.join_cons, ih, hnext.eq_append, hsplit,
      String.ofList_append]
    rfl

section Delimiters

variable {raw : String} {a b : List Char} {d : Char}

/-- A delimiter that is escaped lies in a value. -/
lemma exists_value_of_not_settled (h : raw.toList = a ++ d :: b) (hd : isDelimiter d = true)
    (hsettled : ¬ Settled a.reverse) :
    ∃ t ∈ tokenize raw, t.kind = .value ∧ t.span.Holds (byteLength a) := by
  obtain ⟨left, x, y, right, t, ht, rfl, rfl, hstands⟩ := exists_mem_tokenize_of_eq h
  refine ⟨t, ht, ?_, hstands.holds⟩
  by_contra hkind
  obtain ⟨rfl, -, -⟩ := hstands.eq_nil_of_not_value hd hkind
  rw [List.append_nil] at hsettled
  exact hsettled hstands.settled

/-- A delimiter that is not escaped is a token. -/
lemma exists_delimiter_of_settled (h : raw.toList = a ++ d :: b) (hd : isDelimiter d = true)
    (hsettled : Settled a.reverse) :
    ∃ t ∈ tokenize raw, (t.kind = .bar ∨ t.kind = .comma) ∧
      t.span = ⟨byteLength a, byteLength a + 1⟩ := by
  obtain ⟨left, x, y, right, t, ht, rfl, rfl, hstands⟩ := exists_mem_tokenize_of_eq h
  rw [hstands.settled_reverse_iff] at hsettled
  have hkind : t.kind ≠ .value := fun hvalue => hstands.not_settled_of_value hd hvalue hsettled
  obtain ⟨rfl, rfl, hdelimiter⟩ := hstands.eq_nil_of_not_value hd hkind
  have hbyte : byteLength [d] = 1 := by
    rcases isDelimiter_iff.1 hd with rfl | rfl <;> rfl
  refine ⟨t, ht, hdelimiter, ?_⟩
  rw [hstands.span_eq, List.append_nil, List.nil_append, hbyte]

/-- The place of a delimiter token is settled. -/
lemma settled_of_delimiter {t : Token} (h : raw.toList = a ++ d :: b) (hd : isDelimiter d = true)
    (ht : t ∈ tokenize raw) (hkind : t.kind = .bar ∨ t.kind = .comma)
    (hspan : t.span = ⟨byteLength a, byteLength a + 1⟩) : Settled a.reverse := by
  have hholds : t.span.Holds (byteLength a) := by
    rw [hspan]
    exact ⟨Nat.le_refl _, Nat.lt_succ_self _⟩
  have hvalue : t.kind ≠ .value := by
    rcases hkind with hkind | hkind <;> simp [hkind]
  obtain ⟨left, x, y, right, rfl, rfl, hstands⟩ := exists_standsBetween_of_holds h ht hholds
  obtain ⟨rfl, -, -⟩ := hstands.eq_nil_of_not_value hd hvalue
  rw [List.append_nil]
  exact hstands.settled

/-- Both characters of a pair lie in the range of one token. -/
lemma exists_token_of_pair {c : Char} (h : raw.toList = a ++ '\\' :: c :: b)
    (hsettled : Settled a.reverse) :
    ∃ t ∈ tokenize raw, t.span.start ≤ byteLength a ∧
      byteLength (a ++ ['\\', c]) ≤ t.span.stop := by
  obtain ⟨left, x, y, right, t, ht, rfl, hbehind, hstands⟩ := exists_mem_tokenize_of_eq h
  rw [hstands.settled_reverse_iff] at hsettled
  -- If the slice ended with the backslash, the next token would begin inside a pair.
  have hy : y ≠ [] := by
    rintro rfl
    obtain ⟨marked, hnext⟩ := hstands.next
    have hright : right ≠ [] := by
      rintro rfl
      cases hbehind
    have hend := hnext.settled_of_ne_nil hright
    rw [List.reverse_append, List.reverse_singleton, List.singleton_append,
      settled_backslash_iff] at hend
    exact hend hsettled
  obtain ⟨e, y, rfl⟩ := List.exists_cons_of_ne_nil hy
  obtain ⟨rfl, -⟩ := List.cons.inj hbehind
  refine ⟨t, ht, ?_⟩
  rw [hstands.span_eq]
  simp only [byteLength_append, byteLength_cons, byteLength_nil]
  omega

end Delimiters

/-- The lexer and `unescape` read the same escaping pairs.

A delimiter of a query value is the second character of a pair exactly when it lies in the range of
a value, and then it stands in the text of that value, between what is before it and behind it in
the slice.  It is not exactly when its place is the range of a bar or a comma.  Both characters of a
pair lie in the range of one token, so the texts of the tokens make up the query value without its
escapes, which is the query value without the characters that escape others. -/
theorem tokenize_respects_pairs (raw : String) :
    (∀ a d b, raw.toList = a ++ d :: b → isDelimiter d = true →
      ((roles raw.toList)[a.length]? = some .escaped ↔
        ∃ t ∈ tokenize raw, t.kind = .value ∧ t.span.Holds (byteLength a)) ∧
      (∀ t ∈ tokenize raw, t.kind = .value → t.span.Holds (byteLength a) →
        ∃ left x y right, a = left ++ x ∧ b = y ++ right ∧
          t.span = ⟨byteLength left, byteLength (left ++ (x ++ d :: y))⟩ ∧
          t.text.toList = unescape x ++ d :: unescape y) ∧
      ((roles raw.toList)[a.length]? ≠ some .escaped ↔
        ∃ t ∈ tokenize raw, (t.kind = .bar ∨ t.kind = .comma) ∧
          t.span = ⟨byteLength a, byteLength a + 1⟩)) ∧
    (∀ a c b, raw.toList = a ++ '\\' :: c :: b → (roles raw.toList)[a.length]? = some .escaping →
      ∃ t ∈ tokenize raw, t.span.start ≤ byteLength a ∧
        byteLength (a ++ ['\\', c]) ≤ t.span.stop) ∧
    String.join ((tokenize raw).map Token.text) = String.ofList (unescape raw.toList) ∧
    unescape raw.toList =
      ((raw.toList.zip (roles raw.toList)).filter fun p => p.2 != .escaping).map Prod.fst := by
  refine ⟨?_, ?_, ?_, unescape_eq_filter_roles raw.toList⟩
  · intro a d b h hd
    rw [ne_eq, h, role_eq_escaped_iff, not_not]
    refine ⟨⟨exists_value_of_not_settled h hd, ?_⟩, ?_, ⟨exists_delimiter_of_settled h hd, ?_⟩⟩
    · rintro ⟨t, ht, hkind, hholds⟩
      obtain ⟨left, x, y, right, rfl, -, hstands⟩ := exists_standsBetween_of_holds h ht hholds
      rw [hstands.settled_reverse_iff]
      exact hstands.not_settled_of_value hd hkind
    · intro t ht hkind hholds
      obtain ⟨left, x, y, right, ha, hb, hstands⟩ := exists_standsBetween_of_holds h ht hholds
      have hopen := hstands.not_settled_of_value hd hkind
      refine ⟨left, x, y, right, ha, hb, ?_, ?_⟩
      · rw [hstands.span_eq, byteLength_append left]
      · rw [hstands.text_eq, String.toList_ofList, unescape_append_cons hopen]
    · rintro ⟨t, ht, hkind, hspan⟩
      exact settled_of_delimiter h hd ht hkind hspan
  · intro a c b h hrole
    rw [h, role_eq_escaping_iff] at hrole
    exact exists_token_of_pair h hrole.1
  · rw [tokenize_eq_tokensAt]
    exact join_texts 0 false raw.toList

/-- Of two bars, the one that is escaped lies in a value and the other is a token. -/
theorem tokenize_respects_pairs_of_two_bars :
    (roles "eq!\\|b|is".toList)[4]? = some .escaped ∧
      (∃ t ∈ tokenize "eq!\\|b|is", t.kind = .value ∧ t.span.Holds 4) ∧
      (roles "eq!\\|b|is".toList)[6]? ≠ some .escaped ∧
      (∃ t ∈ tokenize "eq!\\|b|is", (t.kind = .bar ∨ t.kind = .comma) ∧ t.span = ⟨6, 7⟩) ∧
      ∃ t ∈ tokenize "eq!\\|b|is", t.span.start ≤ 3 ∧ 5 ≤ t.span.stop := by
  obtain ⟨hdelimiters, hpairs, -⟩ := tokenize_respects_pairs "eq!\\|b|is"
  have hescaped : (roles "eq!\\|b|is".toList)[4]? = some .escaped := by decide +kernel
  have hplain : (roles "eq!\\|b|is".toList)[6]? ≠ some .escaped := by decide +kernel
  have hfirst := hdelimiters ['e', 'q', '!', '\\'] '|' ['b', '|', 'i', 's'] (by decide +kernel) rfl
  have hsecond := hdelimiters ['e', 'q', '!', '\\', '|', 'b'] '|' ['i', 's'] (by decide +kernel) rfl
  exact ⟨hescaped, hfirst.1.1 hescaped, hplain, hsecond.2.2.1 hplain,
    hpairs ['e', 'q', '!'] '|' ['b', '|', 'i', 's'] (by decide +kernel) (by decide +kernel)⟩

end QueryFilter
