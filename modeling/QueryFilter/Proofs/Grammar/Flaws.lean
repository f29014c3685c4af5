import Mathlib.Data.List.Induction
import QueryFilter.Proofs.Grammar.Acceptance
import QueryFilter.Proofs.Grammar.FirstGroup

/-!
# The first flaw of a value

Three faults compete in a value: a token that may not stand where it does, a comma behind a
comparator that takes no list, and a literal that is no value of the type.  The last one counts only
where its group is closed.  `Target.flaw?` judges a single token by the tokens before it, without a
machine: the kind of the last one says what is expected, and the group that is open behind them,
`Token.openGroup`, has the comparator and the literals.

The machine stops at the first flawed token with the failure of its flaw, and by then it has added
one rule for each group that is closed, `Token.closedGroups`.  What it owes to the tokens it has
read is `Progress.Follows`.  A token without a flaw is accepted (`Progress.Follows.exists_advance`),
and an accepted token preserves it (`Progress.Follows.advance`), hence reading tokens without a flaw
leads to it (`Target.exists_follows`).
-/

namespace QueryFilter

/-- Whether a token of some kind is among what is expected. -/
def Expectation.allows : Expectation → TokenKind → Bool
  | comparator, kind => kind == .keyword
  | mark, kind => kind == .mark
  | value, kind => kind == .value
  | separator, kind => kind == .comma || kind == .bar || kind == .stop
  | nothing, _ => false

/-- What a message calls expected is what the machine accepts. -/
lemma TokenKind.mayFollow_eq_allows (kind : TokenKind) (last : Option TokenKind) :
    kind.mayFollow last = (Expectation.after last).allows kind := by
  cases last with
  | none => cases kind <;> rfl
  | some last => cases last <;> cases kind <;> rfl

namespace Token

/-- The kind of the last of some tokens. -/
def lastKind (ts : List Token) : Option TokenKind :=
  ts.getLast?.map Token.kind

/-- The runs of tokens before, between and behind the closing ones. -/
def groups (ts : List Token) : List (List Token) :=
  ts.splitOnP fun t => t.Closing

/-- The groups that a bar or the end of the input closes. -/
def closedGroups (ts : List Token) : List (List Token) :=
  (groups ts).dropLast

/-- The tokens behind the last closing one. -/
def openGroup (ts : List Token) : List Token :=
  (groups ts).getLastD []

/-- The comparator that the first token of a group spells. -/
def groupComparator? (group : List Token) : Option Comparator :=
  group.head?.bind fun t => Comparator.ofKeyword? t.text

end Token

namespace Target

/-- What is wrong with a token behind some others: it may not stand there, or it is a comma and the
comparator of its group takes no list, or it closes a group with a literal that is no value of the
type, of which the first one counts. -/
def flaw? (target : Target) (before : List Token) (t : Token) : Option ParseFailure :=
  let expected := Expectation.after (Token.lastKind before)
  let group := Token.openGroup before
  if expected.allows t.kind then
    match t.kind with
    | .comma =>
      match Token.groupComparator? group with
      | some c =>
        if target.profile.acceptsList c then none
        else some (.rejected (.commaNotAllowed target.key c target.profile t.span))
      | none => none
    | .bar | .stop =>
      ((Token.literals group).find? fun l => (target.type.read? target.format l).isNone).map
        target.refusal
    | _ => none
  else some (.rejected (.unexpectedToken target.key expected t))

/-- What is wrong with the token at a place. -/
def flawAt? (target : Target) (ts : List Token) (i : Nat) : Option ParseFailure :=
  ts[i]?.bind (target.flaw? (ts.take i))

/-- The rule that a group of tokens stands for: its comparator is the one that the first token
spells, and its values are what the literals read as. -/
structure TokensDenote (target : Target) (group : List Token) (rule : Rule target.type) : Prop where
  comparator : Token.groupComparator? group = some rule.comparator
  values : List.Forall₂ (fun l v => target.type.read? target.format l = some v)
    (Token.literals group) rule.values

end Target

/-! ### Groups, token by token -/

namespace Token

variable {ts : List Token} {t : Token}

lemma groups_eq (ts : List Token) : groups ts = closedGroups ts ++ [openGroup ts] := by
  have hne : groups ts ≠ [] := List.splitOnP_ne_nil _ ts
  unfold closedGroups openGroup
  rw [List.getLastD_eq_getLast?, List.getLast?_eq_some_getLast hne, Option.getD_some,
    List.dropLast_append_getLast]

lemma groups_concat_of_closing (ts : List Token) (h : t.Closing) :
    groups (ts ++ [t]) = groups ts ++ [[]] := by
  unfold groups
  rw [List.splitOnP_append_cons ts [] (decide_eq_true h), List.splitOnP_nil]

/-- A token that closes no group belongs to the open one.  The induction is on the tokens from the
front, as they are split. -/
lemma groups_concat (ts : List Token) (h : ¬ t.Closing) :
    groups (ts ++ [t]) = closedGroups ts ++ [openGroup ts ++ [t]] := by
  have hsplit : ∀ u us, groups (u :: us) =
      if u.Closing then [] :: groups us else (groups us).modifyHead (u :: ·) := fun u us => by
    unfold groups
    rw [List.splitOnP_cons_eq_if_modifyHead]
    simp only [decide_eq_true_eq]
  induction ts with
  | nil =>
    rw [List.nil_append, hsplit, if_neg h]
    rfl
  | cons u us ih =>
    have hgroups := groups_eq us
    have hgroups' := groups_eq (u :: us)
    rw [List.cons_append, hsplit, ih]
    rw [hsplit, hgroups] at hgroups'
    by_cases hu : u.Closing
    · rw [if_pos hu, ← List.cons_append] at hgroups'
      obtain ⟨hclosed, hopen⟩ := List.append_inj' hgroups' rfl
      rw [if_pos hu, ← hclosed, ← List.singleton_inj.1 hopen]
      rfl
    · rw [if_neg hu] at hgroups' ⊢
      cases hclosed : closedGroups us with
      | nil =>
        rw [hclosed] at hgroups'
        rw [List.nil_append, List.modifyHead_cons,
          ← List.nil_append [u :: openGroup us]] at hgroups'
        obtain ⟨hnil, hopen⟩ := List.append_inj' hgroups' rfl
        rw [← hnil, ← List.singleton_inj.1 hopen]
        rfl
      | cons group closed =>
        rw [hclosed, List.cons_append, List.modifyHead_cons, ← List.cons_append] at hgroups'
        obtain ⟨hcons, hopen⟩ := List.append_inj' hgroups' rfl
        rw [← hcons, ← List.singleton_inj.1 hopen]
        rfl

lemma closedGroups_concat_of_closing (ts : List Token) (h : t.Closing) :
    closedGroups (ts ++ [t]) = closedGroups ts ++ [openGroup ts] := by
  rw [closedGroups, groups_concat_of_closing ts h, List.dropLast_concat, groups_eq]

lemma openGroup_concat_of_closing (ts : List Token) (h : t.Closing) :
    openGroup (ts ++ [t]) = [] := by
  rw [openGroup, groups_concat_of_closing ts h, List.getLastD_concat]

lemma closedGroups_concat (ts : List Token) (h : ¬ t.Closing) :
    closedGroups (ts ++ [t]) = closedGroups ts := by
  rw [closedGroups, groups_concat ts h, List.dropLast_concat]

lemma openGroup_concat (ts : List Token) (h : ¬ t.Closing) :
    openGroup (ts ++ [t]) = openGroup ts ++ [t] := by
  rw [openGroup, groups_concat ts h, List.getLastD_concat]

@[simp] lemma lastKind_concat (ts : List Token) (t : Token) :
    lastKind (ts ++ [t]) = some t.kind := by
  simp [lastKind]

/-- No group is open at the start and behind a closing token. -/
lemma openGroup_eq_nil_iff (ts : List Token) :
    openGroup ts = [] ↔
      lastKind ts = none ∨ lastKind ts = some .bar ∨ lastKind ts = some .stop := by
  rcases List.eq_nil_or_concat' ts with rfl | ⟨us, t, rfl⟩
  · exact iff_of_true rfl (.inl rfl)
  · by_cases ht : t.Closing
    · refine iff_of_true (openGroup_concat_of_closing us ht) (.inr ?_)
      rcases ht with hkind | hkind <;> simp [hkind]
    · obtain ⟨hbar, hstop⟩ := not_or.1 ht
      rw [openGroup_concat us ht]
      simp [hbar, hstop]

/-- The first token of a group that is open spells its comparator, whatever follows. -/
lemma groupComparator?_append {group : List Token} (h : group ≠ []) (rest : List Token) :
    groupComparator? (group ++ rest) = groupComparator? group := by
  obtain ⟨t, ts, rfl⟩ := List.exists_cons_of_ne_nil h
  rfl

end Token

/-- Every keyword among the tokens of a text spells a comparator. -/
lemma exists_ofKeyword?_of_mem_tokensAt {offset : Nat} {marked : Bool} {cs : List Char} {t : Token}
    (h : t ∈ tokensAt offset marked cs) (hkind : t.kind = .keyword) :
    ∃ c, Comparator.ofKeyword? t.text = some c := by
  induction marked, cs using NextToken.induction generalizing offset with
  | nil marked =>
    rw [tokensAt] at h
    cases h
  | @token marked cs kind slice rest hnext ih =>
    rw [hnext.tokensAt_eq] at h
    rcases List.mem_cons.1 h with rfl | hrest
    · obtain rfl : kind = .keyword := hkind
      cases hnext with
      | keyword unmarked known rest =>
        rw [Comparator.ofKeyword?, Token.cut_text_toList, unescape_keyword slice known]
        exact Option.isSome_iff_exists.1 (isSome_ofChars?_iff.2 known)
    · exact ih hrest

/-! ### The machine between flaws -/

variable {target : Target} {f : Filter} {ts : List Token} {t : Token} {p : Progress}

/-- Reading some tokens into a filter has led here. -/
structure Progress.Follows (target : Target) (f : Filter) (ts : List Token) (p : Progress) :
    Prop where
  last : p.last = Token.lastKind ts
  comparator : Token.openGroup ts ≠ [] →
    Token.groupComparator? (Token.openGroup ts) = some p.comparator
  literals : p.literals = Token.literals (Token.openGroup ts)
  rules : ∃ rules, List.Forall₂ target.TokensDenote (Token.closedGroups ts) rules ∧
    p.filter = f.appendAll target.key target.type rules

namespace Progress.Follows

lemma start (target : Target) (f : Filter) : Progress.Follows target f [] (.start f) where
  last := rfl
  comparator hne := absurd rfl hne
  literals := rfl
  rules := ⟨[], .nil, rfl⟩

/-- Behind a token that closes no group a group is open. -/
lemma openGroup_ne_nil (h : Progress.Follows target f ts p) {kind : TokenKind}
    (hlast : p.last = some kind) (hbar : kind ≠ .bar) (hstop : kind ≠ .stop) :
    Token.openGroup ts ≠ [] := by
  intro hnil
  rw [Token.openGroup_eq_nil_iff, ← h.last, hlast] at hnil
  rcases hnil with hkind | hkind | hkind
  · cases hkind
  · exact hbar (Option.some.inj hkind)
  · exact hstop (Option.some.inj hkind)

/-- A flawed token is refused with the failure of its flaw. -/
lemma step_eq_error (h : Progress.Follows target f ts p) {failure : ParseFailure}
    (hflaw : target.flaw? ts t = some failure) : target.step p t = .error failure := by
  unfold Target.flaw? at hflaw
  unfold Target.step
  simp only at hflaw
  rw [TokenKind.mayFollow_eq_allows, h.last]
  cases hallows : (Expectation.after (Token.lastKind ts)).allows t.kind with
  | false =>
    rw [hallows] at hflaw
    obtain rfl := Option.some.inj hflaw
    rfl
  | true =>
    rw [hallows, if_pos rfl] at hflaw
    rw [Bool.not_true, if_neg Bool.false_ne_true]
    have hclose : (((Token.literals (Token.openGroup ts)).find? fun l =>
        (target.type.read? target.format l).isNone).map target.refusal) = some failure →
        target.close p.comparator p.literals p.filter = .error failure := by
      intro hfind
      obtain ⟨l, hl, rfl⟩ := Option.map_eq_some_iff.1 hfind
      rw [Target.close, h.literals, ScalarType.readAll_eq_error_iff.2 hl]
    cases hkind : t.kind with
    | keyword | mark | value =>
      rw [hkind] at hflaw
      cases hflaw
    | comma =>
      rw [hkind] at hflaw
      simp only at hflaw ⊢
      split at hflaw
      · next c hc =>
        have hopen : Token.openGroup ts ≠ [] := by
          intro hnil
          rw [hnil] at hc
          cases hc
        obtain rfl : c = p.comparator := Option.some.inj (hc.symm.trans (h.comparator hopen))
        split at hflaw
        · cases hflaw
        · next haccepts =>
          obtain rfl := Option.some.inj hflaw
          rw [if_neg haccepts]
      · cases hflaw
    | bar | stop =>
      rw [hkind] at hflaw
      simp only at hflaw ⊢
      rw [hclose hflaw]
      rfl

/-- A token without a flaw is accepted. -/
lemma exists_advance (h : Progress.Follows target f ts p) (hf : f.Admits target.key target.type)
    (hspells : t.kind = .keyword → ∃ c, Comparator.ofKeyword? t.text = some c)
    (hflaw : target.flaw? ts t = none) : ∃ q, target.Advance p t q := by
  unfold Target.flaw? at hflaw
  simp only [← h.last] at hflaw
  cases hallows : (Expectation.after p.last).allows t.kind with
  | false =>
    rw [hallows] at hflaw
    cases hflaw
  | true =>
    rw [hallows, if_pos rfl] at hflaw
    have hfollow : t.kind.mayFollow p.last = true := by
      rw [TokenKind.mayFollow_eq_allows]
      exact hallows
    unfold TokenKind.mayFollow at hfollow
    have hclose : ((Token.literals (Token.openGroup ts)).find? fun l =>
        (target.type.read? target.format l).isNone) = none →
        ∃ g, target.close p.comparator p.literals p.filter = .ok g := by
      intro hfind
      obtain ⟨values, hvalues⟩ := ScalarType.exists_readAll_eq_ok hfind
      rw [← h.literals, ScalarType.readAll_eq_ok_iff] at hvalues
      obtain ⟨rules, -, hfilter⟩ := h.rules
      have hadmits : p.filter.Admits target.key target.type := by
        rw [hfilter]
        exact hf.appendAll rules
      exact ⟨_, Target.close_eq_ok_iff.2 ⟨hadmits, values, hvalues, rfl⟩⟩
    cases hkind : t.kind with
    | keyword =>
      obtain ⟨c, hc⟩ := hspells hkind
      exact ⟨_, .keyword hkind (by simpa [hkind] using hfollow) hc⟩
    | mark => exact ⟨_, .mark hkind (by simpa [hkind] using hfollow)⟩
    | value => exact ⟨_, .value hkind (by simpa [hkind] using hfollow)⟩
    | comma =>
      have hlast : p.last = some .value := by simpa [hkind] using hfollow
      have hopen := h.openGroup_ne_nil hlast (by decide) (by decide)
      rw [hkind] at hflaw
      simp only [h.comparator hopen] at hflaw
      split at hflaw
      · next haccepts => exact ⟨_, .comma hkind hlast haccepts⟩
      · cases hflaw
    | bar | stop =>
      rw [hkind] at hflaw
      obtain ⟨g, hg⟩ := hclose (Option.map_eq_none_iff.1 hflaw)
      exact ⟨_, .close (by simp [hkind]) (by simpa [hkind] using hfollow) hg⟩

/-- A token that closes no group belongs to the open one. -/
lemma concat {q : Progress} (h : Progress.Follows target f ts p) (ht : ¬ t.Closing)
    (hlast : q.last = some t.kind) (hliterals : q.literals = p.literals ++ Token.literals [t])
    (hfilter : q.filter = p.filter)
    (hcomparator : Token.groupComparator? (Token.openGroup ts ++ [t]) = some q.comparator) :
    Progress.Follows target f (ts ++ [t]) q where
  last := by rw [hlast, Token.lastKind_concat]
  comparator _ := by rw [Token.openGroup_concat ts ht, hcomparator]
  literals := by rw [hliterals, h.literals, Token.openGroup_concat ts ht, Token.literals_append]
  rules := by
    rw [Token.closedGroups_concat ts ht, hfilter]
    exact h.rules

/-- An accepted token is followed too. -/
lemma advance {q : Progress} (h : Progress.Follows target f ts p)
    (hadvance : target.Advance p t q) : Progress.Follows target f (ts ++ [t]) q := by
  have hsame : ∀ {kind : TokenKind}, p.last = some kind → kind ≠ .bar → kind ≠ .stop →
      Token.groupComparator? (Token.openGroup ts ++ [t]) = some p.comparator := by
    intro kind hlast hbar hstop
    have hopen := h.openGroup_ne_nil hlast hbar hstop
    rw [Token.groupComparator?_append hopen, h.comparator hopen]
  by_cases ht : t.Closing
  · cases hadvance with
    | close kind last closes =>
      obtain ⟨-, values, hvalues, rfl⟩ := Target.close_eq_ok_iff.1 closes
      obtain ⟨rules, hrules, hfilter⟩ := h.rules
      have hopen := h.openGroup_ne_nil last (by decide) (by decide)
      have hgroup : target.TokensDenote (Token.openGroup ts) ⟨p.comparator, values⟩ := by
        refine ⟨h.comparator hopen, ?_⟩
        rw [← h.literals]
        exact hvalues
      refine ⟨(Token.lastKind_concat ts t).symm, fun hne => ?_, ?_,
        rules ++ [⟨p.comparator, values⟩], ?_, ?_⟩
      · exact absurd (Token.openGroup_concat_of_closing ts ht) hne
      · rw [Token.openGroup_concat_of_closing ts ht]
        rfl
      · rw [Token.closedGroups_concat_of_closing ts ht]
        exact List.rel_append hrules (.cons hgroup .nil)
      · rw [Filter.appendAll_append, ← hfilter]
        rfl
    | keyword kind | mark kind | value kind | comma kind =>
      rcases ht with ht | ht <;> rw [kind] at ht <;> cases ht
  · have hliterals := hadvance.literals_eq ht
    cases hadvance with
    | close kind => exact absurd kind ht
    | keyword kind last spells =>
      have hnil : Token.openGroup ts = [] := by
        rw [Token.openGroup_eq_nil_iff, ← h.last]
        exact last.imp_right .inl
      refine h.concat ht (congrArg some kind.symm) hliterals rfl ?_
      rw [hnil]
      exact spells
    | mark kind last =>
      exact h.concat ht (congrArg some kind.symm) hliterals rfl (hsame last (by decide) (by decide))
    | value kind last =>
      refine h.concat ht (congrArg some kind.symm) hliterals rfl ?_
      rcases last with last | last <;> exact hsame last (by decide) (by decide)
    | comma kind last =>
      exact h.concat ht (congrArg some kind.symm) hliterals rfl (hsame last (by decide) (by decide))

end Progress.Follows

namespace Target

lemma flawAt?_append_of_lt (target : Target) {i : Nat} (h : i < ts.length) (rest : List Token) :
    target.flawAt? (ts ++ rest) i = target.flawAt? ts i := by
  rw [flawAt?, flawAt?, List.getElem?_append_left h, List.take_append_of_le_length (Nat.le_of_lt h)]

lemma flawAt?_append_length (target : Target) (ts : List Token) (t : Token) (rest : List Token) :
    target.flawAt? (ts ++ t :: rest) ts.length = target.flaw? ts t := by
  rw [flawAt?, List.take_left, List.getElem?_append_right (Nat.le_refl _), Nat.sub_self]
  rfl

/-- Tokens without a flaw are all read, and the machine follows them.  The induction is on the
tokens from the back, since each one is judged by those before it. -/
lemma exists_follows (hf : f.Admits target.key target.type)
    (hspells : ∀ t ∈ ts, t.kind = .keyword → ∃ c, Comparator.ofKeyword? t.text = some c)
    (hflawless : ∀ i < ts.length, target.flawAt? ts i = none) :
    ∃ q, Progress.Follows target f ts q ∧
      ∀ rest, target.run (.start f) (ts ++ rest) = target.run q rest := by
  induction ts using List.reverseRecOn with
  | nil => exact ⟨.start f, .start target f, fun rest => rfl⟩
  | append_singleton ts t ih =>
    have hlength : (ts ++ [t]).length = ts.length + 1 := List.length_append
    obtain ⟨p, hp, hrun⟩ := ih (fun u hu => hspells u (List.mem_append_left _ hu)) fun i hi => by
      have hnone := hflawless i (by omega)
      rwa [flawAt?_append_of_lt target hi] at hnone
    have hflaw : target.flaw? ts t = none := by
      rw [← flawAt?_append_length target ts t []]
      exact hflawless ts.length (by omega)
    obtain ⟨q, hq⟩ := hp.exists_advance hf (hspells t (by simp)) hflaw
    refine ⟨q, hp.advance hq, fun rest => ?_⟩
    rw [List.append_assoc, List.singleton_append, hrun, run_cons_of_advance hq]

/-- A run over tokens without a flaw ends well, with a rule for each closed group. -/
lemma run_of_flawless (hf : f.Admits target.key target.type)
    (hspells : ∀ t ∈ ts, t.kind = .keyword → ∃ c, Comparator.ofKeyword? t.text = some c)
    (hflawless : ∀ i, target.flawAt? ts i = none) :
    ∃ rules, List.Forall₂ target.TokensDenote (Token.closedGroups ts) rules ∧
      target.run (.start f) ts = ⟨.ok (), f.appendAll target.key target.type rules⟩ := by
  obtain ⟨q, hq, hrun⟩ := exists_follows hf hspells fun i _ => hflawless i
  obtain ⟨rules, hrules, hfilter⟩ := hq.rules
  refine ⟨rules, hrules, ?_⟩
  have hend := hrun []
  rw [List.append_nil] at hend
  rw [hend, ← hfilter]
  rfl

/-- A run ends at the first flaw, with a rule for each group that is closed before it. -/
lemma run_of_flawAt? (hf : f.Admits target.key target.type)
    (hspells : ∀ t ∈ ts, t.kind = .keyword → ∃ c, Comparator.ofKeyword? t.text = some c)
    {i : Nat} {failure : ParseFailure} (hflaw : target.flawAt? ts i = some failure)
    (hfirst : ∀ j < i, target.flawAt? ts j = none) :
    ∃ rules, List.Forall₂ target.TokensDenote (Token.closedGroups (ts.take i)) rules ∧
      target.run (.start f) ts = ⟨.error failure, f.appendAll target.key target.type rules⟩ := by
  obtain ⟨t, ht, hflaw⟩ := Option.bind_eq_some_iff.1 hflaw
  obtain ⟨hi, rfl⟩ := List.getElem?_eq_some_iff.1 ht
  have hsplit : ts = ts.take i ++ ts[i] :: ts.drop (i + 1) := by
    rw [List.getElem_cons_drop, List.take_append_drop]
  have hlength : (ts.take i).length = i := List.length_take_of_le (Nat.le_of_lt hi)
  have hbefore : ∀ j < (ts.take i).length, target.flawAt? (ts.take i) j = none := by
    intro j hj
    have hnone := hfirst j (hlength ▸ hj)
    rwa [hsplit, flawAt?_append_of_lt target hj] at hnone
  obtain ⟨q, hq, hrun⟩ :=
    exists_follows hf (fun u hu => hspells u (List.mem_of_mem_take hu)) hbefore
  obtain ⟨rules, hrules, hfilter⟩ := hq.rules
  refine ⟨rules, hrules, ?_⟩
  have hend := hrun (ts[i] :: ts.drop (i + 1))
  rw [← hsplit] at hend
  rw [hend, run, hq.step_eq_error hflaw, ← hfilter]

end Target

/-- A value of two or more tokens is judged token by token, with the end of the input as the last
one.  Without a flaw it is accepted, and the filter has one more rule for each group.  Otherwise the
failure is that of the first flaw, and the filter has one more rule for each group that is closed
before it: of the group in which the flaw is, nothing is left. -/
theorem parseKey_first_flaw (s : Schema) (key : String) (type : ScalarType) (raw : String)
    (f : Filter) (hf : f.Admits key type) (hlong : 2 ≤ (tokenize raw).length) :
    let target := s.target key type
    let tokens := tokenize raw ++ [Token.endOfInput (byteLength raw.toList)]
    ((∀ i, target.flawAt? tokens i = none) →
      ∃ rules : List (Rule type),
        List.Forall₂ target.TokensDenote (Token.closedGroups tokens) rules ∧
          s.parseKey key type raw f = ⟨.ok (), f.appendAll key type rules⟩) ∧
      ∀ i failure, target.flawAt? tokens i = some failure →
        (∀ j < i, target.flawAt? tokens j = none) →
          ∃ rules : List (Rule type),
            List.Forall₂ target.TokensDenote (Token.closedGroups (tokens.take i)) rules ∧
              s.parseKey key type raw f = ⟨.error failure, f.appendAll key type rules⟩ := by
  intro target tokens
  have hread : s.parseKey key type raw f = target.run (.start f) tokens := by
    unfold Schema.parseKey Target.readInto
    split
    · next hnil =>
      rw [hnil] at hlong
      cases hlong
    · next t hone =>
      rw [hone] at hlong
      exact absurd hlong (Nat.lt_irrefl 1)
    · rfl
  have hspells : ∀ t ∈ tokens, t.kind = .keyword → ∃ c, Comparator.ofKeyword? t.text = some c := by
    intro t ht hkind
    rcases List.mem_append.1 ht with hmem | hmem
    · rw [tokenize_eq_tokensAt] at hmem
      exact exists_ofKeyword?_of_mem_tokensAt hmem hkind
    · rw [List.mem_singleton.1 hmem] at hkind
      cases hkind
  rw [hread]
  exact ⟨fun hflawless => Target.run_of_flawless hf hspells hflawless,
    fun i failure hflaw hfirst => Target.run_of_flawAt? hf hspells hflaw hfirst⟩

/-- The comma of the second group comes before its end, so it decides, although `x` is no number.
The rule of the first group is kept. -/
theorem parseKey_comma_first :
    2 ≤ (tokenize "eq!1|lt!2,x").length ∧ Filter.empty.Admits "level" .integer ∧
      ∃ rules : List (Rule .integer), rules.length = 1 ∧
        Schema.empty.parseKey "level" .integer "eq!1|lt!2,x" .empty =
          ⟨.error (.rejected (.commaNotAllowed "level" .lessThan .unified ⟨9, 10⟩)),
            Filter.empty.appendAll "level" .integer rules⟩ := by
  have hlong : 2 ≤ (tokenize "eq!1|lt!2,x").length := by decide +kernel
  have hadmits : Filter.empty.Admits "level" .integer := by
    intro k hk
    cases hk
  obtain ⟨-, hflawed⟩ :=
    parseKey_first_flaw Schema.empty "level" .integer "eq!1|lt!2,x" .empty hadmits hlong
  obtain ⟨rules, hrules, hparse⟩ := hflawed 7
    (.rejected (.commaNotAllowed "level" .lessThan .unified ⟨9, 10⟩)) (by decide +kernel)
    (by decide +kernel)
  have hlength : rules.length = 1 := hrules.length_eq.symm.trans (by decide +kernel)
  exact ⟨hlong, hadmits, rules, hlength, hparse⟩

/-- A literal that is no value of the type need not be reported as one: a day of a week in a year
that is too early overflows instead. -/
theorem not_conversion_of_undecoded :
    ¬∀ (s : Schema) (key : String) (type : ScalarType) (raw : String) (f : Filter),
      f.Admits key type → 2 ≤ (tokenize raw).length →
        let tokens := tokenize raw ++ [Token.endOfInput (byteLength raw.toList)]
        ∀ i t literal, tokens[i]? = some t → t.Closing →
          t.kind.mayFollow (Token.lastKind (tokens.take i)) = true →
          (∀ j < i, (s.target key type).flawAt? tokens j = none) →
          ((Token.literals (Token.openGroup (tokens.take i))).find? fun l =>
            (type.read? s.format l).isNone) = some literal →
          (s.parseKey key type raw f).status =
            .error (.rejected (.conversion key literal type s.format)) := by
  intro h
  have hadmits : Filter.empty.Admits "day" .timestamp := by
    intro k hk
    cases hk
  have hconversion := h ⟨[], .pattern "%G-W%V-%u", .unified⟩ "day" .timestamp
    "eq!-2147483648-W01-1" .empty hadmits (by decide +kernel) 3 (Token.endOfInput 20)
    "-2147483648-W01-1" (by decide +kernel) (.inr rfl) (by decide +kernel) (by decide +kernel)
    (by decide +kernel)
  have hoverflow : (Schema.parseKey ⟨[], .pattern "%G-W%V-%u", .unified⟩ "day" .timestamp
      "eq!-2147483648-W01-1" .empty).status = .error (.overflow "-2147483648-W01-1") := by
    decide +kernel
  rw [hoverflow] at hconversion
  cases hconversion

end QueryFilter
