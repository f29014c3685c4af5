import Mathlib.Data.List.TakeWhile
import QueryFilter.Proofs.Grammar.Machine

/-!
# The first group of a value

A filter refuses the rules of a value when it has another type for the key.  It does so where the
first group is closed, since no rule has been added before, and up to that place reading does not
look at the type of the key at all (`Target.step_withType`).  A value that is accepted under one
type therefore reaches the end of its first group under every other type, and there everything hangs
on the literals of that group, `firstLiterals`: if they are values of the other type the types
clash, and otherwise one of them is refused (`Target.exists_readInto_eq_error`).

Before that the module says where failures come from.  One that is no parse error comes from closing
a group (`Target.close_of_status_readInto`), so a filter that admits the type of the key never
clashes.
-/

namespace QueryFilter

namespace Token

/-- The token ends a group: it is a bar, or the end of the input. -/
def Closing (t : Token) : Prop :=
  t.kind = .bar ∨ t.kind = .stop

instance (t : Token) : Decidable t.Closing :=
  inferInstanceAs (Decidable (_ ∨ _))

/-- The texts of the values among some tokens. -/
def literals (ts : List Token) : List String :=
  (ts.filter (·.kind = .value)).map Token.text

lemma literals_append (ts us : List Token) : literals (ts ++ us) = literals ts ++ literals us := by
  rw [literals, List.filter_append, List.map_append]
  rfl

lemma literals_cons (t : Token) (ts : List Token) :
    literals (t :: ts) = literals [t] ++ literals ts :=
  literals_append [t] ts

end Token

/-- The literals of the first group of a value.  The short form is a single literal. -/
def firstLiterals (raw : String) : List String :=
  match tokenize raw with
  | [] => [""]
  | [t] => [t.text]
  | tokens => Token.literals (tokens.takeWhile fun t => ¬ t.Closing)

/-! ### Failures -/

namespace ScalarType

variable {format : TimestampFormat} {type : ScalarType} {literals : List String}

/-- Of literals that are not all values of the type, the first one that is none is given back. -/
lemma readAll_eq_error_iff {literal : String} :
    type.readAll format literals = .error literal ↔
      (literals.find? fun l => (type.read? format l).isNone) = some literal := by
  induction literals with
  | nil => simp [readAll]
  | cons l literals ih =>
    rw [readAll]
    cases hl : type.read? format l with
    | none => simp [hl]
    | some v =>
      have hfind : ((l :: literals).find? fun l => (type.read? format l).isNone) =
          literals.find? fun l => (type.read? format l).isNone := by
        simp [hl]
      rw [hfind, ← ih]
      cases type.readAll format literals with
      | error e => simp [Except.map]
      | ok vs => simp [Except.map]

lemma exists_readAll_eq_ok
    (h : (literals.find? fun l => (type.read? format l).isNone) = none) :
    ∃ values, type.readAll format literals = .ok values := by
  cases hread : type.readAll format literals with
  | ok values => exact ⟨values, rfl⟩
  | error literal =>
    rw [readAll_eq_error_iff.1 hread] at h
    cases h

/-- The literal that is given back is one of them and no value of the type. -/
lemma readAll_eq_error {literal : String} (h : type.readAll format literals = .error literal) :
    literal ∈ literals ∧ type.read? format literal = none := by
  have hfind := readAll_eq_error_iff.1 h
  have hnone := List.find?_some hfind
  exact ⟨List.mem_of_find?_eq_some hfind, Option.isNone_iff_eq_none.1 hnone⟩

lemma isSome_of_readAll_eq_ok {values : List type.Value}
    (h : type.readAll format literals = .ok values) :
    ∀ l ∈ literals, (type.read? format l).isSome := by
  have hvalues : List.Forall₂ (fun l v => (type.read? format l).isSome ∧
      type.read? format l = some v) literals values :=
    (readAll_eq_ok_iff.1 h).imp fun l v hv => ⟨Option.isSome_of_eq_some hv, hv⟩
  exact ((List.forall₂_and_left _ _).1 hvalues).1

end ScalarType

namespace Target

variable {target : Target} {f : Filter} {failure : ParseFailure}

/-- A refused literal is no clash of types. -/
lemma refusal_ne_clash (literal : String) (c : TypeClash) : target.refusal literal ≠ .clash c := by
  rw [refusal]
  split <;> exact nofun

/-- Closing a group fails at a literal that is no value of the type, or by a clash of types. -/
lemma close_eq_error {comparator : Comparator} {literals : List String}
    (h : target.close comparator literals f = .error failure) :
    (∃ l ∈ literals, target.type.read? target.format l = none ∧ failure = target.refusal l) ∨
      (¬ f.Admits target.key target.type ∧
        (∀ l ∈ literals, (target.type.read? target.format l).isSome) ∧
          ∃ c, failure = .clash c) := by
  rw [close] at h
  cases hread : target.type.readAll target.format literals with
  | error l =>
    rw [hread] at h
    obtain ⟨hmem, hnone⟩ := ScalarType.readAll_eq_error hread
    exact .inl ⟨l, hmem, hnone, (Except.error.inj h).symm⟩
  | ok values =>
    rw [hread] at h
    cases hadd : f.add target.key target.type values comparator with
    | ok g =>
      simp only [hadd] at h
      cases h
    | error c =>
      simp only [hadd] at h
      refine .inr ⟨fun hf => ?_, ScalarType.isSome_of_readAll_eq_ok hread, c,
        (Except.error.inj h).symm⟩
      rw [Filter.add_eq_ok hf] at hadd
      cases hadd

/-- A filter with another type for the key closes no group.  The types clash if the literals of the
group are values of the type. -/
lemma exists_close_eq_error (target : Target) (hf : ¬ f.Admits target.key target.type)
    (comparator : Comparator) (literals : List String) :
    ∃ failure, target.close comparator literals f = .error failure ∧
      ((∃ c, failure = .clash c) ↔
        ∀ l ∈ literals, (target.type.read? target.format l).isSome) := by
  cases hclose : target.close comparator literals f with
  | ok g => exact absurd (close_eq_ok_iff.1 hclose).1 hf
  | error failure =>
    refine ⟨failure, rfl, ?_⟩
    rcases close_eq_error hclose with ⟨l, hl, hnone, rfl⟩ | ⟨-, hall, hclash⟩
    · constructor
      · rintro ⟨c, hc⟩
        exact absurd hc (refusal_ne_clash l c)
      · intro hall
        have hsome := hall l hl
        rw [hnone] at hsome
        cases hsome
    · exact iff_of_true hclash hall

/-- A token is refused by a parse error, or because its group is not closed. -/
lemma step_eq_error {p : Progress} {t : Token} (h : target.step p t = .error failure) :
    (∃ error, failure = .rejected error) ∨
      target.close p.comparator p.literals p.filter = .error failure := by
  cases step_eq_error_iff.1 h with
  | misplaced | unknown | comma => exact .inl ⟨_, rfl⟩
  | close _ _ fails => exact .inr fails

/-- The filter still admits the type of the key after an accepted token. -/
lemma Advance.admits {p q : Progress} {t : Token} (h : target.Advance p t q)
    (hp : p.filter.Admits target.key target.type) : q.filter.Admits target.key target.type := by
  cases h with
  | keyword | mark | value | comma => exact hp
  | close kind last closes =>
    obtain ⟨-, values, -, rfl⟩ := close_eq_ok_iff.1 closes
    exact hp.append values _

/-- A run fails by a parse error, or because some group is not closed. -/
lemma close_of_status_run {p : Progress} {ts : List Token}
    (h : (target.run p ts).status = .error failure) :
    (∃ error, failure = .rejected error) ∨
      ∃ comparator literals g, target.close comparator literals g = .error failure ∧
        (p.filter.Admits target.key target.type → g.Admits target.key target.type) := by
  induction ts generalizing p with
  | nil => cases h
  | cons t ts ih =>
    rw [run] at h
    cases hstep : target.step p t with
    | error e =>
      rw [hstep] at h
      obtain rfl : e = failure := Except.error.inj h
      exact (step_eq_error hstep).imp_right fun hclose => ⟨_, _, _, hclose, id⟩
    | ok q =>
      rw [hstep] at h
      refine (ih h).imp_right ?_
      rintro ⟨comparator, literals, g, hclose, hg⟩
      exact ⟨comparator, literals, g, hclose, fun hp => hg ((step_eq_ok_iff.1 hstep).admits hp)⟩

/-- Reading a value fails by a parse error, or because some group is not closed. -/
lemma close_of_status_readInto {raw : String}
    (h : (target.readInto raw f).status = .error failure) :
    (∃ error, failure = .rejected error) ∨
      ∃ comparator literals g, target.close comparator literals g = .error failure ∧
        (f.Admits target.key target.type → g.Admits target.key target.type) := by
  have hbare : ∀ text : String, (target.readBare text f).status = .error failure →
      target.close .equals [text] f = .error failure := by
    intro text htext
    rw [readBare] at htext
    cases hclose : target.close .equals [text] f with
    | ok g =>
      rw [hclose] at htext
      cases htext
    | error e =>
      rw [hclose] at htext
      obtain rfl : e = failure := Except.error.inj htext
      rfl
  rw [readInto] at h
  split at h
  · exact .inr ⟨_, _, _, hbare _ h, id⟩
  · exact .inr ⟨_, _, _, hbare _ h, id⟩
  · exact close_of_status_run h

/-- A filter that admits the type of the key does not clash with a value. -/
lemma status_readInto_ne_clash (hf : f.Admits target.key target.type) (raw : String)
    (c : TypeClash) : (target.readInto raw f).status ≠ .error (.clash c) := by
  intro h
  rcases close_of_status_readInto h with ⟨error, herror⟩ | ⟨_, _, g, hclose, hg⟩
  · cases herror
  · rcases close_eq_error hclose with ⟨l, -, -, hl⟩ | ⟨hno, -, -⟩
    · exact refusal_ne_clash l c hl.symm
    · exact hno (hg hf)

/-- Reading a value overflows only if reading a literal does. -/
lemma overflows_of_status_readInto {raw literal : String}
    (h : (target.readInto raw f).status = .error (.overflow literal)) :
    target.type.overflows target.format literal = true := by
  rcases close_of_status_readInto h with ⟨error, herror⟩ | ⟨_, _, g, hclose, -⟩
  · cases herror
  · rcases close_eq_error hclose with ⟨l, -, -, hl⟩ | ⟨-, -, c, hc⟩
    · rw [refusal] at hl
      split at hl
      · next hoverflows =>
        obtain rfl : literal = l := ParseFailure.overflow.inj hl
        exact hoverflows
      · cases hl
    · cases hc

/-! ### Up to the end of the first group -/

/-- The same key with another type. -/
def withType (target : Target) (type : ScalarType) : Target :=
  { target with type := type }

/-- A token that closes no group is read without looking at the type of the key. -/
lemma step_withType {t : Token} (ht : ¬ t.Closing) (type : ScalarType) (p : Progress) :
    (target.withType type).step p t = target.step p t := by
  obtain ⟨hbar, hstop⟩ := not_or.1 ht
  rw [step, step]
  cases hkind : t.kind with
  | bar => exact absurd hkind hbar
  | stop => exact absurd hkind hstop
  | keyword | mark | value | comma => rfl

/-- A token that closes no group adds its text to the literals if it is a value. -/
lemma Advance.literals_eq {p q : Progress} {t : Token} (h : target.Advance p t q)
    (ht : ¬ t.Closing) : q.literals = p.literals ++ Token.literals [t] := by
  cases h with
  | close kind => exact absurd kind ht
  | keyword kind | mark kind | value kind | comma kind => simp [Token.literals, kind]

/-- Tokens that close no group are refused under every type and with every filter, or lead to the
same place of the first group. -/
lemma run_of_forall_not_closing (target : Target) {ts : List Token} (hts : ∀ t ∈ ts, ¬ t.Closing)
    (p : Progress) :
    (∃ failure, ∀ type f rest,
        (target.withType type).run (p.withFilter f) (ts ++ rest) = ⟨.error failure, f⟩) ∨
      ∃ q : Progress, q.literals = p.literals ++ Token.literals ts ∧ ∀ type f rest,
        (target.withType type).run (p.withFilter f) (ts ++ rest) =
          (target.withType type).run (q.withFilter f) rest := by
  induction ts generalizing p with
  | nil => exact .inr ⟨p, (List.append_nil _).symm, fun _ _ _ => rfl⟩
  | cons t ts ih =>
    have ht : ¬ t.Closing := hts t List.mem_cons_self
    obtain ⟨hbar, hstop⟩ := not_or.1 ht
    have hrun : ∀ type f, (target.withType type).step (p.withFilter f) t =
        (target.step p t).map fun q => q.withFilter f := fun type f => by
      rw [step_withType ht, step_withFilter hbar hstop]
    cases hstep : target.step p t with
    | error e =>
      refine .inl ⟨e, fun type f rest => ?_⟩
      rw [List.cons_append, run, hrun, hstep]
      rfl
    | ok q =>
      have hcons : ∀ type f rest, (target.withType type).run (p.withFilter f) (t :: ts ++ rest) =
          (target.withType type).run (q.withFilter f) (ts ++ rest) := fun type f rest => by
        rw [List.cons_append, run, hrun, hstep]
        rfl
      refine (ih (fun t' ht' => hts t' (List.mem_cons_of_mem _ ht')) q).imp ?_ ?_
      · rintro ⟨failure, hfailure⟩
        exact ⟨failure, fun type f rest => (hcons type f rest).trans (hfailure type f rest)⟩
      · rintro ⟨q', hliterals, hq'⟩
        refine ⟨q', ?_, fun type f rest => (hcons type f rest).trans (hq' type f rest)⟩
        rw [hliterals, (step_eq_ok_iff.1 hstep).literals_eq ht, Token.literals_cons t ts,
          List.append_assoc]

end Target

/-- The tokens of a value and the end of the input begin with a group and the token that closes
it. -/
lemma exists_closing_eq_append (tokens : List Token) (length : Nat) :
    ∃ t rest, tokens ++ [Token.endOfInput length] =
      (tokens.takeWhile fun t => ¬ t.Closing) ++ t :: rest ∧ t.Closing := by
  have hsplit := List.takeWhile_append_dropWhile (p := fun t : Token => ¬ t.Closing) (l := tokens)
  cases hrest : tokens.dropWhile fun t => ¬ t.Closing with
  | nil =>
    rw [hrest, List.append_nil] at hsplit
    exact ⟨Token.endOfInput length, [], by rw [hsplit], .inr rfl⟩
  | cons t rest =>
    rw [hrest] at hsplit
    refine ⟨t, rest ++ [Token.endOfInput length], ?_, ?_⟩
    · rw [← List.cons_append, ← List.append_assoc, hsplit]
    · have hne : (tokens.dropWhile fun t => ¬ t.Closing) ≠ [] := by
        rw [hrest]
        exact List.cons_ne_nil t rest
      have hhead := List.head_dropWhile_not _ hne
      simp only [hrest, List.head_cons] at hhead
      exact not_not.1 (of_decide_eq_false hhead)

namespace Target

variable {target : Target} {type : ScalarType} {f : Filter} {raw : String}

/-- A value is refused under every type and with every filter, or is refused by those that do not
close its first group. -/
lemma readInto_of_close (target : Target) (raw : String) :
    (∃ failure, ∀ type f, (target.withType type).readInto raw f = ⟨.error failure, f⟩) ∨
      ∃ comparator, ∀ type f failure,
        (target.withType type).close comparator (firstLiterals raw) f = .error failure →
          (target.withType type).readInto raw f = ⟨.error failure, f⟩ := by
  have hbare : ∀ text type f failure,
      (target.withType type).close .equals [text] f = .error failure →
        (target.withType type).readBare text f = ⟨.error failure, f⟩ := by
    intro text type f failure hclose
    rw [readBare, hclose]
  rcases htokens : tokenize raw with _ | ⟨t₁, _ | ⟨t₂, ts⟩⟩
  · simp only [readInto, firstLiterals, htokens]
    exact .inr ⟨.equals, hbare ""⟩
  · simp only [readInto, firstLiterals, htokens]
    exact .inr ⟨.equals, hbare t₁.text⟩
  · simp only [readInto, firstLiterals, htokens]
    generalize t₁ :: t₂ :: ts = tokens
    obtain ⟨t, rest, hsplit, ht⟩ := exists_closing_eq_append tokens (byteLength raw.toList)
    have hopen : ∀ t' ∈ tokens.takeWhile fun t => ¬ t.Closing, ¬ t'.Closing := fun t' ht' => by
      simpa using List.mem_takeWhile_imp ht'
    rw [hsplit]
    rcases target.run_of_forall_not_closing hopen (.start .empty) with
      ⟨failure, hfailure⟩ | ⟨q, hliterals, hq⟩
    · exact .inl ⟨failure, fun type f => hfailure type f _⟩
    · have hstart : Progress.literals (.start .empty) = [] := rfl
      rw [hstart, List.nil_append] at hliterals
      by_cases hvalue : q.last = some .value
      · refine .inr ⟨q.comparator, fun type f failure hclose => ?_⟩
        rw [← hliterals] at hclose
        refine (hq type f _).trans ?_
        rw [run, step_withFilter_of_closing _ ht, if_pos hvalue, hclose]
        rfl
      · refine .inl ⟨.rejected (.unexpectedToken target.key (.after q.last) t), fun type f => ?_⟩
        refine (hq type f _).trans ?_
        rw [run, step_withFilter_of_closing _ ht, if_neg hvalue]
        rfl

/-- A value that is accepted under one type is refused by a filter with another type for the key, by
a clash of types exactly if the literals of its first group are values of that type. -/
lemma exists_readInto_eq_error {type' : ScalarType} {g : Filter}
    (haccepted : ((target.withType type').readInto raw g).status = .ok ())
    (hf : ¬ f.Admits target.key type) :
    ∃ failure, (target.withType type).readInto raw f = ⟨.error failure, f⟩ ∧
      ((∃ c, failure = .clash c) ↔
        ∀ l ∈ firstLiterals raw, (type.read? target.format l).isSome) := by
  rcases target.readInto_of_close raw with ⟨failure, hfailure⟩ | ⟨comparator, hread⟩
  · rw [hfailure] at haccepted
    cases haccepted
  · obtain ⟨failure, hclose, hclash⟩ :=
      (target.withType type).exists_close_eq_error hf comparator (firstLiterals raw)
    exact ⟨failure, hread type f failure hclose, hclash⟩

/-- Only a filter that admits the type of the key accepts a value. -/
lemma admits_of_status_readInto (h : (target.readInto raw f).status = .ok ()) :
    f.Admits target.key target.type := by
  by_contra hf
  have haccepted : ((target.withType target.type).readInto raw f).status = .ok () := h
  obtain ⟨failure, hfailure, -⟩ := exists_readInto_eq_error haccepted hf
  rw [hfailure] at haccepted
  cases haccepted

end Target

end QueryFilter
