import Mathlib.Data.List.Forall2
import QueryFilter.Grammar
import QueryFilter.Proofs.Filter.Replay

/-!
# The grammar machine

What one step of the machine can do, and from it what a whole run does: with any filter, and to its
filter.
-/

namespace QueryFilter

/-! ## Steps of the machine

What a single step of the grammar machine can do, said once: `Target.Advance` lists the ways in
which a token is accepted and `Target.Refuse` those in which it is refused, and
`Target.step_eq_ok_iff` and `Target.step_eq_error_iff` say that these are all.  A group is closed by
`Target.close`, whose success is described by `Target.close_eq_ok_iff`: every literal is one of the
type of the key, the filter has no other type for the key, and the rule is appended.
-/

/-- Reading literals succeeds when every one of them is a value of the type. -/
lemma ScalarType.readAll_eq_ok_iff {format : TimestampFormat} {type : ScalarType}
    {literals : List String} {values : List type.Value} :
    type.readAll format literals = .ok values ↔
      List.Forall₂ (fun l v => type.read? format l = some v) literals values := by
  induction literals generalizing values with
  | nil => simp [readAll, eq_comm]
  | cons l literals ih =>
    rw [readAll]
    cases hl : type.read? format l with
    | none => simp [List.forall₂_cons_left_iff, hl]
    | some v =>
      cases hrest : type.readAll format literals with
      | error e =>
        rw [List.forall₂_cons_left_iff]
        constructor
        · intro h
          exact absurd h (by simp [Except.map])
        · rintro ⟨w, ws, -, hws, -⟩
          rw [← ih, hrest] at hws
          exact absurd hws (by simp)
      | ok vs =>
        rw [List.forall₂_cons_left_iff]
        constructor
        · intro h
          obtain rfl : v :: vs = values := Except.ok.inj h
          exact ⟨v, vs, hl, ih.1 hrest, rfl⟩
        · rintro ⟨w, ws, hw, hws, rfl⟩
          obtain rfl : v = w := Option.some.inj (hl.symm.trans hw)
          obtain rfl : vs = ws := Except.ok.inj (hrest.symm.trans (ih.2 hws))
          rfl

namespace Target

variable {target : Target}

/-- Closing a group succeeds when its literals are values of the key's type and the filter admits
the type; it appends the rule of the group. -/
lemma close_eq_ok_iff {comparator : Comparator} {literals : List String} {f g : Filter} :
    target.close comparator literals f = .ok g ↔
      f.Admits target.key target.type ∧
        ∃ values, List.Forall₂ (fun l v => target.type.read? target.format l = some v)
          literals values ∧ g = f.append target.key target.type values comparator := by
  rw [close]
  cases hread : target.type.readAll target.format literals with
  | error l =>
    constructor
    · intro h
      exact absurd h (by simp)
    · rintro ⟨-, values, hvalues, -⟩
      rw [← ScalarType.readAll_eq_ok_iff, hread] at hvalues
      exact absurd hvalues (by simp)
  | ok values =>
    have hadd := Filter.add_eq_ok_iff f target.key target.type values comparator g
    constructor
    · intro h
      have hok : f.add target.key target.type values comparator = .ok g := by
        cases hf : f.add target.key target.type values comparator with
        | error e => simp [hf, Except.mapError] at h
        | ok g' => simpa [hf, Except.mapError] using h
      obtain ⟨hadmits, hg⟩ := hadd.1 hok
      exact ⟨hadmits, values, ScalarType.readAll_eq_ok_iff.1 hread, hg⟩
    · rintro ⟨hadmits, values', hvalues, hg⟩
      rw [← ScalarType.readAll_eq_ok_iff, hread] at hvalues
      obtain rfl := Except.ok.inj hvalues
      simp [hadd.2 ⟨hadmits, hg⟩, Except.mapError]

/-- The ways in which the machine accepts a token, and where each of them leads. -/
inductive Advance (target : Target) (p : Progress) (t : Token) : Progress → Prop
  | keyword (kind : t.kind = .keyword) (last : p.last = none ∨ p.last = some .bar)
      {comparator : Comparator} (spells : Comparator.ofKeyword? t.text = some comparator) :
      Advance target p t { p with last := some .keyword, comparator := comparator }
  | mark (kind : t.kind = .mark) (last : p.last = some .keyword) :
      Advance target p t { p with last := some .mark }
  | value (kind : t.kind = .value) (last : p.last = some .mark ∨ p.last = some .comma) :
      Advance target p t { p with last := some .value, literals := p.literals ++ [t.text] }
  | comma (kind : t.kind = .comma) (last : p.last = some .value)
      (accepts : target.profile.acceptsList p.comparator = true) :
      Advance target p t { p with last := some .comma }
  | close (kind : t.kind = .bar ∨ t.kind = .stop) (last : p.last = some .value) {f : Filter}
      (closes : target.close p.comparator p.literals p.filter = .ok f) :
      Advance target p t { p with last := some t.kind, literals := [], filter := f }

/-- The machine accepts a token in these ways only. -/
lemma step_eq_ok_iff {p q : Progress} {t : Token} :
    target.step p t = .ok q ↔ target.Advance p t q := by
  constructor
  · intro h
    unfold step at h
    split at h
    · exact absurd h (by simp)
    · next hfollow =>
      simp only [TokenKind.mayFollow, Bool.not_eq_true', Bool.not_eq_false] at hfollow
      split at h
      · next hkind =>
        split at h
        · next c hc =>
          obtain rfl := Except.ok.inj h
          exact .keyword hkind (by simpa [hkind] using hfollow) hc
        · exact absurd h (by simp)
      · next hkind =>
        obtain rfl := Except.ok.inj h
        exact .mark hkind (by simpa [hkind] using hfollow)
      · next hkind =>
        obtain rfl := Except.ok.inj h
        exact .value hkind (by simpa [hkind] using hfollow)
      · next hkind =>
        split at h
        · next haccepts =>
          obtain rfl := Except.ok.inj h
          exact .comma hkind (by simpa [hkind] using hfollow) haccepts
        · exact absurd h (by simp)
      all_goals
        next hkind =>
        cases hclose : target.close p.comparator p.literals p.filter with
        | error e => simp [hclose, Except.map] at h
        | ok f =>
          rw [hclose] at h
          obtain rfl := Except.ok.inj h
          exact .close (by simp [hkind]) (by simpa [hkind] using hfollow) hclose
  · intro h
    cases h with
    | keyword kind last spells =>
      rcases last with last | last <;> simp [step, TokenKind.mayFollow, kind, last, spells]
    | mark kind last => simp [step, TokenKind.mayFollow, kind, last]
    | value kind last =>
      rcases last with last | last <;> simp [step, TokenKind.mayFollow, kind, last]
    | comma kind last accepts => simp [step, TokenKind.mayFollow, kind, last, accepts]
    | close kind last closes =>
      rcases kind with kind | kind <;>
        simp [step, TokenKind.mayFollow, kind, last, closes, Except.map]

/-- The ways in which the machine refuses a token, each with the failure that it reports. -/
inductive Refuse (target : Target) (p : Progress) (t : Token) : ParseFailure → Prop
  | misplaced (follows : t.kind.mayFollow p.last = false) :
      Refuse target p t (.rejected (.unexpectedToken target.key (.after p.last) t))
  | unknown (kind : t.kind = .keyword) (last : p.last = none ∨ p.last = some .bar)
      (spells : Comparator.ofKeyword? t.text = none) :
      Refuse target p t (.rejected (.invalidComparator target.key t))
  | comma (kind : t.kind = .comma) (last : p.last = some .value)
      (accepts : target.profile.acceptsList p.comparator = false) :
      Refuse target p t
        (.rejected (.commaNotAllowed target.key p.comparator target.profile t.span))
  | close (kind : t.kind = .bar ∨ t.kind = .stop) (last : p.last = some .value)
      {failure : ParseFailure}
      (fails : target.close p.comparator p.literals p.filter = .error failure) :
      Refuse target p t failure

/-- The machine refuses a token in these ways only. -/
lemma step_eq_error_iff {p : Progress} {t : Token} {failure : ParseFailure} :
    target.step p t = .error failure ↔ target.Refuse p t failure := by
  constructor
  · intro h
    unfold step at h
    split at h
    · next hfollow =>
      obtain rfl := Except.error.inj h
      exact .misplaced (by simpa using hfollow)
    · next hfollow =>
      simp only [TokenKind.mayFollow, Bool.not_eq_true', Bool.not_eq_false] at hfollow
      split at h
      · next hkind =>
        split at h
        · exact absurd h (by simp)
        · next hnone =>
          obtain rfl := Except.error.inj h
          exact .unknown hkind (by simpa [hkind] using hfollow) hnone
      · exact absurd h (by simp)
      · exact absurd h (by simp)
      · next hkind =>
        split at h
        · exact absurd h (by simp)
        · next haccepts =>
          obtain rfl := Except.error.inj h
          exact .comma hkind (by simpa [hkind] using hfollow) (by simpa using haccepts)
      all_goals
        next hkind =>
        cases hclose : target.close p.comparator p.literals p.filter with
        | ok f => simp [hclose, Except.map] at h
        | error e =>
          rw [hclose] at h
          obtain rfl := Except.error.inj h
          exact .close (by simp [hkind]) (by simpa [hkind] using hfollow) hclose
  · intro h
    cases h with
    | misplaced follows => simp [step, follows]
    | unknown kind last spells =>
      rcases last with last | last <;> simp [step, TokenKind.mayFollow, kind, last, spells]
    | comma kind last accepts => simp [step, TokenKind.mayFollow, kind, last, accepts]
    | close kind last fails =>
      rcases kind with kind | kind <;>
        simp [step, TokenKind.mayFollow, kind, last, fails, Except.map]

lemma run_cons_of_advance {p q : Progress} {t : Token} (h : target.Advance p t q)
    (ts : List Token) : target.run p (t :: ts) = target.run q ts := by
  rw [run, step_eq_ok_iff.2 h]

/-- A run over tokens and more is that over the tokens if it fails, and goes on from where they
lead if it does not. -/
lemma run_append (target : Target) (p : Progress) (ts : List Token) :
    (∃ failure f, ∀ us, target.run p (ts ++ us) = ⟨.error failure, f⟩) ∨
      ∃ q, ∀ us, target.run p (ts ++ us) = target.run q us := by
  induction ts generalizing p with
  | nil => exact .inr ⟨p, fun _ => rfl⟩
  | cons t ts ih =>
    cases hstep : target.step p t with
    | error e =>
      refine .inl ⟨e, p.filter, fun us => ?_⟩
      rw [List.cons_append, run, hstep]
    | ok q =>
      have hcons : ∀ us, target.run p (t :: ts ++ us) = target.run q (ts ++ us) := fun us => by
        rw [List.cons_append, run, hstep]
      simp only [hcons]
      exact ih q

/-- A run that ends well accepts its first token. -/
lemma exists_advance_of_run_eq_ok {p : Progress} {t : Token} {ts : List Token} {g : Filter}
    (h : target.run p (t :: ts) = ⟨.ok (), g⟩) :
    ∃ q, target.Advance p t q ∧ target.run q ts = ⟨.ok (), g⟩ := by
  rw [run] at h
  cases hstep : target.step p t with
  | error e =>
    rw [hstep] at h
    exact absurd (congrArg Outcome.status h) (by simp)
  | ok q =>
    rw [hstep] at h
    exact ⟨q, step_eq_ok_iff.1 hstep, h⟩

end Target

/-! ## Reading does not depend on the filter

How reading a query value ends, and which rules it adds until then, is decided by the text and by
the key alone.  The filter only receives the rules: any two filters that admit the type of the key
get the same ones, and the readings end in the same way (`Target.exists_readInto_eq`).

The machine looks at its filter nowhere but where it closes a group
(`Target.close_eq_error_or_append`).  One token therefore either is refused with every filter, or
leads on and appends the same rules to every filter (`Target.step_eq_error_or_appendAll`); a run
does one after the other until a token is refused (`Target.exists_run_eq`).
-/

/-- The progress with another filter. -/
def Progress.withFilter (p : Progress) (f : Filter) : Progress :=
  { p with filter := f }

namespace Target

variable {target : Target}

/-- Closing a group is refused with every filter, or appends one rule to every filter. -/
lemma close_eq_error_or_append (target : Target) (comparator : Comparator)
    (literals : List String) :
    (∃ e, ∀ f, f.Admits target.key target.type → target.close comparator literals f = .error e) ∨
      ∃ rule : Rule target.type, ∀ f, f.Admits target.key target.type →
        target.close comparator literals f =
          .ok (f.append target.key target.type rule.values rule.comparator) := by
  cases hread : target.type.readAll target.format literals with
  | error literal =>
    refine .inl ⟨target.refusal literal, fun f _ => ?_⟩
    rw [close, hread]
  | ok values =>
    refine .inr ⟨⟨comparator, values⟩, fun f hf => ?_⟩
    rw [close, hread]
    simp only
    rw [Filter.add_eq_ok hf]
    rfl

/-- A token that closes no group is read without looking at the filter. -/
lemma step_withFilter {t : Token} (hbar : t.kind ≠ .bar) (hstop : t.kind ≠ .stop) (p : Progress)
    (f : Filter) :
    target.step (p.withFilter f) t = (target.step p t).map fun q => q.withFilter f := by
  have hlast : (p.withFilter f).last = p.last := rfl
  rw [step, step, hlast]
  by_cases hfollow : (!t.kind.mayFollow p.last) = true
  · rw [if_pos hfollow, if_pos hfollow]
    rfl
  · rw [if_neg hfollow, if_neg hfollow]
    cases hkind : t.kind with
    | keyword => cases Comparator.ofKeyword? t.text <;> rfl
    | mark | value => rfl
    | comma =>
      have hcomparator : (p.withFilter f).comparator = p.comparator := rfl
      simp only [hcomparator]
      split <;> rfl
    | bar => exact absurd hkind hbar
    | stop => exact absurd hkind hstop

/-- A token that closes a group looks at the filter there only. -/
lemma step_withFilter_of_closing (target : Target) {t : Token}
    (hkind : t.kind = .bar ∨ t.kind = .stop) (p : Progress) (f : Filter) :
    target.step (p.withFilter f) t =
      if p.last = some .value then
        (target.close p.comparator p.literals f).map fun g =>
          { p with last := some t.kind, literals := [], filter := g }
      else .error (.rejected (.unexpectedToken target.key (.after p.last) t)) := by
  have hfollow : (!t.kind.mayFollow p.last) = true ↔ ¬ p.last = some .value := by
    rcases hkind with hkind | hkind <;> simp [TokenKind.mayFollow, hkind]
  have hlast : (p.withFilter f).last = p.last := rfl
  rw [step, hlast]
  by_cases hvalue : p.last = some .value
  · rw [if_neg (by rw [hfollow, not_not]; exact hvalue), if_pos hvalue]
    rcases hkind with hkind | hkind <;> simp only [hkind] <;> rfl
  · rw [if_pos (hfollow.2 hvalue), if_neg hvalue]

/-- A token is refused with every filter, or leads on and appends the same rules to every filter. -/
lemma step_eq_error_or_appendAll (target : Target) (p : Progress) (t : Token) :
    (∃ e, ∀ f, f.Admits target.key target.type → target.step (p.withFilter f) t = .error e) ∨
      ∃ (q : Progress) (rules : List (Rule target.type)), ∀ f, f.Admits target.key target.type →
        target.step (p.withFilter f) t =
          .ok (q.withFilter (f.appendAll target.key target.type rules)) := by
  by_cases hkind : t.kind = .bar ∨ t.kind = .stop
  · have hstep := target.step_withFilter_of_closing hkind p
    by_cases hvalue : p.last = some .value
    · rcases target.close_eq_error_or_append p.comparator p.literals with ⟨e, he⟩ | ⟨rule, hrule⟩
      · refine .inl ⟨e, fun f hf => ?_⟩
        rw [hstep f, if_pos hvalue, he f hf]
        rfl
      · refine .inr ⟨{ p with last := some t.kind, literals := [] }, [rule], fun f hf => ?_⟩
        rw [hstep f, if_pos hvalue, hrule f hf]
        rfl
    · refine .inl ⟨.rejected (.unexpectedToken target.key (.after p.last) t), fun f _ => ?_⟩
      rw [hstep f, if_neg hvalue]
  · obtain ⟨hbar, hstop⟩ := not_or.1 hkind
    cases hstep : target.step p t with
    | error e =>
      refine .inl ⟨e, fun f _ => ?_⟩
      rw [step_withFilter hbar hstop, hstep]
      rfl
    | ok q =>
      refine .inr ⟨q, [], fun f _ => ?_⟩
      rw [step_withFilter hbar hstop, hstep]
      rfl

/-- A run ends in the same way with every filter, and appends the same rules to it until then. -/
lemma exists_run_eq (target : Target) (p : Progress) (ts : List Token) :
    ∃ (status : Except ParseFailure Unit) (rules : List (Rule target.type)),
      ∀ f, f.Admits target.key target.type →
        target.run (p.withFilter f) ts = ⟨status, f.appendAll target.key target.type rules⟩ := by
  induction ts generalizing p with
  | nil => exact ⟨.ok (), [], fun f _ => rfl⟩
  | cons t ts ih =>
    rcases target.step_eq_error_or_appendAll p t with ⟨e, he⟩ | ⟨q, rules, hq⟩
    · refine ⟨.error e, [], fun f hf => ?_⟩
      rw [run, he f hf]
      rfl
    · obtain ⟨status, rules', hrest⟩ := ih q
      refine ⟨status, rules ++ rules', fun f hf => ?_⟩
      rw [run, hq f hf]
      simp only
      rw [hrest _ (hf.appendAll rules), Filter.appendAll_append]

/-- The short form is refused with every filter, or appends one rule to every filter. -/
lemma exists_readBare_eq (target : Target) (literal : String) :
    ∃ (status : Except ParseFailure Unit) (rules : List (Rule target.type)),
      ∀ f, f.Admits target.key target.type →
        target.readBare literal f = ⟨status, f.appendAll target.key target.type rules⟩ := by
  rcases target.close_eq_error_or_append .equals [literal] with ⟨e, he⟩ | ⟨rule, hrule⟩
  · refine ⟨.error e, [], fun f hf => ?_⟩
    rw [readBare, he f hf]
    rfl
  · refine ⟨.ok (), [rule], fun f hf => ?_⟩
    rw [readBare, hrule f hf]
    rfl

/-- Reading a value ends in the same way with every filter, and appends the same rules to it until
then. -/
lemma exists_readInto_eq (target : Target) (raw : String) :
    ∃ (status : Except ParseFailure Unit) (rules : List (Rule target.type)),
      ∀ f, f.Admits target.key target.type →
        target.readInto raw f = ⟨status, f.appendAll target.key target.type rules⟩ := by
  unfold readInto
  split
  · exact target.exists_readBare_eq ""
  · next t _ => exact target.exists_readBare_eq t.text
  · exact target.exists_run_eq (.start .empty) _

end Target

/-! ## What reading a value adds to a filter

However reading a query value ends, it leaves the filter with some rules appended to the key, and
all of these are well formed: they have values, and several only under a comparator that takes a
list.  `Target.Extends` is this relation between the filter before and the filter after.

The machine owes it to an invariant of its progress (`Progress.Formed`): after a value there are
literals, several only under such a comparator, and after a comma the comparator is such a one.  One
accepted token preserves it (`Target.Advance.formed`), hence a run does
(`Target.extends_run`), up to the first token that is not accepted.
-/

/-- The rule has values, and several only under a comparator that takes a list. -/
structure Rule.WellFormed {type : ScalarType} (profile : Profile) (r : Rule type) : Prop where
  ne_nil : r.values ≠ []
  arity : 1 < r.values.length → profile.acceptsList r.comparator = true

/-- Literals and comparator of the open group agree with the last token. -/
def Progress.Formed (profile : Profile) (p : Progress) : Prop :=
  match p.last with
  | some .value =>
    p.literals ≠ [] ∧ (1 < p.literals.length → profile.acceptsList p.comparator = true)
  | some .comma => p.literals ≠ [] ∧ profile.acceptsList p.comparator = true
  | _ => p.literals = []

namespace Target

/-- Well-formed rules are appended to a key that admits them, one after another. -/
inductive Extends (target : Target) : Filter → Filter → Prop
  | refl (f : Filter) : Extends target f f
  | append {f g : Filter} {r : Rule target.type} (admits : f.Admits target.key target.type)
      (wellFormed : r.WellFormed target.profile)
      (more : Extends target (f.append target.key target.type r.values r.comparator) g) :
      Extends target f g

variable {target : Target} {p q : Progress} {t : Token} {f g : Filter}

lemma Extends.trans {f₁ f₂ f₃ : Filter} (h : target.Extends f₁ f₂) (h' : target.Extends f₂ f₃) :
    target.Extends f₁ f₃ := by
  induction h with
  | refl f => exact h'
  | append admits wellFormed more ih => exact .append admits wellFormed (ih h')

/-- Extending preserves what every addition of a well-formed rule preserves. -/
lemma Extends.preserves {P : Filter → Prop} (h : target.Extends f g) (hf : P f)
    (step : ∀ (f : Filter) (r : Rule target.type), P f → f.Admits target.key target.type →
      r.WellFormed target.profile →
      P (f.append target.key target.type r.values r.comparator)) : P g := by
  induction h with
  | refl f => exact hf
  | append admits wellFormed more ih => exact ih (step _ _ hf admits wellFormed)

/-- Closing a group with literals, several only under a comparator that takes a list, appends a
well-formed rule. -/
lemma extends_of_close {comparator : Comparator} {literals : List String} (hne : literals ≠ [])
    (harity : 1 < literals.length → target.profile.acceptsList comparator = true)
    (h : target.close comparator literals f = .ok g) : target.Extends f g := by
  obtain ⟨hadmits, values, hvalues, rfl⟩ := close_eq_ok_iff.1 h
  have hlen : literals.length = values.length := hvalues.length_eq
  have hvalues_ne : values ≠ [] := by
    rintro rfl
    exact hne (List.eq_nil_of_length_eq_zero hlen)
  have hrule : Rule.WellFormed target.profile (⟨comparator, values⟩ : Rule target.type) :=
    ⟨hvalues_ne, fun hlong => harity (hlen ▸ hlong)⟩
  exact .append hadmits hrule (.refl _)

/-- An accepted token preserves the invariant. -/
lemma Advance.formed (h : target.Advance p t q) (hp : p.Formed target.profile) :
    q.Formed target.profile := by
  cases h with
  | keyword kind last spells =>
    have hnil : p.literals = [] := by
      rcases last with last | last
      all_goals
        rw [Progress.Formed, last] at hp
        exact hp
    exact hnil
  | mark kind last =>
    rw [Progress.Formed, last] at hp
    exact hp
  | value kind last =>
    refine ⟨List.append_ne_nil_of_right_ne_nil _ (List.cons_ne_nil _ _), fun hlong => ?_⟩
    rcases last with last | last
    · -- The first literal of a group is its only one.
      rw [Progress.Formed, last] at hp
      simp [hp] at hlong
    · rw [Progress.Formed, last] at hp
      exact hp.2
  | comma kind last accepts =>
    rw [Progress.Formed, last] at hp
    exact ⟨hp.1, accepts⟩
  | close kind last closes =>
    rcases kind with kind | kind
    all_goals
      rw [Progress.Formed, kind]

/-- An accepted token extends the filter. -/
lemma Advance.extends_filter (h : target.Advance p t q) (hp : p.Formed target.profile) :
    target.Extends p.filter q.filter := by
  cases h with
  | keyword | mark | value | comma => exact .refl _
  | close kind last closes =>
    rw [Progress.Formed, last] at hp
    exact extends_of_close hp.1 hp.2 closes

/-- However a run ends, it has extended the filter. -/
lemma extends_run (hp : p.Formed target.profile) (ts : List Token) :
    target.Extends p.filter (target.run p ts).filter := by
  induction ts generalizing p with
  | nil => exact .refl p.filter
  | cons t ts ih =>
    cases hstep : target.step p t with
    | error e =>
      rw [run, hstep]
      exact .refl p.filter
    | ok q =>
      have hadvance : target.Advance p t q := step_eq_ok_iff.1 hstep
      rw [run_cons_of_advance hadvance]
      exact (hadvance.extends_filter hp).trans (ih (hadvance.formed hp))

/-- However reading a value ends, it has extended the filter. -/
lemma extends_readInto (target : Target) (raw : String) (f : Filter) :
    target.Extends f (target.readInto raw f).filter := by
  have hbare : ∀ text : String, target.Extends f (target.readBare text f).filter := by
    intro text
    rw [readBare]
    cases hclose : target.close .equals [text] f with
    | error e => exact .refl f
    | ok g =>
      have hone : ¬ 1 < [text].length := Nat.lt_irrefl 1
      exact extends_of_close (List.cons_ne_nil text []) (fun hlong => absurd hlong hone) hclose
  rw [readInto]
  split
  · exact hbare ""
  · next t _ => exact hbare t.text
  · have hstart : (Progress.start f).Formed target.profile := rfl
    exact extends_run hstart _

end Target

/-- However reading the value of a key ends, a recorded filter stays one. -/
lemma Schema.recorded_parseKey {f : Filter} (hf : f.Recorded) (s : Schema) (key : String)
    (type : ScalarType) (raw : String) : (s.parseKey key type raw f).filter.Recorded :=
  ((s.target key type).extends_readInto raw f).preserves hf fun _ r hg hadmits _ =>
    hg.append hadmits r.values r.comparator

end QueryFilter
