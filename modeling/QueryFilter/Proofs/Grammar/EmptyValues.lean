import QueryFilter.Proofs.Grammar.Acceptance
import QueryFilter.Proofs.Token.Pairs

/-!
# Empty values

A slice that is not empty has an empty text only if it is a single backslash, which escapes nothing.
What follows a value is a delimiter behind an even run of backslashes, so such a slice can stand at
the end of the input only.

`empty_values_end_input` says this of the tokens, and of the values that an accepted text stores:
behind a lone backslash no other value of the group (`ListText.ends_of_backslash`) and no other
group (`GroupsText.ends_of_backslash`) can follow.
-/

namespace QueryFilter

/-! ### Lone backslashes -/

/-- Nothing is left of a text without its escapes if it is empty or a lone backslash. -/
lemma unescape_eq_nil_iff {cs : List Char} : unescape cs = [] ↔ cs = [] ∨ cs = ['\\'] := by
  induction cs using pairs_induction with
  | nil => simp
  | last => simp [unescape]
  | pair c cs => simp
  | plain c cs hc => simp [unescape_cons cs hc, hc]

/-- Behind a lone backslash at a settled place a pair is open. -/
lemma not_settled_backslash {before : List Char} (h : Settled before) :
    ¬ Settled (['\\'].reverse ++ before) := by
  rw [List.reverse_singleton, List.singleton_append, settled_backslash_iff, not_not]
  exact h

/-- In a text of whole pairs every backslash that escapes has a character behind it. -/
lemma WholePairs.role_behind {cs : List Char} (h : WholePairs cs) {i : Nat}
    (hi : (roles cs)[i]? = some .escaping) : (roles cs)[i + 1]? = some .escaped := by
  induction h generalizing i with
  | nil => simp [roles] at hi
  | pair c _ ih =>
    rw [roles_pair] at hi ⊢
    rcases i with _ | _ | i
    · rfl
    · simp at hi
    · exact ih hi
  | plain other _ ih =>
    rw [roles_cons _ other] at hi ⊢
    cases i with
    | zero => simp at hi
    | succ i => exact ih hi

namespace StandsBetween

variable {raw : String} {t : Token} {left slice right : List Char}

/-- A value that has an empty text is cut from a lone backslash. -/
lemma text_eq_empty_iff (h : StandsBetween t left slice right) :
    t.text = "" ↔ slice = ['\\'] := by
  obtain ⟨marked, hnext⟩ := h.next
  rw [h.text_eq, String.ofList_eq_empty_iff, unescape_eq_nil_iff, or_iff_right hnext.slice_ne_nil]

/-- Where more text follows, a token is made of whole pairs. -/
lemma wholePairs (h : StandsBetween t left slice right) (hright : right ≠ []) :
    WholePairs slice := by
  obtain ⟨marked, hnext⟩ := h.next
  exact wholePairs_of_settled (hnext.settled_of_ne_nil hright)

/-- A token with an empty text stands at the end. -/
lemma right_eq_nil (h : StandsBetween t left slice right) (hempty : t.text = "") :
    right = [] := by
  by_contra hright
  obtain ⟨marked, hnext⟩ := h.next
  have hsettled := hnext.settled_of_ne_nil hright
  rw [h.text_eq_empty_iff.1 hempty] at hsettled
  exact absurd hsettled (by decide)

end StandsBetween

/-! ### Lone backslashes in groups -/

/-- The text ends with a mark or a comma and a lone backslash. -/
def EndsInBackslash (text : List Char) : Prop :=
  ['!', '\\'] <:+ text ∨ [',', '\\'] <:+ text

lemma EndsInBackslash.append {text : List Char} (h : EndsInBackslash text) (front : List Char) :
    EndsInBackslash (front ++ text) :=
  h.imp (·.trans (List.suffix_append _ _)) (·.trans (List.suffix_append _ _))

lemma EndsInBackslash.exists_eq {raw : String} (h : EndsInBackslash raw.toList) :
    ∃ front, raw = front ++ "!\\" ∨ raw = front ++ ",\\" := by
  have hsplit : ∀ last : String, last.toList <:+ raw.toList → ∃ front, raw = front ++ last := by
    rintro last ⟨front, heq⟩
    refine ⟨String.ofList front, String.toList_inj.1 ?_⟩
    rw [String.toList_append, String.toList_ofList, heq]
  rcases h with hmark | hcomma
  · obtain ⟨front, heq⟩ := hsplit "!\\" hmark
    exact ⟨front, .inl heq⟩
  · obtain ⟨front, heq⟩ := hsplit ",\\" hcomma
    exact ⟨front, .inr heq⟩

/-- The slices of a list are not empty. -/
lemma ListText.ne_nil_of_mem {before text slice : List Char} {slices : List (List Char)}
    (h : ListText before slices text) (hmem : slice ∈ slices) : slice ≠ [] := by
  induction h with
  | single isSlice =>
    rw [List.mem_singleton.1 hmem]
    exact isSlice.ne_nil
  | cons isSlice _ _ ih =>
    rcases List.mem_cons.1 hmem with rfl | hmem
    · exact isSlice.ne_nil
    · exact ih hmem

/-- A lone backslash is the last value of a list.  A mark or a comma stands in front of the list. -/
lemma ListText.ends_of_backslash {before text : List Char} {slices ss ss' : List (List Char)}
    (h : ListText before slices text) (hbefore : Settled before)
    (hslices : slices = ss ++ ['\\'] :: ss') {m : Char} (hm : m = '!' ∨ m = ',') :
    ss' = [] ∧ ¬ Settled (text.reverse ++ before) ∧ EndsInBackslash (m :: text) := by
  induction h generalizing ss m with
  | single isSlice =>
    rcases ss with _ | ⟨s, ss⟩
    · obtain ⟨rfl, rfl⟩ := List.cons.inj hslices
      refine ⟨rfl, not_settled_backslash hbefore, ?_⟩
      rcases hm with rfl | rfl
      · exact .inl (List.suffix_refl _)
      · exact .inr (List.suffix_refl _)
    · simp at hslices
  | @cons before slice rest slices isSlice settled more ih =>
    rcases ss with _ | ⟨s, ss⟩
    · obtain ⟨rfl, -⟩ := List.cons.inj hslices
      exact absurd settled (not_settled_backslash hbefore)
    · obtain ⟨rfl, hrest⟩ := List.cons.inj hslices
      obtain ⟨hlast, hopen, hends⟩ := ih (settled_cons _ (by decide)) hrest (.inr rfl)
      exact ⟨hlast, by simpa using hopen, hends.append (m :: slice)⟩

/-- A lone backslash is the last value of a group. -/
lemma GroupText.ends_of_backslash {before text : List Char} {group : WrittenGroup}
    {ss ss' : List (List Char)} (h : GroupText before group text)
    (hslices : group.slices = ss ++ ['\\'] :: ss') :
    ss' = [] ∧ ¬ Settled (text.reverse ++ before) ∧ EndsInBackslash text := by
  obtain ⟨known, values⟩ := h
  next word list slices =>
  obtain ⟨hlast, hopen, hends⟩ :=
    values.ends_of_backslash (settled_cons _ (by decide)) hslices (.inl rfl)
  exact ⟨hlast, by simpa using hopen, hends.append word⟩

/-- A lone backslash is the last value of the last group. -/
lemma GroupsText.ends_of_backslash {before text : List Char} {groups gs gs' : List WrittenGroup}
    {group : WrittenGroup} {ss ss' : List (List Char)} (h : GroupsText before groups text)
    (hgroups : groups = gs ++ group :: gs') (hslices : group.slices = ss ++ ['\\'] :: ss') :
    gs' = [] ∧ ss' = [] ∧ EndsInBackslash text := by
  induction h generalizing gs with
  | single first =>
    rcases gs with _ | ⟨g, gs⟩
    · obtain ⟨rfl, rfl⟩ := List.cons.inj hgroups
      obtain ⟨hlast, -, hends⟩ := first.ends_of_backslash hslices
      exact ⟨rfl, hlast, hends⟩
    · simp at hgroups
  | @cons before text rest _ groups first settled more ih =>
    rcases gs with _ | ⟨g, gs⟩
    · obtain ⟨rfl, -⟩ := List.cons.inj hgroups
      exact absurd settled (first.ends_of_backslash hslices).2.1
    · obtain ⟨rfl, hrest⟩ := List.cons.inj hgroups
      obtain ⟨hgroup, hlast, hends⟩ := ih hrest
      refine ⟨hgroup, hlast, ?_⟩
      rw [List.append_cons]
      exact hends.append _

/-- The slices of a group are not empty. -/
lemma GroupText.ne_nil_of_mem {before text slice : List Char} {group : WrittenGroup}
    (h : GroupText before group text) (hslice : slice ∈ group.slices) : slice ≠ [] := by
  obtain ⟨-, values⟩ := h
  exact values.ne_nil_of_mem hslice

lemma GroupsText.ne_nil_of_mem {before text slice : List Char} {groups : List WrittenGroup}
    {group : WrittenGroup} (h : GroupsText before groups text) (hgroup : group ∈ groups)
    (hslice : slice ∈ group.slices) : slice ≠ [] := by
  induction h with
  | single first =>
    rw [List.mem_singleton.1 hgroup] at hslice
    exact first.ne_nil_of_mem hslice
  | cons first _ _ ih =>
    rcases List.mem_cons.1 hgroup with rfl | hgroup
    · exact first.ne_nil_of_mem hslice
    · exact ih hgroup

/-! ### Stored values -/

/-- What corresponds to a list with an element in the middle has one there too. -/
lemma exists_of_forall₂_append_cons {α β : Type} {R : α → β → Prop} {xs : List α} {ys zs : List β}
    {y : β} (h : List.Forall₂ R xs (ys ++ y :: zs)) :
    ∃ as a bs, xs = as ++ a :: bs ∧ R a y ∧ List.Forall₂ R bs zs := by
  induction ys generalizing xs with
  | nil =>
    obtain ⟨a, bs, hay, hbs, rfl⟩ := List.forall₂_cons_right_iff.1 h
    exact ⟨[], a, bs, rfl, hay, hbs⟩
  | cons y' ys ih =>
    obtain ⟨a', xs, -, hxs, rfl⟩ := List.forall₂_cons_right_iff.1 h
    obtain ⟨as, a, bs, rfl, hay, hbs⟩ := ih hxs
    exact ⟨a' :: as, a, bs, rfl, hay, hbs⟩

/-- A short text has one token at most. -/
lemma BareText.length_tokenize_le {raw : String} (h : BareText raw.toList) :
    (tokenize raw).length ≤ 1 := by
  rw [tokenize_eq_tokensAt]
  by_cases hne : raw.toList = []
  · rw [tokensAt_eq_nil_iff.2 hne]
    exact Nat.zero_le 1
  · obtain ⟨kind, hnext⟩ := h.exists_nextToken hne
    rw [hnext.tokensAt_eq, tokensAt]
    exact Nat.le_refl 1

/-- Among the rules that groups denote, an empty value is the last one of the last rule. -/
lemma GroupsText.ends_of_empty {s : Schema} {key : String} {before text : List Char}
    {groups : List WrittenGroup} {rs rs' : List (Rule .string)} {r : Rule .string}
    {vs vs' : List String} (h : GroupsText before groups text)
    (hdenotes : List.Forall₂ (s.target key .string).GroupDenotes groups (rs ++ r :: rs'))
    (hvalues : r.values = vs ++ "" :: vs') : rs' = [] ∧ vs' = [] ∧ EndsInBackslash text := by
  obtain ⟨gs, group, gs', rfl, hgroup, hbehind⟩ := exists_of_forall₂_append_cons hdenotes
  have hreads := hgroup.values
  rw [hvalues] at hreads
  obtain ⟨ss, slice, ss', hslices, hread, hmore⟩ := exists_of_forall₂_append_cons hreads
  have hempty : literal slice = "" := Option.some.inj hread
  have hne : slice ≠ [] := by
    apply h.ne_nil_of_mem (List.mem_append_right gs List.mem_cons_self)
    rw [hslices]
    exact List.mem_append_right ss List.mem_cons_self
  obtain rfl : slice = ['\\'] := by
    rw [literal, String.ofList_eq_empty_iff, unescape_eq_nil_iff] at hempty
    exact hempty.resolve_left hne
  obtain ⟨rfl, rfl, hends⟩ := h.ends_of_backslash rfl hslices
  exact ⟨List.forall₂_nil_left_iff.1 hbehind, List.forall₂_nil_left_iff.1 hmore, hends⟩

/-- Empty values arise at the end of the input only.

A value has an empty text exactly when it is cut from a lone backslash, and then it is the last
token and ends with the text.  A value that is not the last token is made of whole pairs: each of
its backslashes that escapes has an escaped character behind it, and these backslashes are all that
its text leaves out.

An accepted text with two or more tokens stores rules of a string key whose values are not empty,
except that the last value of the last rule can be.  It is only if the text ends with a mark or a
comma and one backslash. -/
theorem empty_values_end_input (raw : String) :
    (∀ ts t us, tokenize raw = ts ++ t :: us → t.kind = .value →
      (t.text = "" ↔ t.span.slice raw = "\\") ∧
      (t.text = "" → us = [] ∧ t.span.stop = raw.utf8ByteSize) ∧
      (us ≠ [] → WholePairs (t.span.slice raw).toList ∧
        (∀ i, (roles (t.span.slice raw).toList)[i]? = some .escaping →
          (roles (t.span.slice raw).toList)[i + 1]? = some .escaped) ∧
        t.text.toList = (((t.span.slice raw).toList.zip (roles (t.span.slice raw).toList)).filter
          fun p => p.2 != .escaping).map Prod.fst)) ∧
    ∀ (s : Schema) (key : String) (f g : Filter), 2 ≤ (tokenize raw).length →
      (s.parseKey key .string raw f).status = .ok () → (s.parseKey key .string raw f).filter = g →
      ∃ (rules : List (Rule .string)) (stored : List StoredRule),
        g.storedRules key = f.storedRules key ++ stored ∧ List.Forall₂ g.Stores rules stored ∧
        ∀ rs r rs' vs (v : String) vs', rules = rs ++ r :: rs' → r.values = vs ++ v :: vs' →
          v = "" → rs' = [] ∧ vs' = [] ∧
            ∃ front, raw = front ++ "!\\" ∨ raw = front ++ ",\\" := by
  constructor
  · intro ts t us htokens hkind
    obtain ⟨left, slice, right, hraw, hstands, hlast⟩ := exists_standsBetween_of_eq htokens
    rw [hstands.span_eq, slice_eq_ofList hraw, String.toList_ofList]
    refine ⟨?_, fun hempty => ?_, fun hus => ?_⟩
    · have hslice : String.ofList slice = "\\" ↔ slice = ['\\'] := String.ofList_inj
      rw [hstands.text_eq_empty_iff, hslice]
    · have hright := hstands.right_eq_nil hempty
      refine ⟨hlast.2 hright, ?_⟩
      rw [← byteLength_toList, hraw, hright, List.append_nil, byteLength_append]
    · have hwhole := hstands.wholePairs (mt hlast.2 hus)
      refine ⟨hwhole, fun i => hwhole.role_behind, ?_⟩
      rw [hstands.text_eq, String.toList_ofList]
      exact unescape_eq_filter_roles slice
  · rintro s key f g hlong hok rfl
    have hread : (s.target key .string).readInto raw f =
        ⟨.ok (), (s.parseKey key .string raw f).filter⟩ := by
      rw [← hok, Schema.parseKey]
    obtain ⟨rules, hdenotes, hfilter⟩ := Target.exists_denotes_of_readInto hread
    obtain ⟨stored, hstored, hstores⟩ := f.exists_storedRules_appendAll key rules
    rw [hfilter]
    refine ⟨rules, stored, hstored, hstores, ?_⟩
    rintro rs r rs' vs v vs' hrules hvalues rfl
    cases hdenotes with
    | bare isBare => exact absurd isBare.length_tokenize_le (by omega)
    | groups isGroups denotes =>
      subst hrules
      obtain ⟨hbehind, hlast, hends⟩ := isGroups.ends_of_empty denotes hvalues
      exact ⟨hbehind, hlast, hends.exists_eq⟩

/-- A pair of backslashes and a lone backslash: the first value is not empty, and the second one is
and ends the text. -/
theorem empty_values_end_input_of_two_values :
    tokenize "eq!\\\\,\\" =
        [⟨.keyword, "eq", ⟨0, 2⟩⟩, ⟨.mark, "!", ⟨2, 3⟩⟩, ⟨.value, "\\", ⟨3, 5⟩⟩,
          ⟨.comma, ",", ⟨5, 6⟩⟩, ⟨.value, "", ⟨6, 7⟩⟩] ∧
      WholePairs (Span.slice "eq!\\\\,\\" ⟨3, 5⟩).toList ∧
      Span.slice "eq!\\\\,\\" ⟨6, 7⟩ = "\\" ∧
      2 ≤ (tokenize "eq!\\\\,\\").length ∧
      (Schema.empty.parseKey "name" .string "eq!\\\\,\\" .empty).status = .ok () ∧
      ∃ r : Rule .string,
        (Schema.empty.parseKey "name" .string "eq!\\\\,\\" .empty).filter.Stores r
          ⟨.equals, ⟨0, 2⟩⟩ ∧
        r.values = ["\\", ""] ∧
        ∃ front, "eq!\\\\,\\" = front ++ "!\\" ∨ "eq!\\\\,\\" = front ++ ",\\" := by
  obtain ⟨hvalues, hrules⟩ := empty_values_end_input "eq!\\\\,\\"
  have htokens : tokenize "eq!\\\\,\\" =
      [⟨.keyword, "eq", ⟨0, 2⟩⟩, ⟨.mark, "!", ⟨2, 3⟩⟩, ⟨.value, "\\", ⟨3, 5⟩⟩,
        ⟨.comma, ",", ⟨5, 6⟩⟩, ⟨.value, "", ⟨6, 7⟩⟩] := by decide +kernel
  have hlong : 2 ≤ (tokenize "eq!\\\\,\\").length := by
    rw [htokens]
    decide
  have hok : (Schema.empty.parseKey "name" .string "eq!\\\\,\\" .empty).status = .ok () := by
    decide +kernel
  have hpair := hvalues [_, _] ⟨.value, "\\", ⟨3, 5⟩⟩ [_, _] htokens rfl
  have hlone := hvalues [_, _, _, _] ⟨.value, "", ⟨6, 7⟩⟩ [] htokens rfl
  obtain ⟨rules, stored, hstored, hstores, hempty⟩ :=
    hrules Schema.empty "name" .empty _ hlong hok rfl
  obtain rfl : [⟨.equals, ⟨0, 2⟩⟩] = stored := hstored
  obtain ⟨r, rules, hr, hnil, rfl⟩ := List.forall₂_cons_right_iff.1 hstores
  obtain rfl := List.forall₂_nil_right_iff.1 hnil
  have hr' : r.values = ["\\", ""] := (Option.some.inj hr.2).symm
  exact ⟨htokens, (hpair.2.2 (List.cons_ne_nil _ _)).1, hlone.1.1 rfl, hlong, hok, r, hr, hr',
    (hempty [] r [] ["\\"] "" [] rfl hr' rfl).2.2⟩

end QueryFilter
