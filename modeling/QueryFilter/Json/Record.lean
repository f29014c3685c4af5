import QueryFilter.Json.Reader

/-!
# Readers of lists and records

Readers of brackets are built from the readers of what stands inside.  What nobody asks for is
passed over.
-/

namespace QueryFilter

/-! ## Lists

The reader of a list repeats the reader of its elements.
-/

namespace Json

/-- What comes next inside of brackets. -/
inductive Next where
  /-- Another element or member, with the text from it on. -/
  | item (rest : List Char)
  /-- The closing bracket, with the text after it. -/
  | close (rest : List Char)

/-- The text of what comes next. -/
def Next.rest : Next → List Char
  | item rest => rest
  | close rest => rest

/-- What comes next in a list: a comma stands before every element but the first. -/
def nextElement (first : Bool) (s : List Char) : Except Fault Next :=
  match skipBlanks s with
  | [] => .error (.ended .list)
  | ']' :: rest => .ok (.close rest)
  | c :: t =>
    if first then .ok (.item (c :: t))
    else if c = ',' then
      match skipBlanks t with
      | [] => .error (.ended .value)
      | ']' :: _ => .error .trailingComma
      | u => .ok (.item u)
    else .error .expectedListEnd

theorem nextElement_length {first : Bool} {s : List Char} {next : Next}
    (h : nextElement first s = .ok next) : next.rest.length ≤ s.length := by
  unfold nextElement at h
  split at h
  · contradiction
  · rename_i hs
    obtain rfl := Except.ok.inj h
    exact Nat.le_of_lt (length_of_skipBlanks hs)
  · rename_i c t _ hs
    have hle := skipBlanks_length s
    rw [hs, List.length_cons] at hle
    split at h
    · obtain rfl := Except.ok.inj h
      exact hle
    · split at h
      · have := skipBlanks_length t
        split at h
        · contradiction
        · contradiction
        · obtain rfl := Except.ok.inj h
          simp only [Next.rest]
          omega
      · contradiction

/-- What follows the bracket that closes a list of which no element is asked for any more. -/
def closeList (s : List Char) : Except Fault (List Char) :=
  match skipBlanks s with
  | [] => .error (.ended .list)
  | ']' :: rest => .ok rest
  | ',' :: t =>
    match skipBlanks t with
    | ']' :: _ => .error .trailingComma
    | _ => .error .trailingCharacters
  | _ => .error .trailingCharacters

theorem closeList_length {s rest : List Char} (h : closeList s = .ok rest) :
    rest.length < s.length := by
  unfold closeList at h
  split at h
  · contradiction
  · rename_i hs
    obtain rfl := Except.ok.inj h
    exact length_of_skipBlanks hs
  · split at h <;> contradiction
  · contradiction

/-- The elements of a list, after its opening bracket or after an element. -/
def readElements {α : Type} (element : Reader α) (first : Bool) (s : List Char) :
    Except Fault (List α × List Char) :=
  match h : nextElement first s with
  | .error e => .error e
  | .ok (.close rest) => .ok ([], rest)
  | .ok (.item t) =>
    match h' : element.read t with
    | .error e => .error e
    | .ok (a, u) =>
      have := nextElement_length h
      have := element.read_length h'
      (readElements element false u).map fun (as, rest) => (a :: as, rest)
termination_by s.length
decreasing_by
  simp only [Next.rest] at *
  omega

theorem readElements_length {α : Type} {element : Reader α} {first : Bool} {s rest : List Char}
    {as : List α} (h : readElements element first s = .ok (as, rest)) :
    rest.length ≤ s.length := by
  fun_induction readElements element first s generalizing as rest with
  | case1 => contradiction
  | case2 _ _ _ hs =>
    obtain ⟨-, rfl⟩ := Prod.mk.inj (Except.ok.inj h)
    exact nextElement_length hs
  | case3 => contradiction
  | case4 _ _ _ hs _ _ _ hu hlt ih =>
    obtain ⟨⟨bs, v⟩, hv, he⟩ := map_eq_ok_iff.1 h
    obtain ⟨-, rfl⟩ := Prod.mk.inj he
    have := ih hv
    simp only [Next.rest] at *
    omega

/-- A list of values of one shape. -/
def Reader.list {α : Type} (element : Reader α) : Reader (List α) where
  read s :=
    match skipBlanks s with
    | [] => .error (.ended .value)
    | '[' :: t => readElements element true t
    | t => .error (mismatch "a sequence" t)
  read_length h := by
    split at h
    · contradiction
    · rename_i hs
      have := length_of_skipBlanks hs
      have := readElements_length h
      omega
    · contradiction

end Json

/-! ## Passing over values

A value that nobody asks for is passed over.  Its syntax is checked, but not the size of its numbers
and not the pairing of its surrogates, and its brackets may be nested to any depth: the open ones
are kept in a list, the innermost first.
-/

namespace Json

/-- The kinds of brackets. -/
inductive Bracket where
  | list
  | object
  deriving DecidableEq, Repr

namespace Bracket

/-- The character that closes a bracket. -/
def closing : Bracket → Char
  | list => ']'
  | object => '}'

/-- What stands in the brackets. -/
def construct : Bracket → Construct
  | list => .list
  | object => .object

/-- The fault of an element that is followed by neither a comma nor the closing bracket. -/
def expectedEnd : Bracket → Fault
  | list => .expectedListEnd
  | object => .expectedObjectEnd

end Bracket

/-- Pass over a value without parts, or over an opening bracket. -/
def skipHead (s : List Char) : Except Fault (Option Bracket × List Char) :=
  match skipBlanks s with
  | [] => .error (.ended .value)
  | 'n' :: t => (readConstant ['u', 'l', 'l'] t).map (none, ·)
  | 't' :: t => (readConstant ['r', 'u', 'e'] t).map (none, ·)
  | 'f' :: t => (readConstant ['a', 'l', 's', 'e'] t).map (none, ·)
  | '"' :: t => (skipText t).map (none, ·)
  | '[' :: t => .ok (some .list, t)
  | '{' :: t => .ok (some .object, t)
  | c :: t =>
    if c = '-' ∨ c.isDigit then (skipNumber (c :: t)).map (none, ·) else .error .expectedValue

/-- Pass over the closing brackets after a value, or after an opening bracket, where no comma may
stand.  What remains open is returned, with the text from the next element on. -/
def skipClosing (comma : Bool) : List Bracket → List Char → Except Fault (List Bracket × List Char)
  | [], s => .ok ([], s)
  | b :: outer, s =>
    match skipBlanks s with
    | [] => .error (.ended b.construct)
    | c :: t =>
      if c = ',' ∧ comma then .ok (b :: outer, t)
      else if c = b.closing then skipClosing true outer t
      else if comma then .error b.expectedEnd
      else .ok (b :: outer, s)

/-- Pass over what stands before the value of an element: in an object, a name and its colon. -/
def skipName (b : Bracket) (s : List Char) : Except Fault (List Char) :=
  match b with
  | .list => .ok s
  | .object =>
    match skipBlanks s with
    | [] => .error (.ended .object)
    | '"' :: t => (skipText t).bind readColon
    | _ => .error .keyNotString

/-- Pass over a head and what follows it, up to the next element of the innermost open bracket. -/
def skipStep (outer : List Bracket) (s : List Char) : Except Fault (List Bracket × List Char) :=
  (skipHead s).bind fun (head, t) =>
    (skipClosing head.isNone (head.toList ++ outer) t).bind fun (outer, t) =>
      match outer with
      | [] => .ok ([], t)
      | b :: bs => (skipName b t).map fun rest => (b :: bs, rest)

theorem skipHead_length {s rest : List Char} {head : Option Bracket}
    (h : skipHead s = .ok (head, rest)) : rest.length < s.length := by
  unfold skipHead at h
  split at h
  case h_1 => contradiction
  case h_2 _ hs | h_3 _ hs | h_4 _ hs =>
    obtain ⟨u, hu, he⟩ := map_eq_ok_iff.1 h
    obtain ⟨-, rfl⟩ := Prod.mk.inj he
    have := length_of_skipBlanks hs
    have := readConstant_length hu
    omega
  case h_5 _ hs =>
    obtain ⟨u, hu, he⟩ := map_eq_ok_iff.1 h
    obtain ⟨-, rfl⟩ := Prod.mk.inj he
    have := length_of_skipBlanks hs
    have := skipText_length hu
    omega
  case h_6 _ hs | h_7 _ hs =>
    obtain ⟨-, rfl⟩ := Prod.mk.inj (Except.ok.inj h)
    exact length_of_skipBlanks hs
  case h_8 c t _ _ _ _ _ _ hs =>
    split at h
    · obtain ⟨u, hu, he⟩ := map_eq_ok_iff.1 h
      obtain ⟨-, rfl⟩ := Prod.mk.inj he
      have := skipNumber_length hu
      have := skipBlanks_length s
      rw [hs] at this
      omega
    · contradiction

theorem skipClosing_length {comma : Bool} {outer inner : List Bracket} {s rest : List Char}
    (h : skipClosing comma outer s = .ok (inner, rest)) : rest.length ≤ s.length := by
  fun_induction skipClosing comma outer s with
  | case1 => simp_all
  | case2 => contradiction
  | case3 _ _ _ _ _ _ hs =>
    obtain ⟨-, rfl⟩ := Prod.mk.inj (Except.ok.inj h)
    exact Nat.le_of_lt (length_of_skipBlanks hs)
  | case4 _ _ _ _ _ hs _ ih =>
    have := length_of_skipBlanks hs
    have := ih h
    omega
  | case5 => contradiction
  | case6 =>
    obtain ⟨-, rfl⟩ := Prod.mk.inj (Except.ok.inj h)
    exact Nat.le_refl _

theorem skipName_length {b : Bracket} {s rest : List Char} (h : skipName b s = .ok rest) :
    rest.length ≤ s.length := by
  unfold skipName at h
  split at h
  · simp_all
  · split at h
    · contradiction
    · rename_i t hs
      obtain ⟨u, hu, hr⟩ := bind_eq_ok_iff.1 h
      have := length_of_skipBlanks hs
      have := skipText_length hu
      have := readColon_length hr
      omega
    · contradiction

theorem skipStep_length {outer inner : List Bracket} {s rest : List Char}
    (h : skipStep outer s = .ok (inner, rest)) : rest.length < s.length := by
  obtain ⟨⟨head, t₁⟩, h₁, h⟩ := bind_eq_ok_iff.1 h
  obtain ⟨⟨next, t₂⟩, h₂, h⟩ := bind_eq_ok_iff.1 h
  have := skipHead_length h₁
  have := skipClosing_length h₂
  cases next with
  | nil =>
    obtain ⟨-, rfl⟩ := Prod.mk.inj (Except.ok.inj h)
    omega
  | cons b bs =>
    obtain ⟨t₃, h₃, he⟩ := map_eq_ok_iff.1 h
    obtain ⟨-, rfl⟩ := Prod.mk.inj he
    have := skipName_length h₃
    omega

/-- What follows a value, inside of which some brackets are already open. -/
def skipFrom (outer : List Bracket) (s : List Char) : Except Fault (List Char) :=
  match h : skipStep outer s with
  | .error e => .error e
  | .ok ([], rest) => .ok rest
  | .ok (b :: bs, rest) =>
    have := skipStep_length h
    skipFrom (b :: bs) rest
termination_by s.length

theorem skipFrom_length {outer : List Bracket} {s rest : List Char}
    (h : skipFrom outer s = .ok rest) : rest.length < s.length := by
  fun_induction skipFrom outer s with
  | case1 => contradiction
  | case2 _ _ _ hs =>
    obtain rfl := Except.ok.inj h
    exact skipStep_length hs
  | case3 _ _ _ _ _ hs hlt ih =>
    have := ih h
    omega

/-- Any value, which is passed over. -/
def Reader.skip : Reader Unit where
  read s := (skipFrom [] s).map fun rest => ((), rest)
  read_length h := by
    obtain ⟨u, hu, he⟩ := map_eq_ok_iff.1 h
    obtain ⟨-, rfl⟩ := Prod.mk.inj he
    exact skipFrom_length hu

end Json

/-! ## Records

A record is written as an object with named members in any order, or as a list of the values of its
fields in their order.  Members with other names are passed over.  The values are collected in a
draft, which becomes the record when the closing bracket has been read.
-/

namespace Json

/-- A field of a record, whose values are put into a draft. -/
structure RecordField (δ : Type) where
  name : String
  /-- Whether a draft already has a value of the field. -/
  isSet : δ → Bool
  /-- The reader of a value, which gives the draft with the value put into it. -/
  update : Reader (δ → δ)

/-- The shape of a record. -/
structure RecordShape (δ α : Type) where
  title : String
  fields : List (RecordField δ)
  /-- The draft without any value. -/
  empty : δ
  /-- The record of the members of an object. -/
  ofMembers : δ → Except Fault α
  /-- The record of the elements of a list. -/
  ofElements : δ → Except Fault α

/-- What comes next in an object: a comma stands before every member but the first.  The text of a
member goes on after the quote that opens its name. -/
def nextMember (first : Bool) (s : List Char) : Except Fault Next :=
  match skipBlanks s with
  | [] => .error (.ended .object)
  | '}' :: rest => .ok (.close rest)
  | c :: t =>
    if first then
      if c = '"' then .ok (.item t) else .error .keyNotString
    else if c = ',' then
      match skipBlanks t with
      | [] => .error (.ended .value)
      | '"' :: u => .ok (.item u)
      | '}' :: _ => .error .trailingComma
      | _ => .error .keyNotString
    else .error .expectedObjectEnd

theorem nextMember_length {first : Bool} {s : List Char} {next : Next}
    (h : nextMember first s = .ok next) : next.rest.length < s.length := by
  unfold nextMember at h
  split at h
  · contradiction
  · rename_i hs
    obtain rfl := Except.ok.inj h
    exact length_of_skipBlanks hs
  · rename_i c t _ hs
    have := length_of_skipBlanks hs
    split at h
    · split at h
      · obtain rfl := Except.ok.inj h
        exact this
      · contradiction
    · split at h
      · split at h
        · contradiction
        · rename_i ht
          have := length_of_skipBlanks ht
          obtain rfl := Except.ok.inj h
          simp only [Next.rest]
          omega
        · contradiction
        · contradiction
      · contradiction

variable {δ α : Type}

/-- Read a member, after the quote that opens its name, into a draft. -/
def readMember (fields : List (RecordField δ)) (d : δ) (s : List Char) :
    Except Fault (δ × List Char) :=
  (readText s).bind fun (name, t) =>
    match fields.find? fun f => f.name == String.ofList name with
    | some f =>
      if f.isSet d then .error (.duplicateField f.name)
      else
        (readColon t).bind fun t => (f.update.read t).map fun (update, rest) => (update d, rest)
    | none => (readColon t).bind fun t => (Reader.skip.read t).map fun (_, rest) => (d, rest)

theorem readMember_length {fields : List (RecordField δ)} {d e : δ} {s rest : List Char}
    (h : readMember fields d s = .ok (e, rest)) : rest.length < s.length := by
  obtain ⟨⟨name, t⟩, ht, h⟩ := bind_eq_ok_iff.1 h
  have := readText_length ht
  simp only at h
  split at h
  · split at h
    · contradiction
    · obtain ⟨u, hu, h⟩ := bind_eq_ok_iff.1 h
      obtain ⟨⟨f, v⟩, hv, he⟩ := map_eq_ok_iff.1 h
      obtain ⟨-, rfl⟩ := Prod.mk.inj he
      have := readColon_length hu
      have := Reader.read_length _ hv
      show v.length < s.length
      omega
  · obtain ⟨u, hu, h⟩ := bind_eq_ok_iff.1 h
    obtain ⟨⟨f, v⟩, hv, he⟩ := map_eq_ok_iff.1 h
    obtain ⟨-, rfl⟩ := Prod.mk.inj he
    have := readColon_length hu
    have := Reader.read_length _ hv
    show v.length < s.length
    omega

/-- Read the members of an object into a draft. -/
def readMembers (fields : List (RecordField δ)) (first : Bool) (d : δ) (s : List Char) :
    Except Fault (δ × List Char) :=
  match h : nextMember first s with
  | .error e => .error e
  | .ok (.close rest) => .ok (d, rest)
  | .ok (.item t) =>
    match h' : readMember fields d t with
    | .error e => .error e
    | .ok (e, u) =>
      have := nextMember_length h
      have := readMember_length h'
      readMembers fields false e u
termination_by s.length
decreasing_by
  simp only [Next.rest] at *
  omega

theorem readMembers_length {fields : List (RecordField δ)} {first : Bool} {d e : δ}
    {s rest : List Char} (h : readMembers fields first d s = .ok (e, rest)) :
    rest.length < s.length := by
  fun_induction readMembers fields first d s with
  | case1 => contradiction
  | case2 _ _ _ _ hs =>
    obtain ⟨-, rfl⟩ := Prod.mk.inj (Except.ok.inj h)
    exact nextMember_length hs
  | case3 => contradiction
  | case4 _ _ _ _ hs _ _ hu hlt hlt' ih =>
    have := ih h
    simp only [Next.rest] at *
    omega

/-- Read the elements of a list, the values of the fields in their order, into a draft. -/
def readValues : List (RecordField δ) → Bool → δ → List Char → Except Fault (δ × List Char)
  | [], _, d, s => (closeList s).map fun rest => (d, rest)
  | f :: fields, first, d, s =>
    (nextElement first s).bind fun next =>
      match next with
      | .close rest => .ok (d, rest)
      | .item t =>
        (f.update.read t).bind fun (update, u) => readValues fields false (update d) u

theorem readValues_length {fields : List (RecordField δ)} {first : Bool} {d e : δ}
    {s rest : List Char} (h : readValues fields first d s = .ok (e, rest)) :
    rest.length ≤ s.length := by
  induction fields generalizing first d s with
  | nil =>
    obtain ⟨u, hu, he⟩ := map_eq_ok_iff.1 h
    obtain ⟨-, rfl⟩ := Prod.mk.inj he
    exact Nat.le_of_lt (closeList_length hu)
  | cons f fields ih =>
    obtain ⟨next, hn, h⟩ := bind_eq_ok_iff.1 h
    have hle := nextElement_length hn
    cases next with
    | close t =>
      obtain ⟨-, rfl⟩ := Prod.mk.inj (Except.ok.inj h)
      exact hle
    | item t =>
      obtain ⟨⟨update, u⟩, hu, h⟩ := bind_eq_ok_iff.1 h
      have := f.update.read_length hu
      have := ih h
      simp only [Next.rest] at hle
      omega

/-- A record in either of its forms. -/
def Reader.record (shape : RecordShape δ α) : Reader α where
  read s :=
    match skipBlanks s with
    | [] => .error (.ended .value)
    | '[' :: t =>
      (readValues shape.fields true shape.empty t).bind fun (d, rest) =>
        (shape.ofElements d).map fun a => (a, rest)
    | '{' :: t =>
      (readMembers shape.fields true shape.empty t).bind fun (d, rest) =>
        (shape.ofMembers d).map fun a => (a, rest)
    | t => .error (mismatch shape.title t)
  read_length h := by
    split at h
    · contradiction
    · rename_i hs
      obtain ⟨⟨d, u⟩, hu, h⟩ := bind_eq_ok_iff.1 h
      obtain ⟨a, -, he⟩ := map_eq_ok_iff.1 h
      obtain ⟨-, rfl⟩ := Prod.mk.inj he
      have := length_of_skipBlanks hs
      have := readValues_length hu
      omega
    · rename_i hs
      obtain ⟨⟨d, u⟩, hu, h⟩ := bind_eq_ok_iff.1 h
      obtain ⟨a, -, he⟩ := map_eq_ok_iff.1 h
      obtain ⟨-, rfl⟩ := Prod.mk.inj he
      have := length_of_skipBlanks hs
      have := readMembers_length hu
      omega
    · contradiction

end Json

end QueryFilter
