import Mathlib.Data.List.Forall2
import QueryFilter.Config

/-!
# Configurations survive being written

A configuration is written as a JSON text, and reading the text gives the configuration back.
-/

namespace QueryFilter

/-! ## Reading back what was written

Each way to write a value has a reader that gets the value back.  The statements are about a text in
front of anything at all, since the text of a part stands inside of a larger one; the reader must
stop exactly where the written text ends.
-/

namespace Json

variable {α β δ : Type}

/-- The reader gets a value from a text, whatever follows the text, and stops at its end. -/
def Reader.Reads (r : Reader α) (text : List Char) (a : α) : Prop :=
  ∀ rest, r.read (text ++ rest) = .ok (a, rest)

/-- A text whose first character is no blank and closes no list. -/
def Solid (text : List Char) : Prop :=
  ∃ c t, text = c :: t ∧ isSpace c = false ∧ c ≠ ']'

lemma commaSeparated_cons (part : List Char) (parts : List (List Char)) :
    commaSeparated (part :: parts) = part ++ parts.flatMap (',' :: ·) := by
  induction parts generalizing part with
  | nil =>
    simp [commaSeparated]
  | cons next parts ih =>
    have h : commaSeparated (part :: next :: parts) =
        part ++ ',' :: commaSeparated (next :: parts) := rfl
    rw [h, ih next]
    rfl

/-! ### Single values -/

namespace Reader

lemma Reads.map {r : Reader α} {text : List Char} {a : α} (h : r.Reads text a) (f : α → β) :
    (r.map f).Reads text (f a) := by
  intro rest
  have hr := h rest
  unfold Reader.map
  simp only [hr, Except.map]

lemma Reads.refine {r : Reader α} {text : List Char} {a : α} {f : α → Except Fault β} {b : β}
    (h : r.Reads text a) (hf : f a = .ok b) : (r.refine f).Reads text b := by
  intro rest
  have hr := h rest
  unfold Reader.refine
  simp only [hr, Except.bind, hf, Except.map]

/-- A whole text without anything behind it. -/
lemma Reads.parse {r : Reader α} {text : List Char} {a : α} (h : r.Reads text a) :
    r.parse (String.ofList text) = .ok a := by
  have hr : r.read text = .ok (a, []) := by
    simpa using h []
  unfold Reader.parse
  rw [String.toList_ofList, hr]
  rfl

theorem string_reads (expected text : String) : (string expected).Reads (writeText text) text := by
  intro rest
  have hs : skipBlanks (writeText text ++ rest) = '"' :: (written text.toList ++ '"' :: rest) := by
    have h := skipBlanks_cons (written text.toList ++ '"' :: rest) (c := '"') (by decide)
    simpa [writeText] using h
  unfold string
  simp only [hs, readText_written, Except.map, String.ofList_toList]

lemma Reads.optional_writeText {r : Reader α} {text : String} {a : α}
    (h : r.Reads (writeText text) a) : r.optional.Reads (writeText text) (some a) := by
  intro rest
  have hs : skipBlanks (writeText text ++ rest) = writeText text ++ rest :=
    skipBlanks_cons _ (by decide)
  have hr := h rest
  unfold Reader.optional
  simp only [hs]
  rw [hr]
  rfl

/-- The names of a choice must tell its values apart. -/
theorem choice_reads {all : List α} {nameOf : α → String} {a : α}
    (h : (all.find? fun b => nameOf b == nameOf a) = some a) :
    (choice all nameOf).Reads (writeText (nameOf a)) a := by
  intro rest
  have hs : skipBlanks (writeText (nameOf a) ++ rest) = writeText (nameOf a) ++ rest :=
    skipBlanks_cons _ (by decide)
  have hn : named all nameOf (nameOf a) = .ok a := by
    unfold named
    rw [h]
  have hr : (ofName all nameOf).Reads (writeText (nameOf a)) a :=
    (string_reads _ _).refine hn
  unfold choice
  simp only [hs]
  exact hr rest

end Reader

/-! ### Lists -/

lemma nextElement_close (first : Bool) (s : List Char) :
    nextElement first (']' :: s) = .ok (.close s) := by
  have hs : skipBlanks (']' :: s) = ']' :: s := skipBlanks_cons s (by decide)
  unfold nextElement
  simp only [hs]

lemma Solid.nextElement_first {text : List Char} (h : Solid text) (s : List Char) :
    nextElement true (text ++ s) = .ok (.item (text ++ s)) := by
  obtain ⟨c, t, rfl, hb, hc⟩ := h
  have hs : skipBlanks (c :: (t ++ s)) = c :: (t ++ s) := skipBlanks_cons (t ++ s) hb
  unfold nextElement
  simp [hs]

lemma Solid.nextElement_comma {text : List Char} (h : Solid text) (s : List Char) :
    nextElement false (',' :: (text ++ s)) = .ok (.item (text ++ s)) := by
  obtain ⟨c, t, rfl, hb, hc⟩ := h
  have hs : skipBlanks (c :: (t ++ s)) = c :: (t ++ s) := skipBlanks_cons (t ++ s) hb
  have hcomma : skipBlanks (',' :: c :: (t ++ s)) = ',' :: c :: (t ++ s) :=
    skipBlanks_cons _ (by decide)
  unfold nextElement
  simp [hcomma, hs, hc]

lemma readElements_of_close {element : Reader α} {first : Bool} {s rest : List Char}
    (h : nextElement first s = .ok (.close rest)) :
    readElements element first s = .ok ([], rest) := by
  rw [readElements]
  split
  · simp_all
  · simp_all
  · simp_all

lemma readElements_of_item {element : Reader α} {first : Bool} {s t u : List Char} {a : α}
    (h : nextElement first s = .ok (.item t)) (ha : element.read t = .ok (a, u)) :
    readElements element first s =
      (readElements element false u).map fun (as, rest) => (a :: as, rest) := by
  rw [readElements]
  split
  · simp_all
  · simp_all
  · rename_i t' heq
    obtain rfl : t' = t := by simp_all
    split
    · simp_all
    · simp_all

/-- The elements that follow the first one, each after a comma. -/
lemma readElements_commas {element : Reader α} {texts : List (List Char)} {values : List α}
    (h : List.Forall₂ (fun text a => Solid text ∧ element.Reads text a) texts values)
    (rest : List Char) :
    readElements element false (texts.flatMap (',' :: ·) ++ ']' :: rest) = .ok (values, rest) := by
  induction h with
  | nil =>
    exact readElements_of_close (nextElement_close false rest)
  | @cons text a texts values ha _ ih =>
    have hnext := ha.1.nextElement_comma (texts.flatMap (',' :: ·) ++ ']' :: rest)
    have hitem := readElements_of_item hnext (ha.2 _)
    simp only [List.flatMap_cons, List.cons_append, List.append_assoc]
    rw [hitem, ih]
    rfl

theorem Reader.list_reads {element : Reader α} {texts : List (List Char)} {values : List α}
    (h : List.Forall₂ (fun text a => Solid text ∧ element.Reads text a) texts values) :
    element.list.Reads (writeList texts) values := by
  intro rest
  have hs : skipBlanks (writeList texts ++ rest) =
      '[' :: (commaSeparated texts ++ ']' :: rest) := by
    have hb := skipBlanks_cons (commaSeparated texts ++ ']' :: rest) (c := '[') (by decide)
    simpa [writeList] using hb
  unfold Reader.list
  simp only [hs]
  cases h with
  | nil =>
    exact readElements_of_close (nextElement_close true rest)
  | @cons text a texts values ha htail =>
    have hnext := ha.1.nextElement_first (texts.flatMap (',' :: ·) ++ ']' :: rest)
    have hitem := readElements_of_item hnext (ha.2 _)
    rw [commaSeparated_cons, List.append_assoc, hitem, readElements_commas htail rest]
    rfl

/-! ### Records -/

lemma solid_writeObject (members : List (List Char)) : Solid (writeObject members) :=
  ⟨'{', commaSeparated members ++ ['}'], rfl, by decide, by decide⟩

/-- Members fill a draft from one state up to another: each of them belongs to a field that the
draft does not have yet, and its value is read as what it puts into the draft. -/
inductive Fills (fields : List (RecordField δ)) : δ → List (List Char) → δ → Prop
  | nil (d : δ) : Fills fields d [] d
  | cons {d e : δ} {f : RecordField δ} {update : δ → δ} {value : List Char}
      {members : List (List Char)} (known : (fields.find? fun g => g.name == f.name) = some f)
      (unset : f.isSet d = false) (reads : f.update.Reads value update)
      (others : Fills fields (update d) members e) :
      Fills fields d (writeMember f.name value :: members) e

lemma Fills.append {fields : List (RecordField δ)} {d e e' : δ} {members others : List (List Char)}
    (h : Fills fields d members e) (h' : Fills fields e others e') :
    Fills fields d (members ++ others) e' := by
  induction h with
  | nil => exact h'
  | cons known unset reads _ ih => exact .cons known unset reads (ih h')

lemma nextMember_close (first : Bool) (s : List Char) :
    nextMember first ('}' :: s) = .ok (.close s) := by
  have hs : skipBlanks ('}' :: s) = '}' :: s := skipBlanks_cons s (by decide)
  unfold nextMember
  simp only [hs]

lemma nextMember_quote (s : List Char) : nextMember true ('"' :: s) = .ok (.item s) := by
  unfold nextMember
  rw [skipBlanks_cons s (by decide)]
  rfl

lemma nextMember_comma (s : List Char) : nextMember false (',' :: '"' :: s) = .ok (.item s) := by
  have hcomma : skipBlanks (',' :: '"' :: s) = ',' :: '"' :: s := skipBlanks_cons _ (by decide)
  have hquote : skipBlanks ('"' :: s) = '"' :: s := skipBlanks_cons s (by decide)
  unfold nextMember
  simp [hcomma, hquote]

/-- A member behind the quote that opens its name. -/
lemma readMember_written {fields : List (RecordField δ)} {d : δ} {f : RecordField δ}
    {update : δ → δ} {value : List Char}
    (known : (fields.find? fun g => g.name == f.name) = some f) (unset : f.isSet d = false)
    (reads : f.update.Reads value update) (rest : List Char) :
    readMember fields d (written f.name.toList ++ '"' :: ':' :: (value ++ rest)) =
      .ok (update d, rest) := by
  have hcolon : readColon (':' :: (value ++ rest)) = .ok (value ++ rest) := by
    have hs : skipBlanks (':' :: (value ++ rest)) = ':' :: (value ++ rest) :=
      skipBlanks_cons _ (by decide)
    unfold readColon
    simp only [hs]
  unfold readMember
  rw [readText_written]
  simp only [Except.bind, String.ofList_toList, known, unset, hcolon, reads rest, Except.map]
  rfl

lemma readMembers_of_close {fields : List (RecordField δ)} {first : Bool} {d : δ}
    {s rest : List Char} (h : nextMember first s = .ok (.close rest)) :
    readMembers fields first d s = .ok (d, rest) := by
  rw [readMembers]
  split
  · simp_all
  · simp_all
  · simp_all

lemma readMembers_of_item {fields : List (RecordField δ)} {first : Bool} {d e : δ}
    {s t u : List Char} (h : nextMember first s = .ok (.item t))
    (he : readMember fields d t = .ok (e, u)) :
    readMembers fields first d s = readMembers fields false e u := by
  rw [readMembers]
  split
  · simp_all
  · simp_all
  · rename_i t' heq
    obtain rfl : t' = t := by simp_all
    split
    · simp_all
    · simp_all

/-- The members that follow the first one, each after a comma. -/
lemma Fills.readMembers_commas {fields : List (RecordField δ)} {d e : δ}
    {members : List (List Char)} (h : Fills fields d members e) (rest : List Char) :
    readMembers fields false d (members.flatMap (',' :: ·) ++ '}' :: rest) = .ok (e, rest) := by
  induction h with
  | nil d =>
    exact readMembers_of_close (nextMember_close false rest)
  | @cons d e f update value members known unset reads _ ih =>
    have hmember := readMember_written known unset reads
      (members.flatMap (',' :: ·) ++ '}' :: rest)
    have hitem := readMembers_of_item (nextMember_comma _) hmember
    rw [← ih, ← hitem]
    simp [writeMember, writeText]

theorem Reader.record_reads {shape : RecordShape δ α} {members : List (List Char)} {d : δ} {a : α}
    (h : Fills shape.fields shape.empty members d) (ha : shape.ofMembers d = .ok a) :
    (Reader.record shape).Reads (writeObject members) a := by
  intro rest
  have hs : skipBlanks (writeObject members ++ rest) =
      '{' :: (commaSeparated members ++ '}' :: rest) := by
    have hb := skipBlanks_cons (commaSeparated members ++ '}' :: rest) (c := '{') (by decide)
    simpa [writeObject] using hb
  have hmembers : readMembers shape.fields true shape.empty
      (commaSeparated members ++ '}' :: rest) = .ok (d, rest) := by
    cases h with
    | nil =>
      exact readMembers_of_close (nextMember_close true rest)
    | @cons _ _ f update value members known unset reads others =>
      have hmember := readMember_written known unset reads
        (members.flatMap (',' :: ·) ++ '}' :: rest)
      have hitem := readMembers_of_item (nextMember_quote _) hmember
      rw [← others.readMembers_commas rest, ← hitem, commaSeparated_cons]
      simp [writeMember, writeText]
  unfold Reader.record
  simp only [hs, hmembers, Except.bind, ha, Except.map]

end Json

/-! ## The members of a configuration

The members of a written configuration are followed through the draft that reading them fills, for
the object of each key and for the object around them.  What is not written is what the reader puts
in its place.
-/

open Json

/-! ### The names of choices -/

lemma ScalarType.find?_name (t : ScalarType) :
    (ScalarType.all.find? fun u => u.name == t.name) = some t := by
  cases t <;> decide

lemma Profile.find?_name (p : Profile) :
    (Profile.all.find? fun q => q.name == p.name) = some p := by
  cases p <;> decide

lemma PlaceholderStyle.find?_name (style : PlaceholderStyle) :
    (PlaceholderStyle.all.find? fun other => other.name == style.name) = some style := by
  cases style <;> decide

/-- A member that is written only if there is a value leaves the draft alone if there is none. -/
lemma fills_optionalMember {δ : Type} {fields : List (RecordField δ)} {f : RecordField δ} {d : δ}
    {update : String → δ → δ} (known : (fields.find? fun g => g.name == f.name) = some f)
    (unset : f.isSet d = false) (reads : ∀ text, f.update.Reads (writeText text) (update text))
    (value : Option String) :
    Fills fields d (optionalMember f.name value) (value.elim d fun text => update text d) := by
  cases value with
  | none => exact .nil d
  | some text => exact .cons known unset (reads text) (.nil _)

/-! ### Keys -/

/-- What the members of a written key leave in the draft. -/
def KeyEntry.draft (entry : KeyEntry) : KeyDraft :=
  ⟨some entry.name, some entry.type, entry.column.map some⟩

lemma KeyEntry.fills (entry : KeyEntry) :
    Fills KeyEntry.shape.fields KeyEntry.shape.empty
      (writeMember "name" (writeText entry.name)
        :: writeMember "type" (writeText entry.type.name)
        :: optionalMember "column" entry.column) entry.draft := by
  have hname := (Reader.string_reads "a string" entry.name).map
    fun v (d : KeyDraft) => { d with name := some v }
  have htype := (Reader.choice_reads entry.type.find?_name).map
    fun v (d : KeyDraft) => { d with type := some v }
  have hcolumn : ∀ text, ((Reader.string "a string").optional.map
      fun v (d : KeyDraft) => { d with column := some v }).Reads (writeText text)
        fun d => { d with column := some (some text) } :=
    fun text => (Reader.string_reads "a string" text).optional_writeText.map _
  have hrest : Fills KeyEntry.shape.fields ⟨some entry.name, some entry.type, none⟩
      (optionalMember "column" entry.column) _ :=
    fills_optionalMember (f := KeyEntry.shape.fields[2]) rfl rfl hcolumn entry.column
  have hdraft : entry.draft = entry.column.elim ⟨some entry.name, some entry.type, none⟩
      fun text => ⟨some entry.name, some entry.type, some (some text)⟩ := by
    unfold KeyEntry.draft
    cases entry.column <;> rfl
  rw [hdraft]
  exact .cons (f := KeyEntry.shape.fields[0]) rfl rfl hname
    (.cons (f := KeyEntry.shape.fields[1]) rfl rfl htype hrest)

/-- A written key is read back. -/
theorem KeyEntry.reads (entry : KeyEntry) :
    (Reader.record KeyEntry.shape).Reads entry.write entry := by
  apply Reader.record_reads entry.fills
  cases entry with
  | mk name type column => cases column <;> rfl

lemma forall₂_reads (entries : List KeyEntry) :
    List.Forall₂ (fun text entry => Solid text ∧ (Reader.record KeyEntry.shape).Reads text entry)
      (entries.map KeyEntry.write) entries := by
  induction entries with
  | nil => exact .nil
  | cons entry entries ih => exact .cons ⟨solid_writeObject _, entry.reads⟩ ih

/-- The bytes of a text hold the text. -/
lemma textOfBytes_toUTF8 (text : String) : textOfBytes text.toUTF8 = .ok text := by
  have hvalid : text.toUTF8.IsValidUTF8 := text.isValidUTF8
  unfold textOfBytes String.fromUTF8?
  rw [dif_pos hvalid]
  rfl

namespace Config

/-! ### The configuration around them -/

/-- What the members of a written configuration leave in the draft. -/
def draft (c : Config) : ConfigDraft :=
  ⟨some c.placeholder, some c.profile, c.timestampPattern.map some, some c.keys⟩

lemma fills (c : Config) :
    Fills Config.shape.fields Config.shape.empty
      (writeMember "placeholder" (writeText c.placeholder.name)
        :: writeMember "profile" (writeText c.profile.name)
        :: (optionalMember "timestamp_format" c.timestampPattern
          ++ [writeMember "keys" (writeList (c.keys.map KeyEntry.write))])) c.draft := by
  have hplaceholder := (Reader.choice_reads c.placeholder.find?_name).map
    fun v (d : ConfigDraft) => { d with placeholder := some v }
  have hprofile := (Reader.choice_reads c.profile.find?_name).map
    fun v (d : ConfigDraft) => { d with profile := some v }
  have hpattern : ∀ text, ((Reader.string "a string").optional.map
      fun v (d : ConfigDraft) => { d with timestampPattern := some v }).Reads (writeText text)
        fun d => { d with timestampPattern := some (some text) } :=
    fun text => (Reader.string_reads "a string" text).optional_writeText.map _
  have hkeys := (Reader.list_reads (forall₂_reads c.keys)).map
    fun v (d : ConfigDraft) => { d with keys := some v }
  have hoptional : Fills Config.shape.fields ⟨some c.placeholder, some c.profile, none, none⟩
      (optionalMember "timestamp_format" c.timestampPattern) _ :=
    fills_optionalMember (f := Config.shape.fields[2]) rfl rfl hpattern c.timestampPattern
  have hdraft : (c.timestampPattern.elim ⟨some c.placeholder, some c.profile, none, none⟩
      fun text => ⟨some c.placeholder, some c.profile, some (some text), none⟩) =
        ConfigDraft.mk (some c.placeholder) (some c.profile) (c.timestampPattern.map some)
          none := by
    cases c.timestampPattern <;> rfl
  have hlast : Fills Config.shape.fields
      ⟨some c.placeholder, some c.profile, c.timestampPattern.map some, none⟩
      [writeMember "keys" (writeList (c.keys.map KeyEntry.write))] c.draft :=
    .cons (f := Config.shape.fields[3]) rfl rfl hkeys (.nil _)
  exact .cons (f := Config.shape.fields[0]) rfl rfl hplaceholder
    (.cons (f := Config.shape.fields[1]) rfl rfl hprofile ((hdraft ▸ hoptional).append hlast))

lemma finish_draft (c : Config) : c.draft.finish = c := by
  cases c with
  | mk placeholder profile pattern keys => cases pattern <;> rfl

/-- The text of a configuration is read as this configuration. -/
theorem ofText_text (c : Config) : ofText c.text = .ok c := by
  have hreads : (Reader.record Config.shape).Reads _ c :=
    Reader.record_reads c.fills (congrArg Except.ok c.finish_draft)
  exact hreads.parse

/-- Every configuration is what its own text loads as: every choice, pattern, name and column comes
back, and a pattern or a column that is absent stays absent. -/
theorem load_text (c : Config) : Config.load c.text = .ok c := by
  unfold Config.load
  rw [c.ofText_text]
  rfl

/-- A file that holds the text of a configuration is loaded as this configuration. -/
theorem loadFile_toUTF8 (c : Config) (path : String) :
    Config.loadFile path (.ok c.text.toUTF8) = .ok c := by
  have hcontent : (Except.ok c.text.toUTF8 : Except FileFault ByteArray).bind textOfBytes =
      .ok c.text := by
    simp only [Except.bind, textOfBytes_toUTF8]
  unfold Config.loadFile Config.load
  rw [hcontent]
  simp only
  rw [c.ofText_text]
  rfl

end Config

end QueryFilter
