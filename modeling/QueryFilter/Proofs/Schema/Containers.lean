import QueryFilter.Proofs.Schema.Reading

/-!
# Containers of pairs

The pairs of a source may be kept in a list, in which the first pair with a key is found, or be
collected one after another in a map, in which a later pair replaces an earlier one.  How the map is
built makes no difference: `Container.lookup_source` says of every kind that it finds the first pair
of the list, or of the reversed list.

A schema sees of a source only what it finds for the declared names (`Schema.parse_congr`).  So the
kinds of containers agree up to the order of pairs with one key, and pairs of other keys may come
and go (`parse_agrees_on_containers`).
-/

namespace QueryFilter

/-- A kind of container for the pairs of a source. -/
inductive Container where
  | list
  | dictionary
  | hashTable
  | searchTree
  deriving DecidableEq

namespace Container

/-- The source that collects pairs in a container. -/
def source : Container → List (String × String) → Source
  | list, pairs => .ofList pairs
  | dictionary, pairs => .ofDictionary pairs
  | hashTable, pairs => ⟨fun key => (Std.HashMap.ofList pairs)[key]?⟩
  | searchTree, pairs => ⟨fun key => (Std.TreeMap.ofList pairs)[key]?⟩

/-- The pairs in the order in which a look-up goes through them. -/
def inOrder : Container → List (String × String) → List (String × String)
  | list, pairs => pairs
  | dictionary, pairs | hashTable, pairs | searchTree, pairs => pairs.reverse

end Container

/-! ### Looking up -/

section Lookup

variable {pairs pairs' : List (String × String)} {key value : String}

/-- A map that is empty at first, and takes in each pair in the place of an earlier one, has the
last value of each key. -/
lemma eq_lookup_reverse (find : List (String × String) → Option String) (hempty : find [] = none)
    (hinsert : ∀ pairs pair, find (pairs ++ [pair]) =
      if pair.1 = key then some pair.2 else find pairs) (pairs : List (String × String)) :
    find pairs = pairs.reverse.lookup key := by
  induction pairs using List.reverseRecOn with
  | nil => exact hempty
  | append_singleton pairs pair ih =>
    rw [hinsert, ih, List.reverse_concat, List.lookup_cons]
    by_cases hkey : pair.1 = key
    · simp [hkey]
    · have hne : (key == pair.1) = false := beq_eq_false_iff_ne.2 (Ne.symm hkey)
      rw [if_neg hkey, hne]

lemma getElem?_hashMap_concat (pairs : List (String × String)) (pair : String × String) :
    (Std.HashMap.ofList (pairs ++ [pair]))[key]? =
      if pair.1 = key then some pair.2 else (Std.HashMap.ofList pairs)[key]? := by
  rw [Std.HashMap.ofList_eq_insertMany_empty, Std.HashMap.insertMany_append,
    Std.HashMap.insertMany_list_singleton, Std.HashMap.getElem?_insert,
    ← Std.HashMap.ofList_eq_insertMany_empty]
  exact if_congr beq_iff_eq rfl rfl

lemma getElem?_treeMap_concat (pairs : List (String × String)) (pair : String × String) :
    (Std.TreeMap.ofList (pairs ++ [pair]))[key]? =
      if pair.1 = key then some pair.2 else (Std.TreeMap.ofList pairs)[key]? := by
  rw [Std.TreeMap.ofList_eq_insertMany_empty, Std.TreeMap.insertMany_append,
    Std.TreeMap.insertMany_list_singleton, Std.TreeMap.getElem?_insert,
    ← Std.TreeMap.ofList_eq_insertMany_empty]
  exact if_congr Std.LawfulEqCmp.compare_eq_iff_eq rfl rfl

/-- Every container finds the first pair with a key, in its own order of look-up. -/
lemma Container.lookup_source (c : Container) (pairs : List (String × String)) (key : String) :
    (c.source pairs).lookup key = (c.inOrder pairs).lookup key := by
  cases c with
  | list => rfl
  | dictionary =>
    exact eq_lookup_reverse (fun pairs => (Dictionary.ofPairs pairs).get? key) rfl
      Dictionary.get?_ofPairs_concat pairs
  | hashTable =>
    exact eq_lookup_reverse (fun pairs => (Std.HashMap.ofList pairs)[key]?)
      Std.HashMap.getElem?_empty getElem?_hashMap_concat pairs
  | searchTree =>
    exact eq_lookup_reverse (fun pairs => (Std.TreeMap.ofList pairs)[key]?)
      Std.TreeMap.getElem?_emptyc getElem?_treeMap_concat pairs

/-- If no key has two pairs, looking up is membership. -/
lemma lookup_eq_some_iff_mem (hnodup : (pairs.map Prod.fst).Nodup) :
    pairs.lookup key = some value ↔ (key, value) ∈ pairs := by
  induction pairs with
  | nil => simp
  | cons pair pairs ih =>
    obtain ⟨k, v⟩ := pair
    rw [List.map_cons, List.nodup_cons] at hnodup
    rw [List.lookup_cons, List.mem_cons]
    by_cases hkey : key = k
    · subst hkey
      have hnew : (key, value) ∉ pairs := fun hmem => hnodup.1 (List.mem_map.2 ⟨_, hmem, rfl⟩)
      simp [hnew, eq_comm]
    · rw [beq_eq_false_iff_ne.2 hkey, ih hnodup.2]
      simp [hkey]

/-- If no key has two pairs, their order does not matter. -/
lemma lookup_perm (h : pairs'.Perm pairs) (hnodup : (pairs.map Prod.fst).Nodup) :
    pairs'.lookup key = pairs.lookup key := by
  have hnodup' : (pairs'.map Prod.fst).Nodup := (h.map Prod.fst).nodup_iff.2 hnodup
  refine Option.ext fun value => ?_
  rw [lookup_eq_some_iff_mem hnodup', lookup_eq_some_iff_mem hnodup, h.mem_iff]

end Lookup

namespace Container

lemma inOrder_perm (c : Container) (pairs : List (String × String)) :
    (c.inOrder pairs).Perm pairs := by
  cases c with
  | list => exact .refl _
  | dictionary => exact pairs.reverse_perm
  | hashTable => exact pairs.reverse_perm
  | searchTree => exact pairs.reverse_perm

lemma inOrder_reverse {c : Container} (h : c ≠ list) (pairs : List (String × String)) :
    c.inOrder pairs.reverse = pairs := by
  cases c with
  | list => exact absurd rfl h
  | dictionary => exact pairs.reverse_reverse
  | hashTable => exact pairs.reverse_reverse
  | searchTree => exact pairs.reverse_reverse

lemma inOrder_filter (c : Container) (p : String × String → Bool)
    (pairs : List (String × String)) : c.inOrder (pairs.filter p) = (c.inOrder pairs).filter p := by
  cases c with
  | list => rfl
  | dictionary => exact List.filter_reverse.symm
  | hashTable => exact List.filter_reverse.symm
  | searchTree => exact List.filter_reverse.symm

end Container

/-- Containers of the same pairs are read alike, up to the order of pairs with one key.  A list is
read as a map that is collected from the reversed list.  If no key has two pairs, containers of
every kind are read alike, whatever the order of the pairs.  And a container is read as one of other
pairs, if both have the same pairs with declared names in the same order. -/
theorem parse_agrees_on_containers (s : Schema) (pairs : List (String × String)) :
    (∀ c : Container, c ≠ .list → s.parse (c.source pairs.reverse) = s.parse (.ofList pairs)) ∧
      ((pairs.map Prod.fst).Nodup → ∀ (c c' : Container) (pairs' : List (String × String)),
        pairs'.Perm pairs → s.parse (c.source pairs') = s.parse (c'.source pairs)) ∧
      ∀ (c : Container) (pairs' : List (String × String)),
        (pairs'.filter fun p => p.1 ∈ s.keys.map Prod.fst) =
          (pairs.filter fun p => p.1 ∈ s.keys.map Prod.fst) →
        s.parse (c.source pairs') = s.parse (c.source pairs) := by
  refine ⟨?_, ?_, ?_⟩
  · intro c hc
    apply Schema.parse_congr
    intro e _
    rw [c.lookup_source, Container.inOrder_reverse hc]
    rfl
  · intro hnodup c c' pairs' hperm
    apply Schema.parse_congr
    intro e _
    have hleft : (c.inOrder pairs').Perm pairs := (c.inOrder_perm pairs').trans hperm
    rw [c.lookup_source, c'.lookup_source, lookup_perm hleft hnodup,
      lookup_perm (c'.inOrder_perm pairs) hnodup]
  · intro c pairs' hsame
    apply Schema.parse_congr
    intro e he
    have hfilter : ∀ l : List (String × String),
        (c.inOrder (l.filter fun p => p.1 ∈ s.keys.map Prod.fst)).lookup e.1 =
          (c.inOrder l).lookup e.1 := by
      intro l
      rw [c.inOrder_filter]
      exact lookup_filter (fun value => decide_eq_true (List.mem_map_of_mem he)) (c.inOrder l)
    rw [c.lookup_source, c.lookup_source, ← hfilter pairs', ← hfilter pairs, hsame]

/-- The first of two values counts in a list, and the last one in the hash table of the reversed
list.  A search tree of two keys is read as the list that names them in the other order.  Pairs of
other keys may stand around those of a dictionary. -/
theorem parse_agrees_on_containers_of_two_values :
    let s := (Schema.empty.declare "a" .string).declare "n" .integer
    s.parse (Container.hashTable.source [("a", "y"), ("a", "x")]) =
        .ok (Filter.empty.append "a" .string ["x"] .equals) ∧
      s.parse (Container.searchTree.source [("a", "x"), ("n", "gt!q")]) =
        s.parse (Container.list.source [("n", "gt!q"), ("a", "x")]) ∧
      s.parse (Container.dictionary.source [("z", "|"), ("a", "x"), ("q", ""), ("a", "y")]) =
        s.parse (Container.dictionary.source [("a", "x"), ("a", "y")]) := by
  intro s
  obtain ⟨hreversed, -, hdeclared⟩ := parse_agrees_on_containers s [("a", "x"), ("a", "y")]
  obtain ⟨-, hdistinct, -⟩ := parse_agrees_on_containers s [("n", "gt!q"), ("a", "x")]
  refine ⟨?_, ?_, ?_⟩
  · have hlist : s.parse (.ofList [("a", "x"), ("a", "y")]) =
        .ok (Filter.empty.append "a" .string ["x"] .equals) := rfl
    exact (hreversed .hashTable (by decide)).trans hlist
  · exact hdistinct (by decide) .searchTree .list _ (.swap _ _ _)
  · exact hdeclared .dictionary _ (by decide)

end QueryFilter
