import Mathlib
import ClassCompiler.Program.TypeTable
import ClassCompiler.Proofs.Structure.Table

/-!
# The hashed type table keeps names apart

For every hash of names, the hashed table behaves as the list of its
declarations searched by name: a collision of hashes never merges or hides
declarations, since lookups and the duplicate check compare full names and
every hash is filed with exactly the positions of the names of that hash.

* `TypeTable.positions hash types k`: the positions of the declarations whose
  names hash to `k`;
* `TypeTable.Filed hash t`: the names of `t` are distinct, each hash is filed
  with exactly its positions, and only hashes of names are filed;
* `Filed.get_eq_some_iff`: the search under the hash of a name finds the
  declaration of that name;
* `Filed.insert_error_iff`, `Filed.insert_ok`: an insert is refused exactly for
  a name present, and else appends the declaration and keeps the table filed;
* `Filed.get_eq_get?`, `Filed.insert_map_types`, `platform_types`: the hashed
  table answers as the class table over the same declarations, and the
  platform's declarations, inserted in turn, make the platform's table;
* `insertAll_keeps_names_apart`: after any sequence of inserts, lookups,
  refusals, order and buckets are those of a list of declarations keyed by
  name.
-/

namespace ClassCompiler

namespace TypeTable

variable {hash : String → UInt64} {t t' : TypeTable} {d : TypeDecl}

/-- The positions of the declarations whose names hash to `k`, in order. -/
def positions (hash : String → UInt64) (types : Array TypeDecl) (k : UInt64) : List Nat :=
  (List.range types.size).filter fun i => (types[i]?).any fun d => hash d.name == k

theorem mem_positions {types : Array TypeDecl} {k : UInt64} {i : Nat} :
    i ∈ positions hash types k ↔ ∃ d, types[i]? = some d ∧ hash d.name = k := by
  simp only [positions, List.mem_filter, List.mem_range, Option.any_eq_true, beq_iff_eq]
  constructor
  · rintro ⟨-, d, hd, hk⟩
    exact ⟨d, hd, hk⟩
  · rintro ⟨d, hd, hk⟩
    exact ⟨(Array.getElem?_eq_some_iff.1 hd).1, d, hd, hk⟩

/-- A declaration appended is filed at the end of its hash's positions. -/
theorem positions_push (types : Array TypeDecl) (d : TypeDecl) (k : UInt64) :
    positions hash (types.push d) k =
      positions hash types k ++ if hash d.name = k then [types.size] else [] := by
  simp only [positions, Array.size_push, List.range_succ, List.filter_append]
  congr 1
  · refine List.filter_congr fun i hi => ?_
    rw [Array.getElem?_push, if_neg (Nat.ne_of_lt (List.mem_range.1 hi))]
  · by_cases hk : hash d.name = k <;> simp [hk]

/-- The table's names are distinct, every hash is filed with exactly the
    positions of the names of that hash, and only hashes of names are filed. -/
structure Filed (hash : String → UInt64) (t : TypeTable) : Prop where
  names : (t.types.toList.map (·.name)).Nodup
  buckets : ∀ k, (t.byHash.getD k #[]).toList = positions hash t.types k
  keys : ∀ k, k ∈ t.byHash ↔ ∃ d ∈ t.types, hash d.name = k

theorem Filed.empty (hash : String → UInt64) : Filed hash TypeTable.empty where
  names := List.nodup_nil
  buckets k := by simp [TypeTable.empty, positions]
  keys k := by simp [TypeTable.empty]

/-- Among distinct names, one name stands at one position. -/
theorem index_unique {types : Array TypeDecl} (h : (types.toList.map (·.name)).Nodup) {i j : Nat}
    {d d' : TypeDecl} (hi : types[i]? = some d) (hj : types[j]? = some d') (hn : d.name = d'.name) :
    i = j := by
  have hget : ∀ {n : Nat} {e : TypeDecl}, types[n]? = some e → (types.toList.map (·.name))[n]? = some e.name := fun he => by
    simp [List.getElem?_map, Array.getElem?_toList, he]
  have hlen : i < (types.toList.map (·.name)).length := by
    simpa using (Array.getElem?_eq_some_iff.1 hi).1
  exact (List.getElem?_inj hlen h).1 (by rw [hget hi, hget hj, hn])

/-- A position the search of a bucket stops at holds a declaration of the
    name. -/
theorem named_of_find?_eq_some {bucket : Array Nat} {name : String} {i : Nat}
    (h : bucket.find? (fun i => (t.types[i]?).any (·.name == name)) = some i) :
    ∃ d, t.types[i]? = some d ∧ d.name = name := by
  have hp := Array.find?_some h
  obtain ⟨d, hd, hn⟩ := (Option.any_eq_true _ _).1 hp
  exact ⟨d, hd, by simpa using hn⟩

/-- Inserting in turn, one declaration at a time: an accepted one is kept, a
    refused one dropped. -/
theorem insertAll_cons_ok (hi : t.insert hash d = .ok t') (ds : List TypeDecl) :
    t.insertAll hash (d :: ds) = t'.insertAll hash ds := by
  simp only [insertAll, List.foldl_cons, hi]

theorem insertAll_cons_error {e : RegistrationError} (hi : t.insert hash d = .error e) (ds : List TypeDecl) :
    t.insertAll hash (d :: ds) = t.insertAll hash ds := by
  simp only [insertAll, List.foldl_cons, hi]

theorem insertAll_append (ds ds' : List TypeDecl) :
    t.insertAll hash (ds ++ ds') = (t.insertAll hash ds).insertAll hash ds' :=
  List.foldl_append

namespace Filed

/-- The search under the hash of a name finds the position of that name. -/
theorem find_eq_some_iff (h : Filed hash t) {name : String} {i : Nat} :
    t.find (hash name) name = some i ↔ ∃ d, t.types[i]? = some d ∧ d.name = name := by
  constructor
  · intro hf
    obtain ⟨bucket, -, hi⟩ := Option.bind_eq_some_iff.1 hf
    exact named_of_find?_eq_some hi
  · rintro ⟨d, hd, rfl⟩
    -- the position is filed under the hash of its name, in the bucket found
    obtain ⟨bucket, hb⟩ := Option.isSome_iff_exists.1
      (Std.HashMap.mem_iff_isSome_getElem?.1 ((h.keys _).2 ⟨d, Array.mem_of_getElem? hd, rfl⟩))
    have hbucket : bucket.toList = positions hash t.types (hash d.name) := by
      rw [← h.buckets, Std.HashMap.getD_eq_getD_getElem?, hb, Option.getD_some]
    have hmem : i ∈ bucket := by
      rw [← Array.mem_toList_iff, hbucket]
      exact mem_positions.2 ⟨d, hd, rfl⟩
    -- the search stops at some position of that name, which can only be `i`
    obtain ⟨j, hj⟩ := Option.isSome_iff_exists.1
      (Array.find?_isSome.2 ⟨i, hmem, by simp [hd]⟩ :
        (bucket.find? fun i => (t.types[i]?).any (·.name == d.name)).isSome)
    obtain ⟨d', hd', hn'⟩ := named_of_find?_eq_some hj
    have hji : j = i := index_unique h.names hd' hd hn'
    rw [find, hb, Option.bind_some, hj, hji]

/-- The search under the hash of a name succeeds exactly when a declaration
    has that name. -/
theorem find_isSome_iff (h : Filed hash t) {name : String} :
    (t.find (hash name) name).isSome ↔ ∃ d ∈ t.types, d.name = name := by
  constructor
  · intro hf
    obtain ⟨i, hi⟩ := Option.isSome_iff_exists.1 hf
    obtain ⟨d, hd, hn⟩ := h.find_eq_some_iff.1 hi
    exact ⟨d, Array.mem_of_getElem? hd, hn⟩
  · rintro ⟨d, hd, hn⟩
    obtain ⟨i, hi⟩ := Array.mem_iff_getElem?.1 hd
    rw [h.find_eq_some_iff.2 ⟨d, hi, hn⟩]
    rfl

/-- A lookup finds the declaration of the name. -/
theorem get_eq_some_iff (h : Filed hash t) {name : String} :
    t.get hash name = some d ↔ d ∈ t.types ∧ d.name = name := by
  constructor
  · intro hg
    obtain ⟨i, hf, hi⟩ := Option.bind_eq_some_iff.1 hg
    obtain ⟨d', hd', hn⟩ := h.find_eq_some_iff.1 hf
    rw [hi] at hd'
    cases hd'
    exact ⟨Array.mem_of_getElem? hi, hn⟩
  · rintro ⟨hd, hn⟩
    obtain ⟨i, hi⟩ := Array.mem_iff_getElem?.1 hd
    rw [get, h.find_eq_some_iff.2 ⟨d, hi, hn⟩, Option.bind_some, hi]

/-- The hashed table finds what the class table over its declarations finds. -/
theorem get_eq_get? (h : Filed hash t) (impls : List (String × String)) (name : String) :
    t.get hash name = (ClassTable.mk t.types impls).get? name :=
  Option.ext fun _ => h.get_eq_some_iff.trans
    (ClassTable.get?_eq_some_iff (show ClassTable.Distinct ⟨t.types, impls⟩ from h.names)).symm

/-- An insert is refused exactly when a declaration of the name is present,
    as a second declaration of the name. -/
theorem insert_error_iff (h : Filed hash t) {e : RegistrationError} :
    t.insert hash d = .error e ↔
      (∃ d' ∈ t.types, d'.name = d.name) ∧ e = .duplicateType (Ty.dotted d.name) d.span := by
  by_cases hf : (t.find (hash d.name) d.name).isSome
  · simp only [insert, insertHashed, hf, ↓reduceIte, Except.error.injEq]
    exact ⟨fun he => ⟨h.find_isSome_iff.1 hf, he.symm⟩, fun he => he.2.symm⟩
  · simp only [insert, insertHashed, hf, Bool.false_eq_true, ↓reduceIte]
    exact iff_of_false (fun he => by cases he) fun he => hf (h.find_isSome_iff.2 he.1)

/-- An accepted insert appends the declaration, filed under the hash of its
    name, and keeps the table filed. -/
theorem insert_ok (h : Filed hash t) (hi : t.insert hash d = .ok t') :
    t'.types = t.types.push d ∧ Filed hash t' := by
  by_cases hf : (t.find (hash d.name) d.name).isSome
  · simp [insert, insertHashed, hf] at hi
  simp only [insert, insertHashed, hf, Bool.false_eq_true, ↓reduceIte, Except.ok.injEq] at hi
  subst hi
  -- no declaration had the name
  have hnew : ∀ d' ∈ t.types, d'.name ≠ d.name := fun d' hd' hn => hf (h.find_isSome_iff.2 ⟨d', hd', hn⟩)
  refine ⟨rfl, ⟨?_, fun k => ?_, fun k => ?_⟩⟩
  · rw [Array.toList_push, List.map_append, List.nodup_append]
    refine ⟨h.names, List.nodup_singleton _, fun a ha b hb hab => ?_⟩
    obtain ⟨d', hd', rfl⟩ := List.mem_map.1 ha
    rw [List.map_singleton, List.mem_singleton] at hb
    exact hnew d' (Array.mem_toList_iff.1 hd') (hab.trans hb)
  · simp only [Std.HashMap.getD_insert, beq_iff_eq, positions_push]
    by_cases hk : hash d.name = k
    · subst hk
      simp [h.buckets]
    · simp [hk, h.buckets]
  · simp only [Std.HashMap.mem_insert, beq_iff_eq, h.keys, Array.mem_push]
    constructor
    · rintro (rfl | ⟨d', hd', hk⟩)
      · exact ⟨d, .inr rfl, rfl⟩
      · exact ⟨d', .inl hd', hk⟩
    · rintro ⟨d', hd' | rfl, hk⟩
      · exact .inr ⟨d', hd', hk⟩
      · exact .inl hk

/-- An insert changes the declarations as registering in the class table over
    them does. -/
theorem insert_map_types (h : Filed hash t) (impls : List (String × String)) (d : TypeDecl) :
    (t.insert hash d).map TypeTable.types = ((ClassTable.mk t.types impls).register d).map ClassTable.decls := by
  by_cases hp : ∃ d' ∈ t.types, d'.name = d.name
  · have hc : (ClassTable.mk t.types impls).contains d.name = true := ClassTable.contains_iff.2 hp
    rw [(h.insert_error_iff).2 ⟨hp, rfl⟩]
    simp [ClassTable.register, hc, Except.map]
  · have hc : (ClassTable.mk t.types impls).contains d.name = false := by
      simpa using mt ClassTable.contains_iff.1 hp
    cases hi : t.insert hash d with
    | error e => exact absurd ((h.insert_error_iff).1 hi).1 hp
    | ok t' => simp [(h.insert_ok hi).1, ClassTable.register, hc, Except.map]

/-- Inserting in turn keeps the table filed, and keeps the declarations of
    the table in the order they were inserted. -/
theorem insertAll (h : Filed hash t) (ds : List TypeDecl) :
    Filed hash (t.insertAll hash ds) ∧ (t.insertAll hash ds).types.toList.Sublist (t.types.toList ++ ds) := by
  -- induction on the declarations, from any filed table
  induction ds generalizing t with
  | nil => simpa [TypeTable.insertAll] using h
  | cons d ds ih =>
    cases hi : t.insert hash d with
    | error e =>
      obtain ⟨hF, hsub⟩ := ih h
      rw [insertAll_cons_error hi]
      exact ⟨hF, hsub.trans ((List.sublist_cons_self d ds).append_left _)⟩
    | ok t' =>
      obtain ⟨htypes, h'⟩ := h.insert_ok hi
      obtain ⟨hF, hsub⟩ := ih h'
      rw [htypes, Array.toList_push, List.append_assoc, List.singleton_append] at hsub
      rw [insertAll_cons_ok hi]
      exact ⟨hF, hsub⟩

/-- Declarations of new and distinct names are all inserted, in order. -/
theorem insertAll_of_distinct (h : Filed hash t) {ds : List TypeDecl}
    (hd : ((t.types.toList ++ ds).map (·.name)).Nodup) :
    (t.insertAll hash ds).types.toList = t.types.toList ++ ds := by
  induction ds generalizing t with
  | nil => simp [TypeTable.insertAll]
  | cons d ds ih =>
    -- the first is new, so it is accepted
    have hnew : ¬ ∃ d' ∈ t.types, d'.name = d.name := by
      rintro ⟨d', hd', hn⟩
      rw [List.map_append, List.nodup_append] at hd
      exact hd.2.2 _ (List.mem_map.2 ⟨d', Array.mem_toList_iff.2 hd', rfl⟩) _
        (List.mem_map.2 ⟨d, List.mem_cons_self, rfl⟩) hn
    cases hi : t.insert hash d with
    | error e => exact absurd ((h.insert_error_iff).1 hi).1 hnew
    | ok t' =>
      obtain ⟨htypes, h'⟩ := h.insert_ok hi
      have hd' : ((t'.types.toList ++ ds).map (·.name)).Nodup := by
        simpa [htypes] using hd
      rw [insertAll_cons_ok hi, ih h' hd', htypes, Array.toList_push, List.append_assoc,
        List.singleton_append]

end Filed

/-- The platform's declarations, inserted in turn into an empty table, make
    the platform's class table, whatever the hash. -/
theorem platform_types (hash : String → UInt64) :
    (TypeTable.empty.insertAll hash Library.classes).types = ClassTable.platform.decls := by
  apply Array.toList_inj.1
  rw [(Filed.empty hash).insertAll_of_distinct
    (by simpa [TypeTable.empty, ClassTable.Distinct, ClassTable.platform] using ClassTable.platform_distinct)]
  rfl

/-- The hashed table is a list of declarations keyed by name, for any hash:
    after inserting declarations in turn into an empty table, the names are
    distinct and the declarations are in insertion order; a lookup finds the
    declaration of the name; an insert is refused, as a second declaration of
    the name, exactly when a declaration of that name is present, and then
    leaves the table as it was, and otherwise appends the declaration; and each
    hash is filed with exactly the positions of the declarations whose names
    have it. -/
theorem insertAll_keeps_names_apart (hash : String → UInt64) (ds : List TypeDecl) :
    let t := TypeTable.empty.insertAll hash ds
    (t.types.toList.map (·.name)).Nodup ∧
    t.types.toList.Sublist ds ∧
    (∀ name d, t.get hash name = some d ↔ d ∈ t.types ∧ d.name = name) ∧
    (∀ d e, t.insert hash d = .error e ↔
      (∃ d' ∈ t.types, d'.name = d.name) ∧ e = .duplicateType (Ty.dotted d.name) d.span) ∧
    (∀ d, (∃ d' ∈ t.types, d'.name = d.name) → TypeTable.empty.insertAll hash (ds ++ [d]) = t) ∧
    (∀ d t', t.insert hash d = .ok t' → t'.types = t.types.push d) ∧
    (∀ k, (t.byHash.getD k #[]).toList =
      (List.range t.types.size).filter fun i => (t.types[i]?).any fun d => hash d.name == k) ∧
    ∀ k, k ∈ t.byHash ↔ ∃ d ∈ t.types, hash d.name = k := by
  intro t
  obtain ⟨h, hsub⟩ := (Filed.empty hash).insertAll ds
  refine ⟨h.names, hsub, fun _ _ => h.get_eq_some_iff,
    fun _ _ => h.insert_error_iff, fun d hp => ?_, fun _ _ hi => (h.insert_ok hi).1, h.buckets, h.keys⟩
  -- a refused insert leaves the table as it was
  rw [insertAll_append, show TypeTable.empty.insertAll hash ds = t from rfl,
    insertAll_cons_error ((h.insert_error_iff).2 ⟨hp, rfl⟩)]
  rfl

/-- With every name under one hash, the declarations stay apart and the
    second `b/B` is refused. -/
example :
    let t := TypeTable.empty.insertAll (fun _ => 7)
      [TypeDecl.empty "a/A" .struct, TypeDecl.empty "b/B" .struct, TypeDecl.empty "b/B" .module]
    t.types.toList.map (·.name) = ["a/A", "b/B"] ∧ (t.get (fun _ => 7) "b/B").map (·.kind) = some .struct ∧
      t.byHash.getD 7 #[] = #[0, 1] := by
  cbv

end TypeTable

end ClassCompiler
