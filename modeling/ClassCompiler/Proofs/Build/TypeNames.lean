import ClassCompiler.Proofs.Build.ClassOrder

/-!
# Type names before and after the structural pass

The structural pass resolves the type names of a file against the classes it
knows from the start (`knownNames`): the platform's, and the modules, structs
and traits every file declares. The bodies of methods resolve them against the
final table (`MethodContext.resolver`), which holds one more kind of class:
the holder of each file's global functions and the adapter of each impl
(`IsAdded`).

* `buildStructure_contains`: the final table holds the classes known from the
  start, the holders and the adapters, and nothing else;
* `IsAdded.not_known`: a holder or an adapter is no class known from the
  start, as the table holds each name once;
* `qualify_agrees`, `resolve_agrees`, `lookupType_agrees`: a name is read alike
  before and after the pass unless the names its qualification consults are a
  holder's or an adapter's;
* `qualify_shadowed`: and then they may differ. A holder named like a class of
  `java/lang`, the holder `System` of a file `System.atp` say, shadows that
  class in method bodies, while the structural pass still reads the name as
  the class of `java/lang`.
-/

namespace ClassCompiler

open Syntax

/-! ### The classes known from the start -/

theorem knownNames_eq (files : List (String × SourceFile)) :
    knownNames files = Library.classes.map (·.name) ++
      files.flatMap fun f => f.2.items.filterMap fun it => it.declaredClass?.map Prod.fst := by
  unfold knownNames
  congr 1
  congr 1
  funext f
  obtain ⟨_, sf⟩ := f
  dsimp only
  congr 1
  funext it
  cases it <;> rfl

theorem mem_knownNames {files : List (String × SourceFile)} {n : String} :
    n ∈ knownNames files ↔ n ∈ Library.classes.map (·.name) ∨
      ∃ f ∈ files, ∃ it ∈ f.2.items, ∃ k, it.declaredClass? = some (n, k) := by
  rw [knownNames_eq, List.mem_append]
  apply or_congr_right
  simp only [List.mem_flatMap, List.mem_filterMap, Option.map_eq_some_iff]
  constructor
  · rintro ⟨f, hf, it, hit, ⟨n', k⟩, hc, rfl⟩
    exact ⟨f, hf, it, hit, k, hc⟩
  · rintro ⟨f, hf, it, hit, k, hc⟩
    exact ⟨f, hf, it, hit, (n, k), hc, rfl⟩

/-- A file declares modules, structs and traits, never a holder or an adapter. -/
theorem Syntax.Item.declaredClass?_declared {it : Item} {c : String × ClassKind}
    (h : it.declaredClass? = some c) : c.2 ≠ .globals ∧ c.2 ≠ .adapter := by
  cases it <;> simp only [Item.declaredClass?, Option.some.injEq, reduceCtorEq] at h <;> simp [← h]

theorem kind_of_mem_declaredClasses {file : String} {items : List Item} {c : String × ClassKind}
    (h : c ∈ declaredClasses file items) : c.2 = .globals ∨ ∃ it ∈ items, it.declaredClass? = some c := by
  simp only [declaredClasses, List.mem_append, List.mem_filterMap] at h
  rcases h with ⟨it, hit, hc⟩ | h
  · exact .inr ⟨it, (List.takeWhile_sublist _).subset hit, hc⟩
  · split at h
    · cases h
    · rcases List.mem_cons.1 h with rfl | h
      · exact .inl rfl
      · obtain ⟨it, hit, hc⟩ := List.mem_filterMap.1 h
        exact .inr ⟨it, (List.dropWhile_sublist _).subset hit, hc⟩

theorem mem_declaredClasses {file : String} {items : List Item} {it : Item} {c : String × ClassKind}
    (hit : it ∈ items) (hc : it.declaredClass? = some c) : c ∈ declaredClasses file items := by
  have hsplit := List.takeWhile_append_dropWhile (p := fun it : Item => it.globalFn?.isNone) (l := items)
  rw [← hsplit, List.mem_append] at hit
  unfold declaredClasses
  dsimp only
  rcases hit with hit | hit
  · exact List.mem_append_left _ (List.mem_filterMap.2 ⟨it, hit, hc⟩)
  · -- an item after the first global function: the holder stands before it
    rw [if_neg (by rw [List.isEmpty_iff]; exact List.ne_nil_of_mem hit)]
    exact List.mem_append_right _ (List.mem_cons_of_mem _ (List.mem_filterMap.2 ⟨it, hit, hc⟩))

/-! ### The classes of the final table -/

/-- A class the structural pass adds to those it knows from the start: the
    holder of a file's global functions, or the adapter of an impl. -/
def IsAdded (files : List (String × SourceFile)) (n : String) : Prop :=
  ∃ c ∈ writtenClasses files, c.name = n ∧ (c.kind = .globals ∨ c.kind = .adapter)

theorem ClassTable.contains_iff_origin {t : ClassTable} {n : String} :
    t.contains n = true ↔ ∃ c ∈ t.decls.toList.map TypeDecl.origin, c.name = n := by
  rw [ClassTable.contains_iff]
  simp [TypeDecl.origin]

theorem ClassTable.mem_platform_origins {d : TypeDecl} (hd : d ∈ Library.classes) :
    d.origin ∈ ClassTable.platform.decls.toList.map TypeDecl.origin :=
  List.mem_map.2 ⟨d, by simpa [ClassTable.platform] using hd, rfl⟩

section Build

variable {files : List (String × SourceFile)} {s : Structure}

/-- The final table holds the classes known from the start, the holders and
    the adapters, and nothing else. -/
theorem buildStructure_contains (h : buildStructure files = .ok s) (n : String) :
    s.table.contains n = true ↔ n ∈ knownNames files ∨ IsAdded files n := by
  rw [ClassTable.contains_iff_origin, (buildStructure_order h).1, mem_knownNames]
  constructor
  · rintro ⟨c, hc, rfl⟩
    rcases List.mem_append.1 hc with hc | hc
    · obtain ⟨d, hd, rfl⟩ := List.mem_map.1 hc
      exact .inl (.inl (List.mem_map.2 ⟨d, by simpa [ClassTable.platform] using hd, rfl⟩))
    · by_cases hk : c.kind = .globals ∨ c.kind = .adapter
      · exact .inr ⟨c, hc, rfl, hk⟩
      · -- a class of another kind is one a file declares
        simp only [writtenClasses, fileClasses, fileAdapters, List.mem_append, List.mem_flatMap,
          List.mem_map] at hc
        rcases hc with ⟨f, hf, x, hx, rfl⟩ | ⟨f, hf, m, -, rfl⟩
        · rcases kind_of_mem_declaredClasses hx with hg | ⟨it, hit, hdc⟩
          · exact absurd (.inl hg) hk
          · exact .inl (.inr ⟨f, hf, it, hit, x.2, hdc⟩)
        · exact absurd (.inr rfl) hk
  · rintro ((hlib | ⟨f, hf, it, hit, k, hdc⟩) | ⟨c, hc, rfl, -⟩)
    · obtain ⟨d, hd, rfl⟩ := List.mem_map.1 hlib
      exact ⟨d.origin, List.mem_append_left _ (ClassTable.mem_platform_origins hd), rfl⟩
    · refine ⟨ClassOrigin.inFile f.1 (n, k), List.mem_append_right _ ?_, rfl⟩
      simp only [writtenClasses, fileClasses, List.mem_append, List.mem_flatMap, List.mem_map]
      exact .inl ⟨f, hf, (n, k), mem_declaredClasses hit hdc, rfl⟩
    · exact ⟨c, List.mem_append_right _ hc, rfl⟩

/-- A holder or an adapter is no class known from the start: the final table
    holds each name once, and a known class of the same name would stand in it
    beside the holder or adapter. -/
theorem IsAdded.not_known (h : buildStructure files = .ok s) {n : String} (ha : IsAdded files n) :
    n ∉ knownNames files := by
  obtain ⟨c, hc, rfl, hk⟩ := ha
  have hnodup : ((ClassTable.platform.decls.toList.map TypeDecl.origin ++ writtenClasses files).map
      ClassOrigin.name).Nodup := by
    rw [← (buildStructure_order h).1, List.map_map]
    exact (buildStructure_ok h).distinct
  have hother : ∀ c' ∈ ClassTable.platform.decls.toList.map TypeDecl.origin ++ writtenClasses files,
      c'.name = c.name → c'.kind = c.kind := fun c' hc' hname =>
    congrArg ClassOrigin.kind (List.inj_on_of_nodup_map hnodup hc' (List.mem_append_right _ hc) hname)
  intro hn
  rcases mem_knownNames.1 hn with hlib | ⟨f, hf, it, hit, k, hdc⟩
  · -- a class of the platform is of kind `library`
    obtain ⟨d, hd, hname⟩ := List.mem_map.1 hlib
    have hkind := hother d.origin (List.mem_append_left _ (ClassTable.mem_platform_origins hd)) hname
    have hlibk : d.kind = .library := ClassTable.platform_library d (by simpa [ClassTable.platform] using hd)
    simp only [TypeDecl.origin] at hkind
    rcases hk with hk | hk <;> rw [hk, hlibk] at hkind <;> cases hkind
  · -- a declared class is a module, a struct or a trait
    have hw : ClassOrigin.inFile f.1 (c.name, k) ∈ writtenClasses files := by
      simp only [writtenClasses, fileClasses, List.mem_append, List.mem_flatMap, List.mem_map]
      exact .inl ⟨f, hf, (c.name, k), mem_declaredClasses hit hdc, rfl⟩
    have hkind := hother _ (List.mem_append_right _ hw) rfl
    have hdecl := Item.declaredClass?_declared hdc
    simp only [ClassOrigin.inFile] at hkind
    rcases hk with hk | hk
    · exact hdecl.1 (hkind.trans hk)
    · exact hdecl.2 (hkind.trans hk)

/-- Before and after the pass, a name that is no holder's or adapter's is a
    known class alike. -/
theorem known_eq_contains (h : buildStructure files = .ok s) {n : String} (hn : ¬ IsAdded files n) :
    (knownNames files).contains n = s.table.contains n := by
  rw [Bool.eq_iff_iff, List.contains_iff_mem, buildStructure_contains h, or_iff_left hn]

end Build

/-! ### Reading a name before and after the pass -/

namespace Resolver

/-- A name is qualified as its alias, or as a class of `java/lang`. -/
theorem qualify_cases (r : Resolver) (x : String) :
    r.qualify x = r.aliases.resolve x ∨ r.qualify x = implicitPackage ++ r.aliases.resolve x := by
  unfold qualify
  dsimp only
  split
  · exact .inl rfl
  · split
    · exact .inr rfl
    · exact .inl rfl

/-- Two resolvers of the same aliases qualify a name alike when they agree on
    whether the names the qualification consults are known. -/
theorem qualify_congr {r r' : Resolver} (ha : r.aliases = r'.aliases) {x : String}
    (hq : r.known (r.aliases.resolve x) = r'.known (r.aliases.resolve x))
    (hj : r.known (implicitPackage ++ r.aliases.resolve x) = r'.known (implicitPackage ++ r.aliases.resolve x)) :
    r.qualify x = r'.qualify x := by
  unfold qualify
  dsimp only
  rw [← ha, hq, hj]

end Resolver

section Agreement

variable {files : List (String × SourceFile)} {s : Structure} {sf : SourceFile} {c : MethodContext}

/-- The structural pass and the bodies of the methods of a file qualify a name
    alike, unless a name the qualification consults is a holder's or an
    adapter's. -/
theorem qualify_agrees (h : buildStructure files = .ok s) (ht : c.table = s.table) (ha : c.aliases = sf.aliases)
    (x : String) (hq : ¬ IsAdded files (sf.aliases.resolve x))
    (hj : ¬ IsAdded files (Resolver.implicitPackage ++ sf.aliases.resolve x)) :
    (fileResolver files sf).qualify x = c.resolver.qualify x := by
  apply Resolver.qualify_congr ha.symm
  · rw [MethodContext.resolver, ht]
    exact known_eq_contains h hq
  · rw [MethodContext.resolver, ht]
    exact known_eq_contains h hj

/-- So they resolve a type expression alike. -/
theorem resolve_agrees (h : buildStructure files = .ok s) (ht : c.table = s.table) (ha : c.aliases = sf.aliases)
    (t : TypeExpr) (hq : ¬ IsAdded files (sf.aliases.resolve t.path.dotted))
    (hj : ¬ IsAdded files (Resolver.implicitPackage ++ sf.aliases.resolve t.path.dotted)) :
    (fileResolver files sf).resolve t = c.resolver.resolve t := by
  unfold Resolver.resolve Resolver.base
  rw [qualify_agrees h ht ha _ hq hj]

/-- And they find the same class for a name used as a static receiver, such
    as `System` in `System.out`. -/
theorem lookupType_agrees (h : buildStructure files = .ok s) (ht : c.table = s.table)
    (ha : c.aliases = sf.aliases) (x : String) (hq : ¬ IsAdded files (sf.aliases.resolve x))
    (hj : ¬ IsAdded files (Resolver.implicitPackage ++ sf.aliases.resolve x)) :
    (fileResolver files sf).lookupType? x = c.resolver.lookupType? x := by
  have hqual := qualify_agrees h ht ha x hq hj
  -- the qualified name is one of the two consulted, so it is known alike
  have hknown : (knownNames files).contains ((fileResolver files sf).qualify x) =
      c.table.contains ((fileResolver files sf).qualify x) := by
    rw [ht]
    rcases Resolver.qualify_cases (fileResolver files sf) x with hx | hx <;> rw [hx]
    · exact known_eq_contains h hq
    · exact known_eq_contains h hj
  unfold Resolver.lookupType?
  rw [← hqual]
  exact congrArg (fun b => if b = true then some _ else none) hknown

/-- A holder or an adapter named, once aliases are applied, like a class of
    `java/lang` without a package shadows that class in method bodies: the
    structural pass reads the name as the class of `java/lang`, the bodies as
    the holder or adapter. -/
theorem qualify_shadowed (h : buildStructure files = .ok s) (ht : c.table = s.table) (ha : c.aliases = sf.aliases)
    (x : String) (hslash : '/' ∉ (sf.aliases.resolve x).toList)
    (hlib : Resolver.implicitPackage ++ sf.aliases.resolve x ∈ knownNames files)
    (hadded : IsAdded files (sf.aliases.resolve x)) :
    (fileResolver files sf).qualify x = Resolver.implicitPackage ++ sf.aliases.resolve x ∧
      c.resolver.qualify x = sf.aliases.resolve x := by
  have hnot : (knownNames files).contains (sf.aliases.resolve x) = false := by
    simpa [List.contains_iff_mem] using hadded.not_known h
  have hin : c.table.contains (sf.aliases.resolve x) = true := by
    rw [ht, buildStructure_contains h]
    exact .inr hadded
  have hslash' : (sf.aliases.resolve x).toList.contains '/' = false := by
    simpa using hslash
  constructor
  · unfold Resolver.qualify
    simp only [fileResolver, hslash', hnot, List.contains_iff_mem.2 hlib, Bool.false_or, if_true]
    rfl
  · unfold Resolver.qualify MethodContext.resolver
    simp only [ha, hslash', hin, Bool.false_or, if_true]

/-- The file `System.atp` of one global function: its holder `System` shadows
    `java/lang/System` in the function's body, where `System.out` names a
    field of the holder. -/
theorem qualify_shadowed_system :
    let sf := (Syntax.parse "fn f(): void \x7b System.out.println(1); \x7d\n").toOption.getD default
    ∃ s, buildStructure [("System.atp", sf)] = .ok s ∧
      ∀ c : MethodContext, c.table = s.table → c.aliases = sf.aliases →
        (fileResolver [("System.atp", sf)] sf).qualify "System" = "java/lang/System" ∧
          c.resolver.qualify "System" = "System" := by
  intro sf
  have hd : (buildStructure [("System.atp", sf)]).toOption.isSome = true := by decide +kernel
  obtain ⟨s, hs⟩ := Option.isSome_iff_exists.1 hd
  have h := Except.eq_ok_of_toOption hs
  have hres : sf.aliases.resolve "System" = "System" := by decide +kernel
  have hlib : Resolver.implicitPackage ++ sf.aliases.resolve "System" ∈ knownNames [("System.atp", sf)] := by
    decide +kernel
  have hadded : IsAdded [("System.atp", sf)] (sf.aliases.resolve "System") :=
    ⟨⟨"System", .globals, some "System.atp"⟩, by decide +kernel, hres.symm, .inl rfl⟩
  refine ⟨s, h, fun c ht ha => ?_⟩
  have hshadow := qualify_shadowed h ht ha "System" (by rw [hres]; decide) hlib hadded
  rw [hres] at hshadow
  exact hshadow

end Agreement

end ClassCompiler
