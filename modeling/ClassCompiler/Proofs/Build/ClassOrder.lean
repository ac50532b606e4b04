import ClassCompiler.Proofs.Structure.Impls
import ClassCompiler.Proofs.Build.Bodies
import ClassCompiler.Proofs.Primitive.Refinement
import Mathlib

/-!
# The order of the classes of a build

A build lists its classes in declaration order. This module follows that
order from the files added to a source set to the records the build writes.

* `declaredClasses`: the classes a file declares, in item order, with the
  holder of its global functions where the first of them stands;
  `writtenClasses`: those of every file, file after file, then the adapters of
  the impls of every file, file after file;
* `baseName`: a file name without its directories, which is what
  `sourceFileName` computes (`sourceFileName_eq_baseName`);
* `OrderPass`: what the pass over a file keeps of the order of its classes,
  item after item (`OrderPass.items`); `FilesInOrder`: the same over the
  files, file after file;
* `buildStructure_order`, `buildStructure_emitted`: the table holds the
  platform's classes, then `writtenClasses`, and the classes written out are
  `writtenClasses`;
* `SourceSet.Added`: adding files one after the other keeps each name once,
  in the order it was first added, with the text it was last added with;
* `SourceSet.compile_classes_in_order`: a successful build of the files added
  lists the classes `writtenClasses` gives for them, none of the platform.
-/

namespace ClassCompiler

open Syntax

/-! ### The classes a file declares -/

theorem List.filterMap_single {α β : Type} (f : α → Option β) (a : α) : [a].filterMap f = (f a).toList := by
  cases h : f a <;> simp [h]

/-- The module, struct or trait an item declares: its class name and kind. -/
def Syntax.Item.declaredClass? : Item → Option (String × ClassKind)
  | .moduleDecl p .. => some (FilePass.declName p, .module)
  | .structDecl p .. => some (FilePass.declName p, .struct)
  | .traitDecl p .. => some (FilePass.declName p, .trait)
  | _ => none

/-- The adapter an impl declares, named after its trait and its target as `r`
    resolves them. -/
def Syntax.Item.adapterClass? (r : Resolver) : Item → Option String
  | .implDecl tt tg _ _ =>
    match r.resolve tt, r.resolve tg with
    | .obj T, .obj S => some (adapterName T S)
    | _, _ => none
  | _ => none

/-- The classes declared by the items of a file, in item order: its modules,
    structs and traits, and the holder of its global functions where the first
    of them stands. -/
def declaredClasses (file : String) (items : List Item) : List (String × ClassKind) :=
  let before := items.takeWhile fun it => it.globalFn?.isNone
  let after := items.dropWhile fun it => it.globalFn?.isNone
  before.filterMap Item.declaredClass? ++
    if after.isEmpty then [] else (holderName file, .globals) :: after.filterMap Item.declaredClass?

theorem Syntax.Item.declaredClass?_of_globalFn? {it : Item} {f : FnDecl} (h : it.globalFn? = some f) :
    it.declaredClass? = none := by
  cases it with
  | fnDecl g => rfl
  | _ => cases h

/-- One more item: the first global function brings in the holder, and every
    other item its own class, if it declares one. -/
theorem declaredClasses_snoc (file : String) (done : List Item) (it : Item) :
    declaredClasses file (done ++ [it]) = declaredClasses file done ++
      if it.globalFn?.isSome && !done.any (·.globalFn?.isSome) then [(holderName file, .globals)]
      else it.declaredClass?.toList := by
  unfold declaredClasses
  dsimp only
  by_cases hall : ∀ x ∈ done, x.globalFn?.isNone = true
  · have hany : done.any (·.globalFn?.isSome) = false := by
      simpa [Option.isNone_iff_eq_none] using hall
    rw [List.takeWhile_append_of_pos hall, List.dropWhile_append_of_pos hall,
      List.takeWhile_eq_self_iff.2 hall, List.dropWhile_eq_nil_iff.2 hall, hany]
    cases hit : it.globalFn? with
    | none =>
      simp [List.takeWhile_cons_of_pos, List.dropWhile_cons_of_pos, hit, List.filterMap_single]
    | some f =>
      simp [List.takeWhile_cons_of_neg, List.dropWhile_cons_of_neg, hit,
        Item.declaredClass?_of_globalFn? hit]
  · -- a global function came before: the holder is made and stays where it is
    obtain ⟨x, hx, hpx⟩ : ∃ x ∈ done, x.globalFn?.isNone = false := by
      simpa [Option.isSome_iff_ne_none] using hall
    have hany : done.any (·.globalFn?.isSome) = true :=
      List.any_eq_true.2 ⟨x, hx, by simpa [Option.isNone_iff_eq_none, Option.isSome_iff_ne_none] using hpx⟩
    have hne : (done.dropWhile fun it => it.globalFn?.isNone) ≠ [] := by
      rw [ne_eq, List.dropWhile_eq_nil_iff]
      exact fun h => by simp [h x hx] at hpx
    have hlen : (done.takeWhile fun it => it.globalFn?.isNone).length ≠ done.length := by
      have h := congrArg List.length (List.takeWhile_append_dropWhile (p := fun it => it.globalFn?.isNone) (l := done))
      rw [List.length_append] at h
      have hpos := List.length_pos_iff.2 hne
      omega
    rw [List.takeWhile_append, if_neg hlen, List.dropWhile_append, List.isEmpty_eq_false_iff.2 hne,
      if_neg Bool.false_ne_true, hany]
    simp [hne, List.filterMap_append, List.filterMap_single]

/-- No class of a file is of the platform. -/
theorem Syntax.Item.declaredClass?_kind {it : Item} {c : String × ClassKind} (h : it.declaredClass? = some c) :
    c.2 ≠ .library := by
  cases it <;> simp only [Item.declaredClass?, Option.some.injEq, reduceCtorEq] at h <;> simp [← h]

/-- Nor is any class a file declares. -/
theorem declaredClasses_kind {file : String} {items : List Item} :
    ∀ c ∈ declaredClasses file items, c.2 ≠ .library := by
  intro c hc
  simp only [declaredClasses, List.mem_append, List.mem_filterMap] at hc
  rcases hc with ⟨it, -, hit⟩ | hc
  · exact Item.declaredClass?_kind hit
  · split at hc
    · cases hc
    · rcases List.mem_cons.1 hc with rfl | hc
      · simp
      · obtain ⟨it, -, hit⟩ := List.mem_filterMap.1 hc
        exact Item.declaredClass?_kind hit

/-! ### Where a class comes from -/

/-- Where a class comes from, as a compiled program lists it: its name, its
    kind and the file it was declared in. -/
structure ClassOrigin where
  name : String
  kind : ClassKind
  sourceFile : Option String
  deriving DecidableEq, Repr

def TypeDecl.origin (d : TypeDecl) : ClassOrigin := ⟨d.name, d.kind, d.sourceFile⟩

def ClassRecord.origin (r : ClassRecord) : ClassOrigin := ⟨r.name, r.kind, r.sourceFile⟩

/-- A file name without its directories: what follows its last '/' or '\'. -/
def baseName (file : String) : String :=
  String.ofList (file.toList.reverse.takeWhile fun c => !(c == '/' || c == '\\')).reverse

/-- A class of kind `c.2` named `c.1`, declared in `file`. -/
def ClassOrigin.inFile (file : String) (c : String × ClassKind) : ClassOrigin := ⟨c.1, c.2, some (baseName file)⟩

theorem List.takeWhile_append_cons_of_neg {α : Type} {p : α → Bool} {a : α} (ha : p a = false) :
    ∀ (xs ys : List α), (xs ++ a :: ys).takeWhile p = xs.takeWhile p
  | [], ys => by simp [List.takeWhile_cons_of_neg, ha]
  | b :: xs, ys => by
    cases hb : p b with
    | false => simp [List.takeWhile_cons_of_neg, hb]
    | true => simp [List.takeWhile_cons_of_pos, hb, List.takeWhile_append_cons_of_neg ha xs ys]

/-- The last piece of a list split at the elements satisfying `p`, with `acc`
    put before the first: what follows the last such element. -/
theorem List.splitOnPPrepend_getLast? {α : Type} (p : α → Bool) :
    ∀ (xs acc : List α), (∀ a ∈ acc, p a = false) →
      (xs.splitOnPPrepend p acc).getLast? = some ((xs.reverse ++ acc).takeWhile fun a => !p a).reverse
  | [], acc, hacc => by
    rw [List.splitOnPPrepend_nil, List.getLast?_singleton, List.reverse_nil, List.nil_append,
      List.takeWhile_eq_self_iff.2 (by simpa using hacc)]
  | a :: xs, acc, hacc => by
    cases ha : p a with
    | true =>
      -- a separator: the pieces after it are those of the rest
      rw [List.splitOnPPrepend_cons_pos ha, List.getLast?_cons, List.splitOnP_eq_splitOnPPrepend,
        List.splitOnPPrepend_getLast? p xs [] (by simp), List.reverse_cons, List.append_assoc,
        List.singleton_append, List.takeWhile_append_cons_of_neg (by simp [ha])]
      simp
    | false =>
      rw [List.splitOnPPrepend_cons_neg ha, List.splitOnPPrepend_getLast? p xs (a :: acc) (List.forall_mem_cons.2 ⟨ha, hacc⟩),
        List.reverse_cons, List.append_assoc, List.singleton_append]

/-- The source file a class records is the file name without its directories. -/
theorem sourceFileName_eq_baseName (file : String) : sourceFileName file = baseName file := by
  unfold sourceFileName baseName
  rw [List.splitOnP_eq_splitOnPPrepend, List.splitOnPPrepend_getLast? _ _ _ (by simp), List.append_nil]

@[simp] theorem FilePass.newDecl_origin (fp : FilePass) (n : String) (k : ClassKind) (sp : Span) :
    (fp.newDecl n k sp).origin = ⟨n, k, some fp.sourceName⟩ := rfl

/-- Adding a method keeps where a class comes from. -/
theorem TypeDecl.origin_addMethod {d d' : TypeDecl} {m : MethodSig} (h : d.addMethod m = .ok d') :
    d'.origin = d.origin := by
  obtain ⟨-, rfl⟩ := TypeDecl.addMethod_ok.1 h
  rfl

/-- A class replaced by one from the same place leaves the origins as they are. -/
theorem TypeDecl.origins_setIfInBounds {ds : Array TypeDecl} {pos : Nat} {o : TypeDecl}
    (ho : o.origin = (ds.getD pos default).origin) :
    (ds.setIfInBounds pos o).toList.map TypeDecl.origin = ds.toList.map TypeDecl.origin := by
  rw [Array.toList_setIfInBounds, List.map_set]
  by_cases hpos : pos < ds.size
  · have hlen : pos < (ds.toList.map TypeDecl.origin).length := by simpa using hpos
    have hget : (ds.toList.map TypeDecl.origin)[pos] = o.origin := by
      simp [ho, hpos]
    rw [← hget, List.set_getElem_self]
  · exact List.set_eq_of_length_le (by simpa using hpos)

/-! ### The pass over one file -/

/-- Every impl among `items` names a trait and a target that resolve to
    classes, so that each has its adapter. -/
def ImplsResolve (r : Resolver) (items : List Item) : Prop :=
  ∀ tt tg ms sp, Item.implDecl tt tg ms sp ∈ items → ∃ T S, r.resolve tt = .obj T ∧ r.resolve tg = .obj S

/-- What the pass over `file` keeps of the order of its classes once the
    items `done` are passed: its declarations are those `declaredClasses`
    lists, in order, and its adapters those of its impls, in order, each from
    the file; the holder is made once a global function is passed; and every
    impl passed has its adapter. -/
structure OrderPass (file : String) (r : Resolver) (done : List Item) (fp : FilePass) : Prop where
  sourceName : fp.sourceName = baseName file
  holder : fp.holder = holderName file
  resolver : fp.resolver = r
  holderAt : fp.holderAt.isSome = done.any (·.globalFn?.isSome)
  decls : fp.decls.toList.map TypeDecl.origin = (declaredClasses file done).map (ClassOrigin.inFile file)
  adapters : fp.adapters.toList.map TypeDecl.origin =
    (done.filterMap (Item.adapterClass? r)).map fun n => ClassOrigin.inFile file (n, .adapter)
  resolved : ImplsResolve r done

namespace OrderPass

variable {file : String} {r : Resolver} {done : List Item} {fp fp' : FilePass}

/-- A pass that has made nothing yet. -/
theorem start (hs : fp.sourceName = baseName file) (hh : fp.holder = holderName file) (hr : fp.resolver = r)
    (hd : fp.decls = #[]) (ha : fp.adapters = #[]) (hat : fp.holderAt = none) : OrderPass file r [] fp where
  sourceName := hs
  holder := hh
  resolver := hr
  holderAt := by simp [hat]
  decls := by simp [hd, declaredClasses]
  adapters := by simp [ha]
  resolved _ _ _ _ h := by cases h

/-- One more item, given what it adds: the holder at the first global
    function, or else its own class, and its adapter. -/
theorem snoc (hO : OrderPass file r done fp) {it : Item} (hs : fp'.sourceName = fp.sourceName)
    (hh : fp'.holder = fp.holder) (hr : fp'.resolver = fp.resolver)
    (hat : fp'.holderAt.isSome = (fp.holderAt.isSome || it.globalFn?.isSome))
    (hd : fp'.decls.toList.map TypeDecl.origin = fp.decls.toList.map TypeDecl.origin ++
      (if it.globalFn?.isSome && !fp.holderAt.isSome then [(holderName file, .globals)]
        else it.declaredClass?.toList).map (ClassOrigin.inFile file))
    (ha : fp'.adapters.toList.map TypeDecl.origin = fp.adapters.toList.map TypeDecl.origin ++
      (it.adapterClass? r).toList.map fun n => ClassOrigin.inFile file (n, .adapter))
    (hres : ImplsResolve r [it]) : OrderPass file r (done ++ [it]) fp' where
  sourceName := hs.trans hO.sourceName
  holder := hh.trans hO.holder
  resolver := hr.trans hO.resolver
  holderAt := by rw [hat, hO.holderAt, List.any_append, List.any_cons, List.any_nil, Bool.or_false]
  decls := by rw [hd, hO.decls, hO.holderAt, declaredClasses_snoc, List.map_append]
  adapters := by rw [ha, hO.adapters, List.filterMap_append, List.filterMap_single, List.map_append]
  resolved tt tg ms sp h := by
    rcases List.mem_append.1 h with h | h
    · exact hO.resolved tt tg ms sp h
    · exact hres tt tg ms sp h

/-- A module, struct or trait made, with the jobs of its functions. -/
theorem push (hO : OrderPass file r done fp) (it : Item) {c : String × ClassKind} (hfn : it.globalFn? = none)
    (hc : it.declaredClass? = some c) (hadapter : it.adapterClass? r = none) {d : TypeDecl}
    (hd : d.origin = ⟨c.1, c.2, some fp.sourceName⟩) (js : List BodyJob) :
    OrderPass file r (done ++ [it]) { fp with jobs := fp.jobs ++ js.toArray, decls := fp.decls.push d } := by
  refine hO.snoc rfl rfl rfl (by simp [hfn]) ?_ (by simp [hadapter]) fun tt tg ms sp h => ?_
  · simp [hfn, hc, hd, hO.sourceName, ClassOrigin.inFile]
  · rw [List.mem_singleton] at h
    subst h
    cases hc

/-- An adapter made for an impl whose trait and target resolve, with the jobs
    of the impl's functions. -/
theorem pushAdapter (hO : OrderPass file r done fp) {tt tg : TypeExpr} {ms : List FnDecl} {sp : Span} {T S : String}
    (hT : r.resolve tt = .obj T) (hS : r.resolve tg = .obj S) {d : TypeDecl}
    (hd : d.origin = ⟨adapterName T S, .adapter, some fp.sourceName⟩) (js : List BodyJob) (p : PendingImpl) :
    OrderPass file r (done ++ [.implDecl tt tg ms sp])
      { fp with jobs := fp.jobs ++ js.toArray, adapters := fp.adapters.push d, pending := fp.pending.push p } := by
  refine hO.snoc rfl rfl rfl (by simp [Item.globalFn?]) (by simp [Item.globalFn?, Item.declaredClass?]) ?_
    fun tt' tg' ms' sp' h => ?_
  · simp [Item.adapterClass?, hT, hS, hd, hO.sourceName, ClassOrigin.inFile]
  · obtain ⟨rfl, rfl, -, -⟩ : tt' = tt ∧ tg' = tg ∧ ms' = ms ∧ sp' = sp := by simpa using h
    exact ⟨T, S, hT, hS⟩

/-- A global function: the first one makes the holder, where it stands, and
    the holder grows by a method, keeping its place and its name. -/
theorem fn (hO : OrderPass file r done fp) {f : FnDecl} (h : fp.item (.fnDecl f) = .ok fp') :
    OrderPass file r (done ++ [.fnDecl f]) fp' := by
  dsimp only [FilePass.item] at h
  cases hh : fp.holderAt with
  | none =>
    simp only [hh] at h
    obtain ⟨o, ho, h⟩ := Except.bind_eq_ok.1 h
    cases Except.pure_eq_ok.1 h
    refine hO.snoc rfl rfl rfl (by simp [Item.globalFn?]) ?_ (by simp [Item.adapterClass?])
      fun _ _ _ _ h => by simp at h
    rw [TypeDecl.origins_setIfInBounds (TypeDecl.origin_addMethod ho)]
    simp [hh, Item.globalFn?, hO.sourceName, hO.holder, ClassOrigin.inFile]
  | some pos =>
    simp only [hh] at h
    obtain ⟨o, ho, h⟩ := Except.bind_eq_ok.1 h
    cases Except.pure_eq_ok.1 h
    refine hO.snoc rfl rfl rfl (by simp [hh]) ?_ (by simp [Item.adapterClass?]) fun _ _ _ _ h => by simp at h
    rw [TypeDecl.origins_setIfInBounds (TypeDecl.origin_addMethod ho)]
    simp [hh, Item.globalFn?, Item.declaredClass?]

/-- One item of the file. -/
theorem item (hO : OrderPass file r done fp) {it : Item} (h : fp.item it = .ok fp') :
    OrderPass file r (done ++ [it]) fp' := by
  cases it with
  | importDecl path asName span =>
    cases h
    exact hO.snoc rfl rfl rfl (by simp [Item.globalFn?]) (by simp [Item.globalFn?, Item.declaredClass?])
      (by simp [Item.adapterClass?]) fun _ _ _ _ h => by simp at h
  | moduleDecl name fields methods span =>
    obtain ⟨d, hd, h⟩ := Except.bind_eq_ok.1 h
    obtain ⟨⟨fp₁, d₁⟩, hb, h⟩ := Except.bind_eq_ok.1 h
    cases Except.pure_eq_ok.1 h
    obtain ⟨rfl, rfl⟩ := FilePass.addBodies_ok hb
    have hd := FilePass.addFields_ok hd
    subst hd
    exact hO.push _ rfl rfl rfl rfl _
  | structDecl name fields span =>
    obtain ⟨d, hd, h⟩ := Except.bind_eq_ok.1 h
    cases Except.pure_eq_ok.1 h
    have hd := FilePass.addFields_ok hd
    subst hd
    simpa using hO.push (.structDecl name fields span) rfl rfl rfl rfl []
  | traitDecl name sigs span =>
    obtain ⟨d, hd, h⟩ := Except.bind_eq_ok.1 h
    cases Except.pure_eq_ok.1 h
    rw [FilePass.foldlM_addMethod hd]
    simpa using hO.push (.traitDecl name sigs span) rfl rfl rfl rfl []
  | implDecl traitTy target methods span =>
    dsimp only [FilePass.item] at h
    split at h
    · rename_i tn htn
      obtain ⟨_, hp, h⟩ := Except.bind_eq_ok.1 h
      cases Except.pure_eq_ok.1 hp
      split at h
      · rename_i sn hsn
        obtain ⟨_, hp, h⟩ := Except.bind_eq_ok.1 h
        cases Except.pure_eq_ok.1 hp
        obtain ⟨d₁, hd₁, h⟩ := Except.bind_eq_ok.1 h
        obtain ⟨d₂, hd₂, h⟩ := Except.bind_eq_ok.1 h
        obtain ⟨⟨fp₃, d₃⟩, hb, h⟩ := Except.bind_eq_ok.1 h
        cases Except.pure_eq_ok.1 h
        obtain ⟨-, rfl⟩ := TypeDecl.addField_ok.1 hd₁
        obtain ⟨-, rfl⟩ := TypeDecl.addMethod_ok.1 hd₂
        obtain ⟨rfl, rfl⟩ := FilePass.addBodies_ok hb
        exact hO.pushAdapter (hO.resolver ▸ htn) (hO.resolver ▸ hsn) rfl _ _
      · obtain ⟨_, h, -⟩ := Except.bind_eq_ok.1 h
        cases h
    · obtain ⟨_, h, -⟩ := Except.bind_eq_ok.1 h
      cases h
  | fnDecl f => exact hO.fn h

/-- The items of the file, one after the other. -/
theorem items : ∀ {its done : List Item} {fp fp' : FilePass}, OrderPass file r done fp →
    its.foldlM FilePass.item fp = .ok fp' → OrderPass file r (done ++ its) fp'
  | [], done, fp, fp', hO, h => by
    cases h
    simpa using hO
  | it :: its, done, fp, fp', hO, h => by
    rw [List.foldlM_cons] at h
    obtain ⟨fp₁, h₁, h⟩ := Except.bind_eq_ok.1 h
    simpa using items (hO.item h₁) h

end OrderPass

/-! ### The pass over the files -/

/-- The classes a file declares, in order, each from the file. -/
def fileClasses (file : String) (sf : SourceFile) : List ClassOrigin :=
  (declaredClasses file sf.items).map (ClassOrigin.inFile file)

/-- The adapters of the impls of a file, in order, each from the file. -/
def fileAdapters (r : Resolver) (file : String) (sf : SourceFile) : List ClassOrigin :=
  (sf.items.filterMap (Item.adapterClass? r)).map fun n => ClassOrigin.inFile file (n, .adapter)

/-- The classes written for the parsed files `files`, in order: the classes
    each file declares, file after file, then the adapters of each file's
    impls, file after file. -/
def writtenClasses (files : List (String × SourceFile)) : List ClassOrigin :=
  files.flatMap (fun f => fileClasses f.1 f.2) ++ files.flatMap fun f => fileAdapters (fileResolver files f.2) f.1 f.2

/-- No class written for the files is of the platform. -/
theorem writtenClasses_kind {files : List (String × SourceFile)} : ∀ c ∈ writtenClasses files, c.kind ≠ .library := by
  intro c hc
  simp only [writtenClasses, fileClasses, fileAdapters, List.mem_append, List.mem_flatMap, List.mem_map] at hc
  rcases hc with ⟨f, -, x, hx, rfl⟩ | ⟨f, -, n, -, rfl⟩
  · exact declaredClasses_kind x hx
  · simp [ClassOrigin.inFile]

/-- What the pass over the files keeps of the order of the classes once the
    files `fs` are done: the table holds the platform's classes, then those
    each file declares; the adapters wait in the order of the files and of
    their impls; and every impl of a file done has its adapter. -/
structure FilesInOrder (files fs : List (String × SourceFile)) (t : ClassTable) (adapters : Array (Nat × TypeDecl)) :
    Prop where
  distinct : t.Distinct
  decls : t.decls.toList.map TypeDecl.origin =
    ClassTable.platform.decls.toList.map TypeDecl.origin ++ fs.flatMap fun f => fileClasses f.1 f.2
  adapters : adapters.toList.map (·.2.origin) = fs.flatMap fun f => fileAdapters (fileResolver files f.2) f.1 f.2
  resolved : ∀ f ∈ fs, ImplsResolve (fileResolver files f.2) f.2.items

namespace FilesInOrder

variable {files fs : List (String × SourceFile)} {t t' : ClassTable} {adapters : Array (Nat × TypeDecl)}

theorem start : FilesInOrder files [] ClassTable.platform #[] :=
  ⟨ClassTable.platform_distinct, by simp, by simp, fun _ h => by cases h⟩

/-- One more file: its classes are registered after those before, and its
    adapters wait after theirs. -/
theorem file (hI : FilesInOrder files fs t adapters) {file : String} {sf : SourceFile} {fp : FilePass}
    (hO : OrderPass file (fileResolver files sf) sf.items fp) (i : Nat)
    (ht : t'.decls.toList = t.decls.toList ++ fp.decls.toList) (hdist : t'.Distinct) :
    FilesInOrder files (fs ++ [(file, sf)]) t' (adapters ++ fp.adapters.map (i, ·)) where
  distinct := hdist
  decls := by
    rw [ht, List.map_append, hI.decls, hO.decls, List.flatMap_append, List.flatMap_singleton]
    simp [fileClasses]
  adapters := by
    rw [Array.toList_append, List.map_append, hI.adapters, List.flatMap_append, List.flatMap_singleton]
    have ha := hO.adapters
    simp only [Array.toList_map, List.map_map] at ha ⊢
    simp [Function.comp_def, ha, fileAdapters]
  resolved f hf := by
    rcases List.mem_append.1 hf with hf | hf
    · exact hI.resolved f hf
    · rw [List.mem_singleton.1 hf]
      exact hO.resolved

end FilesInOrder

/-- The structural pass registers the platform's classes, then the classes
    each file declares, file after file, then the adapters of each file's
    impls; every impl has its adapter. The invariant of the files' loop is
    `FilesInOrder`; the adapters are then registered in the order they
    waited, and the impls change no declaration. -/
theorem buildStructure_order {files : List (String × SourceFile)} {s : Structure} (h : buildStructure files = .ok s) :
    s.table.decls.toList.map TypeDecl.origin =
      ClassTable.platform.decls.toList.map TypeDecl.origin ++ writtenClasses files ∧
    ∀ f ∈ files, ImplsResolve (fileResolver files f.2) f.2.items := by
  unfold buildStructure at h
  dsimp only at h
  obtain ⟨⟨t, jobs, holders, pending, adapters⟩, hloop, h⟩ := Except.bind_eq_ok.1 h
  obtain ⟨t₁, hreg, h⟩ := Except.bind_eq_ok.1 h
  obtain ⟨t₂, hrec, h⟩ := Except.bind_eq_ok.1 h
  cases Except.pure_eq_ok.1 h
  -- the files, one after the other
  have hI : FilesInOrder files files t adapters := by
    have hloop' := Except.forIn_prefix
      (fun pre st => FilesInOrder files (pre.map (·.1)) st.1 st.2.2.2.2) ?_ files.zipIdx []
      (List.nil_append _).symm FilesInOrder.start hloop
    · simpa using hloop'
    rintro pre ⟨file, i⟩ post ⟨t, jobs, holders, pending, adapters⟩ r hxs hI hr
    dsimp only at hr hI ⊢
    split at hr
    · rename_i fp hfp
      obtain ⟨_, hp, hr⟩ := Except.bind_eq_ok.1 hr
      cases Except.pure_eq_ok.1 hp
      obtain ⟨t', hreg, hr⟩ := Except.bind_eq_ok.1 hr
      cases Except.pure_eq_ok.1 hr
      rw [← Array.forIn_toList] at hreg
      obtain ⟨hdecls, -, hdist⟩ := ClassTable.registerAll id registers hI.distinct hreg
      have hpass := OrderPass.items (OrderPass.start (sourceFileName_eq_baseName _) rfl rfl rfl rfl rfl) hfp
      rw [List.nil_append] at hpass
      refine ⟨_, rfl, ?_⟩
      rw [List.map_append, List.map_singleton]
      exact hI.file hpass i (by simpa using hdecls) hdist
    · obtain ⟨_, h, _⟩ := Except.bind_eq_ok.1 hr
      cases h
  -- then the adapters, and last the impls
  rw [← Array.forIn_toList] at hreg hrec
  obtain ⟨hdecls₁, -, -⟩ := ClassTable.registerAll Prod.snd registers hI.distinct hreg
  obtain ⟨hdecls₂, -, -⟩ := ClassTable.recordImpls (by
    intro p t r h
    split at h
    · exact ⟨‹_›, (Except.pure_eq_ok.1 h).symm⟩
    · obtain ⟨_, h, _⟩ := Except.bind_eq_ok.1 h
      cases h) hrec
  refine ⟨?_, hI.resolved⟩
  show t₂.decls.toList.map TypeDecl.origin = _
  rw [hdecls₂, hdecls₁, List.map_append, hI.decls, List.map_map, writtenClasses, List.append_assoc]
  congr 2
  simpa [Function.comp_def] using hI.adapters

/-- The classes written out are those of the files, in the order the pass
    registered them: the platform's, being of the library, are left out. -/
theorem buildStructure_emitted {files : List (String × SourceFile)} {s : Structure}
    (h : buildStructure files = .ok s) : s.table.emitted.map TypeDecl.origin = writtenClasses files := by
  have hfilter : (s.table.decls.toList.filter fun d => d.kind != .library).map TypeDecl.origin =
      (s.table.decls.toList.map TypeDecl.origin).filter fun c => c.kind != .library := by
    rw [List.filter_map]
    rfl
  unfold ClassTable.emitted
  rw [hfilter, (buildStructure_order h).1, List.filter_append]
  have hplatform : (ClassTable.platform.decls.toList.map TypeDecl.origin).filter (fun c => c.kind != .library) = [] := by
    refine List.filter_eq_nil_iff.2 fun c hc => ?_
    obtain ⟨d, hd, rfl⟩ := List.mem_map.1 hc
    simp [TypeDecl.origin, ClassTable.platform_library d (Array.mem_toList_iff.1 hd)]
  have hfiles : (writtenClasses files).filter (fun c => c.kind != .library) = writtenClasses files :=
    List.filter_eq_self.2 fun c hc => by simpa using writtenClasses_kind c hc
  rw [hplatform, hfiles, List.nil_append]

/-! ### Adding files to a source set -/

namespace SourceSet

/-- What adding the files `adds` one after the other leaves in a source set:
    each name once, in the order it was first added, with the text it was
    last added with. -/
structure Added (adds : List (String × String)) (s : SourceSet) : Prop where
  names : s.sources.map (·.name) = (adds.map (·.1)).eraseDups
  texts : ∀ f ∈ s.sources, (adds.filter (·.1 == f.name)).getLast? = some (f.name, f.text)

theorem Added.empty (o : CompileOptions) : Added [] (SourceSet.empty o) :=
  ⟨rfl, fun _ h => by cases h⟩

/-- One more file added: a new name goes last, a known one keeps its place
    and takes the new text. -/
theorem Added.add {adds : List (String × String)} {s : SourceSet} (hA : Added adds s) (n t : String) :
    Added (adds ++ [(n, t)]) (s.add n t) := by
  have hmem : n ∈ s.sources.map (·.name) ↔ n ∈ adds.map (·.1) := by
    rw [hA.names, List.mem_eraseDups]
  unfold SourceSet.add
  split
  · rename_i hany
    have hn : n ∈ adds.map (·.1) := by
      obtain ⟨f, hf, hfn⟩ := List.any_eq_true.1 hany
      exact hmem.1 (List.mem_map.2 ⟨f, hf, by simpa using hfn⟩)
    constructor
    · rw [List.map_map, List.map_append, List.eraseDups_append, ← hA.names]
      have hrm : ([(n, t)].map (·.1)).removeAll (adds.map (·.1)) = [] := by
        simp [List.removeAll, hn]
      rw [hrm]
      simp only [List.eraseDups_nil, List.append_nil]
      congr 1
      funext f
      -- a replaced file keeps its name
      simp only [Function.comp]
      split
      · rename_i h
        exact (beq_iff_eq.1 h).symm
      · rfl
    · intro f hf
      obtain ⟨g, hg, rfl⟩ := List.mem_map.1 hf
      rw [List.filter_append, List.filter_singleton]
      split
      · simp only [beq_self_eq_true, cond_true, List.getLast?_append, List.getLast?_singleton, Option.some_or]
      · rename_i hgn
        have hne : ((n, t).1 == g.name) = false := beq_eq_false_iff_ne.2 fun h => hgn (beq_iff_eq.2 h.symm)
        rw [hne, cond_false, List.append_nil]
        exact hA.texts g hg
  · rename_i hany
    have hn : n ∉ adds.map (·.1) := fun h => hany (List.any_eq_true.2 (by
      obtain ⟨f, hf, hfn⟩ := List.mem_map.1 (hmem.2 h)
      exact ⟨f, hf, by simpa using hfn⟩))
    constructor
    · rw [List.map_append, List.map_append, List.eraseDups_append, ← hA.names]
      simp [List.removeAll, hn, List.eraseDups_cons]
    · intro f hf
      dsimp only at hf
      rw [List.filter_append, List.filter_singleton]
      rcases List.mem_append.1 hf with hold | hnew
      · have hne : ((n, t).1 == f.name) = false := by
          simp only [beq_eq_false_iff_ne]
          intro hfn
          exact hn (hmem.1 (List.mem_map.2 ⟨f, hold, hfn.symm⟩))
        rw [hne, cond_false, List.append_nil]
        exact hA.texts f hold
      · rw [List.mem_singleton] at hnew
        subst hnew
        simp only [beq_self_eq_true, cond_true, List.getLast?_append, List.getLast?_singleton, Option.some_or]

/-- The files added one after the other. -/
theorem Added.foldl : ∀ (adds : List (String × String)) {pre : List (String × String)} {s : SourceSet},
    Added pre s → Added (pre ++ adds) (adds.foldl (fun s a => s.add a.1 a.2) s)
  | [], _, _, hA => by simpa using hA
  | a :: adds, pre, s, hA => by
    have h := Added.foldl adds (hA.add a.1 a.2)
    simpa using h

end SourceSet

/-! ### Compiling a source set -/

/-- A record keeps the name, kind and source file of its declaration. -/
theorem classRecordOf_origin {bodies : List (MethodKey × Code)} {d : TypeDecl} {r : ClassRecord}
    (h : classRecordOf bodies d = .ok r) : r.origin = d.origin := by
  unfold classRecordOf at h
  obtain ⟨ms, -, h⟩ := Except.bind_eq_ok.1 h
  cases Except.pure_eq_ok.1 h
  rfl

/-- Records made one by one keep the origins of their declarations. -/
theorem mapM_classRecordOf_origin {bodies : List (MethodKey × Code)} {ds : List TypeDecl} {rs : List ClassRecord}
    (h : ds.mapM (classRecordOf bodies) = .ok rs) : rs.map ClassRecord.origin = ds.map TypeDecl.origin := by
  have hrec := Primitive.mapM_forall₂ h
  clear h
  induction hrec with
  | nil => rfl
  | cons hr _ ih => rw [List.map_cons, List.map_cons, classRecordOf_origin hr, ih]

/-- A compiled program lists the classes of its files in the order
    `writtenClasses` gives, and every impl has its adapter. -/
theorem compileProgram_order {files : List (String × SourceFile)} {opts : CompileOptions}
    {classes : List ClassRecord} (h : compileProgram files opts = .ok classes) :
    classes.map ClassRecord.origin = writtenClasses files ∧
      ∀ f ∈ files, ImplsResolve (fileResolver files f.2) f.2.items := by
  unfold compileProgram at h
  obtain ⟨s, hs, h⟩ := Except.bind_eq_ok.1 h
  obtain ⟨ctors, -, h⟩ := Except.bind_eq_ok.1 h
  obtain ⟨bodies, -, h⟩ := Except.bind_eq_ok.1 h
  have hs := Except.mapError_eq_ok.1 hs
  refine ⟨?_, (buildStructure_order hs).2⟩
  rw [← buildStructure_emitted hs]
  exact mapM_classRecordOf_origin h

/-- Parsing a source set keeps its files' names and order, each file parsed
    from its text. -/
theorem SourceSet.parseAll_ok {src : SourceSet} {files : List (String × SourceFile)} (h : src.parseAll = .ok files) :
    files.map (·.1) = src.sources.map (·.name) ∧
      ∀ f ∈ files, ∃ st ∈ src.sources, st.name = f.1 ∧ Syntax.parse st.text = .ok f.2 := by
  obtain ⟨o, sts⟩ := src
  unfold SourceSet.parseAll at h
  have hparse := Primitive.mapM_forall₂ h
  clear h
  dsimp only at hparse ⊢
  induction hparse with
  | nil => simp
  | @cons st f sts fs hx _ ih =>
    split at hx
    · rename_i sf hsf
      cases hx
      refine ⟨by simp [ih.1], fun g hg => ?_⟩
      rcases List.mem_cons.1 hg with rfl | hg
      · exact ⟨st, List.mem_cons_self, rfl, hsf⟩
      · obtain ⟨st', hst', hn, hp⟩ := ih.2 g hg
        exact ⟨st', List.mem_cons_of_mem _ hst', hn, hp⟩
    · cases hx

/-- The classes of a build come out in declaration order. The files, each
    name once in the order it was first added and parsed from the text it was
    last added with, list their modules, structs and traits in item order,
    with the holder of a file's global functions where the first of them
    stands; then come the adapters of every impl, file after file in the same
    order and impl after impl. No class of the platform is written, and each
    class records the name of its file without directories. -/
theorem SourceSet.compile_classes_in_order (o : CompileOptions) (adds : List (String × String))
    {classes : List ClassRecord} (h : (adds.foldl (fun s a => s.add a.1 a.2) (SourceSet.empty o)).compile = .ok classes) :
    ∃ files : List (String × SourceFile),
      files.map (·.1) = (adds.map (·.1)).eraseDups ∧
      (∀ f ∈ files, ∃ text, (adds.filter (·.1 == f.1)).getLast? = some (f.1, text) ∧ Syntax.parse text = .ok f.2) ∧
      (∀ f ∈ files, ImplsResolve (fileResolver files f.2) f.2.items) ∧
      classes.map ClassRecord.origin = writtenClasses files ∧
      ∀ c ∈ classes, c.kind ≠ .library := by
  have hA := SourceSet.Added.foldl adds (SourceSet.Added.empty o)
  rw [List.nil_append] at hA
  unfold SourceSet.compile at h
  obtain ⟨files, hparse, h⟩ := Except.bind_eq_ok.1 h
  obtain ⟨hnames, hfiles⟩ := SourceSet.parseAll_ok hparse
  obtain ⟨horder, hres⟩ := compileProgram_order h
  refine ⟨files, hnames.trans hA.names, fun f hf => ?_, hres, horder, fun c hc => ?_⟩
  · obtain ⟨st, hst, hn, hp⟩ := hfiles f hf
    exact ⟨st.text, hn ▸ hA.texts st hst, hp⟩
  · have hmem : c.origin ∈ writtenClasses files := horder ▸ List.mem_map_of_mem hc
    exact writtenClasses_kind _ hmem

/-- A file, a second one named with a backslash, and the first again with
    new text. -/
def reorderedSources : List (String × String) :=
  [("src/shapes.atp", "struct Square \x7b side: int; \x7d\n"),
   ("util\\calc.atp", "fn twice(n: int): int \x7b return n + n; \x7d\n"),
   ("src/shapes.atp", "struct Square \x7b side: int; \x7d\nfn one(): int \x7b return 1; \x7d\n" ++
     "trait Shape \x7b fn area(): int; \x7d\n")]

theorem compile_classes_in_order_reordered : ∃ classes,
    (reorderedSources.foldl (fun s a => s.add a.1 a.2) (SourceSet.empty .standard)).compile = .ok classes ∧
    ∃ files : List (String × SourceFile),
      files.map (·.1) = (reorderedSources.map (·.1)).eraseDups ∧
      (∀ f ∈ files, ∃ text, (reorderedSources.filter (·.1 == f.1)).getLast? = some (f.1, text) ∧
        Syntax.parse text = .ok f.2) ∧
      (∀ f ∈ files, ImplsResolve (fileResolver files f.2) f.2.items) ∧
      classes.map ClassRecord.origin = writtenClasses files ∧
      ∀ c ∈ classes, c.kind ≠ .library := by
  obtain ⟨classes, hc⟩ := Option.isSome_iff_exists.1
    (by decide +kernel : (reorderedSources.foldl (fun s a => s.add a.1 a.2) (SourceSet.empty .standard)).compile.toOption.isSome = true)
  have h := Except.eq_ok_of_toOption hc
  exact ⟨classes, h, SourceSet.compile_classes_in_order _ _ h⟩

example : ((([("src/shapes.atp", "struct Square \x7b side: int; \x7d\n"),
    ("util\\calc.atp", "fn twice(n: int): int \x7b return n + n; \x7d\n"),
    ("src/shapes.atp", "struct Square \x7b side: int; \x7d\nfn one(): int \x7b return 1; \x7d\n" ++
      "trait Shape \x7b fn area(): int; \x7d\n")] : List (String × String)).foldl
        (fun s a => s.add a.1 a.2) (SourceSet.empty .standard)).compile.toOption.map
    fun cs => cs.map ClassRecord.origin) =
    some [⟨"Square", .struct, some "shapes.atp"⟩, ⟨"shapes", .globals, some "shapes.atp"⟩,
      ⟨"Shape", .trait, some "shapes.atp"⟩, ⟨"calc", .globals, some "calc.atp"⟩] := by
  decide +kernel

end ClassCompiler
