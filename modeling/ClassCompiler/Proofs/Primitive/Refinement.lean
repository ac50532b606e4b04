import ClassCompiler.Proofs.Primitive.Calls
import ClassCompiler.Proofs.Structure.Holders
import ClassCompiler.Proofs.Build.Faults

/-!
# The method of a function of the fragment

What the passes make of a global function of a file whose global functions are
all of the fragment, read for that one file: the method it becomes, and the
holder that keeps it. `Primitive.Meaning` puts this together with the
simulation of the bodies.

* `retTy`, `callDescriptor`: the result type of the method, and the descriptor
  a call with given arguments uses;
* `IsHolder.fn_unique`: in a holder of functions of the fragment, a name and a
  descriptor name one function, so the class file tells them apart;
* `compileJob`, `classRecordOf_methods`, `constructors_owner`,
  `compileProgram_ok`: the passes, read for one declaration;
* `HolderOf`: a file of the fragment and its holder after the structural
  pass; `HolderOf.compileJob_ok`: the job of each function compiles it as the
  method its key names.
-/

namespace ClassCompiler.Primitive

open Syntax Machine

/-! ### The method a function of the fragment becomes -/

/-- The result type of a function of the fragment as the compiler names it:
    `void` when it returns nothing. -/
def retTy (f : FnDecl) : Ty :=
  match retType? f with
  | some (some p) => p.ty
  | _ => .void

/-- The descriptor of a global function of the fragment called with the
    arguments `vals`. -/
def callDescriptor (f : FnDecl) (vals : List PVal) : String :=
  (MethodType.mk (vals.map fun a => a.ty.ty) (retTy f)).descriptor

theorem retTy_oneLetter (f : FnDecl) : Ty.OneLetter (retTy f) := by
  unfold retTy
  split
  · exact PTy.oneLetter _
  · exact Ty.oneLetter_void

section Sig

variable (r : Resolver) {f g : FnDecl}

/-- Written parameter types of the fragment resolve to themselves. -/
theorem Resolver.resolve_prims : ∀ {params : List Param} {ps : List PTy},
    params.map (fun p => PTy.ofTypeExpr? p.ty) = ps.map some → params.map (fun p => r.resolve p.ty) = ps.map PTy.ty
  | [], [], _ => rfl
  | [], _ :: _, h => by simp at h
  | _ :: _, [], h => by simp at h
  | p :: params, q :: ps, h => by
    simp only [List.map_cons, List.cons.injEq] at h ⊢
    exact ⟨Resolver.resolve_prim r h.1, Resolver.resolve_prims h.2⟩

theorem globalSig_params {ps : List PTy} (h : paramTypes? f = some ps) :
    (r.globalSig f).params = ps.map PTy.ty :=
  Resolver.resolve_prims r (paramTypes?_eq_some.1 h)

/-- The written result type of a function of the fragment resolves to `retTy`. -/
theorem globalSig_ret (hf : FragFn f) : (r.globalSig f).ret = retTy f := by
  obtain ⟨x, hx⟩ := Option.isSome_iff_exists.1 hf.ret
  simp only [Resolver.globalSig, retTy, hx]
  unfold retType? at hx
  cases hr : f.sig.ret with
  | none =>
    rw [hr] at hx
    cases hx
    rfl
  | some t =>
    rw [hr] at hx
    dsimp only at hx
    split at hx
    · -- `void` written out
      rename_i hvoid
      cases hx
      simp [Resolver.resolve, Resolver.base, hvoid.1, hvoid.2, Nat.repeat, Ty.ofBuiltinName?]
    · obtain ⟨p, hp, rfl⟩ := Option.map_eq_some_iff.1 hx
      simp [Resolver.resolve_prim r hp]

theorem globalSig_type (hf : FragFn f) {ps : List PTy} (hps : paramTypes? f = some ps) :
    (r.globalSig f).type = ⟨ps.map PTy.ty, retTy f⟩ := by
  rw [MethodSig.type, globalSig_params r hps, globalSig_ret r hf]

/-- The descriptor of the method is the one the function is called with. -/
theorem globalSig_descriptor (hf : FragFn f) {vals : List PVal} (hvals : paramTypes? f = some (vals.map PVal.ty)) :
    (r.globalSig f).descriptor = callDescriptor f vals := by
  rw [MethodSig.descriptor, globalSig_type r hf hvals, callDescriptor, List.map_map]
  rfl

/-- The type of the method reads back from its descriptor. -/
theorem ofDescriptor_globalSig (hf : FragFn f) :
    MethodType.ofDescriptor (r.globalSig f).descriptor = .ok (r.globalSig f).type := by
  obtain ⟨ps, hps⟩ := Option.isSome_iff_exists.1 hf.params
  rw [MethodSig.descriptor, globalSig_type r hf hps]
  exact MethodType.ofDescriptor_prim ps (retTy_oneLetter f)

/-- Two functions of the fragment with the same name and descriptor have
    methods of the same signature. -/
theorem globalSig_same (hf : FragFn f) (hg : FragFn g) (hname : f.sig.name.name = g.sig.name.name)
    (hdesc : (r.globalSig f).descriptor = (r.globalSig g).descriptor) :
    (r.globalSig f).sameSignature (r.globalSig g) = true := by
  have htype : (r.globalSig f).type = (r.globalSig g).type := by
    have h := ofDescriptor_globalSig r hf
    rw [hdesc, ofDescriptor_globalSig r hg] at h
    exact (Except.ok.inj h).symm
  simp only [MethodSig.type, MethodType.mk.injEq] at htype
  have hname' : (r.globalSig f).name = (r.globalSig g).name := hname
  simp [MethodSig.sameSignature, hname', htype.1, htype.2]

end Sig

/-! ### Lookups that find one element -/

/-- In a list whose elements are pairwise related, two members related
    neither way are one. -/
theorem List.Pairwise.eq_of_not_rel {α : Type} {R : α → α → Prop} :
    ∀ {l : List α}, l.Pairwise R → ∀ {a b : α}, a ∈ l → b ∈ l → ¬ R a b → ¬ R b a → a = b
  | [], _, _, _, ha, _, _, _ => absurd ha List.not_mem_nil
  | _ :: _, h, a, b, ha, hb, hab, hba => by
    rw [List.pairwise_cons] at h
    rcases List.mem_cons.1 ha with rfl | ha'
    · rcases List.mem_cons.1 hb with rfl | hb'
      · rfl
      · exact absurd (h.1 b hb') hab
    · rcases List.mem_cons.1 hb with rfl | hb'
      · exact absurd (h.1 a ha') hba
      · exact List.Pairwise.eq_of_not_rel h.2 ha' hb' hab hba

/-- A search finds the one member that passes. -/
theorem List.find?_eq_of_unique {α : Type} {l : List α} {p : α → Bool} {x : α} (hx : x ∈ l) (hp : p x = true)
    (hu : ∀ y ∈ l, p y = true → y = x) : l.find? p = some x := by
  obtain ⟨y, hy⟩ := Option.isSome_iff_exists.1 (List.find?_isSome.2 ⟨x, hx, hp⟩)
  rw [hy, hu y (List.mem_of_find?_eq_some hy) (List.find?_some hy)]

/-- Searches along two related lists find related elements, when the tests
    agree on related elements. -/
theorem List.Forall₂.find?_some {α β : Type} {R : α → β → Prop} {p : α → Bool} {q : β → Bool}
    (hpq : ∀ x y, R x y → q y = p x) :
    ∀ {xs : List α} {ys : List β}, List.Forall₂ R xs ys → ∀ {x : α}, xs.find? p = some x →
      ∃ y, ys.find? q = some y ∧ R x y
  | _, _, .nil, _, h => by cases h
  | x' :: _, y' :: _, .cons hr hrest, x, h => by
    rw [List.find?_cons] at h
    rw [List.find?_cons, hpq x' y' hr]
    cases hp : p x' with
    | true =>
      simp only [hp, Option.some.injEq] at h
      subst h
      exact ⟨y', rfl, hr⟩
    | false =>
      simp only [hp] at h
      exact List.Forall₂.find?_some hpq hrest h

/-- A successful `mapM` relates each element to its result, in order. -/
theorem mapM_forall₂ {α β ε : Type} {f : α → Except ε β} :
    ∀ {xs : List α} {ys : List β}, xs.mapM f = .ok ys → List.Forall₂ (fun x y => f x = .ok y) xs ys
  | [], ys, h => by
    rw [List.mapM_nil, Except.pure_eq_ok] at h
    subst h
    exact .nil
  | x :: xs, ys, h => by
    rw [List.mapM_cons] at h
    obtain ⟨b, hb, h⟩ := Except.bind_eq_ok.1 h
    obtain ⟨bs, hbs, h⟩ := Except.bind_eq_ok.1 h
    rw [Except.pure_eq_ok] at h
    subst h
    exact .cons hb (mapM_forall₂ hbs)

end ClassCompiler.Primitive

namespace ClassCompiler.IsHolder

open Syntax Primitive

variable {r : Resolver} {n : String} {fns : List FnDecl} {d : TypeDecl}

/-- In a holder of functions of the fragment, a name and a descriptor name one
    function: two with the same would have methods of the same signature. -/
theorem fn_unique (h : IsHolder r n fns d) (hfrag : ∀ f ∈ fns, FragFn f) {f g : FnDecl} (hf : f ∈ fns)
    (hg : g ∈ fns) (hname : f.sig.name.name = g.sig.name.name)
    (hdesc : (r.globalSig f).descriptor = (r.globalSig g).descriptor) : f = g := by
  refine List.Pairwise.eq_of_not_rel h.distinct hf hg ?_ ?_
  · rw [globalSig_same r (hfrag f hf) (hfrag g hg) hname hdesc]
    simp
  · rw [globalSig_same r (hfrag g hg) (hfrag f hf) hname.symm hdesc.symm]
    simp

/-- The method of a function is the one the holder finds by its name and
    descriptor. -/
theorem find_method (h : IsHolder r n fns d) (hfrag : ∀ f ∈ fns, FragFn f) {f : FnDecl} (hf : f ∈ fns) :
    d.methods.find? (fun m => m.name == (r.globalSig f).name && m.descriptor == (r.globalSig f).descriptor) =
      some (r.globalSig f) := by
  rw [h.methods]
  refine List.find?_eq_of_unique (List.mem_map_of_mem hf) (by simp) fun m hm hp => ?_
  obtain ⟨g, hg, rfl⟩ := List.mem_map.1 hm
  simp only [Bool.and_eq_true, beq_iff_eq] at hp
  rw [h.fn_unique hfrag hg hf hp.1 hp.2]

end ClassCompiler.IsHolder

namespace ClassCompiler.Primitive

open Syntax Machine

/-! ### The passes, read for one file -/

/-- One job of the bodies pass, as `compileJobs` runs it: the job's function
    compiled as the method its key names, with the aliases and holder of its
    file. -/
def compileJob (files : List (String × SourceFile)) (opts : CompileOptions) (s : Structure) (job : BodyJob) :
    Except BuildError (MethodKey × Code) := do
  let (file, aliases) := match files[job.unit]? with
    | some (name, f) => (name, f.aliases)
    | none => ("", {})
  let (owner, sig) ← (lookupMethod s.table job.key).mapError (.compilation file)
  let holder := ((s.holders[job.unit]?).bind id).bind s.table.get?
  let code ← (compileMethod ⟨s.table, aliases, opts, owner, sig, holder⟩ job.decl).mapError
    (.compilation file)
  return (job.key, code)

theorem compileJobs_eq (files : List (String × SourceFile)) (opts : CompileOptions) (s : Structure) :
    compileJobs files opts s = s.jobs.mapM (compileJob files opts s) := rfl

/-- A job's body is filed under the job's key. -/
theorem compileJob_key {files : List (String × SourceFile)} {opts : CompileOptions} {s : Structure} {j : BodyJob}
    {y : MethodKey × Code} (h : compileJob files opts s j = .ok y) : y.1 = j.key := by
  unfold compileJob at h
  obtain ⟨_, -, h⟩ := Except.bind_eq_ok.1 h
  obtain ⟨_, -, h⟩ := Except.bind_eq_ok.1 h
  rw [← Except.pure_eq_ok.1 h]

/-- The record of a declaration has its name. -/
theorem classRecordOf_name {bodies : List (MethodKey × Code)} {d : TypeDecl} {cls : ClassRecord}
    (h : classRecordOf bodies d = .ok cls) : cls.name = d.name := by
  unfold classRecordOf at h
  obtain ⟨_, -, h⟩ := Except.bind_eq_ok.1 h
  rw [← Except.pure_eq_ok.1 h]

/-- The methods of a record are those of its declaration, in order: of the
    same name and descriptor, and each that is not abstract with the body of
    its key. -/
theorem classRecordOf_methods {bodies : List (MethodKey × Code)} {d : TypeDecl} {cls : ClassRecord}
    (h : classRecordOf bodies d = .ok cls) :
    List.Forall₂ (fun m mr => mr.name = m.name ∧ mr.descriptor = m.descriptor ∧
      (m.isAbstract = false → mr.code = bodyOf? bodies (MethodKey.of d.name m))) d.methods cls.methods := by
  unfold classRecordOf at h
  obtain ⟨methods, hmethods, h⟩ := Except.bind_eq_ok.1 h
  rw [← Except.pure_eq_ok.1 h]
  refine (mapM_forall₂ hmethods).imp fun m mr hm => ?_
  dsimp only at hm
  split at hm
  · rename_i habs
    cases Except.pure_eq_ok.1 hm
    exact ⟨rfl, rfl, fun h' => absurd habs (by simp [h'])⟩
  · split at hm
    · rename_i code hbody
      cases Except.pure_eq_ok.1 hm
      exact ⟨rfl, rfl, fun _ => hbody.symm⟩
    · cases hm

/-- A machine loaded with the records of the classes written out finds the
    record of each under its name: the names of the table are distinct, so no
    other record has it. -/
theorem classNamed_of_emitted {t : ClassTable} (ht : t.Distinct) {bodies : List (MethodKey × Code)}
    {records : List ClassRecord} (hrec : t.emitted.mapM (classRecordOf bodies) = .ok records) {d : TypeDecl}
    (hd : d ∈ t.emitted) {m : State} (hm : m.classes = records) :
    ∃ cls, classRecordOf bodies d = .ok cls ∧ m.classNamed? d.name = some cls := by
  obtain ⟨cls, hcls, hok⟩ := mapM_ok_mem hrec d hd
  refine ⟨cls, hok, ?_⟩
  rw [State.classNamed?, hm]
  refine List.find?_eq_of_unique (List.mem_reverse.2 hcls) (by simp [classRecordOf_name hok]) fun y hy hname => ?_
  obtain ⟨d', hd', hy'⟩ := mapM_mem hrec y (List.mem_reverse.1 hy)
  have hn : d'.name = d.name := by
    rw [← classRecordOf_name hy']
    simpa using hname
  obtain rfl := ht.eq_of_name (ClassTable.mem_of_mem_emitted hd') (ClassTable.mem_of_mem_emitted hd) hn
  exact Except.ok.inj (hy'.symm.trans hok)

/-- A generated constructor belongs to a struct, module or adapter written
    out. -/
theorem constructors_owner {t : ClassTable} {ctors : List (MethodKey × Code)} (h : constructors t = .ok ctors)
    {key : MethodKey} {code : Code} (he : (key, code) ∈ ctors) :
    ∃ d ∈ t.emitted, (d.isInstantiable || d.adapter.isSome) = true ∧ key.owner = d.name := by
  obtain ⟨d, hd, bs, hbs, hk⟩ := flatMapM_mem h _ he
  obtain ⟨hd, hi⟩ := List.mem_filter.1 hd
  obtain ⟨ctor, -, hctor⟩ := mapM_mem hbs _ hk
  split at hctor
  · cases hctor
    exact ⟨d, hd, hi, rfl⟩
  · cases hctor

/-- The passes of a compiled program. -/
theorem compileProgram_ok {files : List (String × SourceFile)} {opts : CompileOptions} {records : List ClassRecord}
    (h : compileProgram files opts = .ok records) :
    ∃ s ctors bodies, buildStructure files = .ok s ∧ constructors s.table = .ok ctors ∧
      compileJobs files opts s = .ok bodies ∧ s.table.emitted.mapM (classRecordOf (ctors ++ bodies)) = .ok records := by
  unfold compileProgram at h
  obtain ⟨s, hs, h⟩ := Except.bind_eq_ok.1 h
  obtain ⟨ctors, hctors, h⟩ := Except.bind_eq_ok.1 h
  obtain ⟨bodies, hbodies, h⟩ := Except.bind_eq_ok.1 h
  exact ⟨s, ctors, bodies, Except.mapError_eq_ok.1 hs, hctors, hbodies, h⟩

/-- The platform's `Object`, where every chain of superclasses ends, has no
    static method. -/
theorem platform_object : ∃ d ∈ ClassTable.platform.decls,
    d.name = objectClass ∧ d.superclass = none ∧ ∀ m ∈ d.methods, m.isStatic = false := by
  decide

/-- Parameters of the fragment fit arguments of the fragment exactly when they
    have their types. -/
theorem fits_iff (ps : List PTy) (vals : List PVal) :
    MethodType.fits (ps.map PTy.ty) (vals.map fun a => a.ty.ty) = true ↔ ps = vals.map PVal.ty := by
  constructor
  · intro h
    have hmap : ps.map PTy.ty = (vals.map PVal.ty).map PTy.ty := by
      rw [fits_prim h, List.map_map]
      rfl
    exact List.map_injective_iff.2 PTy.ty_injective hmap
  · rintro rfl
    rw [List.map_map]
    induction vals with
    | nil => rfl
    | cons a vals ih =>
      simp only [MethodType.fits, List.length_map, beq_self_eq_true, Bool.true_and] at ih ⊢
      simp [ih]

/-! ### The holder of a file of the fragment -/

/-- The file `u` of `files`, named `file`, has global functions, all of the
    fragment, and `hd` is its holder in the structure `s` made of the files. -/
structure HolderOf (files : List (String × SourceFile)) (s : Structure) (u : Nat) (file : String) (sf : SourceFile)
    (hd : TypeDecl) : Prop where
  listed : files[u]? = some (file, sf)
  frag : FragFile sf
  distinct : s.table.Distinct
  holdersOk : s.HoldersOk files
  isHolder : IsHolder (fileResolver files sf) (holderName file) (functions sf) hd
  mem : hd ∈ s.table.decls
  position : s.holders[u]? = some (some (holderName file))

/-- A structural pass over files of which the file `u` has global functions of
    the fragment makes its holder. -/
theorem HolderOf.of_build {files : List (String × SourceFile)} {s : Structure} {u : Nat} {file : String}
    {sf : SourceFile} (hs : buildStructure files = .ok s) (hu : files[u]? = some (file, sf)) (hfrag : FragFile sf)
    (hne : functions sf ≠ []) : ∃ hd, HolderOf files s u file sf hd := by
  have hH := buildStructure_holders hs
  obtain ⟨hpos, hd, hmem, hhd⟩ := hH.holder u file sf hu hne
  exact ⟨hd, hu, hfrag, (buildStructure_ok hs).distinct, hH, hhd, hmem, hpos⟩

namespace HolderOf

variable {files : List (String × SourceFile)} {opts : CompileOptions} {s : Structure} {u : Nat} {file : String}
  {sf : SourceFile} {hd : TypeDecl} (h : HolderOf files s u file sf hd)
include h

theorem get : s.table.get? (holderName file) = some hd :=
  (ClassTable.get?_eq_some_iff h.distinct).2 ⟨h.mem, h.isHolder.name⟩

/-- The bodies pass finds the method of a global function in the holder. -/
theorem lookup {f : FnDecl} (hf : f ∈ functions sf) :
    lookupMethod s.table (MethodKey.of (holderName file) ((fileResolver files sf).globalSig f)) =
      .ok (hd, (fileResolver files sf).globalSig f) := by
  simp only [lookupMethod, MethodKey.of, h.get]
  rw [h.isHolder.find_method h.frag hf]

/-- The job of a global function compiles the function as its method, in the
    holder, with the file's aliases. -/
theorem compileJob_ok {f : FnDecl} (hf : f ∈ functions sf) {y : MethodKey × Code} :
    compileJob files opts s (holderJob (fileResolver files sf) (holderName file) u f) = .ok y ↔
      ∃ code, compileMethod ⟨s.table, sf.aliases, opts, hd, (fileResolver files sf).globalSig f, some hd⟩ f = .ok code ∧
        y = (MethodKey.of (holderName file) ((fileResolver files sf).globalSig f), code) := by
  simp only [compileJob, holderJob, h.listed, h.lookup hf, h.position, Option.bind_some, id_eq, h.get]
  constructor
  · intro hy
    obtain ⟨_, hp, hy⟩ := Except.bind_eq_ok.1 hy
    cases Except.mapError_eq_ok.1 hp
    obtain ⟨code, hcode, hy⟩ := Except.bind_eq_ok.1 hy
    exact ⟨code, Except.mapError_eq_ok.1 hcode, (Except.pure_eq_ok.1 hy).symm⟩
  · rintro ⟨code, hcode, rfl⟩
    exact Except.bind_eq_ok.2 ⟨(hd, _), rfl, Except.bind_eq_ok.2 ⟨code, Except.mapError_eq_ok.2 hcode, rfl⟩⟩

end HolderOf

end ClassCompiler.Primitive
