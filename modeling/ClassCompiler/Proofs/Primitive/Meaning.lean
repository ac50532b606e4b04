import Mathlib.Data.List.Find
import ClassCompiler.Proofs.Primitive.Refinement

/-!
# The machine runs a compiled function as the source does

The last step of the refinement: a compiled program, loaded into the machine,
holds in the holder of each file of the fragment the code compiled for each of
its functions, and a static call from that code finds the function the source
calls. So at every level the frame of a call answers as the source does, and
since the machine is deterministic, what it does with every budget of steps is
what the source does at some level.

* `Answers`, `Ends`: the machine's answer from a configuration, at a level of
  the source; `Answers.run_ends`: a budget below the level is exceeded or ends
  the run as the source does;
* `returns_iff`, `fails_iff`, `diverges_iff`: for configurations that answer as
  the source at every level, the machine returns a value, raises
  `ArithmeticException` or exceeds every budget exactly when the source
  returns that value, divides by zero or runs out of every level;
* `HolderOf.installed_code`, `HolderOf.installed`: the machine loaded with the
  records of a compiled program holds the code of the file's functions;
* `machineCall`, `CallMeans`, `compile_preserves_meaning`: the end-to-end
  statement.
-/

namespace ClassCompiler.Machine

variable {m : State} {fs : List Frame} {k : Nat}

/-- A budget below the `k` steps of a run that returns is exceeded; any other
    is enough for the run to return. -/
theorem Returns.run_cases {r : Option Value} (h : Returns m fs k r) (fuel : Nat) :
    Exceeds fuel m fs ∨ ∃ m' left, run fuel m fs = .returned m' r left := by
  obtain ⟨m', hex, hrun⟩ := h
  by_cases hk : fuel < k
  · exact .inl (hex fuel hk)
  · obtain ⟨d, rfl⟩ := Nat.exists_eq_add_of_le (Nat.le_of_not_lt hk)
    exact .inr ⟨m', d, by rw [Nat.add_comm]; exact hrun d⟩

/-- A budget below the `k` steps of a run that fails is exceeded; any other
    is enough for the run to fail. -/
theorem Fails.run_cases {msg : String} (h : Fails m fs k msg) (fuel : Nat) :
    Exceeds fuel m fs ∨ ∃ m', run fuel m fs = .error m' msg := by
  obtain ⟨m', hex, hrun⟩ := h
  by_cases hk : fuel < k
  · exact .inl (hex fuel hk)
  · obtain ⟨d, rfl⟩ := Nat.exists_eq_add_of_le (Nat.le_of_not_lt hk)
    exact .inr ⟨m', by rw [Nat.add_comm]; exact hrun d⟩

/-- The step limit is no other error. -/
theorem Exceeds.ne_error {fuel : Nat} {m' : State} {msg : String} (hex : Exceeds fuel m fs)
    (h : run fuel m fs = .error m' msg) : msg = "step limit exceeded" := by
  obtain ⟨m'', hrun⟩ := hex
  rw [h, Outcome.error.injEq] at hrun
  exact hrun.2

theorem Exceeds.ne_returned {fuel : Nat} {m' : State} {w : Option Value} {left : Nat}
    (hex : Exceeds fuel m fs) : run fuel m fs ≠ .returned m' w left := by
  obtain ⟨m'', hrun⟩ := hex
  rw [hrun]
  exact Outcome.noConfusion

end ClassCompiler.Machine

namespace ClassCompiler.Primitive

open Syntax Machine Gen

/-! ### Answers at every level -/

/-- The machine answers from `fs` as the source answers at level `n`: the
    outermost frame returns the source's result, or the machine stops as the
    source does. -/
def Answers (n : Nat) (m : State) (fs : List Frame) : Res (Option PVal) → Prop
  | .ok v => ∃ k, Returns m fs k (v.map PVal.toValue)
  | .error e => Stopped n m fs e

/-- The ends of a budgeted run, other than the step limit, that agree with an
    answer of the source. -/
def Ends : Res (Option PVal) → Outcome → Prop
  | .ok v, .returned _ w _ => w = v.map PVal.toValue
  | .error .divByZero, .error _ msg => msg = "ArithmeticException: / by zero"
  | _, _ => False

theorem MethodAnswer.answers {n : Nat} {m : State} {ret : Ty} {f : Frame} {r : Res (Option PVal)}
    (h : MethodAnswer n m ret f [] r) : Answers n m [f] r := by
  cases r with
  | ok v => exact h.2
  | error e => exact h

section Answers

variable {m : State} {fs : List Frame}

/-- A budget of `fuel` steps, for a configuration that answers as the source
    one level above `fuel`, is exceeded or ends the run as the source does. -/
theorem Answers.run_ends {fuel : Nat} {r : Res (Option PVal)} (h : Answers (fuel + 1) m fs r) :
    Exceeds fuel m fs ∨ Ends r (Machine.run fuel m fs) := by
  match r, h with
  | .ok v, ⟨k, hk⟩ =>
    rcases hk.run_cases fuel with hex | ⟨m', left, hrun⟩
    · exact .inl hex
    · exact .inr (by rw [hrun]; rfl)
  | .error .divByZero, ⟨k, hk⟩ =>
    rcases hk.run_cases fuel with hex | ⟨m', hrun⟩
    · exact .inl hex
    · exact .inr (by rw [hrun]; rfl)
  | .error .outOfFuel, hs => exact .inl (hs fuel (Nat.lt_succ_self fuel))
  | .error .wrong, hs => exact hs.elim

theorem Ends.returned {r : Res (Option PVal)} {m : State} {w : Option Value} {left : Nat}
    (h : Ends r (.returned m w left)) : ∃ v, r = .ok v ∧ w = v.map PVal.toValue := by
  match r, h with
  | .ok v, h => exact ⟨v, rfl, h⟩

theorem Ends.error {r : Res (Option PVal)} {m : State} {msg : String} (h : Ends r (.error m msg)) :
    r = .error .divByZero ∧ msg = "ArithmeticException: / by zero" := by
  match r, h with
  | .error .divByZero, h => exact ⟨rfl, h⟩

variable {r : Nat → Res (Option PVal)} (hA : ∀ n, Answers n m fs (r n))
include hA

/-- The machine returns `w` with some budget exactly when the source returns,
    at some level, a value that `w` stands for. -/
theorem returns_iff (w : Option Value) :
    (∃ fuel m' left, Machine.run fuel m fs = .returned m' w left) ↔
      ∃ n v, r n = .ok v ∧ w = v.map PVal.toValue := by
  constructor
  · rintro ⟨fuel, m', left, hrun⟩
    -- one level above the budget, the source returns what the machine does
    rcases (hA (fuel + 1)).run_ends with hex | hends
    · exact absurd hrun hex.ne_returned
    · rw [hrun] at hends
      exact ⟨fuel + 1, hends.returned⟩
  · rintro ⟨n, v, hv, rfl⟩
    have h := hA n
    rw [hv] at h
    obtain ⟨k, m', -, hrun⟩ := h
    exact ⟨0 + k, m', 0, hrun 0⟩

/-- The machine raises `ArithmeticException` with some budget exactly when the
    source divides by zero at some level. -/
theorem fails_iff :
    (∃ fuel m', Machine.run fuel m fs = .error m' "ArithmeticException: / by zero") ↔
      ∃ n, r n = .error .divByZero := by
  constructor
  · rintro ⟨fuel, m', hrun⟩
    rcases (hA (fuel + 1)).run_ends with hex | hends
    · exact absurd (hex.ne_error hrun) (by decide)
    · rw [hrun] at hends
      exact ⟨fuel + 1, hends.error.1⟩
  · rintro ⟨n, hn⟩
    have h := hA n
    rw [hn] at h
    obtain ⟨k, m', -, hrun⟩ := h
    exact ⟨0 + k, m', hrun 0⟩

/-- The machine exceeds every budget exactly when the source runs out of every
    level. -/
theorem diverges_iff : (∀ fuel, Exceeds fuel m fs) ↔ ∀ n, r n = .error .outOfFuel := by
  constructor
  · intro hex n
    have h := hA n
    -- a source that stops at level `n` stops the machine after some `k` steps
    match hr : r n, h with
    | .ok v, h =>
      obtain ⟨k, m', -, hrun⟩ := h
      exact absurd (hrun 0) (hex (0 + k)).ne_returned
    | .error .divByZero, h =>
      obtain ⟨k, m', -, hrun⟩ := h
      exact absurd ((hex (0 + k)).ne_error (hrun 0)) (by decide)
    | .error .outOfFuel, _ => rfl
    | .error .wrong, h => exact h.elim
  · intro hr fuel
    have h := hA (fuel + 1)
    rw [hr] at h
    exact h fuel (Nat.lt_succ_self fuel)

end Answers

/-! ### The holder in the machine -/

/-- The context in which the bodies pass compiles the global function `f` of
    the file `sf`, as a method of its holder `hd`. -/
def holderContext (files : List (String × SourceFile)) (opts : CompileOptions) (s : Structure) (sf : SourceFile)
    (hd : TypeDecl) (f : FnDecl) : MethodContext :=
  ⟨s.table, sf.aliases, opts, hd, (fileResolver files sf).globalSig f, some hd⟩

/-- A key under which every body is `code` has `code` as its body. -/
theorem bodyOf?_of_unique {l : List (MethodKey × Code)} {key : MethodKey} {code : Code} (hmem : (key, code) ∈ l)
    (hu : ∀ y ∈ l, y.1 = key → y.2 = code) : bodyOf? l key = some code := by
  unfold bodyOf?
  have hsome : (l.reverse.find? (·.1 == key)).isSome :=
    List.find?_isSome.2 ⟨(key, code), List.mem_reverse.2 hmem, by simp⟩
  obtain ⟨y, hy⟩ := Option.isSome_iff_exists.1 hsome
  have hyk : y.1 = key := by simpa using List.find?_some hy
  rw [hy, Option.map_some, hu y (List.mem_reverse.1 (List.mem_of_find?_eq_some hy)) hyk]

namespace HolderOf

variable {files : List (String × SourceFile)} {opts : CompileOptions} {s : Structure} {u : Nat} {file : String}
  {sf : SourceFile} {hd : TypeDecl} (h : HolderOf files s u file sf hd)
  {ctors bodies : List (MethodKey × Code)} {records : List ClassRecord}
include h

/-- The bodies pass compiles each function of the file, under the key of its
    method. -/
theorem compiled_body (hbodies : compileJobs files opts s = .ok bodies) {g : FnDecl} (hg : g ∈ functions sf) :
    ∃ code, compileMethod (holderContext files opts s sf hd g) g = .ok code ∧
      (MethodKey.of (holderName file) ((fileResolver files sf).globalSig g), code) ∈ bodies := by
  have hjob := h.holdersOk.queued u file sf h.listed g hg
  rw [compileJobs_eq] at hbodies
  obtain ⟨y, hy, hok⟩ := mapM_ok_mem hbodies _ hjob
  obtain ⟨code, hcode, rfl⟩ := (h.compileJob_ok hg).1 hok
  exact ⟨code, hcode, hy⟩

/-- Every body filed under the key of a function's method is the code compiled
    for that function: the jobs for the holder are those of the file's
    functions, and a name and a descriptor name one of them. -/
theorem body_unique (hbodies : compileJobs files opts s = .ok bodies) {g : FnDecl} (hg : g ∈ functions sf)
    {code : Code} (hcode : compileMethod (holderContext files opts s sf hd g) g = .ok code) :
    ∀ y ∈ bodies, y.1 = MethodKey.of (holderName file) ((fileResolver files sf).globalSig g) → y.2 = code := by
  intro y hy hkey
  rw [compileJobs_eq] at hbodies
  obtain ⟨j, hj, hok⟩ := mapM_mem hbodies y hy
  have hown : j.key.owner = holderName file := by
    rw [← compileJob_key hok, hkey]
    rfl
  obtain ⟨g', hg', rfl⟩ := h.holdersOk.job_of_holder h.distinct h.listed (List.ne_nil_of_mem hg) hj hown
  obtain ⟨code', hcode', rfl⟩ := (h.compileJob_ok hg').1 hok
  simp only [MethodKey.of, MethodKey.mk.injEq] at hkey
  obtain rfl := h.isHolder.fn_unique h.frag hg' hg hkey.2.1 hkey.2.2
  exact Except.ok.inj (hcode'.symm.trans hcode)

/-- No constructor is filed under the holder's name: a holder is neither a
    struct, nor a module, nor an adapter. -/
theorem ctor_owner (hctors : constructors s.table = .ok ctors) {y : MethodKey × Code} (hy : y ∈ ctors) :
    y.1.owner ≠ holderName file := by
  intro hown
  obtain ⟨d, hd', hi, hk⟩ := constructors_owner hctors hy
  obtain rfl : d = hd := h.distinct.eq_of_name (ClassTable.mem_of_mem_emitted hd') h.mem
    (hk.symm.trans (hown.trans h.isHolder.name.symm))
  simp [TypeDecl.isInstantiable, h.isHolder.kind, h.isHolder.adapter] at hi

/-- The machine loaded with the records finds the record of the holder under
    its name: no other record has it. -/
theorem classNamed (hrec : s.table.emitted.mapM (classRecordOf (ctors ++ bodies)) = .ok records) :
    ∃ cls, classRecordOf (ctors ++ bodies) hd = .ok cls ∧
      (State.init records).classNamed? (holderName file) = some cls := by
  have hem : hd ∈ s.table.emitted :=
    List.mem_filter.2 ⟨Array.mem_toList_iff.2 h.mem, by simp [h.isHolder.kind]⟩
  rw [← h.isHolder.name]
  exact classNamed_of_emitted h.distinct hrec hem rfl

/-- The machine loaded with the records of a compiled program holds, in the
    record of the holder and under the name and descriptor of each function's
    method, the code compiled for the function. -/
theorem installed_code (hctors : constructors s.table = .ok ctors) (hbodies : compileJobs files opts s = .ok bodies)
    (hrec : s.table.emitted.mapM (classRecordOf (ctors ++ bodies)) = .ok records) {g : FnDecl}
    (hg : g ∈ functions sf) :
    ∃ code cls mr, Compiled s.table (holderName file) g ((fileResolver files sf).globalSig g)
        (holderContext files opts s sf hd g) code ∧
      (State.init records).classNamed? (holderName file) = some cls ∧
      cls.method? ((fileResolver files sf).globalSig g).name ((fileResolver files sf).globalSig g).descriptor =
        some mr ∧ mr.code = some code := by
  obtain ⟨code, hcode, hmem⟩ := h.compiled_body hbodies hg
  obtain ⟨cls, hok, hcls⟩ := h.classNamed hrec
  obtain ⟨mr, hmr, -, -, hbody⟩ := List.Forall₂.find?_some
    (q := fun mr => mr.name == ((fileResolver files sf).globalSig g).name &&
      mr.descriptor == ((fileResolver files sf).globalSig g).descriptor)
    (fun m mr hr => by simp only [hr.1, hr.2.1]) (classRecordOf_methods hok) (h.isHolder.find_method h.frag hg)
  -- the record's body is the one of the key: constructors are filed elsewhere
  have hb : bodyOf? (ctors ++ bodies) (MethodKey.of hd.name ((fileResolver files sf).globalSig g)) = some code := by
    rw [h.isHolder.name]
    refine bodyOf?_of_unique (List.mem_append_right _ hmem) fun y hy hk => ?_
    rcases List.mem_append.1 hy with hy | hy
    · exact absurd (by rw [hk]; rfl) (h.ctor_owner hctors hy)
    · exact h.body_unique hbodies hg hcode y hy hk
  have hC : Compiled s.table (holderName file) g ((fileResolver files sf).globalSig g)
      (holderContext files opts s sf hd g) code :=
    { frag := h.frag g hg
      global := ⟨rfl, h.isHolder.adapter, fun x hx => by cases hx; rfl⟩
      table := rfl
      owner := h.isHolder.name
      method := rfl
      names := rfl
      ret := globalSig_ret _ (h.frag g hg) ▸ retTy_oneLetter g
      code := hcode }
  exact ⟨code, cls, mr, hC, hcls, hmr, (hbody rfl).trans hb⟩

/-- The classes a call in the holder searches are the holder and `Object`. -/
theorem ancestors : ∃ obj, s.table.ancestors (holderName file) = [hd, obj] ∧ ∀ m ∈ obj.methods, m.isStatic = false := by
  obtain ⟨obj, hobj, hname, hsuper, hstatic⟩ := platform_object
  have hget : s.table.get? objectClass = some obj :=
    (ClassTable.get?_eq_some_iff h.distinct).2 ⟨h.holdersOk.platform obj hobj, hname⟩
  obtain ⟨n, hn⟩ : ∃ n, s.table.decls.size = n + 1 :=
    ⟨s.table.decls.size - 1, by have := Array.size_pos_of_mem h.mem; omega⟩
  refine ⟨obj, ?_, hstatic⟩
  simp only [ClassTable.ancestors, hn, ClassTable.chain, h.get, h.isHolder.superclass, hget, hsuper]

/-- A static call by a bare name in the holder finds a method of the holder
    itself, the first of that name that fits. -/
theorem findCallable {name : String} {ts : List Ty} {d : TypeDecl} {sig : MethodSig}
    (hfind : findCallable? s.table (holderName file) name ts false = some (d, sig)) :
    d = hd ∧ hd.methods.find? (fun m => m.name == name && !m.isConstructor && m.isStatic &&
      MethodType.fits m.params ts) = some sig := by
  obtain ⟨obj, hanc, hstatic⟩ := h.ancestors
  have hobj : obj.methods.find? (fun m => m.name == name && !m.isConstructor && m.isStatic &&
      MethodType.fits m.params ts) = none :=
    List.find?_eq_none.2 fun m hm => by simp [hstatic m hm]
  unfold findCallable? at hfind
  simp only [Bool.false_or] at hfind
  rw [hanc, List.findSome?_cons, List.findSome?_cons, hobj] at hfind
  cases hf : hd.methods.find? (fun m => m.name == name && !m.isConstructor && m.isStatic &&
      MethodType.fits m.params ts) with
  | none => simp [hf] at hfind
  | some sig' =>
    simp only [hf, Option.map_some, Option.some.injEq, Prod.mk.injEq] at hfind
    obtain ⟨rfl, rfl⟩ := hfind
    exact ⟨rfl, rfl⟩

/-- The machine loaded with the records of a compiled program holds the code of
    the file's functions, as the static calls of their bodies find it. -/
theorem installed (hctors : constructors s.table = .ok ctors) (hbodies : compileJobs files opts s = .ok bodies)
    (hrec : s.table.emitted.mapM (classRecordOf (ctors ++ bodies)) = .ok records) :
    Installed s.table (holderName file) (State.init records) (functions sf) := by
  intro name vals d sig hfind
  obtain ⟨rfl, hm⟩ := h.findCallable hfind
  rw [h.isHolder.methods, List.find?_map] at hm
  obtain ⟨g, hg, rfl⟩ := Option.map_eq_some_iff.1 hm
  have hgp := List.find?_some hg
  simp only [Function.comp_apply, Bool.and_eq_true, beq_iff_eq, Bool.not_eq_true'] at hgp
  -- the source finds `g` too: for functions of the fragment, fitting the
  -- argument types is having them as parameter types
  have hres : resolve (functions sf) name vals = some g := by
    rw [resolve, ← hg]
    refine List.find?_congr fun g' hg' => ?_
    obtain ⟨ps, hps⟩ := Option.isSome_iff_exists.1 (h.frag g' hg').params
    have hfits : MethodType.fits ((fileResolver files sf).globalSig g').params (vals.map fun a => a.ty.ty) =
        (paramTypes? g' == some (vals.map PVal.ty)) := by
      rw [globalSig_params _ hps, hps, Bool.eq_iff_iff, fits_iff]
      simp
    show (g'.sig.name.name == name && paramTypes? g' == some (vals.map PVal.ty)) =
      (g'.sig.name.name == name && !((fileResolver files sf).globalSig g').isConstructor && true && _)
    rw [← hfits]
    by_cases hn : g'.sig.name.name = name
    · -- a constructor by name, as `g` is not
      have hcons : ((fileResolver files sf).globalSig g').isConstructor = false := by
        have hg₁ : ((fileResolver files sf).globalSig g).isConstructor = false := hgp.1.1.2
        have hg₂ : g.sig.name.name = name := hgp.1.1.1
        show (g'.sig.name.name == constructorName) = false
        rw [hn, ← hg₂]
        exact hg₁
      simp [hn, hcons]
    · have hne : (g'.sig.name.name == name) = false := by simpa using hn
      simp [hne]
  obtain ⟨code, cls, mr, hC, hcls, hmr, hcode⟩ := h.installed_code hctors hbodies hrec (List.mem_of_find?_eq_some hg)
  exact ⟨g, _, code, cls, mr, hres, hC, h.isHolder.name ▸ hcls, hmr, hcode⟩

end HolderOf

/-! ### Calling a compiled function -/

/-- The machine loaded with `records`, called on the method of the global
    function `f` of the file `file`, with the arguments `vals` and a budget of
    `fuel` steps. -/
def machineCall (records : List ClassRecord) (file : String) (f : FnDecl) (vals : List PVal) (fuel : Nat) : Outcome :=
  call fuel (State.init records) (holderName file) f.sig.name.name (callDescriptor f vals) none (vals.map PVal.toValue)

/-- The call of `f` on the machine loaded with `records` means what `f` means
    among the functions `fns`: with some budget it returns a value exactly
    when the source returns that value at some level, it raises
    `ArithmeticException` exactly when the source divides by zero, and it
    exceeds every budget exactly when the source runs out of every level. -/
structure CallMeans (records : List ClassRecord) (file : String) (fns : List FnDecl) (f : FnDecl)
    (vals : List PVal) : Prop where
  returns : ∀ w, (∃ fuel m left, machineCall records file f vals fuel = .returned m w left) ↔
    ∃ n v, Primitive.run n fns f vals = .ok v ∧ w = v.map PVal.toValue
  divides : (∃ fuel m, machineCall records file f vals fuel = .error m "ArithmeticException: / by zero") ↔
    ∃ n, Primitive.run n fns f vals = .error .divByZero
  diverges : (∀ fuel, ∃ m, machineCall records file f vals fuel = .error m "step limit exceeded") ↔
    ∀ n, Primitive.run n fns f vals = .error .outOfFuel

/-- Compiling preserves the meaning of the primitive fragment: in a program the
    compiler accepts, every global function of a file whose global functions
    are all of the fragment, called with arguments of its parameter types,
    means on the machine what it means in the source. -/
theorem compile_preserves_meaning {src : SourceSet} {files : List (String × SourceFile)} {records : List ClassRecord}
    (hparse : src.parseAll = .ok files) (hc : src.compile = .ok records) {u : Nat} {file : String}
    {sf : SourceFile} (hu : files[u]? = some (file, sf)) (hfrag : FragFile sf) {f : FnDecl}
    (hf : f ∈ functions sf) {vals : List PVal} (hvals : paramTypes? f = some (vals.map PVal.ty)) :
    CallMeans records file (functions sf) f vals := by
  have hcomp : compileProgram files src.options = .ok records := by
    rw [SourceSet.compile, hparse] at hc
    exact hc
  obtain ⟨s, ctors, bodies, hs, hctors, hbodies, hrec⟩ := compileProgram_ok hcomp
  obtain ⟨hd, h⟩ := HolderOf.of_build hs hu hfrag (List.ne_nil_of_mem hf)
  obtain ⟨code, cls, mr, hC, hcls, hmr, hcode⟩ := h.installed_code hctors hbodies hrec hf
  have hI : Installed s.table (holderName file) (State.init records) (functions sf) :=
    h.installed hctors hbodies hrec
  -- the call enters the frame of the compiled body
  have hmr' : cls.method? f.sig.name.name (callDescriptor f vals) = some mr := by
    rw [← globalSig_descriptor _ (hfrag f hf) hvals]
    exact hmr
  have hcall : ∀ fuel, machineCall records file f vals fuel = Machine.run fuel (State.init records)
      [entryFrame (holderName file) f.sig.name.name code (vals.map PVal.toValue)] := by
    intro fuel
    simp only [machineCall, call, enter_static hcls hmr' hcode]
  -- where every level answers as the source
  have hA : ∀ n, Answers n (State.init records) [entryFrame (holderName file) f.sig.name.name code
      (vals.map PVal.toValue)] (Primitive.run n (functions sf) f vals) := by
    intro n
    obtain ⟨hcalls, hloops⟩ := levels_ok hI n
    have hparams : (holderContext files src.options s sf hd f).method.params = vals.map fun a => a.ty.ty := by
      rw [hC.method, globalSig_params _ hvals, List.map_map]
      rfl
    exact (body_sim hC.frag hC.global hvals hparams (hC.method ▸ hC.names) hC.code (hC.table ▸ hC.owner ▸ hcalls)
      (hloops _ hC.global hC.table hC.owner) (holderName file) f.sig.name.name []).answers
  refine ⟨fun w => ?_, ?_, ?_⟩ <;> simp only [hcall]
  · exact returns_iff hA w
  · exact fails_iff hA
  · exact diverges_iff hA

/-- A file of one function, `sum`, that adds the numbers from `n` down to 1 in
    a loop. -/
def summing : SourceSet :=
  ⟨.standard, [⟨"sum.atp",
    "fn sum(n: int): int \x7b let s: int = 0; while (n > 0) \x7b s = s + n; n = n - 1; \x7d return s; \x7d\n"⟩]⟩

theorem compile_preserves_meaning_summing : ∃ files records file sf f,
    summing.parseAll = .ok files ∧ summing.compile = .ok records ∧ files[0]? = some (file, sf) ∧ FragFile sf ∧
      f ∈ functions sf ∧ paramTypes? f = some ([PVal.int 10].map PVal.ty) ∧
      CallMeans records file (functions sf) f [.int 10] := by
  -- the parse and the compiled program, and what the parse holds, by evaluation
  obtain ⟨files, hp⟩ := Option.isSome_iff_exists.1
    (by decide +kernel : summing.parseAll.toOption.isSome = true)
  obtain ⟨records, hc⟩ := Option.isSome_iff_exists.1
    (by decide +kernel : summing.compile.toOption.isSome = true)
  have hcheck : (summing.parseAll.toOption.map fun files => files.all fun p => !(functions p.2).isEmpty &&
      (functions p.2).all fun f => fragFn? f && paramTypes? f == some [.int]) = some true := by
    decide +kernel
  have hfirst : (summing.parseAll.toOption.map fun files => files[0]?.isSome) = some true := by
    decide +kernel
  rw [hp, Option.map_some, Option.some.injEq] at hcheck hfirst
  obtain ⟨⟨file, sf⟩, h0⟩ := Option.isSome_iff_exists.1 hfirst
  have hsf := List.all_eq_true.1 hcheck _ (List.mem_of_getElem? h0)
  simp only [Bool.and_eq_true, Bool.not_eq_true', List.isEmpty_eq_false_iff] at hsf
  obtain ⟨f, hf⟩ := List.exists_mem_of_ne_nil _ hsf.1
  have hfn : ∀ g ∈ functions sf, fragFn? g = true ∧ paramTypes? g = some [.int] := fun g hg => by
    simpa using List.all_eq_true.1 hsf.2 g hg
  have hparams : paramTypes? f = some [.int] := (hfn f hf).2
  have hfrag : FragFile sf := fun g hg => fragFn_of_check (hfn g hg).1
  have hparse := Except.eq_ok_of_toOption hp
  have hcomp := Except.eq_ok_of_toOption hc
  exact ⟨files, records, file, sf, f, hparse, hcomp, h0, hfrag, hf, hparams,
    compile_preserves_meaning hparse hcomp h0 hfrag hf hparams⟩

end ClassCompiler.Primitive
