import ClassCompiler.Proofs.Codegen.Faults
import ClassCompiler.Proofs.Parsing.Names

/-!
# A build fails only for a fault of its sources

A build stops at its first error: the parse errors of a file, a registration
error, or a compilation error. Among compilation errors, `internal` ones report
a broken invariant of the compiler itself, never a fault of the sources, and
none is ever reported. The structural pass leaves every method of every
declaration with the place its body comes from (`Structure.WellFormed`), and
each pass after it finds there what it looks for:

* `constructorCode_ok`: a constructor whose parameters fit the fields is
  generated;
* `Structure.WellFormed.constructors_ok`: so is every constructor of the
  table, since no function of a parsed file is named `<init>`;
* `Structure.WellFormed.compileJobs_fault`: every queued body finds its
  method, and fails only with a fault of its code;
* `Structure.WellFormed.has_body`: every method that is not abstract has a
  body, generated or compiled;
* `SourceSet.compile_never_internal`: the whole build.
-/

namespace ClassCompiler

open Syntax

/-! ### Loops in `Except` that cannot fail -/

section Lists

variable {α β ε ε' : Type}

theorem Except.mapError_eq_error {x : Except ε α} {f : ε → ε'} {e : ε'} :
    x.mapError f = .error e ↔ ∃ e', x = .error e' ∧ f e' = e := by
  cases x <;> simp [Except.mapError]

theorem mapM_ok_of_forall {f : α → Except ε β} :
    ∀ {xs : List α}, (∀ x ∈ xs, ∃ y, f x = .ok y) → ∃ ys, xs.mapM f = .ok ys
  | [], _ => ⟨[], rfl⟩
  | x :: xs, h => by
    obtain ⟨y, hy⟩ := h x List.mem_cons_self
    obtain ⟨ys, hys⟩ := mapM_ok_of_forall fun x' hx' => h x' (List.mem_cons_of_mem _ hx')
    exact ⟨y :: ys, by rw [List.mapM_cons, hy, hys]; rfl⟩

/-- Every element of a successful `mapM` has its result among the results. -/
theorem mapM_ok_mem {f : α → Except ε β} :
    ∀ {xs : List α} {ys : List β}, xs.mapM f = .ok ys → ∀ x ∈ xs, ∃ y ∈ ys, f x = .ok y
  | [], _, _, _, hx => by cases hx
  | x :: xs, ys, h, x', hx' => by
    rw [List.mapM_cons] at h
    obtain ⟨b, hb, h⟩ := Except.bind_eq_ok.1 h
    obtain ⟨bs, hbs, h⟩ := Except.bind_eq_ok.1 h
    rw [Except.pure_eq_ok] at h
    subst h
    rcases List.mem_cons.1 hx' with rfl | hx'
    · exact ⟨b, List.mem_cons_self, hb⟩
    · obtain ⟨y, hy, hf⟩ := mapM_ok_mem hbs x' hx'
      exact ⟨y, List.mem_cons_of_mem _ hy, hf⟩

/-- A failed `mapM` failed at one of the elements. -/
theorem mapM_error {f : α → Except ε β} :
    ∀ {xs : List α} {e : ε}, xs.mapM f = .error e → ∃ x ∈ xs, f x = .error e
  | [], _, h => by cases h
  | x :: xs, e, h => by
    rw [List.mapM_cons] at h
    rcases Except.bind_eq_error.1 h with hx | ⟨b, -, h⟩
    · exact ⟨x, List.mem_cons_self, hx⟩
    rcases Except.bind_eq_error.1 h with hxs | ⟨bs, -, h⟩
    · obtain ⟨x', hx', hf⟩ := mapM_error hxs
      exact ⟨x', List.mem_cons_of_mem _ hx', hf⟩
    · cases h

theorem flatMapM_ok_of_forall {f : α → Except ε (List β)} :
    ∀ {xs : List α}, (∀ x ∈ xs, ∃ ys, f x = .ok ys) → ∃ ys, xs.flatMapM f = .ok ys
  | [], _ => ⟨[], rfl⟩
  | x :: xs, h => by
    obtain ⟨y, hy⟩ := h x List.mem_cons_self
    obtain ⟨ys, hys⟩ := flatMapM_ok_of_forall fun x' hx' => h x' (List.mem_cons_of_mem _ hx')
    exact ⟨y ++ ys, by rw [List.flatMapM_cons, hy, hys]; rfl⟩

/-- Every element of a successful `flatMapM` has its results among the results. -/
theorem flatMapM_ok_mem {f : α → Except ε (List β)} :
    ∀ {xs : List α} {ys : List β}, xs.flatMapM f = .ok ys → ∀ x ∈ xs, ∃ bs, f x = .ok bs ∧ bs ⊆ ys
  | [], _, _, _, hx => by cases hx
  | x :: xs, ys, h, x', hx' => by
    rw [List.flatMapM_cons] at h
    obtain ⟨bs, hb, h⟩ := Except.bind_eq_ok.1 h
    obtain ⟨bs', hbs, h⟩ := Except.bind_eq_ok.1 h
    rw [Except.pure_eq_ok] at h
    subst h
    rcases List.mem_cons.1 hx' with rfl | hx'
    · exact ⟨bs, hb, List.subset_append_left _ _⟩
    · obtain ⟨cs, hf, hcs⟩ := flatMapM_ok_mem hbs x' hx'
      exact ⟨cs, hf, fun _ hy => List.subset_append_right _ _ (hcs hy)⟩

/-- A computation that succeeds with `P`, followed by one that succeeds from
    every value with `P`, succeeds. -/
theorem Except.bind_ok_of {x : Except ε α} {g : α → Except ε β} {P : α → Prop} (hx : ∃ a, x = .ok a ∧ P a)
    (hg : ∀ a, P a → ∃ c, g a = .ok c) : ∃ c, x >>= g = .ok c := by
  obtain ⟨a, rfl, ha⟩ := hx
  exact hg a ha

/-- A loop each of whose rounds succeeds and goes on, keeping `I`, succeeds
    and ends in a state with `I`. -/
theorem Except.forIn_yield {xs : List α} {f : α → β → Except ε (ForInStep β)} (I : β → Prop)
    (hf : ∀ x ∈ xs, ∀ b, I b → ∃ b', f x b = .ok (.yield b') ∧ I b') :
    ∀ {b}, I b → ∃ b', forIn xs b f = .ok b' ∧ I b' := by
  induction xs with
  | nil => exact fun hb => ⟨_, rfl, hb⟩
  | cons x xs ih =>
    intro b hb
    obtain ⟨b', hb', hI⟩ := hf x List.mem_cons_self b hb
    rw [List.forIn_cons, hb']
    exact ih (fun x' hx' => hf x' (List.mem_cons_of_mem _ hx')) hI

end Lists

/-! ### Constructors -/

/-- A constructor whose parameters have the types of the instance fields is
    generated: no field is found mismatched, and its code has no jumps. -/
theorem constructorCode_ok {d : TypeDecl} {ctor : MethodSig} (h : CtorFits d ctor) :
    ∃ code, constructorCode d ctor = .ok code := by
  unfold constructorCode
  dsimp only
  -- each round stores a parameter into its field, and the code only grows by
  -- plain instructions
  refine Except.bind_ok_of (Except.forIn_yield (fun r : Emitter × Nat => (Emitter.new false).Confined r.1)
    ?_ ((Emitter.Confined.load _ _).trans (Emitter.Confined.invoke _ _ _ _))) fun r hconf =>
    ⟨_, Emitter.finish_of_confined (hconf.trans (Emitter.Confined.emit _)) _⟩
  intro x hx r hr
  have hty : (x.1.ty != x.2) = false := by simp [h x hx]
  rw [if_neg (by simp [hty])]
  exact ⟨_, rfl, hr.trans (((Emitter.Confined.load _ _).trans (Emitter.Confined.load _ _)).trans
    (Emitter.Confined.field _ _ _ _))⟩

/-- The generated constructors, when they are all generated, hold the body of
    every constructor of every struct, module and adapter written out. -/
theorem constructors_mem {t : ClassTable} {ctors : List (MethodKey × Code)} (h : constructors t = .ok ctors)
    {d : TypeDecl} (hd : d ∈ t.emitted) (hi : (d.isInstantiable || d.adapter.isSome) = true)
    {m : MethodSig} (hm : m ∈ d.methods) (hc : m.isConstructor = true) :
    ∃ code, (MethodKey.of d.name m, code) ∈ ctors := by
  obtain ⟨bs, hbs, hsub⟩ := flatMapM_ok_mem h d (List.mem_filter.2 ⟨hd, hi⟩)
  obtain ⟨y, hy, hf⟩ := mapM_ok_mem hbs m (List.mem_filter.2 ⟨hm, hc⟩)
  split at hf
  · cases hf
    exact ⟨_, hsub hy⟩
  · cases hf

theorem bodyOf?_of_mem {bodies : List (MethodKey × Code)} {key : MethodKey} {code : Code}
    (h : (key, code) ∈ bodies) : ∃ code', bodyOf? bodies key = some code' := by
  have hsome : (bodies.reverse.find? (·.1 == key)).isSome :=
    List.find?_isSome.2 ⟨(key, code), List.mem_reverse.2 h, by simp⟩
  obtain ⟨⟨k, c⟩, hfind⟩ := Option.isSome_iff_exists.1 hsome
  exact ⟨c, by rw [bodyOf?, hfind]; rfl⟩

/-- A record is made of every declaration each of whose methods that is not
    abstract has a body. -/
theorem classRecordOf_ok {bodies : List (MethodKey × Code)} {d : TypeDecl}
    (h : ∀ m ∈ d.methods, m.isAbstract = false → ∃ code, (MethodKey.of d.name m, code) ∈ bodies) :
    ∃ r, classRecordOf bodies d = .ok r := by
  unfold classRecordOf
  refine Except.bind_ok_of (P := fun _ => True) ((mapM_ok_of_forall ?_).imp fun _ h => ⟨h, trivial⟩)
    fun _ _ => ⟨_, rfl⟩
  intro m hm
  split
  · exact ⟨_, rfl⟩
  · rename_i ha
    obtain ⟨code, hcode⟩ := h m hm (by simpa using ha)
    obtain ⟨code', hcode'⟩ := bodyOf?_of_mem hcode
    dsimp only
    rw [hcode']
    exact ⟨_, rfl⟩

/-! ### What the structural pass promises the passes after it -/

namespace Structure.WellFormed

variable {fns : List FnDecl} {s : Structure}

/-- A declaration written out is one of the table, and declared. -/
theorem emitted_declared (hw : s.WellFormed fns) {d : TypeDecl} (hd : d ∈ s.table.emitted) :
    d ∈ s.table.decls ∧ Declared s.jobs d := by
  simp only [ClassTable.emitted, List.mem_filter, Array.mem_toList_iff, bne_iff_ne, ne_eq] at hd
  exact ⟨hd.1, (hw.declared d hd.1).resolve_left hd.2⟩

/-- A constructor of a struct, module or adapter fits its fields: it is not
    abstract in a trait, and no function of the sources, whose body a job
    compiles, is named as constructors are. -/
theorem ctorFits (hw : s.WellFormed fns) (hnamed : ∀ f ∈ fns, f.Named) {d : TypeDecl}
    (hd : Declared s.jobs d) (hi : (d.isInstantiable || d.adapter.isSome) = true) {m : MethodSig}
    (hm : m ∈ d.methods) (hc : m.isConstructor = true) : CtorFits d m := by
  rcases hd.method m hm with ⟨-, htrait⟩ | ⟨-, -, hfits⟩ | ⟨j, hj, -, hname⟩
  · -- a trait is neither instantiable nor an adapter
    have hplain := hd.trait_plain htrait
    simp [TypeDecl.isInstantiable, htrait, hplain] at hi
  · exact hfits
  · have hne := (hnamed _ (hw.jobs j hj).1).ne_constructorName
    simp only [MethodSig.isConstructor, beq_iff_eq] at hc
    exact absurd (hname.trans hc) hne

/-- Every constructor of the table is generated. -/
theorem constructors_ok (hw : s.WellFormed fns) (hnamed : ∀ f ∈ fns, f.Named) :
    ∃ ctors, constructors s.table = .ok ctors := by
  unfold constructors
  refine flatMapM_ok_of_forall fun d hd => ?_
  obtain ⟨hd, hi⟩ := List.mem_filter.1 hd
  refine mapM_ok_of_forall fun m hm => ?_
  obtain ⟨hm, hc⟩ := List.mem_filter.1 hm
  obtain ⟨code, hcode⟩ := constructorCode_ok (hw.ctorFits hnamed (hw.emitted_declared hd).2 hi hm hc)
  exact ⟨(MethodKey.of d.name m, code), by rw [hcode]⟩

/-- Every queued body finds the declaration and signature of its method. -/
theorem lookupMethod_ok (hw : s.WellFormed fns) {j : BodyJob} (hj : j ∈ s.jobs) :
    ∃ r, lookupMethod s.table j.key = .ok r := by
  obtain ⟨-, d, hd, m, hm, hkey⟩ := hw.jobs j hj
  have hget : s.table.get? j.key.owner = some d :=
    (ClassTable.get?_eq_some_iff hw.distinct).2 ⟨hd, by rw [← hkey]; rfl⟩
  have hfind : (d.methods.find? fun m' => m'.name == j.key.name && m'.descriptor == j.key.descriptor).isSome :=
    List.find?_isSome.2 ⟨m, hm, by simp [← hkey, MethodKey.of]⟩
  obtain ⟨m', hm'⟩ := Option.isSome_iff_exists.1 hfind
  exact ⟨(d, m'), by simp [lookupMethod, hget, hm']⟩

/-- The bodies pass fails only with a compilation error that is a fault of a
    method's code. -/
theorem compileJobs_fault (hw : s.WellFormed fns) {files : List (String × SourceFile)} {opts : CompileOptions}
    {e : BuildError} (h : compileJobs files opts s = .error e) :
    ∃ file c, e = .compilation file c ∧ c.IsFault := by
  obtain ⟨j, hj, hfail⟩ := mapM_error h
  obtain ⟨r, hr⟩ := hw.lookupMethod_ok hj
  dsimp only at hfail
  rcases Except.bind_eq_error.1 hfail with hlook | ⟨_, -, hfail⟩
  · rw [hr] at hlook
    cases hlook
  rcases Except.bind_eq_error.1 hfail with hcode | ⟨_, -, hfail⟩
  · obtain ⟨c, hc, rfl⟩ := Except.mapError_eq_error.1 hcode
    exact ⟨_, c, rfl, compileMethod_fault hc⟩
  · cases hfail

/-- The bodies pass gives a body for every queued job. -/
theorem compileJobs_mem {files : List (String × SourceFile)} {opts : CompileOptions}
    {bodies : List (MethodKey × Code)} (h : compileJobs files opts s = .ok bodies) {j : BodyJob} (hj : j ∈ s.jobs) :
    ∃ code, (j.key, code) ∈ bodies := by
  obtain ⟨y, hy, hf⟩ := mapM_ok_mem h j hj
  dsimp only at hf
  obtain ⟨_, -, hf⟩ := Except.bind_eq_ok.1 hf
  obtain ⟨code, -, hf⟩ := Except.bind_eq_ok.1 hf
  rw [Except.pure_eq_ok] at hf
  subst hf
  exact ⟨code, hy⟩

/-- Every method that is not abstract, of a declaration written out, has a
    body: a generated constructor, or the code of a queued job. -/
theorem has_body (hw : s.WellFormed fns) {ctors bodies : List (MethodKey × Code)}
    (hc : constructors s.table = .ok ctors) {files : List (String × SourceFile)} {opts : CompileOptions}
    (hb : compileJobs files opts s = .ok bodies) {d : TypeDecl} (hd : d ∈ s.table.emitted)
    {m : MethodSig} (hm : m ∈ d.methods) (ha : m.isAbstract = false) :
    ∃ code, (MethodKey.of d.name m, code) ∈ ctors ++ bodies := by
  rcases (hw.emitted_declared hd).2.method m hm with ⟨habs, -⟩ | ⟨hcon, hi, -⟩ | ⟨j, hj, hkey, -⟩
  · rw [ha] at habs
    cases habs
  · obtain ⟨code, hcode⟩ := constructors_mem hc hd hi hm hcon
    exact ⟨code, List.mem_append_left _ hcode⟩
  · obtain ⟨code, hcode⟩ := compileJobs_mem hb hj
    rw [hkey] at hcode
    exact ⟨code, List.mem_append_right _ hcode⟩

end Structure.WellFormed

/-! ### Builds -/

/-- A program whose functions are named by identifiers compiles, or fails with
    a registration error or a compilation error that is a fault of its code. -/
theorem compileProgram_fault {files : List (String × SourceFile)} {opts : CompileOptions} {e : BuildError}
    (hnamed : ∀ f ∈ files.flatMap (fun x => x.2.functions), f.Named) (h : compileProgram files opts = .error e) :
    (∃ file r, e = .registration file r) ∨ ∃ file c, e = .compilation file c ∧ c.IsFault := by
  unfold compileProgram at h
  rcases Except.bind_eq_error.1 h with hs | ⟨s, hs, h⟩
  · obtain ⟨r, -, rfl⟩ := Except.mapError_eq_error.1 hs
    exact .inl ⟨_, _, rfl⟩
  have hw := buildStructure_ok (Except.mapError_eq_ok.1 hs)
  rcases Except.bind_eq_error.1 h with hc | ⟨ctors, hc, h⟩
  · obtain ⟨_, hok⟩ := hw.constructors_ok hnamed
    rw [hok] at hc
    cases hc
  rcases Except.bind_eq_error.1 h with hb | ⟨bodies, hb, h⟩
  · exact .inr (hw.compileJobs_fault hb)
  -- every declaration written out gets its record
  obtain ⟨d, hd, hrec⟩ := mapM_error h
  obtain ⟨r, hr⟩ := classRecordOf_ok fun m hm ha => hw.has_body hc hb hd hm ha
  rw [hr] at hrec
  cases hrec

/-- The functions of parsed source files are named by identifiers. -/
theorem SourceSet.parseAll_named {src : SourceSet} {files : List (String × SourceFile)}
    (h : src.parseAll = .ok files) : ∀ f ∈ files.flatMap (fun x => x.2.functions), f.Named := by
  intro f hf
  obtain ⟨⟨name, file⟩, hfile, hf⟩ := List.mem_flatMap.1 hf
  obtain ⟨st, -, hst⟩ := mapM_mem h _ hfile
  split at hst
  · rename_i hparse
    cases hst
    exact parse_functions_named hparse f hf
  · cases hst

/-- A build fails with the parse errors of a file, a registration error, or a
    compilation error that is a fault of the sources. -/
theorem SourceSet.compile_error {src : SourceSet} {e : BuildError} (h : src.compile = .error e) :
    (∃ file es, e = .parse file es) ∨ (∃ file r, e = .registration file r) ∨
      ∃ file c, e = .compilation file c ∧ c.IsFault := by
  unfold SourceSet.compile at h
  rcases Except.bind_eq_error.1 h with hp | ⟨files, hp, h⟩
  · obtain ⟨st, -, hst⟩ := mapM_error hp
    split at hst
    · cases hst
    · cases hst
      exact .inl ⟨_, _, rfl⟩
  · exact .inr (compileProgram_fault (SourceSet.parseAll_named hp) h)

end ClassCompiler
