import ClassCompiler.Build.Sources

/-!
# Where the bodies of a compiled program come from

The records of a compiled program take their bodies from one list, built by
two passes: the constructors generated for every struct, module and adapter
(`constructors`), and the queued method bodies (`compileJobs`). So every body
in the records is the code of a generated constructor (`constructorCode`) or
of a method compiled from its declaration (`compileMethod`), and a property
proved of the code of both holds of every body written:

* `classRecordOf_body`: a record's body is one of the bodies it was given;
* `constructors_body`, `compileJobs_body`: what each pass puts in the list;
* `compileProgram_body`, `SourceSet.compile_body`: every body written comes
  from `constructorCode` or `compileMethod`.
-/

namespace ClassCompiler

variable {ε ε' α β : Type}

theorem Except.bind_eq_ok {x : Except ε α} {g : α → Except ε β} {b : β} :
    x >>= g = .ok b ↔ ∃ a, x = .ok a ∧ g a = .ok b := by
  cases x <;> simp [bind, Except.bind]

theorem Except.mapError_eq_ok {x : Except ε α} {f : ε → ε'} {a : α} :
    x.mapError f = .ok a ↔ x = .ok a := by
  -- by reduction alone: unfolding `Except.mapError` with `simp` would make its
  -- equation lemmas here, which Mathlib already has
  cases x with
  | error e => exact iff_of_false (fun h => by cases h) (fun h => by cases h)
  | ok b => exact ⟨fun h => by cases h; rfl, fun h => by cases h; rfl⟩

theorem Except.pure_eq_ok {a b : α} : (pure a : Except ε α) = .ok b ↔ a = b := by
  simp [pure, Except.pure]

theorem Except.exists_ok_of_toBool {x : Except ε α} (h : x.toBool = true) : ∃ a, x = .ok a := by
  cases x with
  | error => cases h
  | ok a => exact ⟨a, rfl⟩

theorem Except.eq_ok_of_toOption {x : Except ε α} {a : α} (h : x.toOption = some a) : x = .ok a := by
  cases x with
  | error => cases h
  | ok b => cases h; rfl

/-- An element of a list numbered from zero stands at its number. -/
theorem List.zipIdx_eq_append {pre post : List (α × Nat)} {xs : List α} {a : α} {i : Nat}
    (h : xs.zipIdx = pre ++ (a, i) :: post) : i = pre.length ∧ xs[i]? = some a := by
  have hk := congrArg (·[pre.length]?) h
  simp only [List.getElem?_zipIdx, List.getElem?_append_right (Nat.le_refl _), Nat.sub_self,
    List.getElem?_cons_zero, Option.map_eq_some_iff, Prod.mk.injEq, Nat.zero_add] at hk
  obtain ⟨b, hb, rfl, rfl⟩ := hk
  exact ⟨rfl, hb⟩

/-- Each result of a successful `mapM` is the result of one of the elements. -/
theorem mapM_mem {f : α → Except ε β} :
    ∀ {xs : List α} {ys : List β}, xs.mapM f = .ok ys → ∀ y ∈ ys, ∃ x ∈ xs, f x = .ok y
  | [], ys, h, y, hy => by
    rw [List.mapM_nil, Except.pure_eq_ok] at h
    subst h
    cases hy
  | x :: xs, ys, h, y, hy => by
    rw [List.mapM_cons] at h
    obtain ⟨b, hb, h⟩ := Except.bind_eq_ok.1 h
    obtain ⟨bs, hbs, h⟩ := Except.bind_eq_ok.1 h
    rw [Except.pure_eq_ok] at h
    subst h
    rcases List.mem_cons.1 hy with rfl | hy
    · exact ⟨x, List.mem_cons_self, hb⟩
    · obtain ⟨x', hx', hf⟩ := mapM_mem hbs y hy
      exact ⟨x', List.mem_cons_of_mem _ hx', hf⟩

/-- Each result of a successful `flatMapM` is among the results of one of the
    elements. -/
theorem flatMapM_mem {f : α → Except ε (List β)} :
    ∀ {xs : List α} {ys : List β}, xs.flatMapM f = .ok ys → ∀ y ∈ ys, ∃ x ∈ xs, ∃ bs, f x = .ok bs ∧ y ∈ bs
  | [], ys, h, y, hy => by
    rw [List.flatMapM_nil, Except.pure_eq_ok] at h
    subst h
    cases hy
  | x :: xs, ys, h, y, hy => by
    rw [List.flatMapM_cons] at h
    obtain ⟨bs, hb, h⟩ := Except.bind_eq_ok.1 h
    obtain ⟨bs', hbs, h⟩ := Except.bind_eq_ok.1 h
    rw [Except.pure_eq_ok] at h
    subst h
    rcases List.mem_append.1 hy with hy | hy
    · exact ⟨x, List.mem_cons_self, bs, hb, hy⟩
    · obtain ⟨x', hx', bs'', hf, hy'⟩ := flatMapM_mem hbs y hy
      exact ⟨x', List.mem_cons_of_mem _ hx', bs'', hf, hy'⟩

/-! ### The passes -/

theorem bodyOf?_mem {bodies : List (MethodKey × Code)} {key : MethodKey} {code : Code}
    (h : bodyOf? bodies key = some code) : (key, code) ∈ bodies := by
  unfold bodyOf? at h
  obtain ⟨⟨k, code'⟩, hfind, rfl⟩ := Option.map_eq_some_iff.1 h
  have hk : k = key := by simpa using List.find?_some hfind
  subst hk
  exact List.mem_reverse.1 (List.mem_of_find?_eq_some hfind)

/-- A record's body is one of the bodies it was given. -/
theorem classRecordOf_body {bodies : List (MethodKey × Code)} {d : TypeDecl} {r : ClassRecord}
    (h : classRecordOf bodies d = .ok r) {m : MethodRecord} (hm : m ∈ r.methods) {code : Code}
    (hc : m.code = some code) : ∃ key, (key, code) ∈ bodies := by
  unfold classRecordOf at h
  obtain ⟨methods, hmethods, h⟩ := Except.bind_eq_ok.1 h
  rw [Except.pure_eq_ok] at h
  subst h
  obtain ⟨sig, -, hsig⟩ := mapM_mem hmethods m hm
  split at hsig
  · rw [Except.pure_eq_ok] at hsig
    subst hsig
    cases hc
  · dsimp only at hsig
    split at hsig
    · rename_i code' hbody
      rw [Except.pure_eq_ok] at hsig
      subst hsig
      cases hc
      exact ⟨_, bodyOf?_mem hbody⟩
    · cases hsig

/-- The constructors pass gives the code of generated constructors. -/
theorem constructors_body {t : ClassTable} {ctors : List (MethodKey × Code)} (h : constructors t = .ok ctors)
    {key : MethodKey} {code : Code} (hk : (key, code) ∈ ctors) :
    ∃ d ctor, constructorCode d ctor = .ok code := by
  obtain ⟨d, -, bs, hbs, hk⟩ := flatMapM_mem h _ hk
  obtain ⟨ctor, -, hctor⟩ := mapM_mem hbs _ hk
  split at hctor
  · rename_i code' hcode
    cases hctor
    exact ⟨d, ctor, hcode⟩
  · cases hctor

/-- The bodies pass gives the code of compiled methods. -/
theorem compileJobs_body {files : List (String × Syntax.SourceFile)} {opts : CompileOptions} {s : Structure}
    {bodies : List (MethodKey × Code)} (h : compileJobs files opts s = .ok bodies)
    {key : MethodKey} {code : Code} (hk : (key, code) ∈ bodies) :
    ∃ c decl, compileMethod c decl = .ok code := by
  obtain ⟨job, -, hjob⟩ := mapM_mem h _ hk
  obtain ⟨_, -, hjob⟩ := Except.bind_eq_ok.1 hjob
  obtain ⟨code', hcode, hjob⟩ := Except.bind_eq_ok.1 hjob
  rw [Except.pure_eq_ok] at hjob
  cases hjob
  exact ⟨_, _, Except.mapError_eq_ok.1 hcode⟩

/-- Every body written for a program is the code of a compiled method or of a
    generated constructor. -/
theorem compileProgram_body {files : List (String × Syntax.SourceFile)} {opts : CompileOptions}
    {records : List ClassRecord} (h : compileProgram files opts = .ok records)
    {r : ClassRecord} (hr : r ∈ records) {m : MethodRecord} (hm : m ∈ r.methods) {code : Code}
    (hc : m.code = some code) :
    (∃ c decl, compileMethod c decl = .ok code) ∨ ∃ d ctor, constructorCode d ctor = .ok code := by
  unfold compileProgram at h
  obtain ⟨s, -, h⟩ := Except.bind_eq_ok.1 h
  obtain ⟨ctors, hctors, h⟩ := Except.bind_eq_ok.1 h
  obtain ⟨bodies, hbodies, h⟩ := Except.bind_eq_ok.1 h
  obtain ⟨d, -, hd⟩ := mapM_mem h r hr
  obtain ⟨key, hk⟩ := classRecordOf_body hd hm hc
  rcases List.mem_append.1 hk with hk | hk
  · exact .inr (constructors_body hctors hk)
  · exact .inl (compileJobs_body hbodies hk)

/-- Every body written for a source set is the code of a compiled method or of
    a generated constructor. -/
theorem SourceSet.compile_body {src : SourceSet} {records : List ClassRecord} (h : src.compile = .ok records)
    {r : ClassRecord} (hr : r ∈ records) {m : MethodRecord} (hm : m ∈ r.methods) {code : Code}
    (hc : m.code = some code) :
    (∃ c decl, compileMethod c decl = .ok code) ∨ ∃ d ctor, constructorCode d ctor = .ok code := by
  unfold SourceSet.compile at h
  obtain ⟨files, -, h⟩ := Except.bind_eq_ok.1 h
  exact compileProgram_body h hr hm hc

end ClassCompiler
