import ClassCompiler.Proofs.Build.Bodies

/-!
# Declarations as the structural pass makes them

Each declaration of a file becomes a class declaration in a few steps (its
fields, then the constructor taking them, then a method per function), and the
pass queues a body job for every function. This module says what each step
makes, and what one declaration of a file adds to the pass.

* `TypeDecl.addField_ok`, `TypeDecl.addMethod_ok`, `FilePass.addFields_ok`,
  `FilePass.addBodies_ok`: what a successful step appends;
* `Declared jobs d`: every method of `d` is abstract in a trait, or the
  constructor made for the fields of a struct, module or adapter, or a
  function queued in `jobs` under the method's own name;
* `AdapterShape p d`: `d` is the adapter of the impl `p`: named after its trait
  and struct, implementing the trait, holding the struct in its one field
  `wrapped`, with a constructor taking it;
* `FilePass.Inv`: what the pass over one file keeps, declaration after
  declaration (`FilePass.item_inv`), so over the whole file
  (`FilePass.items_inv`).
-/

namespace ClassCompiler

open Syntax

/-! ### One step at a time -/

namespace TypeDecl

variable {d d' : TypeDecl}

theorem addField_ok {f : FieldDecl} :
    d.addField f = .ok d' ↔ d.field? f.name = none ∧ d' = { d with fields := d.fields ++ [f] } := by
  unfold addField
  split
  · rename_i h
    exact iff_of_false (fun h' => by cases h') fun h' => by simp [h'.1] at h
  · rename_i h
    simp only [Option.isSome_iff_ne_none, ne_eq, Decidable.not_not] at h
    exact ⟨fun h' => by cases h'; exact ⟨h, rfl⟩, fun h' => h'.2 ▸ rfl⟩

theorem addMethod_ok {m : MethodSig} :
    d.addMethod m = .ok d' ↔ d.methods.any (·.sameSignature m) = false ∧
      d' = { d with methods := d.methods ++ [m] } := by
  unfold addMethod
  split
  · rename_i h
    exact iff_of_false (fun h' => by cases h') fun h' => by simp [h'.1] at h
  · rename_i h
    exact ⟨fun h' => by cases h'; exact ⟨by simpa using h, rfl⟩, fun h' => h'.2 ▸ rfl⟩

end TypeDecl

namespace FilePass

variable {fp fp' : FilePass} {d d' : TypeDecl}

/-- The field a field declaration of a struct or module makes. -/
def fieldDecl (fp : FilePass) (f : Field) : FieldDecl :=
  ⟨f.name.name, fp.resolver.resolve f.ty, false, f.span⟩

/-- The constructor of a struct or module with the fields `fs`: it takes their
    values in order, then the marker. -/
def fieldsConstructor (fs : List FieldDecl) (span : Span) : MethodSig :=
  { MethodSig.constructor (fs.map (·.ty) ++ [.obj voidMarkerClass]) with span := span }

/-- The job queued for the function `f`, a method `sig` of the class `owner`. -/
def jobOf (fp : FilePass) (owner : String) (sig : MethodSig) (f : FnDecl) : BodyJob :=
  ⟨MethodKey.of owner sig, fp.unit, f⟩

@[simp] theorem newDecl_name (n : String) (k : ClassKind) (sp : Span) : (fp.newDecl n k sp).name = n := rfl
@[simp] theorem newDecl_kind (n : String) (k : ClassKind) (sp : Span) : (fp.newDecl n k sp).kind = k := rfl
@[simp] theorem newDecl_fields (n : String) (k : ClassKind) (sp : Span) : (fp.newDecl n k sp).fields = [] := rfl
@[simp] theorem newDecl_methods (n : String) (k : ClassKind) (sp : Span) :
    (fp.newDecl n k sp).methods = [] := rfl
@[simp] theorem newDecl_adapter (n : String) (k : ClassKind) (sp : Span) :
    (fp.newDecl n k sp).adapter = none := rfl
@[simp] theorem newDecl_span (n : String) (k : ClassKind) (sp : Span) : (fp.newDecl n k sp).span = sp := rfl

@[simp] theorem signature_name (s : Sig) (isStatic : Bool) : (fp.signature s isStatic).name = s.name.name := rfl

/-- Methods added one after the other, none refused. -/
theorem foldlM_addMethod {α : Type} {g : α → MethodSig} :
    ∀ {ms : List α} {d d' : TypeDecl}, ms.foldlM (fun d s => d.addMethod (g s)) d = .ok d' →
      d' = { d with methods := d.methods ++ ms.map g }
  | [], d, d', h => by cases h; simp
  | s :: ms, d, d', h => by
    rw [List.foldlM_cons] at h
    obtain ⟨d₁, h₁, h⟩ := Except.bind_eq_ok.1 h
    obtain ⟨-, rfl⟩ := TypeDecl.addMethod_ok.1 h₁
    rw [foldlM_addMethod h]
    simp

/-- The loop of `addFields`, for any step that appends the field and collects
    its type: the fields appended in order, and their types collected. -/
theorem addFields_loop {fields : List Field}
    {g : Field → TypeDecl × Array Ty → Except RegistrationError (ForInStep (TypeDecl × Array Ty))}
    (hg : ∀ f s r, g f s = .ok r →
      ∃ d', s.1.addField (fp.fieldDecl f) = .ok d' ∧ r = .yield (d', s.2.push (fp.fieldDecl f).ty)) :
    ∀ {d : TypeDecl} {params : Array Ty} {r : TypeDecl × Array Ty},
      forIn fields (d, params) g = .ok r →
      r.1 = { d with fields := d.fields ++ fields.map fp.fieldDecl } ∧
        r.2.toList = params.toList ++ (fields.map fp.fieldDecl).map (·.ty) := by
  induction fields with
  | nil =>
    intro d params r h
    cases h
    simp
  | cons f fields ih =>
    intro d params r h
    rw [List.forIn_cons] at h
    obtain ⟨step, hstep, h⟩ := Except.bind_eq_ok.1 h
    obtain ⟨d₁, hd₁, rfl⟩ := hg f _ _ hstep
    obtain ⟨-, rfl⟩ := TypeDecl.addField_ok.1 hd₁
    obtain ⟨h₁, h₂⟩ := ih h
    exact ⟨by rw [h₁]; simp, by rw [h₂]; simp⟩

/-- The fields are appended, then their constructor. -/
theorem addFields_ok {fields : List Field} (h : fp.addFields d fields = .ok d') :
    d' = { d with fields := d.fields ++ fields.map fp.fieldDecl,
                  methods := d.methods ++ [fieldsConstructor (fields.map fp.fieldDecl) d.span] } := by
  unfold addFields at h
  obtain ⟨r, hr, h⟩ := Except.bind_eq_ok.1 h
  obtain ⟨h₁, h₂⟩ := addFields_loop (fun f s r hs => by
    obtain ⟨d', hd', hs⟩ := Except.bind_eq_ok.1 hs
    exact ⟨d', hd', (Except.pure_eq_ok.1 hs).symm⟩) hr
  obtain ⟨-, rfl⟩ := TypeDecl.addMethod_ok.1 h
  rw [h₁]
  simp only [fieldsConstructor, MethodSig.constructor, MethodSig.instanceMethod, Array.toList_push, h₂]
  simp

theorem addBody_ok {f : FnDecl} {isStatic : Bool} :
    fp.addBody d f isStatic = .ok (fp', d') ↔
      d.addMethod (fp.signature f.sig isStatic) = .ok d' ∧
        fp' = { fp with jobs := fp.jobs.push (fp.jobOf d.name (fp.signature f.sig isStatic) f) } := by
  unfold addBody
  constructor
  · intro h
    obtain ⟨d₁, h₁, h⟩ := Except.bind_eq_ok.1 h
    cases Except.pure_eq_ok.1 h
    exact ⟨h₁, rfl⟩
  · rintro ⟨h₁, rfl⟩
    exact Except.bind_eq_ok.2 ⟨d', h₁, rfl⟩

/-- Each function becomes a method, in order, and a job for its body. -/
theorem addBodies_ok {fs : List FnDecl} :
    ∀ {fp fp' : FilePass} {d d' : TypeDecl}, fp.addBodies d fs = .ok (fp', d') →
      d' = { d with methods := d.methods ++ fs.map (fp.signature ·.sig false) } ∧
      fp' = { fp with jobs := fp.jobs ++ (fs.map fun f => fp.jobOf d.name (fp.signature f.sig false) f).toArray } := by
  induction fs with
  | nil =>
    intro fp fp' d d' h
    cases h
    simp
  | cons f fs ih =>
    intro fp fp' d d' h
    unfold addBodies at h
    rw [List.foldlM_cons] at h
    obtain ⟨⟨fp₁, d₁⟩, h₁, h⟩ := Except.bind_eq_ok.1 h
    obtain ⟨hd₁, rfl⟩ := addBody_ok.1 h₁
    obtain ⟨-, rfl⟩ := TypeDecl.addMethod_ok.1 hd₁
    obtain ⟨rfl, rfl⟩ := ih h
    -- the pass after the first function has the same resolver and unit
    constructor
    · simp [signature]
    · simp [jobOf, signature]

end FilePass

/-! ### What the pass promises of a declaration -/

/-- The functions with bodies a declaration defines. -/
def Syntax.Item.functions : Item → List FnDecl
  | .moduleDecl _ _ methods _ => methods
  | .implDecl _ _ methods _ => methods
  | .fnDecl f => [f]
  | _ => []

/-- The constructor `m` can be generated for `d`: its parameters, the marker
    left out, have the types of the instance fields of `d`, position by
    position. -/
def CtorFits (d : TypeDecl) (m : MethodSig) : Prop :=
  ∀ p ∈ (d.fields.filter (!·.isStatic)).zip m.sourceParams, p.1.ty = p.2

/-- The body of the method `m` of `d` is queued in `jobs`, compiled from a
    function of the method's name. -/
def HasJob (jobs : List BodyJob) (d : TypeDecl) (m : MethodSig) : Prop :=
  ∃ j ∈ jobs, j.key = MethodKey.of d.name m ∧ j.decl.sig.name.name = m.name

/-- Where each method of `d` gets its body: it is abstract in a trait, or a
    constructor generated for the fields of a struct, module or adapter, or a
    job of `jobs` compiles it. -/
structure Declared (jobs : List BodyJob) (d : TypeDecl) : Prop where
  trait_plain : d.kind = .trait → d.adapter = none
  method : ∀ m ∈ d.methods, (m.isAbstract = true ∧ d.kind = .trait) ∨
    (m.isConstructor = true ∧ (d.isInstantiable || d.adapter.isSome) = true ∧ CtorFits d m) ∨
    HasJob jobs d m

/-- The job `j` is for a method of `d`. -/
def Owns (d : TypeDecl) (j : BodyJob) : Prop := ∃ m ∈ d.methods, MethodKey.of d.name m = j.key

/-- `d` is the adapter of the impl `p`: the class `T$S` of its trait `T` and
    struct `S`, implementing `T`, with the one field `wrapped` of type `S` and a
    constructor taking an `S`. -/
structure AdapterShape (p : PendingImpl) (d : TypeDecl) : Prop where
  kind : d.kind = .adapter
  name : d.name = p.adapter
  adapter_name : p.adapter = adapterName p.traitName p.structName
  info : d.adapter = some ⟨p.traitName, p.structName⟩
  interfaces : d.interfaces = [p.traitName]
  fields : d.fields = [⟨wrappedField, .obj p.structName, false, p.span⟩]
  ctor : { MethodSig.constructor [.obj p.structName] with span := p.span } ∈ d.methods

section Promises

variable {J J' : List BodyJob} {d : TypeDecl} {m : MethodSig} {ms : List MethodSig}

theorem HasJob.mono (h : HasJob J d m) (hJ : J ⊆ J') : HasJob J' d m :=
  let ⟨j, hj, hk⟩ := h
  ⟨j, hJ hj, hk⟩

theorem Declared.mono (h : Declared J d) (hJ : J ⊆ J') : Declared J' d where
  trait_plain := h.trait_plain
  method m hm := (h.method m hm).imp_right (Or.imp_right fun hj => hj.mono hJ)

/-- Methods appended with their jobs keep a declaration declared. -/
theorem Declared.append (h : Declared J d) (hJ : J ⊆ J') (hms : ∀ m ∈ ms, HasJob J' d m) :
    Declared J' { d with methods := d.methods ++ ms } where
  trait_plain := h.trait_plain
  method m hm := by
    rcases List.mem_append.1 hm with hm | hm
    · exact (h.method m hm).imp_right (Or.imp_right fun hj => hj.mono hJ)
    · exact .inr (.inr (hms m hm))

theorem AdapterShape.append {p : PendingImpl} (h : AdapterShape p d) :
    AdapterShape p { d with methods := d.methods ++ ms } where
  kind := h.kind
  name := h.name
  adapter_name := h.adapter_name
  info := h.info
  interfaces := h.interfaces
  fields := h.fields
  ctor := List.mem_append_left _ h.ctor

end Promises

/-! ### Constructors -/

section Constructors

variable {d : TypeDecl}

@[simp] theorem fieldsConstructor_isConstructor (fs : List FieldDecl) (sp : Span) :
    (FilePass.fieldsConstructor fs sp).isConstructor = true := rfl

/-- The constructor made for fields takes their values, its marker left out. -/
theorem fieldsConstructor_sourceParams (fs : List FieldDecl) (sp : Span) :
    (FilePass.fieldsConstructor fs sp).sourceParams = fs.map (·.ty) := by
  simp [MethodSig.sourceParams, FilePass.fieldsConstructor, MethodSig.constructor,
    MethodSig.instanceMethod, MethodSig.isConstructor]

/-- The constructor made for the instance fields of a declaration fits them. -/
theorem ctorFits_fieldsConstructor (hs : ∀ f ∈ d.fields, f.isStatic = false) (sp : Span) :
    CtorFits d (FilePass.fieldsConstructor d.fields sp) := by
  rw [CtorFits, fieldsConstructor_sourceParams, List.filter_eq_self.2 (by simpa using hs)]
  have hzip : d.fields.zip (d.fields.map (·.ty)) = d.fields.map fun f => (f, f.ty) := by
    simpa using List.zip_map' (f := id) (g := (·.ty)) (l := d.fields)
  intro p hp
  rw [hzip, List.mem_map] at hp
  obtain ⟨f, -, rfl⟩ := hp
  rfl

/-- The constructor of an adapter fits its one field, whatever the wrapped type. -/
theorem ctorFits_adapter {st : Ty} {sp sp' : Span} (hf : d.fields = [⟨wrappedField, st, false, sp⟩]) :
    CtorFits d { MethodSig.constructor [st] with span := sp' } := by
  intro p hp
  rw [hf] at hp
  -- the constructor's one parameter is the wrapped type, unless that type is the
  -- marker, when no parameter is left to store
  simp only [MethodSig.sourceParams, MethodSig.constructor, MethodSig.instanceMethod,
    List.getLast?_singleton] at hp
  split at hp
  · rename_i n _
    by_cases hn : n = voidMarkerClass <;> simp_all [MethodSig.isConstructor]
  · simp_all

end Constructors

/-! ### The pass over a file -/

namespace FilePass

variable {J₀ : List BodyJob} {P₀ : List PendingImpl} {fns : List FnDecl} {fp fp' : FilePass}
  {d : TypeDecl}

/-- What the pass over a file keeps, given the jobs `J₀` and impls `P₀` of the
    files before it and the functions `fns` of the file: the declarations made
    are declared and none is an adapter; each adapter is declared and is that of
    an impl, and each impl of this file has its adapter; each new job is for a
    function of the file and a method of a declaration made; and the holder,
    once made, stands among the declarations. -/
structure Inv (J₀ : List BodyJob) (P₀ : List PendingImpl) (fns : List FnDecl) (fp : FilePass) :
    Prop where
  jobs_prefix : J₀ <+: fp.jobs.toList
  pending_prefix : P₀ <+: fp.pending.toList
  decls : ∀ d ∈ fp.decls, Declared fp.jobs.toList d ∧ d.kind ≠ .adapter
  adapters : ∀ d ∈ fp.adapters, Declared fp.jobs.toList d ∧ ∃ p ∈ fp.pending, AdapterShape p d
  pending : ∀ p ∈ fp.pending, p ∈ P₀ ∨ ∃ d ∈ fp.adapters, AdapterShape p d
  jobs : ∀ j ∈ fp.jobs, j ∈ J₀ ∨ j.decl ∈ fns ∧ ∃ d ∈ fp.decls.toList ++ fp.adapters.toList, Owns d j
  holder : ∀ pos, fp.holderAt = some pos → pos < fp.decls.size

/-- A pass that has made nothing yet. -/
theorem Inv.start (hJ : fp.jobs.toList = J₀) (hP : fp.pending.toList = P₀) (hd : fp.decls = #[])
    (ha : fp.adapters = #[]) (hh : fp.holderAt = none) : Inv J₀ P₀ fns fp where
  jobs_prefix := hJ ▸ List.prefix_refl _
  pending_prefix := hP ▸ List.prefix_refl _
  decls d h := by simp [hd] at h
  adapters d h := by simp [ha] at h
  pending p h := .inl (hP ▸ Array.mem_toList_iff.2 h)
  jobs j h := .inl (hJ ▸ Array.mem_toList_iff.2 h)
  holder pos h := by simp [hh] at h

/-- A declaration made, with the jobs of its functions. -/
theorem Inv.push (hI : Inv J₀ P₀ fns fp) (js : List BodyJob) (hd : Declared (fp.jobs.toList ++ js) d)
    (hk : d.kind ≠ .adapter) (hjs : ∀ j ∈ js, j.decl ∈ fns ∧ Owns d j) :
    Inv J₀ P₀ fns { fp with jobs := fp.jobs ++ js.toArray, decls := fp.decls.push d } where
  jobs_prefix := hI.jobs_prefix.trans (by simp)
  pending_prefix := hI.pending_prefix
  decls d' h := by
    rcases Array.mem_push.1 h with h | rfl
    · exact ⟨((hI.decls d' h).1.mono (by simp)), (hI.decls d' h).2⟩
    · exact ⟨by simpa using hd, hk⟩
  adapters d' h := ⟨(hI.adapters d' h).1.mono (by simp), (hI.adapters d' h).2⟩
  pending := hI.pending
  jobs j h := by
    simp only [Array.mem_append, List.mem_toArray] at h
    rcases h with h | h
    · rcases hI.jobs j h with hj | ⟨hf, d', hd', ho⟩
      · exact .inl hj
      · refine .inr ⟨hf, d', ?_, ho⟩
        simp only [List.mem_append, Array.mem_toList_iff] at hd' ⊢
        exact hd'.imp_left fun h => Array.mem_push.2 (.inl h)
    · exact .inr ⟨(hjs j h).1, d, by simp, (hjs j h).2⟩
  holder pos h := by
    have := hI.holder pos h
    simp only [Array.size_push]
    omega

/-- An adapter made for the impl `p`, with the jobs of its functions. -/
theorem Inv.pushAdapter (hI : Inv J₀ P₀ fns fp) {js : List BodyJob} {p : PendingImpl}
    (hd : Declared (fp.jobs.toList ++ js) d) (hp : AdapterShape p d)
    (hjs : ∀ j ∈ js, j.decl ∈ fns ∧ Owns d j) :
    Inv J₀ P₀ fns { fp with jobs := fp.jobs ++ js.toArray, adapters := fp.adapters.push d,
                             pending := fp.pending.push p } where
  jobs_prefix := hI.jobs_prefix.trans (by simp)
  pending_prefix := hI.pending_prefix.trans (by simp)
  decls d' h := ⟨(hI.decls d' h).1.mono (by simp), (hI.decls d' h).2⟩
  adapters d' h := by
    rcases Array.mem_push.1 h with h | rfl
    · obtain ⟨hd', p', hp', hs⟩ := hI.adapters d' h
      exact ⟨hd'.mono (by simp), p', Array.mem_push.2 (.inl hp'), hs⟩
    · exact ⟨by simpa using hd, p, by simp, hp⟩
  pending p' h := by
    rcases Array.mem_push.1 h with h | rfl
    · rcases hI.pending p' h with hp' | ⟨d', hd', hs⟩
      · exact .inl hp'
      · exact .inr ⟨d', Array.mem_push.2 (.inl hd'), hs⟩
    · exact .inr ⟨d, by simp, hp⟩
  jobs j h := by
    simp only [Array.mem_append, List.mem_toArray] at h
    rcases h with h | h
    · rcases hI.jobs j h with hj | ⟨hf, d', hd', ho⟩
      · exact .inl hj
      · refine .inr ⟨hf, d', ?_, ho⟩
        simp only [List.mem_append, Array.mem_toList_iff] at hd' ⊢
        exact hd'.imp_right fun h => Array.mem_push.2 (.inl h)
    · exact .inr ⟨(hjs j h).1, d, by simp, (hjs j h).2⟩
  holder := hI.holder

end FilePass

/-! ### One declaration of a file -/

section Items

variable {J₀ : List BodyJob} {P₀ : List PendingImpl} {fns : List FnDecl} {fp fp' : FilePass}
  {d : TypeDecl}

theorem Array.mem_setIfInBounds_or {α : Type} {xs : Array α} {x a : α} {i : Nat} (hx : x ∈ xs) :
    x ∈ xs.setIfInBounds i a ∨ xs[i]? = some x := by
  obtain ⟨k, hk, rfl⟩ := Array.mem_iff_getElem.1 hx
  by_cases hki : i = k
  · subst hki
    exact .inr (Array.getElem?_eq_getElem hk)
  · refine .inl (Array.mem_iff_getElem?.2 ⟨k, ?_⟩)
    rw [Array.getElem?_setIfInBounds_ne hki, Array.getElem?_eq_getElem hk]

/-- A struct or module made by `addFields` is declared: its one method is the
    constructor of its fields. -/
theorem declared_fields {J : List BodyJob} {n : String} {k : ClassKind} {sp : Span} {fields : List Field}
    (hk : k = .struct ∨ k = .module) :
    Declared J { (fp.newDecl n k sp) with
      fields := fields.map fp.fieldDecl
      methods := [FilePass.fieldsConstructor (fields.map fp.fieldDecl) sp] } where
  trait_plain h := by rcases hk with rfl | rfl <;> cases h
  method m hm := by
    rw [List.mem_singleton.1 hm]
    refine .inr (.inl ⟨rfl, by rcases hk with rfl | rfl <;> rfl, ?_⟩)
    exact ctorFits_fieldsConstructor (d := { (fp.newDecl n k sp) with fields := fields.map fp.fieldDecl })
      (by simp [FilePass.fieldDecl]) sp

/-- An adapter whose one method is the constructor taking its wrapped value is
    declared. -/
theorem declared_adapter {J : List BodyJob} {st : Ty} {sp sp' : Span} (hk : d.kind = .adapter)
    (ha : d.adapter.isSome = true) (hf : d.fields = [⟨wrappedField, st, false, sp⟩])
    (hm : d.methods = [{ MethodSig.constructor [st] with span := sp' }]) : Declared J d where
  trait_plain h := by rw [hk] at h; cases h
  method m hm' := by
    rw [hm, List.mem_singleton] at hm'
    subst hm'
    exact .inr (.inl ⟨rfl, by simp [ha], ctorFits_adapter hf⟩)

/-- The functions of a struct-like declaration, queued: each is a method with a
    job, and each job is for a function of the file and a method of the
    declaration. -/
theorem bodies_queued (fs : List FnDecl) (hfs : ∀ f ∈ fs, f ∈ fns) (J : List BodyJob) :
    (∀ m ∈ fs.map (fp.signature ·.sig false),
      HasJob (J ++ fs.map fun f => fp.jobOf d.name (fp.signature f.sig false) f) d m) ∧
    ∀ j ∈ fs.map (fun f => fp.jobOf d.name (fp.signature f.sig false) f),
      j.decl ∈ fns ∧ Owns { d with methods := d.methods ++ fs.map (fp.signature ·.sig false) } j := by
  constructor
  · intro m hm
    obtain ⟨f, hf, rfl⟩ := List.mem_map.1 hm
    exact ⟨_, List.mem_append_right _ (List.mem_map_of_mem hf), rfl, rfl⟩
  · intro j hj
    obtain ⟨f, hf, rfl⟩ := List.mem_map.1 hj
    exact ⟨hfs f hf, _, List.mem_append_right _ (List.mem_map_of_mem (f := (fp.signature ·.sig false)) hf), rfl⟩

namespace FilePass

/-- The holder made at the first function of a file, with no method yet. -/
theorem Inv.makeHolder (hI : Inv J₀ P₀ fns fp) (sp : Span) :
    Inv J₀ P₀ fns { fp with decls := fp.decls.push (fp.newDecl fp.holder .globals sp),
                             holderAt := some fp.decls.size } := by
  have h := hI.push [] (d := fp.newDecl fp.holder .globals sp)
    ⟨fun h => by simp at h, fun m hm => by simp at hm⟩ (by simp) (by simp)
  exact { h with
    jobs_prefix := by simpa using h.jobs_prefix
    decls := fun d hd => by simpa using h.decls d hd
    adapters := fun d hd => by simpa using h.adapters d hd
    jobs := fun j hj => by simpa using h.jobs j (by simpa using hj)
    holder := fun pos hp => by cases hp; simp }

/-- A function added to the holder at `pos`, with its job. -/
theorem Inv.addToHolder (hI : Inv J₀ P₀ fns fp) {pos : Nat} (hpos : fp.holderAt = some pos)
    {f : FnDecl} (hf : f ∈ fns) {sig : MethodSig} (hsig : sig.name = f.sig.name.name) {o : TypeDecl}
    (ho : (fp.decls.getD pos default).addMethod sig = .ok o) :
    Inv J₀ P₀ fns { fp with decls := fp.decls.setIfInBounds pos o,
                             jobs := fp.jobs.push ⟨MethodKey.of (fp.decls.getD pos default).name sig, fp.unit, f⟩ } := by
  have hlt := hI.holder pos hpos
  have hget : fp.decls.getD pos default = fp.decls[pos] := by simp [hlt]
  rw [hget] at ho ⊢
  obtain ⟨-, rfl⟩ := TypeDecl.addMethod_ok.1 ho
  have hown := hI.decls _ (Array.getElem_mem hlt)
  have hat : fp.decls[pos]? = some fp.decls[pos] := Array.getElem?_eq_getElem hlt
  have hnew := Array.mem_setIfInBounds (a := { fp.decls[pos] with methods := fp.decls[pos].methods ++ [sig] }) hlt
  generalize fp.decls[pos] = owner at hown hat hnew ⊢
  have hjob : HasJob (fp.jobs.push ⟨MethodKey.of owner.name sig, fp.unit, f⟩).toList owner sig :=
    ⟨⟨MethodKey.of owner.name sig, fp.unit, f⟩, by simp, rfl, hsig.symm⟩
  -- a job of the method replaced is a job of the holder that replaces it
  have hrepl : ∀ j, Owns owner j → Owns { owner with methods := owner.methods ++ [sig] } j :=
    fun j ⟨m, hm, hk⟩ => ⟨m, List.mem_append_left _ hm, hk⟩
  exact {
    jobs_prefix := hI.jobs_prefix.trans (by simp)
    pending_prefix := hI.pending_prefix
    decls := fun d' h => by
      rcases Array.mem_or_eq_of_mem_setIfInBounds h with h | rfl
      · exact ⟨(hI.decls d' h).1.mono (by simp), (hI.decls d' h).2⟩
      · exact ⟨hown.1.append (by simp) (by simpa using hjob), hown.2⟩
    adapters := fun d' h => ⟨(hI.adapters d' h).1.mono (by simp), (hI.adapters d' h).2⟩
    pending := hI.pending
    jobs := fun j h => by
      rcases Array.mem_push.1 h with h | rfl
      · rcases hI.jobs j h with hj | ⟨hf', d', hd', ho'⟩
        · exact .inl hj
        refine .inr ⟨hf', ?_⟩
        simp only [List.mem_append, Array.mem_toList_iff] at hd'
        rcases hd' with hd' | hd'
        · rcases Array.mem_setIfInBounds_or (i := pos) (a := { owner with methods := owner.methods ++ [sig] })
            hd' with hd' | hd'
          · exact ⟨d', List.mem_append_left _ (Array.mem_toList_iff.2 hd'), ho'⟩
          · rw [hat, Option.some_inj] at hd'
            subst hd'
            exact ⟨_, List.mem_append_left _ (Array.mem_toList_iff.2 hnew), hrepl j ho'⟩
        · exact ⟨d', List.mem_append_right _ (Array.mem_toList_iff.2 hd'), ho'⟩
      · exact .inr ⟨hf, _, List.mem_append_left _ (Array.mem_toList_iff.2 hnew), sig, by simp, rfl⟩
    holder := fun p hp => by simpa using hI.holder p hp }

/-- One declaration of a file keeps the invariant of the pass. -/
theorem item_inv (hI : Inv J₀ P₀ fns fp) {it : Item} (hf : ∀ f ∈ it.functions, f ∈ fns)
    (h : fp.item it = .ok fp') : Inv J₀ P₀ fns fp' := by
  cases it with
  | importDecl path asName span =>
    cases h
    exact hI
  | moduleDecl name fields methods span =>
    obtain ⟨d, hd, h⟩ := Except.bind_eq_ok.1 h
    obtain ⟨⟨fp₁, d₁⟩, hb, h⟩ := Except.bind_eq_ok.1 h
    cases Except.pure_eq_ok.1 h
    obtain ⟨rfl, rfl⟩ := addBodies_ok hb
    have hd := addFields_ok hd
    simp only [newDecl_fields, newDecl_methods, newDecl_span, List.nil_append] at hd
    subst hd
    obtain ⟨hm, hj⟩ := bodies_queued methods hf fp.jobs.toList
    simpa using hI.push _ ((declared_fields (.inr rfl)).append (List.subset_append_left _ _) hm)
      (by simp) hj
  | structDecl name fields span =>
    obtain ⟨d, hd, h⟩ := Except.bind_eq_ok.1 h
    cases Except.pure_eq_ok.1 h
    have hd := addFields_ok hd
    simp only [newDecl_fields, newDecl_methods, newDecl_span, List.nil_append] at hd
    subst hd
    simpa using hI.push [] (by simpa using declared_fields (.inl rfl)) (by simp) (by simp)
  | traitDecl name sigs span =>
    obtain ⟨d, hd, h⟩ := Except.bind_eq_ok.1 h
    cases Except.pure_eq_ok.1 h
    rw [foldlM_addMethod hd]
    -- every method of a trait is abstract
    simpa using hI.push [] (d := { fp.newDecl (declName name) .trait span with
      methods := sigs.map fun s => { fp.signature s false with isAbstract := true } })
      ⟨fun _ => rfl, fun m hm => .inl ⟨by simp at hm; obtain ⟨s, -, rfl⟩ := hm; rfl, rfl⟩⟩
      (by simp) (by simp)
  | implDecl traitTy target methods span =>
    dsimp only [item] at h
    split at h
    · rename_i tn htn
      obtain ⟨_, hp, h⟩ := Except.bind_eq_ok.1 h
      cases Except.pure_eq_ok.1 hp
      split at h
      · rename_i sn hsn
        obtain ⟨_, hp, h⟩ := Except.bind_eq_ok.1 h
        cases Except.pure_eq_ok.1 hp
        obtain ⟨d₁, hd₁, h⟩ := Except.bind_eq_ok.1 h
        obtain ⟨d₂, hd₂, h⟩ := Except.bind_eq_ok.1 h
        obtain ⟨⟨fp₃, d₃⟩, hb, h⟩ := Except.bind_eq_ok.1 h
        cases Except.pure_eq_ok.1 h
        obtain ⟨-, rfl⟩ := TypeDecl.addField_ok.1 hd₁
        obtain ⟨-, rfl⟩ := TypeDecl.addMethod_ok.1 hd₂
        obtain ⟨rfl, rfl⟩ := addBodies_ok hb
        obtain ⟨hm, hj⟩ := bodies_queued methods hf fp.jobs.toList
        refine hI.pushAdapter (p := ⟨adapterName tn sn, tn, sn, span, fp.unit⟩)
          ((declared_adapter rfl rfl rfl rfl).append (List.subset_append_left _ _) hm) ?_ hj
        refine ⟨rfl, rfl, rfl, rfl, rfl, by simp [hsn], ?_⟩
        simp [hsn]
      · obtain ⟨_, h, -⟩ := Except.bind_eq_ok.1 h
        cases h
    · obtain ⟨_, h, -⟩ := Except.bind_eq_ok.1 h
      cases h
  | fnDecl f =>
    have hf : f ∈ fns := hf f (List.mem_singleton_self f)
    dsimp only [item] at h
    cases hh : fp.holderAt with
    | none =>
      simp only [hh] at h
      obtain ⟨o, ho, h⟩ := Except.bind_eq_ok.1 h
      cases Except.pure_eq_ok.1 h
      exact (hI.makeHolder f.span).addToHolder rfl hf (signature_name _ _) ho
    | some pos =>
      simp only [hh] at h
      obtain ⟨o, ho, h⟩ := Except.bind_eq_ok.1 h
      cases Except.pure_eq_ok.1 h
      have h' := hI.addToHolder hh hf (signature_name _ _) ho
      rwa [hh] at h'

/-- The declarations of a file keep the invariant of the pass, one after the
    other. -/
theorem items_inv {items : List Item} (hf : ∀ it ∈ items, ∀ f ∈ it.functions, f ∈ fns) :
    ∀ {fp fp' : FilePass}, Inv J₀ P₀ fns fp → items.foldlM item fp = .ok fp' → Inv J₀ P₀ fns fp' := by
  induction items with
  | nil =>
    intro fp fp' hI h
    cases h
    exact hI
  | cons it items ih =>
    intro fp fp' hI h
    rw [List.foldlM_cons] at h
    obtain ⟨fp₁, h₁, h⟩ := Except.bind_eq_ok.1 h
    exact ih (fun it' hit => hf it' (List.mem_cons_of_mem _ hit))
      (item_inv hI (hf it List.mem_cons_self) h₁) h

end FilePass

end Items

end ClassCompiler
