import ClassCompiler.Proofs.Structure.Impls
import ClassCompiler.Proofs.Parsing.Names

/-!
# The constructors the structural pass declares

A struct or a module gets one constructor: it takes the values of its fields,
in order, and then the marker `java/lang/Void` that callers never write. This
module proves that every struct and module of a successful structural pass is
made so, whatever the files.

* `buildStructure_forall_decls`: a property of declarations that the
  platform's classes have, and that each declaration of a file keeps of what
  the pass over the file has made, holds of every class of the final table;
* `TypeDecl.FieldsShape`: a struct or module as the pass makes it: it extends
  `Object`, its fields are instance fields of distinct names, and its methods
  are the constructor of its fields followed by the methods of its functions;
* `buildStructure_fieldsShape`: every struct and module of the final table has
  that shape;
* `TypeDecl.FieldsShape.constructors`: so, when no function is named as
  constructors are (no parsed function is), its one constructor is that of its
  fields, with the descriptor `(T₁…Tₙ Ljava/lang/Void;)V`;
  `ImplAdapter.constructors`: the one constructor of an adapter takes the
  struct it wraps;
* `buildStructure_forall_jobs`, `buildStructure_jobs_named`: every job is
  filed under the name of the function it compiles.
-/

namespace ClassCompiler

open Syntax

/-! ### A property of every declaration of the table -/

section Walk

/-- The items of a file, one after the other, keep an invariant of the pass
    over the file that each of them keeps. -/
theorem FilePass.items_keep (I : FilePass → Prop) {items : List Item}
    (hitem : ∀ it ∈ items, ∀ fp fp' : FilePass, fp.item it = .ok fp' → I fp → I fp') :
    ∀ {fp fp' : FilePass}, items.foldlM FilePass.item fp = .ok fp' → I fp → I fp' := by
  induction items with
  | nil =>
    intro fp fp' h hI
    cases h
    exact hI
  | cons it items ih =>
    intro fp fp' h hI
    rw [List.foldlM_cons] at h
    obtain ⟨fp₁, h₁, h⟩ := Except.bind_eq_ok.1 h
    exact ih (fun it' hit => hitem it' (List.mem_cons_of_mem _ hit)) h (hitem it List.mem_cons_self fp fp₁ h₁ hI)

variable {files : List (String × SourceFile)} {s : Structure}

/-- A property of declarations holds of every class of a successful structural
    pass when the platform's classes have it and each declaration of a file
    keeps it of the classes and adapters the pass over the file has made. The
    classes registered are those of the platform, those of each file, and the
    adapters; recording the impls changes none. -/
theorem buildStructure_forall_decls (P : TypeDecl → Prop) (hplat : ∀ d ∈ ClassTable.platform.decls, P d)
    (hitem : ∀ file ∈ files, ∀ it ∈ file.2.items, ∀ fp fp' : FilePass, fp.item it = .ok fp' →
      (∀ d ∈ fp.decls, P d) ∧ (∀ d ∈ fp.adapters, P d) → (∀ d ∈ fp'.decls, P d) ∧ ∀ d ∈ fp'.adapters, P d)
    (h : buildStructure files = .ok s) : ∀ d ∈ s.table.decls, P d := by
  unfold buildStructure at h
  dsimp only at h
  obtain ⟨⟨t, jobs, holders, pending, adapters⟩, hloop, h⟩ := Except.bind_eq_ok.1 h
  obtain ⟨t₁, hreg, h⟩ := Except.bind_eq_ok.1 h
  obtain ⟨t₂, hrec, h⟩ := Except.bind_eq_ok.1 h
  cases Except.pure_eq_ok.1 h
  -- the files, one after the other; registration needs the names distinct
  have hI : t.Distinct ∧ (∀ d ∈ t.decls, P d) ∧ ∀ a ∈ adapters, P a.2 := by
    refine Except.forIn_inv (fun st => st.1.Distinct ∧ (∀ d ∈ st.1.decls, P d) ∧ ∀ a ∈ st.2.2.2.2, P a.2) ?_
      ⟨ClassTable.platform_distinct, hplat, by simp⟩ hloop
    rintro ⟨file, i⟩ hx ⟨t, jobs, holders, pending, adapters⟩ r ⟨hdist, hdecls, hadapters⟩ hr
    dsimp only at hr hdecls hadapters ⊢
    split at hr
    · rename_i fp hfp
      obtain ⟨_, hp, hr⟩ := Except.bind_eq_ok.1 hr
      cases Except.pure_eq_ok.1 hp
      obtain ⟨t', hreg, hr⟩ := Except.bind_eq_ok.1 hr
      cases Except.pure_eq_ok.1 hr
      rw [← Array.forIn_toList] at hreg
      obtain ⟨hdecls', -, hdist'⟩ := ClassTable.registerAll id registers hdist hreg
      obtain ⟨hfd, hfa⟩ := FilePass.items_keep (fun fp => (∀ d ∈ fp.decls, P d) ∧ ∀ d ∈ fp.adapters, P d)
        (hitem file (List.fst_mem_of_mem_zipIdx hx)) hfp ⟨by simp, by simp⟩
      dsimp only [ForInStep.value]
      refine ⟨hdist', fun d hd => ?_, fun a ha => ?_⟩
      · rw [← Array.mem_toList_iff, hdecls'] at hd
        simp only [List.map_id, List.mem_append, Array.mem_toList_iff] at hd
        exact hd.elim (hdecls d) (hfd d)
      · rcases Array.mem_append.1 ha with ha | ha
        · exact hadapters a ha
        · obtain ⟨d, hd, rfl⟩ := Array.mem_map.1 ha
          exact hfa d hd
    · obtain ⟨_, h, _⟩ := Except.bind_eq_ok.1 hr
      cases h
  -- then the adapters, and last the impls
  rw [← Array.forIn_toList] at hreg hrec
  obtain ⟨hdecls₁, -, -⟩ := ClassTable.registerAll Prod.snd registers hI.1 hreg
  obtain ⟨hdecls₂, -, -⟩ := ClassTable.recordImpls (by
    intro p t r h
    split at h
    · exact ⟨‹_›, (Except.pure_eq_ok.1 h).symm⟩
    · obtain ⟨_, h, _⟩ := Except.bind_eq_ok.1 h
      cases h) hrec
  intro d hd
  rw [← Array.mem_toList_iff, show t₂.decls.toList = t₁.decls.toList by rw [hdecls₂], hdecls₁] at hd
  simp only [List.mem_append, Array.mem_toList_iff, List.mem_map] at hd
  rcases hd with hd | ⟨a, ha, rfl⟩
  · exact hI.2.1 d hd
  · exact hI.2.2 a ha

/-- A property of jobs holds of every job of a successful structural pass when
    each declaration of a file keeps it of the jobs queued so far: the jobs
    are queued file after file, and neither the adapters nor the impls add
    any. -/
theorem buildStructure_forall_jobs (Q : BodyJob → Prop)
    (hitem : ∀ file ∈ files, ∀ it ∈ file.2.items, ∀ fp fp' : FilePass, fp.item it = .ok fp' →
      (∀ j ∈ fp.jobs, Q j) → ∀ j ∈ fp'.jobs, Q j)
    (h : buildStructure files = .ok s) : ∀ j ∈ s.jobs, Q j := by
  unfold buildStructure at h
  dsimp only at h
  obtain ⟨⟨t, jobs, holders, pending, adapters⟩, hloop, h⟩ := Except.bind_eq_ok.1 h
  obtain ⟨t₁, -, h⟩ := Except.bind_eq_ok.1 h
  obtain ⟨t₂, -, h⟩ := Except.bind_eq_ok.1 h
  cases Except.pure_eq_ok.1 h
  have hI : ∀ j ∈ jobs, Q j := by
    refine Except.forIn_inv (fun st => ∀ j ∈ st.2.1, Q j) ?_ (by simp) hloop
    rintro ⟨file, i⟩ hx ⟨t, jobs, holders, pending, adapters⟩ r hjobs hr
    dsimp only at hr hjobs ⊢
    split at hr
    · rename_i fp hfp
      obtain ⟨_, hp, hr⟩ := Except.bind_eq_ok.1 hr
      cases Except.pure_eq_ok.1 hp
      obtain ⟨t', -, hr⟩ := Except.bind_eq_ok.1 hr
      cases Except.pure_eq_ok.1 hr
      exact FilePass.items_keep (fun fp => ∀ j ∈ fp.jobs, Q j) (hitem file (List.fst_mem_of_mem_zipIdx hx)) hfp
        hjobs
    · obtain ⟨_, h, _⟩ := Except.bind_eq_ok.1 hr
      cases h
  exact fun j hj => hI j (Array.mem_toList_iff.1 hj)

end Walk

/-! ### Structs and modules -/

/-- A struct or module as the structural pass makes it, for the functions
    `fns` of the files: it extends `Object`, its fields are instance fields of
    distinct names, and its methods are the constructor of its fields followed
    by the methods of functions of `fns`, each named as its function. -/
structure TypeDecl.FieldsShape (fns : List FnDecl) (d : TypeDecl) : Prop where
  superclass : d.superclass = some objectClass
  instance_fields : ∀ f ∈ d.fields, f.isStatic = false
  names : (d.fields.map (·.name)).Nodup
  methods : ∃ ms, d.methods = FilePass.fieldsConstructor d.fields d.span :: ms ∧
    ∀ m ∈ ms, ∃ f ∈ fns, m.name = f.sig.name.name

namespace TypeDecl.FieldsShape

variable {fns : List FnDecl} {d : TypeDecl}

/-- The method of a function of `fns` added to a struct or module keeps its
    shape. -/
theorem addMethod (h : d.FieldsShape fns) {sig : MethodSig} {f : FnDecl} (hf : f ∈ fns)
    (hname : sig.name = f.sig.name.name) : { d with methods := d.methods ++ [sig] }.FieldsShape fns where
  superclass := h.superclass
  instance_fields := h.instance_fields
  names := h.names
  methods := by
    obtain ⟨ms, hms, hnamed⟩ := h.methods
    refine ⟨ms ++ [sig], by rw [hms]; rfl, fun m hm => ?_⟩
    rcases List.mem_append.1 hm with hm | hm
    · exact hnamed m hm
    · rw [List.mem_singleton.1 hm]
      exact ⟨f, hf, hname⟩

/-- The constructor of a struct or module is the one of its fields, when no
    function of `fns` is named as constructors are. -/
theorem constructors (h : d.FieldsShape fns) (hn : ∀ f ∈ fns, f.sig.name.name ≠ constructorName) :
    d.methods.filter (·.isConstructor) = [FilePass.fieldsConstructor d.fields d.span] := by
  obtain ⟨ms, hms, hnamed⟩ := h.methods
  have hnone : ms.filter (·.isConstructor) = [] := by
    refine List.filter_eq_nil_iff.2 fun m hm => ?_
    obtain ⟨f, hf, hname⟩ := hnamed m hm
    simpa [MethodSig.isConstructor, hname] using hn f hf
  rw [hms, List.filter_cons_of_pos (by rfl), hnone]

end TypeDecl.FieldsShape

/-- The adapter of an impl of `T` for `S` has the one field `wrapped` and one
    constructor, taking an `S`: its other methods are those of the impl's
    functions, none named as constructors are. -/
theorem ImplAdapter.constructors {files : List (String × SourceFile)} {T S : String} {d : TypeDecl}
    (h : ImplAdapter files T S d)
    (hn : ∀ f ∈ files.flatMap (fun x => x.2.functions), f.sig.name.name ≠ constructorName) :
    ∃ sp, d.fields = [⟨wrappedField, .obj S, false, sp⟩] ∧
      d.methods.filter (·.isConstructor) = [{ MethodSig.constructor [.obj S] with span := sp }] := by
  obtain ⟨-, -, -, u, file, sf, tt, tg, ms, sp, hu, hit, -, -, hfields, hmethods⟩ := h
  have hnone : (ms.map (fileResolver files sf).instanceSig).filter (·.isConstructor) = [] := by
    refine List.filter_eq_nil_iff.2 fun m hm => ?_
    obtain ⟨f, hf, rfl⟩ := List.mem_map.1 hm
    have hfn : f ∈ files.flatMap (fun x => x.2.functions) :=
      List.mem_flatMap.2 ⟨(file, sf), List.mem_of_getElem? hu, List.mem_flatMap.2 ⟨_, hit, hf⟩⟩
    simpa [MethodSig.isConstructor, Resolver.instanceSig, Resolver.globalSig] using hn f hfn
  exact ⟨sp, hfields, by rw [hmethods, List.filter_cons_of_pos rfl, hnone]⟩

/-- The constructor of fields takes their types, then the marker, and returns
    `void`: its descriptor lists theirs, then `Ljava/lang/Void;`. -/
theorem fieldsConstructor_descriptor (fs : List FieldDecl) (sp : Span) :
    (FilePass.fieldsConstructor fs sp).descriptor =
      "(" ++ String.join (fs.map fun f => f.ty.descriptor) ++ "Ljava/lang/Void;)V" := by
  simp only [MethodSig.descriptor, MethodSig.type, MethodType.descriptor, FilePass.fieldsConstructor,
    MethodSig.constructor, MethodSig.instanceMethod, List.map_append, List.map_map, String.join_append,
    String.append_assoc]
  rfl

namespace FilePass

variable {fp : FilePass} {d : TypeDecl}

/-- The fields a struct or module declares have distinct names: each is
    added only when no field of its name is there yet. -/
theorem addFields_names {fields : List Field} {d' : TypeDecl} (h : fp.addFields d fields = .ok d')
    (hd : (d.fields.map (·.name)).Nodup) : (d'.fields.map (·.name)).Nodup := by
  unfold addFields at h
  obtain ⟨r, hr, h⟩ := Except.bind_eq_ok.1 h
  obtain ⟨-, rfl⟩ := TypeDecl.addMethod_ok.1 h
  have hloop : (r.1.fields.map (·.name)).Nodup := by
    refine Except.forIn_inv (fun r : TypeDecl × Array Ty => (r.1.fields.map (·.name)).Nodup) ?_ hd hr
    intro f _ s r hs hr'
    obtain ⟨d₁, hd₁, hr'⟩ := Except.bind_eq_ok.1 hr'
    cases Except.pure_eq_ok.1 hr'
    obtain ⟨hnone, rfl⟩ := TypeDecl.addField_ok.1 hd₁
    -- the new name is none of the names before it
    have hfresh : ∀ g ∈ s.1.fields, g.name ≠ f.name.name := by
      intro g hg hgn
      have := List.find?_eq_none.1 hnone g hg
      simp [hgn] at this
    simpa [List.nodup_append, hs] using hfresh
  exact hloop

/-- A struct or module made by `addFields`, then given the methods of
    functions of `fns`, has the shape of the pass. -/
theorem fieldsShape_of_addFields (fns : List FnDecl) {n : String} {k : ClassKind} {sp : Span}
    {fields : List Field} {d' : TypeDecl} (hk : k = .struct ∨ k = .module)
    (h : fp.addFields (fp.newDecl n k sp) fields = .ok d') (fs : List FnDecl) (hfs : ∀ f ∈ fs, f ∈ fns) :
    { d' with methods := d'.methods ++ fs.map fun f : FnDecl => fp.signature f.sig false }.FieldsShape fns := by
  have hd' := addFields_ok h
  simp only [newDecl_fields, newDecl_methods, newDecl_span, List.nil_append] at hd'
  subst hd'
  refine ⟨by rcases hk with rfl | rfl <;> rfl, fun f hf => ?_, ?_, ⟨fs.map fun f : FnDecl => fp.signature f.sig false, rfl,
    fun m hm => ?_⟩⟩
  · obtain ⟨g, -, rfl⟩ := List.mem_map.1 hf
    rfl
  · simpa using addFields_names h (by simp)
  · obtain ⟨f, hf, rfl⟩ := List.mem_map.1 hm
    exact ⟨f, hfs f hf, rfl⟩

/-- One declaration of a file keeps the shape of the structs and modules the
    pass over the file has made. -/
theorem item_fieldsShape {fns : List FnDecl} {it : Item} (hf : ∀ f ∈ it.functions, f ∈ fns) {fp' : FilePass}
    (h : fp.item it = .ok fp') (hd : ∀ d ∈ fp.decls, d.isInstantiable = true → d.FieldsShape fns)
    (ha : ∀ d ∈ fp.adapters, d.isInstantiable = true → d.FieldsShape fns) :
    (∀ d ∈ fp'.decls, d.isInstantiable = true → d.FieldsShape fns) ∧
      ∀ d ∈ fp'.adapters, d.isInstantiable = true → d.FieldsShape fns := by
  cases it with
  | importDecl path asName span =>
    cases h
    exact ⟨hd, ha⟩
  | moduleDecl name fields methods span =>
    obtain ⟨d₁, hd₁, h⟩ := Except.bind_eq_ok.1 h
    obtain ⟨⟨fp₂, d₂⟩, hb, h⟩ := Except.bind_eq_ok.1 h
    cases Except.pure_eq_ok.1 h
    obtain ⟨rfl, rfl⟩ := addBodies_ok hb
    have hshape := fieldsShape_of_addFields fns (.inr rfl) hd₁ methods hf
    refine ⟨fun d hd' => ?_, ha⟩
    rcases Array.mem_push.1 hd' with hd' | rfl
    · exact hd d hd'
    · exact fun _ => hshape
  | structDecl name fields span =>
    obtain ⟨d₁, hd₁, h⟩ := Except.bind_eq_ok.1 h
    cases Except.pure_eq_ok.1 h
    have hshape := fieldsShape_of_addFields fns (.inl rfl) hd₁ [] (by simp)
    simp only [List.map_nil, List.append_nil] at hshape
    refine ⟨fun d hd' => ?_, ha⟩
    rcases Array.mem_push.1 hd' with hd' | rfl
    · exact hd d hd'
    · exact fun _ => hshape
  | traitDecl name sigs span =>
    obtain ⟨d₁, hd₁, h⟩ := Except.bind_eq_ok.1 h
    cases Except.pure_eq_ok.1 h
    rw [foldlM_addMethod hd₁]
    refine ⟨fun d hd' => ?_, ha⟩
    rcases Array.mem_push.1 hd' with hd' | rfl
    · exact hd d hd'
    · intro hi
      cases hi
  | implDecl traitTy target methods span =>
    -- an impl makes an adapter, which is no struct or module
    dsimp only [item] at h
    split at h
    · obtain ⟨_, hp, h⟩ := Except.bind_eq_ok.1 h
      cases Except.pure_eq_ok.1 hp
      split at h
      · obtain ⟨_, hp, h⟩ := Except.bind_eq_ok.1 h
        cases Except.pure_eq_ok.1 hp
        obtain ⟨d₁, hd₁, h⟩ := Except.bind_eq_ok.1 h
        obtain ⟨d₂, hd₂, h⟩ := Except.bind_eq_ok.1 h
        obtain ⟨⟨fp₃, d₃⟩, hb, h⟩ := Except.bind_eq_ok.1 h
        cases Except.pure_eq_ok.1 h
        obtain ⟨-, rfl⟩ := TypeDecl.addField_ok.1 hd₁
        obtain ⟨-, rfl⟩ := TypeDecl.addMethod_ok.1 hd₂
        obtain ⟨rfl, rfl⟩ := addBodies_ok hb
        refine ⟨hd, fun d hd' => ?_⟩
        rcases Array.mem_push.1 hd' with hd' | rfl
        · exact ha d hd'
        · intro hi
          cases hi
      · obtain ⟨_, h, -⟩ := Except.bind_eq_ok.1 h
        cases h
    · obtain ⟨_, h, -⟩ := Except.bind_eq_ok.1 h
      cases h
  | fnDecl f =>
    -- a function is added to the holder, which keeps its shape if it has one
    have hf : f ∈ fns := hf f (List.mem_singleton_self f)
    dsimp only [item] at h
    have hstep : ∀ (ds : Array TypeDecl) (pos : Nat) (o : TypeDecl),
        (∀ d ∈ ds, d.isInstantiable = true → d.FieldsShape fns) →
        (ds.getD pos default).addMethod (fp.signature f.sig true) = .ok o →
        ∀ d ∈ ds.setIfInBounds pos o, d.isInstantiable = true → d.FieldsShape fns := by
      intro ds pos o hds ho d hd'
      obtain ⟨-, rfl⟩ := TypeDecl.addMethod_ok.1 ho
      by_cases hlt : pos < ds.size
      · rcases Array.mem_or_eq_of_mem_setIfInBounds hd' with hd' | rfl
        · exact hds d hd'
        · intro hi
          have hown : ds.getD pos default ∈ ds := by
            rw [Array.getD_eq_getD_getElem?, Array.getElem?_eq_getElem hlt]
            exact Array.getElem_mem hlt
          exact (hds _ hown hi).addMethod hf rfl
      · rw [Array.setIfInBounds, dif_neg hlt] at hd'
        exact hds d hd'
    cases hh : fp.holderAt with
    | none =>
      simp only [hh] at h
      obtain ⟨o, ho, h⟩ := Except.bind_eq_ok.1 h
      cases Except.pure_eq_ok.1 h
      refine ⟨hstep _ _ _ (fun d hd' => ?_) ho, ha⟩
      rcases Array.mem_push.1 hd' with hd' | rfl
      · exact hd d hd'
      · intro hi
        cases hi
    | some pos =>
      simp only [hh] at h
      obtain ⟨o, ho, h⟩ := Except.bind_eq_ok.1 h
      cases Except.pure_eq_ok.1 h
      exact ⟨hstep _ _ _ hd ho, ha⟩

/-- Each job a declaration queues is filed under the name of its function. -/
theorem item_jobs_named {it : Item} {fp' : FilePass} (h : fp.item it = .ok fp')
    (hj : ∀ j ∈ fp.jobs, j.key.name = j.decl.sig.name.name) : ∀ j ∈ fp'.jobs, j.key.name = j.decl.sig.name.name := by
  -- the jobs of functions queued as methods of `owner`
  have hqueued : ∀ (owner : String) (fs : List FnDecl), ∀ j ∈ fp.jobs ++ (fs.map fun f =>
      fp.jobOf owner (fp.signature f.sig false) f).toArray, j.key.name = j.decl.sig.name.name := by
    intro owner fs j hj'
    rcases Array.mem_append.1 hj' with hj' | hj'
    · exact hj j hj'
    · obtain ⟨f, -, rfl⟩ := List.mem_map.1 (by simpa using hj')
      rfl
  cases it with
  | importDecl path asName span =>
    cases h
    exact hj
  | moduleDecl name fields methods span =>
    obtain ⟨d₁, -, h⟩ := Except.bind_eq_ok.1 h
    obtain ⟨⟨fp₂, d₂⟩, hb, h⟩ := Except.bind_eq_ok.1 h
    cases Except.pure_eq_ok.1 h
    obtain ⟨-, rfl⟩ := addBodies_ok hb
    exact hqueued _ methods
  | structDecl name fields span =>
    obtain ⟨d₁, -, h⟩ := Except.bind_eq_ok.1 h
    cases Except.pure_eq_ok.1 h
    exact hj
  | traitDecl name sigs span =>
    obtain ⟨d₁, -, h⟩ := Except.bind_eq_ok.1 h
    cases Except.pure_eq_ok.1 h
    exact hj
  | implDecl traitTy target methods span =>
    dsimp only [item] at h
    split at h
    · obtain ⟨_, hp, h⟩ := Except.bind_eq_ok.1 h
      cases Except.pure_eq_ok.1 hp
      split at h
      · obtain ⟨_, hp, h⟩ := Except.bind_eq_ok.1 h
        cases Except.pure_eq_ok.1 hp
        obtain ⟨d₁, -, h⟩ := Except.bind_eq_ok.1 h
        obtain ⟨d₂, -, h⟩ := Except.bind_eq_ok.1 h
        obtain ⟨⟨fp₃, d₃⟩, hb, h⟩ := Except.bind_eq_ok.1 h
        cases Except.pure_eq_ok.1 h
        obtain ⟨-, rfl⟩ := addBodies_ok hb
        exact hqueued _ methods
      · obtain ⟨_, h, -⟩ := Except.bind_eq_ok.1 h
        cases h
    · obtain ⟨_, h, -⟩ := Except.bind_eq_ok.1 h
      cases h
  | fnDecl f =>
    dsimp only [item] at h
    -- the job of a global function, filed under the holder
    have hpush : ∀ (owner : String), ∀ j ∈ fp.jobs.push ⟨MethodKey.of owner (fp.signature f.sig true), fp.unit, f⟩,
        j.key.name = j.decl.sig.name.name := by
      intro owner j hj'
      rcases Array.mem_push.1 hj' with hj' | rfl
      · exact hj j hj'
      · rfl
    cases hh : fp.holderAt with
    | none =>
      simp only [hh] at h
      obtain ⟨o, -, h⟩ := Except.bind_eq_ok.1 h
      cases Except.pure_eq_ok.1 h
      exact hpush _
    | some pos =>
      simp only [hh] at h
      obtain ⟨o, -, h⟩ := Except.bind_eq_ok.1 h
      cases Except.pure_eq_ok.1 h
      exact hpush _

end FilePass

/-- Every job of a successful structural pass is filed under the name of the
    function it compiles. -/
theorem buildStructure_jobs_named {files : List (String × SourceFile)} {s : Structure}
    (h : buildStructure files = .ok s) : ∀ j ∈ s.jobs, j.key.name = j.decl.sig.name.name :=
  buildStructure_forall_jobs (fun j => j.key.name = j.decl.sig.name.name)
    (fun _ _ _ _ _ _ hstep hj => FilePass.item_jobs_named hstep hj) h

/-- Every struct and module of a successful structural pass has the shape the
    pass gives it, for the functions of the files. -/
theorem buildStructure_fieldsShape {files : List (String × SourceFile)} {s : Structure}
    (h : buildStructure files = .ok s) {d : TypeDecl} (hd : d ∈ s.table.decls) (hi : d.isInstantiable = true) :
    d.FieldsShape (files.flatMap fun f => f.2.functions) := by
  refine buildStructure_forall_decls (fun d => d.isInstantiable = true → d.FieldsShape _) ?_ ?_ h d hd hi
  · intro d hd hi
    simp [TypeDecl.isInstantiable, ClassTable.platform_library d hd] at hi
  · intro file hfile it hit fp fp' hstep ⟨hd, ha⟩
    refine FilePass.item_fieldsShape (fun f hf => ?_) hstep hd ha
    exact List.mem_flatMap.2 ⟨file, hfile, List.mem_flatMap.2 ⟨it, hit, hf⟩⟩

end ClassCompiler
