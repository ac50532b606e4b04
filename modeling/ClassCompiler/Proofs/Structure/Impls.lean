import ClassCompiler.Proofs.Structure.Holders
import ClassCompiler.Proofs.Parsing.Paths

/-!
# Where the methods of an adapter come from

An impl `impl T for S { … }` becomes the adapter `T$S`, and each of its
functions a method of the adapter with a job for its body. This module follows
the jobs through the structural pass, to say that the bodies filed under an
adapter are the functions written in its impl.

* `ImplMethod files T S j`: the job `j` compiles a function written in an impl
  of its own file whose trait and target resolve to `T` and `S`, as the method
  of `T$S` with the function's name and resolved types;
* `JobSource files j d`: the job `j` is filed under the class `d`, and if `d` is
  an adapter, `j` compiles a function of that adapter's impl;
* `ImplAdapter files T S d`: `d` is the adapter of an impl of `T` for `S`, its
  methods the constructor taking an `S`, then the impl's functions;
* `NamedByItem files d`: a module, struct or trait is named after the path of
  a declaration of a file;
* `ImplPass`: what the pass over one file keeps of the sources of its jobs and
  adapters, declaration after declaration (`ImplPass.items`);
* `buildStructure_sourced`: after the whole pass every job has its source among
  the classes of the table, every adapter of the table is that of an impl, and
  every module, struct and trait is named after the path of a declaration;
  `Structure.WellFormed.adapter_job`: the names of the table being distinct,
  every job filed under an adapter compiles a function of its impl.
-/

namespace ClassCompiler

open Syntax

/-- The instance method a function of a module or an impl becomes, its types
    resolved by `r`. -/
def Resolver.instanceSig (r : Resolver) (f : FnDecl) : MethodSig :=
  { r.globalSig f with isStatic := false }

theorem FilePass.signature_instance (fp : FilePass) (f : FnDecl) :
    fp.signature f.sig false = fp.resolver.instanceSig f := rfl

section Sources

variable (files : List (String × SourceFile))

/-- The job `j` compiles a function written in an impl of its own file, whose
    trait and target resolve to `T` and `S`, as the method of the adapter `T$S`
    with the function's name and resolved types. -/
def ImplMethod (T S : String) (j : BodyJob) : Prop :=
  ∃ file sf tt tg ms sp, files[j.unit]? = some (file, sf) ∧ Item.implDecl tt tg ms sp ∈ sf.items ∧
    (fileResolver files sf).resolve tt = .obj T ∧ (fileResolver files sf).resolve tg = .obj S ∧
    j.decl ∈ ms ∧ j.key = MethodKey.of (adapterName T S) ((fileResolver files sf).instanceSig j.decl)

/-- The job `j` is filed under the name of `d`, and when `d` is the adapter of
    `T` and `S` it compiles a function of an impl of `T` for `S`. -/
def JobSource (j : BodyJob) (d : TypeDecl) : Prop :=
  d.name = j.key.owner ∧ ∀ T S, d.adapter = some ⟨T, S⟩ → ImplMethod files T S j

/-- `d` is the adapter `T$S` of an impl of a file of `files` whose trait and
    target resolve to `T` and `S`: a class under `Object` with the one field
    `wrapped` of type `S`, whose methods are the constructor taking an `S`, then
    those of the impl's functions, in order. -/
def ImplAdapter (T S : String) (d : TypeDecl) : Prop :=
  d.name = adapterName T S ∧ d.kind = .adapter ∧ d.superclass = some objectClass ∧
    ∃ u : Nat, ∃ file sf tt tg ms sp, files[u]? = some (file, sf) ∧ Item.implDecl tt tg ms sp ∈ sf.items ∧
      (fileResolver files sf).resolve tt = .obj T ∧ (fileResolver files sf).resolve tg = .obj S ∧
      d.fields = [⟨wrappedField, .obj S, false, sp⟩] ∧
      d.methods = { MethodSig.constructor [.obj S] with span := sp } :: ms.map (fileResolver files sf).instanceSig

/-- If `d` is a module, struct or trait, it is named after the path of a
    declaration of a file of `files`. -/
def NamedByItem (d : TypeDecl) : Prop :=
  d.kind = .module ∨ d.kind = .struct ∨ d.kind = .trait →
    ∃ u : Nat, ∃ file sf, files[u]? = some (file, sf) ∧
      ∃ it ∈ sf.items, ∃ p, it.classPath? = some p ∧ d.name = FilePass.declName p

/-- What the structural pass knows of where the jobs `jobs` and the classes `ds`
    come from: every job has its source among `ds`, every adapter among `ds` is
    that of an impl, and every module, struct and trait is named after the
    path of a declaration of a file. -/
structure Sourced (jobs : List BodyJob) (ds : List TypeDecl) : Prop where
  jobs : ∀ j ∈ jobs, ∃ d ∈ ds, JobSource files j d
  adapters : ∀ d ∈ ds, ∀ T S, d.adapter = some ⟨T, S⟩ → ImplAdapter files T S d
  named : ∀ d ∈ ds, NamedByItem files d

variable {files}

/-- A class that is not an adapter is the source of every job filed under its
    name. -/
theorem JobSource.of_plain {j : BodyJob} {d : TypeDecl} (hn : d.name = j.key.owner) (ha : d.adapter = none) :
    JobSource files j d :=
  ⟨hn, fun _ _ h => by simp [ha] at h⟩

/-- A class with the name and adapter of a source is a source. -/
theorem JobSource.congr {j : BodyJob} {d d' : TypeDecl} (h : JobSource files j d) (hn : d'.name = d.name)
    (ha : d'.adapter = d.adapter) : JobSource files j d' :=
  ⟨hn.trans h.1, fun T S hs => h.2 T S (ha ▸ hs)⟩

end Sources

/-! ### The pass over one file -/

/-- What the pass over the file `u`, given the jobs `J₀` of the files before
    it, keeps of the sources of the jobs: its declarations are not adapters and
    are named after their paths, the holder stands among them once made, every
    new job has its source among the declarations and adapters made, and every
    adapter made is that of an impl of the file. -/
structure ImplPass (files : List (String × SourceFile)) (J₀ : List BodyJob) (u : Nat) (sf : SourceFile)
    (fp : FilePass) : Prop where
  unit : fp.unit = u
  resolver : fp.resolver = fileResolver files sf
  plain : ∀ d ∈ fp.decls, d.adapter = none
  named : ∀ d ∈ fp.decls, NamedByItem files d
  holder : ∀ pos, fp.holderAt = some pos → pos < fp.decls.size
  jobs : ∀ j ∈ fp.jobs, j ∈ J₀ ∨ ∃ d ∈ fp.decls.toList ++ fp.adapters.toList, JobSource files j d
  adapters : ∀ d ∈ fp.adapters, ∃ T S, d.adapter = some ⟨T, S⟩ ∧ ImplAdapter files T S d

namespace ImplPass

variable {files : List (String × SourceFile)} {J₀ : List BodyJob} {u : Nat} {file : String} {sf : SourceFile}
  {fp fp' : FilePass} {d : TypeDecl} {js : List BodyJob}

/-- A pass that has made nothing yet. -/
theorem start (hu : fp.unit = u) (hr : fp.resolver = fileResolver files sf) (hJ : fp.jobs.toList = J₀)
    (hd : fp.decls = #[]) (ha : fp.adapters = #[]) (hh : fp.holderAt = none) : ImplPass files J₀ u sf fp where
  unit := hu
  resolver := hr
  plain d h := by simp [hd] at h
  named d h := by simp [hd] at h
  holder pos h := by simp [hh] at h
  jobs j h := .inl (hJ ▸ Array.mem_toList_iff.2 h)
  adapters d h := by simp [ha] at h

/-- A declaration made, with the jobs of its functions. -/
theorem push (hI : ImplPass files J₀ u sf fp) (js : List BodyJob) (hd : d.adapter = none)
    (hn : NamedByItem files d) (hjs : ∀ j ∈ js, d.name = j.key.owner) :
    ImplPass files J₀ u sf { fp with jobs := fp.jobs ++ js.toArray, decls := fp.decls.push d } where
  unit := hI.unit
  resolver := hI.resolver
  plain d' h := by
    rcases Array.mem_push.1 h with h | rfl
    · exact hI.plain d' h
    · exact hd
  named d' h := by
    rcases Array.mem_push.1 h with h | rfl
    · exact hI.named d' h
    · exact hn
  holder pos h := by
    have := hI.holder pos h
    simp only [Array.size_push]
    omega
  jobs j h := by
    simp only [Array.mem_append, List.mem_toArray] at h
    rcases h with h | h
    · refine (hI.jobs j h).imp_right fun ⟨d', hd', hs⟩ => ⟨d', ?_, hs⟩
      simp only [List.mem_append, Array.mem_toList_iff, Array.mem_push] at hd' ⊢
      tauto
    · exact .inr ⟨d, by simp, .of_plain (hjs j h) hd⟩
  adapters := hI.adapters

/-- An adapter made for an impl, with the jobs of the impl's functions. -/
theorem pushAdapter (hI : ImplPass files J₀ u sf fp) {p : PendingImpl} (hjs : ∀ j ∈ js, JobSource files j d)
    (hd : ∃ T S, d.adapter = some ⟨T, S⟩ ∧ ImplAdapter files T S d) :
    ImplPass files J₀ u sf { fp with jobs := fp.jobs ++ js.toArray, adapters := fp.adapters.push d,
                                     pending := fp.pending.push p } where
  unit := hI.unit
  resolver := hI.resolver
  plain := hI.plain
  named := hI.named
  holder := hI.holder
  jobs j h := by
    simp only [Array.mem_append, List.mem_toArray] at h
    rcases h with h | h
    · refine (hI.jobs j h).imp_right fun ⟨d', hd', hs⟩ => ⟨d', ?_, hs⟩
      simp only [List.mem_append, Array.mem_toList_iff, Array.mem_push] at hd' ⊢
      tauto
    · exact .inr ⟨d, by simp, hjs j h⟩
  adapters d' h := by
    rcases Array.mem_push.1 h with h | rfl
    · exact hI.adapters d' h
    · exact hd

/-- The holder made at the first function, with no method yet. -/
theorem makeHolder (hI : ImplPass files J₀ u sf fp) (sp : Span) :
    ImplPass files J₀ u sf { fp with decls := fp.decls.push (fp.newDecl fp.holder .globals sp),
                                     holderAt := some fp.decls.size } := by
  have h := hI.push (d := fp.newDecl fp.holder .globals sp) [] rfl (fun h => by simp at h) (by simp)
  exact { h with
    holder := fun pos hp => by cases hp; simp
    jobs := fun j hj => by simpa using h.jobs j (by simpa using hj) }

/-- A function added to the holder at `pos`, with its job: the holder grows
    and keeps its name, so the jobs filed under it keep their source. -/
theorem addToHolder (hI : ImplPass files J₀ u sf fp) {pos : Nat} (hpos : fp.holderAt = some pos) {f : FnDecl}
    {sig : MethodSig} {o : TypeDecl} (ho : (fp.decls.getD pos default).addMethod sig = .ok o) :
    ImplPass files J₀ u sf { fp with decls := fp.decls.setIfInBounds pos o,
                                     jobs := fp.jobs.push ⟨MethodKey.of (fp.decls.getD pos default).name sig, fp.unit, f⟩ } := by
  have hlt := hI.holder pos hpos
  have hget : fp.decls.getD pos default = fp.decls[pos] := by simp [hlt]
  rw [hget] at ho ⊢
  obtain ⟨-, rfl⟩ := TypeDecl.addMethod_ok.1 ho
  have hplain := hI.plain _ (Array.getElem_mem hlt)
  have hnamed := hI.named _ (Array.getElem_mem hlt)
  have hat : fp.decls[pos]? = some fp.decls[pos] := Array.getElem?_eq_getElem hlt
  have hnew := Array.mem_setIfInBounds (a := { fp.decls[pos] with methods := fp.decls[pos].methods ++ [sig] }) hlt
  generalize fp.decls[pos] = owner at hplain hnamed hat hnew ⊢
  have hmem : { owner with methods := owner.methods ++ [sig] } ∈
      (fp.decls.setIfInBounds pos { owner with methods := owner.methods ++ [sig] }).toList ++ fp.adapters.toList :=
    List.mem_append_left _ (Array.mem_toList_iff.2 hnew)
  refine ⟨hI.unit, hI.resolver, fun d' h => ?_, fun d' h => ?_, fun p hp => by simpa using hI.holder p hp,
    fun j h => ?_, hI.adapters⟩
  · rcases Array.mem_or_eq_of_mem_setIfInBounds h with h | rfl
    · exact hI.plain d' h
    · exact hplain
  · -- the holder keeps its kind and name
    rcases Array.mem_or_eq_of_mem_setIfInBounds h with h | rfl
    · exact hI.named d' h
    · exact hnamed
  · rcases Array.mem_push.1 h with h | rfl
    · refine (hI.jobs j h).imp_right fun ⟨d', hd', hs⟩ => ?_
      simp only [List.mem_append, Array.mem_toList_iff] at hd'
      rcases hd' with hd' | hd'
      · -- a declaration kept, or the holder replaced by its larger self
        rcases Array.mem_setIfInBounds_or (i := pos) (a := { owner with methods := owner.methods ++ [sig] }) hd'
          with hd' | hd'
        · exact ⟨d', List.mem_append_left _ (Array.mem_toList_iff.2 hd'), hs⟩
        · rw [hat, Option.some_inj] at hd'
          subst hd'
          exact ⟨_, hmem, hs.congr rfl rfl⟩
      · exact ⟨d', List.mem_append_right _ (Array.mem_toList_iff.2 hd'), hs⟩
    · exact .inr ⟨_, hmem, .of_plain rfl hplain⟩

/-- The jobs queued for the functions of a declaration are filed under its
    name. -/
theorem jobOf_owner {owner : String} {fs : List FnDecl} :
    ∀ j ∈ fs.map (fun f => fp.jobOf owner (fp.signature f.sig false) f), owner = j.key.owner := by
  intro j hj
  obtain ⟨f, -, rfl⟩ := List.mem_map.1 hj
  rfl

/-- One declaration of the file: an impl makes an adapter whose jobs are
    those of the impl's functions; any other declaration makes classes that
    are not adapters. -/
theorem item (hI : ImplPass files J₀ u sf fp) (hu : files[u]? = some (file, sf)) {it : Item} (hit : it ∈ sf.items)
    (h : fp.item it = .ok fp') : ImplPass files J₀ u sf fp' := by
  cases it with
  | importDecl path asName span =>
    cases h
    exact hI
  | moduleDecl name fields methods span =>
    obtain ⟨d, hd, h⟩ := Except.bind_eq_ok.1 h
    obtain ⟨⟨fp₁, d₁⟩, hb, h⟩ := Except.bind_eq_ok.1 h
    cases Except.pure_eq_ok.1 h
    obtain ⟨rfl, rfl⟩ := FilePass.addBodies_ok hb
    have hd := FilePass.addFields_ok hd
    subst hd
    exact hI.push _ rfl (fun _ => ⟨u, file, sf, hu, _, hit, name, rfl, rfl⟩) jobOf_owner
  | structDecl name fields span =>
    obtain ⟨d, hd, h⟩ := Except.bind_eq_ok.1 h
    cases Except.pure_eq_ok.1 h
    have hd := FilePass.addFields_ok hd
    subst hd
    simpa using hI.push [] rfl (fun _ => ⟨u, file, sf, hu, _, hit, name, rfl, rfl⟩) (by simp)
  | traitDecl name sigs span =>
    obtain ⟨d, hd, h⟩ := Except.bind_eq_ok.1 h
    cases Except.pure_eq_ok.1 h
    rw [FilePass.foldlM_addMethod hd]
    simpa using hI.push [] rfl (fun _ => ⟨u, file, sf, hu, _, hit, name, rfl, rfl⟩) (by simp)
  | implDecl traitTy target methods span =>
    dsimp only [FilePass.item] at h
    split at h
    · rename_i tn htn
      obtain ⟨_, hp, h⟩ := Except.bind_eq_ok.1 h
      cases Except.pure_eq_ok.1 hp
      split at h
      · rename_i sn hsn
        obtain ⟨_, hp, h⟩ := Except.bind_eq_ok.1 h
        cases Except.pure_eq_ok.1 hp
        obtain ⟨d₁, hd₁, h⟩ := Except.bind_eq_ok.1 h
        obtain ⟨d₂, hd₂, h⟩ := Except.bind_eq_ok.1 h
        obtain ⟨⟨fp₃, d₃⟩, hb, h⟩ := Except.bind_eq_ok.1 h
        cases Except.pure_eq_ok.1 h
        obtain ⟨-, rfl⟩ := TypeDecl.addField_ok.1 hd₁
        obtain ⟨-, rfl⟩ := TypeDecl.addMethod_ok.1 hd₂
        obtain ⟨rfl, rfl⟩ := FilePass.addBodies_ok hb
        -- the adapter is that of the impl's trait and target, as resolved in this file
        refine hI.pushAdapter (fun j hj => ⟨?_, fun T S hs => ?_⟩) ⟨tn, sn, rfl, ?_⟩
        · obtain ⟨f, -, rfl⟩ := List.mem_map.1 hj
          rfl
        · obtain ⟨rfl, rfl⟩ : tn = T ∧ sn = S := by simpa using hs
          obtain ⟨f, hf, rfl⟩ := List.mem_map.1 hj
          refine ⟨file, sf, traitTy, target, methods, span, by simpa [FilePass.jobOf, hI.unit] using hu, hit,
            hI.resolver ▸ htn, hI.resolver ▸ hsn, hf, ?_⟩
          simp [FilePass.jobOf, FilePass.signature_instance, hI.resolver]
        · refine ⟨rfl, rfl, rfl, u, file, sf, traitTy, target, methods, span, hu, hit, hI.resolver ▸ htn,
            hI.resolver ▸ hsn, by simp [hsn], ?_⟩
          rw [← hI.resolver]
          simp [hsn, FilePass.signature_instance]
      · obtain ⟨_, h, -⟩ := Except.bind_eq_ok.1 h
        cases h
    · obtain ⟨_, h, -⟩ := Except.bind_eq_ok.1 h
      cases h
  | fnDecl f =>
    dsimp only [FilePass.item] at h
    cases hh : fp.holderAt with
    | none =>
      simp only [hh] at h
      obtain ⟨o, ho, h⟩ := Except.bind_eq_ok.1 h
      cases Except.pure_eq_ok.1 h
      exact (hI.makeHolder f.span).addToHolder (f := f) rfl ho
    | some pos =>
      simp only [hh] at h
      obtain ⟨o, ho, h⟩ := Except.bind_eq_ok.1 h
      cases Except.pure_eq_ok.1 h
      have h' := hI.addToHolder (f := f) hh ho
      rwa [hh] at h'

/-- The declarations of the file, one after the other. -/
theorem items (hu : files[u]? = some (file, sf)) {its : List Item} (hits : ∀ it ∈ its, it ∈ sf.items) :
    ∀ {fp fp' : FilePass}, ImplPass files J₀ u sf fp → its.foldlM FilePass.item fp = .ok fp' →
      ImplPass files J₀ u sf fp' := by
  induction its with
  | nil =>
    intro fp fp' hI h
    cases h
    exact hI
  | cons it its ih =>
    intro fp fp' hI h
    rw [List.foldlM_cons] at h
    obtain ⟨fp₁, h₁, h⟩ := Except.bind_eq_ok.1 h
    exact ih (fun it' h' => hits it' (List.mem_cons_of_mem _ h')) (hI.item hu (hits it List.mem_cons_self) h₁) h

end ImplPass

/-! ### The pass over the files -/

/-- No class of the platform is an adapter. -/
theorem ClassTable.platform_plain : ∀ d ∈ ClassTable.platform.decls, d.adapter = none := by decide

/-- A successful structural pass knows where its jobs and adapters come from:
    every job has its source among the classes of the table, and every adapter
    of the table is that of an impl. The invariant of the files' loop: the
    classes registered are not adapters, and `Sourced` holds of them together
    with the adapters waiting for registration; the adapters are registered
    after every file, and the impls change no declaration. -/
theorem buildStructure_sourced {files : List (String × SourceFile)} {s : Structure}
    (h : buildStructure files = .ok s) : Sourced files s.jobs s.table.decls.toList := by
  unfold buildStructure at h
  dsimp only at h
  obtain ⟨⟨t, jobs, holders, pending, adapters⟩, hloop, h⟩ := Except.bind_eq_ok.1 h
  obtain ⟨t₁, hreg, h⟩ := Except.bind_eq_ok.1 h
  obtain ⟨t₂, hrec, h⟩ := Except.bind_eq_ok.1 h
  cases Except.pure_eq_ok.1 h
  -- the files, one after the other; the names of the table stay distinct, as
  -- registration needs it
  have hI : t.Distinct ∧ (∀ d ∈ t.decls, d.adapter = none) ∧
      Sourced files jobs.toList (t.decls.toList ++ adapters.toList.map (·.2)) := by
    refine Except.forIn_inv (fun st => st.1.Distinct ∧ (∀ d ∈ st.1.decls, d.adapter = none) ∧
      Sourced files st.2.1.toList (st.1.decls.toList ++ st.2.2.2.2.toList.map (·.2))) ?_
      ⟨ClassTable.platform_distinct, ClassTable.platform_plain, ⟨by simp, fun d hd T S hs => ?_, fun d hd hk => ?_⟩⟩
      hloop
    rotate_left
    · -- no class of the platform is an adapter, a module, a struct or a trait
      simp [ClassTable.platform_plain d (by simpa using hd)] at hs
    · rw [ClassTable.platform_library d (by simpa using hd)] at hk
      simp at hk
    rintro ⟨file, i⟩ hx ⟨t, jobs, holders, pending, adapters⟩ r ⟨hdist, hplain, hS⟩ hr
    dsimp only at hr hplain hS ⊢
    split at hr
    · rename_i fp hfp
      obtain ⟨_, hp, hr⟩ := Except.bind_eq_ok.1 hr
      cases Except.pure_eq_ok.1 hp
      obtain ⟨t', hreg, hr⟩ := Except.bind_eq_ok.1 hr
      cases Except.pure_eq_ok.1 hr
      rw [← Array.forIn_toList] at hreg
      obtain ⟨hdecls, -, hdist'⟩ := ClassTable.registerAll id registers hdist hreg
      have hdecls' : t'.decls.toList = t.decls.toList ++ fp.decls.toList := by simpa using hdecls
      have hu : files[i]? = some (file.1, file.2) := List.mem_zipIdx_iff_getElem?.1 hx
      have hpass : ImplPass files jobs.toList i file.2 fp :=
        ImplPass.items hu (fun it h => h) (ImplPass.start rfl rfl rfl rfl rfl rfl) hfp
      dsimp only [ForInStep.value]
      -- the classes before, those of the file, and the adapters of both
      have hmem : ∀ d, d ∈ t'.decls.toList ++ (adapters ++ fp.adapters.map (i, ·)).toList.map (·.2) ↔
          (d ∈ t.decls.toList ++ adapters.toList.map (·.2)) ∨ d ∈ fp.decls.toList ++ fp.adapters.toList := by
        intro d
        rw [hdecls']
        simp only [List.mem_append, Array.toList_append, Array.toList_map, List.map_append, List.map_map,
          List.mem_map, Function.comp_apply, exists_eq_right]
        constructor
        · rintro ((h | h) | h | h)
          · exact .inl (.inl h)
          · exact .inr (.inl h)
          · exact .inl (.inr h)
          · exact .inr (.inr h)
        · rintro ((h | h) | h | h)
          · exact .inl (.inl h)
          · exact .inr (.inl h)
          · exact .inl (.inr h)
          · exact .inr (.inr h)
      refine ⟨hdist', fun d hd => ?_, ⟨fun j hj => ?_, fun d hd T S hs => ?_, fun d hd => ?_⟩⟩
      · rw [← Array.mem_toList_iff, hdecls', List.mem_append, Array.mem_toList_iff, Array.mem_toList_iff] at hd
        exact hd.elim (hplain d) (hpass.plain d)
      · -- an earlier job keeps its source, a new one has it among the file's classes
        rcases hpass.jobs j (Array.mem_toList_iff.1 hj) with hj | ⟨d, hd, hs⟩
        · obtain ⟨d, hd, hs⟩ := hS.jobs j hj
          exact ⟨d, (hmem d).2 (.inl hd), hs⟩
        · exact ⟨d, (hmem d).2 (.inr hd), hs⟩
      · -- an adapter waiting for registration is of an earlier file or of this one
        rcases (hmem d).1 hd with hd | hd
        · exact hS.adapters d hd T S hs
        · rw [List.mem_append, Array.mem_toList_iff, Array.mem_toList_iff] at hd
          rcases hd with hd | hd
          · simp [hpass.plain d hd] at hs
          · obtain ⟨T', S', hs', had⟩ := hpass.adapters d hd
            obtain ⟨rfl, rfl⟩ : T = T' ∧ S = S' := by simpa [hs] using hs'
            exact had
      · -- an adapter is neither a module, nor a struct, nor a trait
        rcases (hmem d).1 hd with hd | hd
        · exact hS.named d hd
        · rw [List.mem_append, Array.mem_toList_iff, Array.mem_toList_iff] at hd
          rcases hd with hd | hd
          · exact hpass.named d hd
          · obtain ⟨T, S, -, -, hk, -⟩ := hpass.adapters d hd
            intro hk'
            rw [hk] at hk'
            simp at hk'
    · obtain ⟨_, h, _⟩ := Except.bind_eq_ok.1 hr
      cases h
  -- then the adapters, and last the impls
  rw [← Array.forIn_toList] at hreg hrec
  obtain ⟨hdecls₁, -, -⟩ := ClassTable.registerAll Prod.snd registers hI.1 hreg
  obtain ⟨hdecls₂, -, -⟩ := ClassTable.recordImpls (by
    intro p t r h
    split at h
    · exact ⟨‹_›, (Except.pure_eq_ok.1 h).symm⟩
    · obtain ⟨_, h, _⟩ := Except.bind_eq_ok.1 h
      cases h) hrec
  show Sourced files jobs.toList t₂.decls.toList
  rw [hdecls₂, hdecls₁]
  exact hI.2.2

/-- A job filed under an adapter of the table compiles a function written in
    that adapter's impl: the names of the table are distinct, so the class a
    job is filed under is the adapter itself. -/
theorem Structure.WellFormed.adapter_job {files : List (String × SourceFile)} {s : Structure}
    (hs : buildStructure files = .ok s) {fns : List FnDecl} (hw : s.WellFormed fns) {A : TypeDecl}
    (hA : A ∈ s.table.decls) {T S : String} (hinfo : A.adapter = some ⟨T, S⟩) {j : BodyJob} (hj : j ∈ s.jobs)
    (hown : j.key.owner = A.name) : ImplMethod files T S j := by
  obtain ⟨d, hd, hname, hsrc⟩ := (buildStructure_sourced hs).jobs j hj
  have hget : s.table.get? A.name = some d :=
    (ClassTable.get?_eq_some_iff hw.distinct).2 ⟨Array.mem_toList_iff.1 hd, hname.trans hown⟩
  obtain rfl : d = A := Option.some.inj (hget.symm.trans ((ClassTable.get?_eq_some_iff hw.distinct).2 ⟨hA, rfl⟩))
  exact hsrc T S hinfo

end ClassCompiler
