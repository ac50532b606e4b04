import ClassCompiler.Proofs.Structure.Table
import ClassCompiler.Proofs.Primitive.Semantics

/-!
# The holders of global functions

The global functions of a file become static methods of one class, its holder,
named after the file and made at the file's first function. This module
follows the holders through the structural pass.

* `Resolver.globalSig`: the static method a global function becomes;
* `IsHolder r n fns d`: `d` is the holder `n` of the functions `fns`: a class of
  kind `globals` under `Object`, with their methods in order, no two of the
  same signature;
* `HolderPass`: what the pass over a file keeps of its holder and of the jobs
  of its functions, declaration after declaration (`HolderPass.items`);
* `Structure.HoldersOk`, `buildStructure_holders`: after the pass over every
  file, each file with global functions has its holder in the table, the
  holders are the classes of kind `globals`, and every job is the job of a
  global function or belongs to a class of another kind;
* `HoldersOk.job_of_holder`: so the jobs for the methods of a holder are those
  of its file's functions.
-/

namespace ClassCompiler

open Syntax

/-- The global function an item declares. -/
def Syntax.Item.globalFn? : Item → Option FnDecl
  | .fnDecl f => some f
  | _ => none

theorem Primitive.functions_eq (sf : SourceFile) :
    Primitive.functions sf = sf.items.filterMap Item.globalFn? := by
  rfl

/-- The static method a global function becomes, its types resolved by `r`. -/
def Resolver.globalSig (r : Resolver) (f : FnDecl) : MethodSig :=
  { name := f.sig.name.name
    params := f.sig.params.map fun p => r.resolve p.ty
    paramNames := f.sig.params.map (·.name.name)
    ret := (f.sig.ret.map r.resolve).getD .void
    isStatic := true
    isAbstract := false
    span := f.sig.span }

theorem FilePass.signature_global (fp : FilePass) (f : FnDecl) :
    fp.signature f.sig true = fp.resolver.globalSig f := rfl

/-- The job for the global function `f` of the file `u`, whose holder is `n`. -/
def holderJob (r : Resolver) (n : String) (u : Nat) (f : FnDecl) : BodyJob :=
  ⟨MethodKey.of n (r.globalSig f), u, f⟩

/-- The types of a file among `files` resolve through its aliases, with the
    classes of the platform and of every file known. -/
def fileResolver (files : List (String × SourceFile)) (sf : SourceFile) : Resolver :=
  ⟨sf.aliases, fun n => (knownNames files).contains n⟩

/-- `d` is the holder `n` of the global functions `fns`, their types resolved by
    `r`: a class of kind `globals` under `Object`, not an adapter, whose methods
    are those of the functions in order, no two of the same signature. -/
structure IsHolder (r : Resolver) (n : String) (fns : List FnDecl) (d : TypeDecl) : Prop where
  name : d.name = n
  kind : d.kind = .globals
  superclass : d.superclass = some objectClass
  adapter : d.adapter = none
  methods : d.methods = fns.map r.globalSig
  distinct : fns.Pairwise fun f g => (r.globalSig f).sameSignature (r.globalSig g) = false

/-! ### Declarations other than functions -/

namespace FilePass

/-- What a declaration other than a function adds to the pass over a file:
    declarations and adapters of other kinds than `globals`, and jobs for their
    methods; the holder is left as it is. -/
structure OtherStep (fp fp' : FilePass) : Prop where
  unit : fp'.unit = fp.unit
  holder : fp'.holder = fp.holder
  resolver : fp'.resolver = fp.resolver
  holderAt : fp'.holderAt = fp.holderAt
  added : ∃ ds as js, fp'.decls.toList = fp.decls.toList ++ ds ∧ fp'.adapters.toList = fp.adapters.toList ++ as ∧
    fp'.jobs.toList = fp.jobs.toList ++ js ∧ (∀ d ∈ ds ++ as, d.kind ≠ .globals) ∧
    ∀ j ∈ js, ∃ d ∈ ds ++ as, j.key.owner = d.name

variable {fp fp' : FilePass} {d : TypeDecl} {js : List BodyJob}

theorem OtherStep.refl (fp : FilePass) : OtherStep fp fp :=
  ⟨rfl, rfl, rfl, rfl, [], [], [], by simp, by simp, by simp, by simp, by simp⟩

/-- A declaration made, with the jobs of its methods. -/
theorem OtherStep.push (hk : d.kind ≠ .globals) (hjs : ∀ j ∈ js, j.key.owner = d.name) :
    OtherStep fp { fp with jobs := fp.jobs ++ js.toArray, decls := fp.decls.push d } :=
  ⟨rfl, rfl, rfl, rfl, [d], [], js, by simp, by simp, by simp, by simpa using hk,
    fun j hj => ⟨d, by simp, hjs j hj⟩⟩

/-- An adapter made, with the jobs of its methods. -/
theorem OtherStep.pushAdapter {p : PendingImpl} (hk : d.kind ≠ .globals) (hjs : ∀ j ∈ js, j.key.owner = d.name) :
    OtherStep fp { fp with jobs := fp.jobs ++ js.toArray, adapters := fp.adapters.push d,
                           pending := fp.pending.push p } :=
  ⟨rfl, rfl, rfl, rfl, [], [d], js, by simp, by simp, by simp, by simpa using hk,
    fun j hj => ⟨d, by simp, hjs j hj⟩⟩

/-- The jobs queued for the functions of a declaration belong to it. -/
theorem jobOf_owner {owner : String} {fs : List FnDecl} {isStatic : Bool} :
    ∀ j ∈ fs.map (fun f => fp.jobOf owner (fp.signature f.sig isStatic) f), j.key.owner = owner := by
  intro j hj
  obtain ⟨f, -, rfl⟩ := List.mem_map.1 hj
  rfl

/-- A declaration that is not a function leaves the holder alone. -/
theorem item_other {it : Item} (hit : it.globalFn? = none) (h : fp.item it = .ok fp') : OtherStep fp fp' := by
  cases it with
  | importDecl path asName span =>
    cases h
    exact OtherStep.refl fp
  | moduleDecl name fields methods span =>
    obtain ⟨d, hd, h⟩ := Except.bind_eq_ok.1 h
    obtain ⟨⟨fp₁, d₁⟩, hb, h⟩ := Except.bind_eq_ok.1 h
    cases Except.pure_eq_ok.1 h
    obtain ⟨rfl, rfl⟩ := addBodies_ok hb
    have hd := addFields_ok hd
    subst hd
    exact OtherStep.push (by simp) jobOf_owner
  | structDecl name fields span =>
    obtain ⟨d, hd, h⟩ := Except.bind_eq_ok.1 h
    cases Except.pure_eq_ok.1 h
    have hd := addFields_ok hd
    subst hd
    simpa using @OtherStep.push fp _ [] (by simp) (by simp)
  | traitDecl name sigs span =>
    obtain ⟨d, hd, h⟩ := Except.bind_eq_ok.1 h
    cases Except.pure_eq_ok.1 h
    rw [foldlM_addMethod hd]
    simpa using @OtherStep.push fp _ [] (by simp) (by simp)
  | implDecl traitTy target methods span =>
    dsimp only [item] at h
    split at h
    · obtain ⟨_, hp, h⟩ := Except.bind_eq_ok.1 h
      cases Except.pure_eq_ok.1 hp
      split at h
      · obtain ⟨_, hp, h⟩ := Except.bind_eq_ok.1 h
        cases Except.pure_eq_ok.1 hp
        obtain ⟨d₁, hd₁, h⟩ := Except.bind_eq_ok.1 h
        obtain ⟨d₂, hd₂, h⟩ := Except.bind_eq_ok.1 h
        obtain ⟨⟨fp₃, d₃⟩, hb, h⟩ := Except.bind_eq_ok.1 h
        cases Except.pure_eq_ok.1 h
        obtain ⟨-, rfl⟩ := TypeDecl.addField_ok.1 hd₁
        obtain ⟨-, rfl⟩ := TypeDecl.addMethod_ok.1 hd₂
        obtain ⟨rfl, rfl⟩ := addBodies_ok hb
        exact OtherStep.pushAdapter (by simp) jobOf_owner
      · obtain ⟨_, h, -⟩ := Except.bind_eq_ok.1 h
        cases h
    · obtain ⟨_, h, -⟩ := Except.bind_eq_ok.1 h
      cases h
  | fnDecl f => cases hit

end FilePass

/-! ### The pass over one file -/

/-- What the pass over the file `u` keeps of its global functions, given the
    jobs `J₀` of the files before it, once the functions `done` are passed:
    without a holder yet there are no functions and no class of kind
    `globals`; with one, the holder `n` of `done` is the one such class; every
    new job is the job of one of `done` or belongs to a declaration or adapter
    of another kind; and each of `done` has its job. -/
structure HolderPass (J₀ : List BodyJob) (u : Nat) (n : String) (r : Resolver) (done : List FnDecl)
    (fp : FilePass) : Prop where
  unit : fp.unit = u
  holder : fp.holder = n
  resolver : fp.resolver = r
  none_at : fp.holderAt = none → done = [] ∧ ∀ d ∈ fp.decls, d.kind ≠ .globals
  some_at : ∀ pos, fp.holderAt = some pos → ∃ pre hd post, fp.decls.toList = pre ++ hd :: post ∧
    pre.length = pos ∧ IsHolder r n done hd ∧ ∀ d ∈ pre ++ post, d.kind ≠ .globals
  adapters : ∀ d ∈ fp.adapters, d.kind ≠ .globals
  jobs : ∀ j ∈ fp.jobs, j ∈ J₀ ∨ (∃ f ∈ done, j = holderJob r n u f) ∨
    ∃ d ∈ fp.decls.toList ++ fp.adapters.toList, d.kind ≠ .globals ∧ j.key.owner = d.name
  queued : ∀ f ∈ done, holderJob r n u f ∈ fp.jobs
  keeps : J₀ ⊆ fp.jobs.toList

namespace HolderPass

variable {J₀ : List BodyJob} {u : Nat} {n : String} {r : Resolver} {done : List FnDecl} {fp fp' : FilePass}

/-- A pass that has made nothing yet. -/
theorem start (hu : fp.unit = u) (hn : fp.holder = n) (hr : fp.resolver = r) (hJ : fp.jobs.toList = J₀)
    (hd : fp.decls = #[]) (ha : fp.adapters = #[]) (hh : fp.holderAt = none) : HolderPass J₀ u n r [] fp where
  unit := hu
  holder := hn
  resolver := hr
  none_at _ := ⟨rfl, by simp [hd]⟩
  some_at pos h := by simp [hh] at h
  adapters d h := by simp [ha] at h
  jobs j h := .inl (hJ ▸ Array.mem_toList_iff.2 h)
  queued f h := by cases h
  keeps := hJ ▸ List.Subset.refl _

/-- A declaration other than a function keeps what the pass knows of the
    holder. -/
theorem other (hI : HolderPass J₀ u n r done fp) (h : FilePass.OtherStep fp fp') : HolderPass J₀ u n r done fp' := by
  obtain ⟨ds, as, js, hd, ha, hj, hk, hown⟩ := h.added
  have hdecl : ∀ d ∈ fp.decls.toList ++ fp.adapters.toList, d ∈ fp'.decls.toList ++ fp'.adapters.toList := by
    intro d hd'
    rw [hd, ha]
    simp only [List.mem_append] at hd' ⊢
    tauto
  refine ⟨h.unit.trans hI.unit, h.holder.trans hI.holder, h.resolver.trans hI.resolver, fun hn => ?_,
    fun pos hpos => ?_, fun d hd' => ?_, fun j hj' => ?_, fun f hf => ?_, ?_⟩
  · obtain ⟨rfl, hnone⟩ := hI.none_at (h.holderAt ▸ hn)
    refine ⟨rfl, fun d hd' => ?_⟩
    rw [← Array.mem_toList_iff, hd, List.mem_append] at hd'
    exact hd'.elim (fun hd' => hnone d (Array.mem_toList_iff.1 hd')) fun hd' => hk d (List.mem_append_left _ hd')
  · obtain ⟨pre, hd₀, post, hdecls, hlen, hhd, hrest⟩ := hI.some_at pos (h.holderAt ▸ hpos)
    refine ⟨pre, hd₀, post ++ ds, by rw [hd, hdecls]; simp, hlen, hhd, fun d hd' => ?_⟩
    simp only [List.mem_append] at hd'
    rcases hd' with hd' | hd' | hd'
    · exact hrest d (List.mem_append_left _ hd')
    · exact hrest d (List.mem_append_right _ hd')
    · exact hk d (List.mem_append_left _ hd')
  · rw [← Array.mem_toList_iff, ha, List.mem_append] at hd'
    exact hd'.elim (fun hd' => hI.adapters d (Array.mem_toList_iff.1 hd')) fun hd' => hk d (List.mem_append_right _ hd')
  · rw [← Array.mem_toList_iff, hj, List.mem_append] at hj'
    rcases hj' with hj' | hj'
    · rcases hI.jobs j (Array.mem_toList_iff.1 hj') with hj' | hj' | ⟨d, hd', hkd, hown'⟩
      · exact .inl hj'
      · exact .inr (.inl hj')
      · exact .inr (.inr ⟨d, hdecl d hd', hkd, hown'⟩)
    · obtain ⟨d, hd', hown'⟩ := hown j hj'
      refine .inr (.inr ⟨d, ?_, hk d hd', hown'⟩)
      rw [hd, ha]
      simp only [List.mem_append] at hd' ⊢
      tauto
  · rw [← Array.mem_toList_iff, hj]
    exact List.mem_append_left _ (Array.mem_toList_iff.2 (hI.queued f hf))
  · rw [hj]
    exact List.Subset.trans hI.keeps (List.subset_append_left _ _)

/-- The holder made at the first function, with no method yet. -/
theorem makeHolder (hI : HolderPass J₀ u n r [] fp) (hnone : fp.holderAt = none) (sp : Span) :
    HolderPass J₀ u n r [] { fp with decls := fp.decls.push (fp.newDecl fp.holder .globals sp),
                                     holderAt := some fp.decls.size } := by
  have hother := (hI.none_at hnone).2
  refine ⟨hI.unit, hI.holder, hI.resolver, (fun h => by cases h), fun pos hpos => ?_, hI.adapters, fun j hj => ?_,
    (fun f hf => by cases hf), hI.keeps⟩
  · cases hpos
    refine ⟨fp.decls.toList, fp.newDecl fp.holder .globals sp, [], by simp, by simp, ?_, fun d hd => ?_⟩
    · exact ⟨hI.holder, rfl, rfl, rfl, rfl, List.Pairwise.nil⟩
    · simp only [List.append_nil, Array.mem_toList_iff] at hd
      exact hother d hd
  · rcases hI.jobs j hj with hj | hj | ⟨d, hd, hkd, hown⟩
    · exact .inl hj
    · exact .inr (.inl hj)
    · refine .inr (.inr ⟨d, ?_, hkd, hown⟩)
      simp only [List.mem_append, Array.toList_push, Array.mem_toList_iff] at hd ⊢
      tauto

/-- A function added to the holder at `pos`, with its job. -/
theorem addToHolder (hI : HolderPass J₀ u n r done fp) {pos : Nat} (hpos : fp.holderAt = some pos) {f : FnDecl}
    {o : TypeDecl} (ho : (fp.decls.getD pos default).addMethod (fp.signature f.sig true) = .ok o) :
    HolderPass J₀ u n r (done ++ [f])
      { fp with decls := fp.decls.setIfInBounds pos o,
                jobs := fp.jobs.push ⟨MethodKey.of (fp.decls.getD pos default).name (fp.signature f.sig true), fp.unit, f⟩ } := by
  obtain ⟨pre, hd, post, hdecls, rfl, hhd, hrest⟩ := hI.some_at pos hpos
  have hget : fp.decls.getD pre.length default = hd := by
    rw [Array.getD_eq_getD_getElem?, ← Array.getElem?_toList, hdecls]
    simp
  rw [hget, FilePass.signature_global, hI.resolver] at ho ⊢
  obtain ⟨hfresh, rfl⟩ := TypeDecl.addMethod_ok.1 ho
  have hnew : (fp.decls.setIfInBounds pre.length { hd with methods := hd.methods ++ [r.globalSig f] }).toList =
      pre ++ { hd with methods := hd.methods ++ [r.globalSig f] } :: post := by
    rw [Array.toList_setIfInBounds, hdecls, List.set_append_right _ _ (Nat.le_refl _)]
    simp
  have hjob : (⟨MethodKey.of hd.name (r.globalSig f), fp.unit, f⟩ : BodyJob) = holderJob r n u f := by
    rw [hhd.name, hI.unit]
    rfl
  rw [hjob]
  refine ⟨hI.unit, hI.holder, rfl, (fun h => by simp [hpos] at h), fun pos' hpos' => ?_, hI.adapters,
    fun j hj => ?_, fun g hg => ?_, ?_⟩
  · -- the holder grows by the function's method, which no method before has the signature of
    cases (Option.some_inj.1 (hpos.symm.trans hpos'))
    refine ⟨pre, _, post, hnew, rfl, ⟨hhd.name, hhd.kind, hhd.superclass, hhd.adapter, by simp [hhd.methods], ?_⟩, hrest⟩
    refine List.pairwise_append.2 ⟨hhd.distinct, List.pairwise_singleton _ _, fun a ha b hb => ?_⟩
    rw [List.mem_singleton.1 hb]
    simpa [hhd.methods, ha] using List.any_eq_false.1 hfresh (r.globalSig a) (by simp [hhd.methods]; exact ⟨a, ha, rfl⟩)
  · rcases Array.mem_push.1 hj with hj | rfl
    · rcases hI.jobs j hj with hj | ⟨g, hg, rfl⟩ | ⟨d, hd', hkd, hown⟩
      · exact .inl hj
      · exact .inr (.inl ⟨g, List.mem_append_left _ hg, rfl⟩)
      · refine .inr (.inr ⟨d, ?_, hkd, hown⟩)
        rw [List.mem_append, Array.mem_toList_iff] at hd' ⊢
        refine hd'.imp_left fun hd' => ?_
        rw [← Array.mem_toList_iff, hdecls, List.mem_append, List.mem_cons] at hd'
        rw [← Array.mem_toList_iff, hnew, List.mem_append, List.mem_cons]
        rcases hd' with hd' | rfl | hd'
        · exact .inl hd'
        · exact absurd hhd.kind hkd
        · exact .inr (.inr hd')
    · exact .inr (.inl ⟨f, by simp, rfl⟩)
  · rcases List.mem_append.1 hg with hg | hg
    · exact Array.mem_push.2 (.inl (hI.queued g hg))
    · rw [List.mem_singleton.1 hg]
      exact Array.mem_push.2 (.inr rfl)
  · exact List.Subset.trans hI.keeps (by simp)

/-- One declaration of a file: a function goes to the holder, made at the
    first one; any other declaration leaves it alone. -/
theorem item (hI : HolderPass J₀ u n r done fp) {it : Item} (h : fp.item it = .ok fp') :
    HolderPass J₀ u n r (done ++ it.globalFn?.toList) fp' := by
  cases hit : it.globalFn? with
  | none => simpa using hI.other (FilePass.item_other hit h)
  | some f =>
    obtain rfl : it = .fnDecl f := by cases it <;> cases hit; rfl
    dsimp only [FilePass.item] at h
    cases hh : fp.holderAt with
    | none =>
      simp only [hh] at h
      obtain ⟨o, ho, h⟩ := Except.bind_eq_ok.1 h
      cases Except.pure_eq_ok.1 h
      obtain ⟨rfl, -⟩ := hI.none_at hh
      exact (hI.makeHolder hh f.span).addToHolder rfl ho
    | some pos =>
      simp only [hh] at h
      obtain ⟨o, ho, h⟩ := Except.bind_eq_ok.1 h
      cases Except.pure_eq_ok.1 h
      have h' := hI.addToHolder hh ho
      rwa [hh] at h'

/-- The declarations of a file, one after the other. -/
theorem items {its : List Item} :
    ∀ {done : List FnDecl} {fp fp' : FilePass}, HolderPass J₀ u n r done fp → its.foldlM FilePass.item fp = .ok fp' →
      HolderPass J₀ u n r (done ++ its.filterMap Item.globalFn?) fp' := by
  induction its with
  | nil =>
    intro done fp fp' hI h
    cases h
    simpa using hI
  | cons it its ih =>
    intro done fp fp' hI h
    rw [List.foldlM_cons] at h
    obtain ⟨fp₁, h₁, h⟩ := Except.bind_eq_ok.1 h
    have := ih (hI.item h₁) h
    rw [List.filterMap_cons]
    cases hit : it.globalFn? <;> simpa [hit] using this

/-- `holders` of the pass over a file with the file's holder, if it made one. -/
theorem globals_names (hI : HolderPass J₀ u n r done fp) :
    (fp.decls.toList.filter (·.kind == .globals)).map (·.name) = (fp.holderAt.map fun _ => n).toList := by
  cases hh : fp.holderAt with
  | none =>
    rw [List.filter_eq_nil_iff.2 fun d hd => by simpa using (hI.none_at hh).2 d (Array.mem_toList_iff.1 hd)]
    rfl
  | some pos =>
    obtain ⟨pre, hd, post, hdecls, -, hhd, hrest⟩ := hI.some_at pos hh
    have hpre : pre.filter (·.kind == .globals) = [] :=
      List.filter_eq_nil_iff.2 fun d hd => by simpa using hrest d (List.mem_append_left _ hd)
    have hpost : post.filter (·.kind == .globals) = [] :=
      List.filter_eq_nil_iff.2 fun d hd => by simpa using hrest d (List.mem_append_right _ hd)
    simp [hdecls, List.filter_append, hpre, hpost, hhd.kind, hhd.name]

/-- A file with global functions has its holder made. -/
theorem holderAt_isSome (hI : HolderPass J₀ u n r done fp) (h : done ≠ []) : ∃ pos, fp.holderAt = some pos := by
  cases hh : fp.holderAt with
  | none => exact absurd (hI.none_at hh).1 h
  | some pos => exact ⟨pos, rfl⟩

end HolderPass

/-! ### The pass over the files -/

/-- An invariant of the elements done so far, kept by every step of a loop,
    holds of all of them at its end. -/
theorem Except.forIn_prefix {α β ε : Type} {xs : List α} {f : α → β → Except ε (ForInStep β)}
    (I : List α → β → Prop)
    (hf : ∀ pre x post b r, xs = pre ++ x :: post → I pre b → f x b = .ok r → ∃ b', r = .yield b' ∧ I (pre ++ [x]) b') :
    ∀ (post pre : List α) {b b' : β}, xs = pre ++ post → I pre b → forIn post b f = .ok b' → I xs b'
  | [], pre, b, b', hxs, hb, h => by
    cases h
    simpa [hxs] using hb
  | x :: post, pre, b, b', hxs, hb, h => by
    rw [List.forIn_cons] at h
    obtain ⟨r, hr, h⟩ := Except.bind_eq_ok.1 h
    obtain ⟨b₁, rfl, hb₁⟩ := hf pre x post b r hxs hb hr
    exact Except.forIn_prefix I hf post (pre ++ [x]) (by simp [hxs]) hb₁ h

/-- In a list of optional names whose names are distinct, a name stands at one
    position only. -/
theorem List.eq_of_filterMap_id_nodup {α : Type} {a : α} :
    ∀ {l : List (Option α)} {i j : Nat}, (l.filterMap id).Nodup → l[i]? = some (some a) → l[j]? = some (some a) → i = j
  | [], _, _, _, hi, _ => by simp at hi
  | none :: l, i, j, hnd, hi, hj => by
    cases i with
    | zero => simp at hi
    | succ i =>
      cases j with
      | zero => simp at hj
      | succ j =>
        simp only [List.getElem?_cons_succ] at hi hj
        rw [List.eq_of_filterMap_id_nodup (l := l) hnd hi hj]
  | some b :: l, i, j, hnd, hi, hj => by
    -- the first name is not among the others, which are distinct
    obtain ⟨hnot, htail⟩ := List.nodup_cons.1 (show (b :: l.filterMap id).Nodup from hnd)
    have hout : ∀ {k}, l[k]? = some (some a) → b ≠ a := fun hk hba =>
      hnot (List.mem_filterMap.2 ⟨some a, List.mem_of_getElem? hk, hba ▸ rfl⟩)
    cases i with
    | zero =>
      cases j with
      | zero => rfl
      | succ j =>
        simp only [List.getElem?_cons_zero, Option.some.injEq] at hi
        exact absurd hi (hout (by simpa using hj))
    | succ i =>
      cases j with
      | zero =>
        simp only [List.getElem?_cons_zero, Option.some.injEq] at hj
        exact absurd hj (hout (by simpa using hi))
      | succ j =>
        simp only [List.getElem?_cons_succ] at hi hj
        rw [List.eq_of_filterMap_id_nodup htail hi hj]

section Files

variable {files : List (String × SourceFile)}

/-- What the pass over the files keeps of their holders once the first `k`
    files are passed: the names of the table are distinct and the platform's
    classes stand in it; the classes of kind `globals` are the holders made,
    in order; each file with global functions has its holder; every job is
    the job of a global function or belongs to a class or adapter of another
    kind; and each global function has its job. -/
structure HoldersInv (files : List (String × SourceFile)) (k : Nat) (t : ClassTable) (jobs : Array BodyJob)
    (holders : Array (Option String)) (adapters : Array (Nat × TypeDecl)) : Prop where
  size : holders.size = k
  distinct : t.Distinct
  platform : ∀ d ∈ ClassTable.platform.decls, d ∈ t.decls
  names : (t.decls.toList.filter (·.kind == .globals)).map (·.name) = holders.toList.filterMap id
  adapter_kinds : ∀ a ∈ adapters, a.2.kind ≠ .globals
  holder : ∀ u file sf, u < k → files[u]? = some (file, sf) → Primitive.functions sf ≠ [] →
    holders[u]? = some (some (holderName file)) ∧
      ∃ hd ∈ t.decls, IsHolder (fileResolver files sf) (holderName file) (Primitive.functions sf) hd
  owners : ∀ j ∈ jobs, (∃ u file sf, u < k ∧ files[u]? = some (file, sf) ∧ ∃ f ∈ Primitive.functions sf,
      j = holderJob (fileResolver files sf) (holderName file) u f) ∨
    ∃ d ∈ t.decls.toList ++ adapters.toList.map (·.2), d.kind ≠ .globals ∧ j.key.owner = d.name
  queued : ∀ u file sf, u < k → files[u]? = some (file, sf) → ∀ f ∈ Primitive.functions sf,
    holderJob (fileResolver files sf) (holderName file) u f ∈ jobs

theorem HoldersInv.start : HoldersInv files 0 ClassTable.platform #[] #[] #[] where
  size := rfl
  distinct := ClassTable.platform_distinct
  platform _ h := h
  names := by
    rw [List.filter_eq_nil_iff.2 fun d hd => by simp [ClassTable.platform_library d (Array.mem_toList_iff.1 hd)]]
    rfl
  adapter_kinds _ h := by simp at h
  holder _ _ _ h := absurd h (Nat.not_lt_zero _)
  owners _ h := by simp at h
  queued _ _ _ h := absurd h (Nat.not_lt_zero _)

/-- The file `k` passed over, its declarations registered after those before
    it. -/
theorem HoldersInv.file {k : Nat} {t t' : ClassTable} {jobs : Array BodyJob} {holders : Array (Option String)}
    {adapters : Array (Nat × TypeDecl)} (hI : HoldersInv files k t jobs holders adapters) {file : String}
    {sf : SourceFile} (hk : files[k]? = some (file, sf)) {fp : FilePass}
    (hfp : HolderPass jobs.toList k (holderName file) (fileResolver files sf) (Primitive.functions sf) fp)
    (ht : t'.decls.toList = t.decls.toList ++ fp.decls.toList) (hdist : t'.Distinct) :
    HoldersInv files (k + 1) t' fp.jobs (holders.push (fp.holderAt.map fun _ => fp.holder))
      (adapters ++ fp.adapters.map (k, ·)) := by
  have hmem : ∀ d, d ∈ t.decls ∨ d ∈ fp.decls → d ∈ t'.decls := by
    intro d hd
    rw [← Array.mem_toList_iff, ht, List.mem_append, Array.mem_toList_iff, Array.mem_toList_iff]
    exact hd
  have hsub : ∀ d, (d ∈ t.decls.toList ++ adapters.toList.map (·.2)) ∨ d ∈ fp.decls.toList ++ fp.adapters.toList →
      d ∈ t'.decls.toList ++ (adapters ++ fp.adapters.map (k, ·)).toList.map (·.2) := by
    intro d hd
    rw [ht]
    simp only [List.mem_append, Array.toList_append, Array.toList_map, List.map_append, List.map_map] at hd ⊢
    rcases hd with (hd | hd) | (hd | hd)
    · exact .inl (.inl hd)
    · exact .inr (.inl hd)
    · exact .inl (.inr hd)
    · exact .inr (.inr (by simpa using hd))
  refine ⟨by simp [hI.size], hdist, fun d hd => hmem d (.inl (hI.platform d hd)), ?_, fun a ha => ?_,
    fun u file' sf' hu hu' hne => ?_, fun j hj => ?_, fun u file' sf' hu hu' g hg => ?_⟩
  · rw [ht, List.filter_append, List.map_append, hI.names, hfp.globals_names, Array.toList_push,
      List.filterMap_append, hfp.holder]
    cases fp.holderAt <;> rfl
  · rcases Array.mem_append.1 ha with ha | ha
    · exact hI.adapter_kinds a ha
    · obtain ⟨d, hd, rfl⟩ := Array.mem_map.1 ha
      exact hfp.adapters d hd
  · rcases Nat.lt_succ_iff_lt_or_eq.1 hu with hu | rfl
    · obtain ⟨hh, hd, hd', hhd⟩ := hI.holder u file' sf' hu hu' hne
      refine ⟨by rw [Array.getElem?_push, if_neg (by rw [hI.size]; omega)]; exact hh, hd, hmem hd (.inl hd'), hhd⟩
    · -- the file just passed
      obtain ⟨rfl, rfl⟩ := Prod.mk.inj (Option.some_inj.1 (hu'.symm.trans hk))
      obtain ⟨pos, hpos⟩ := hfp.holderAt_isSome hne
      obtain ⟨pre, hd, post, hdecls, -, hhd, -⟩ := hfp.some_at pos hpos
      refine ⟨by rw [← hI.size, Array.getElem?_push_size, hpos, hfp.holder]; rfl, hd, hmem hd (.inr ?_), hhd⟩
      rw [← Array.mem_toList_iff, hdecls]
      simp
  · rcases hfp.jobs j hj with hj | ⟨g, hg, rfl⟩ | ⟨d, hd, hkd, hown⟩
    · rcases hI.owners j (Array.mem_toList_iff.1 hj) with ⟨u, file', sf', hu, hu', g, hg, rfl⟩ | ⟨d, hd, hkd, hown⟩
      · exact .inl ⟨u, file', sf', Nat.lt_succ_of_lt hu, hu', g, hg, rfl⟩
      · exact .inr ⟨d, hsub d (.inl hd), hkd, hown⟩
    · exact .inl ⟨k, file, sf, Nat.lt_succ_self k, hk, g, hg, rfl⟩
    · exact .inr ⟨d, hsub d (.inr hd), hkd, hown⟩
  · rcases Nat.lt_succ_iff_lt_or_eq.1 hu with hu | rfl
    · exact Array.mem_toList_iff.1 (hfp.keeps (Array.mem_toList_iff.2 (hI.queued u file' sf' hu hu' g hg)))
    · obtain ⟨rfl, rfl⟩ := Prod.mk.inj (Option.some_inj.1 (hu'.symm.trans hk))
      exact hfp.queued g hg

end Files

/-- What a successful structural pass makes of the global functions: the
    platform's classes stand in the table; the classes of kind `globals` are
    the holders, in the order of their files; each file with global functions
    has its holder, a class of the table; every job is the job of a global
    function of a file or belongs to a class of another kind; and each global
    function has its job. -/
structure Structure.HoldersOk (files : List (String × SourceFile)) (s : Structure) : Prop where
  platform : ∀ d ∈ ClassTable.platform.decls, d ∈ s.table.decls
  names : (s.table.decls.toList.filter (·.kind == .globals)).map (·.name) = s.holders.filterMap id
  holder : ∀ (u : Nat) file sf, files[u]? = some (file, sf) → Primitive.functions sf ≠ [] →
    s.holders[u]? = some (some (holderName file)) ∧
      ∃ hd ∈ s.table.decls, IsHolder (fileResolver files sf) (holderName file) (Primitive.functions sf) hd
  jobs : ∀ j ∈ s.jobs, (∃ (u : Nat) (file : String) (sf : SourceFile), files[u]? = some (file, sf) ∧ ∃ f ∈ Primitive.functions sf,
      j = holderJob (fileResolver files sf) (holderName file) u f) ∨
    ∃ d ∈ s.table.decls, d.kind ≠ .globals ∧ j.key.owner = d.name
  queued : ∀ (u : Nat) file sf, files[u]? = some (file, sf) → ∀ f ∈ Primitive.functions sf,
    holderJob (fileResolver files sf) (holderName file) u f ∈ s.jobs

/-- A successful structural pass keeps the holders. The invariant of the
    files' loop is `HoldersInv`, over the files passed so far; the adapters
    registered after every file are of another kind, and the impls change no
    declaration. -/
theorem buildStructure_holders {files : List (String × SourceFile)} {s : Structure}
    (h : buildStructure files = .ok s) : s.HoldersOk files := by
  unfold buildStructure at h
  dsimp only at h
  obtain ⟨⟨t, jobs, holders, pending, adapters⟩, hloop, h⟩ := Except.bind_eq_ok.1 h
  obtain ⟨t₁, hreg, h⟩ := Except.bind_eq_ok.1 h
  obtain ⟨t₂, hrec, h⟩ := Except.bind_eq_ok.1 h
  cases Except.pure_eq_ok.1 h
  -- the files, one after the other
  have hI : HoldersInv files files.length t jobs holders adapters := by
    have hloop' := Except.forIn_prefix
      (fun pre st => HoldersInv files pre.length st.1 st.2.1 st.2.2.1 st.2.2.2.2) ?_ files.zipIdx []
      (List.nil_append _).symm HoldersInv.start hloop
    · simpa using hloop'
    rintro pre ⟨file, i⟩ post ⟨t, jobs, holders, pending, adapters⟩ r hxs hI hr
    obtain ⟨rfl, hfile⟩ := List.zipIdx_eq_append hxs
    dsimp only at hr hI ⊢
    split at hr
    · rename_i fp hfp
      obtain ⟨_, hp, hr⟩ := Except.bind_eq_ok.1 hr
      cases Except.pure_eq_ok.1 hp
      obtain ⟨t', hreg, hr⟩ := Except.bind_eq_ok.1 hr
      cases Except.pure_eq_ok.1 hr
      rw [← Array.forIn_toList] at hreg
      obtain ⟨hdecls, -, hdist⟩ := ClassTable.registerAll id registers hI.distinct hreg
      have hpass := HolderPass.items (HolderPass.start rfl rfl rfl rfl rfl rfl rfl) hfp
      rw [List.nil_append, ← Primitive.functions_eq] at hpass
      refine ⟨_, rfl, ?_⟩
      rw [List.length_append, List.length_singleton]
      exact hI.file hfile hpass (by simpa using hdecls) hdist
    · obtain ⟨_, h, _⟩ := Except.bind_eq_ok.1 hr
      cases h
  -- then the adapters, and last the impls
  rw [← Array.forIn_toList] at hreg hrec
  obtain ⟨hdecls₁, -, -⟩ := ClassTable.registerAll Prod.snd registers hI.distinct hreg
  obtain ⟨hdecls₂, -, -⟩ := ClassTable.recordImpls (by
    intro p t r h
    split at h
    · exact ⟨‹_›, (Except.pure_eq_ok.1 h).symm⟩
    · obtain ⟨_, h, _⟩ := Except.bind_eq_ok.1 h
      cases h) hrec
  have hdecls : t₂.decls.toList = t.decls.toList ++ adapters.toList.map (·.2) := by
    rw [hdecls₂, hdecls₁]
  have hmem : ∀ d ∈ t.decls, d ∈ t₂.decls := fun d hd => by
    rw [← Array.mem_toList_iff, hdecls]
    exact List.mem_append_left _ (Array.mem_toList_iff.2 hd)
  have hlt : ∀ u file sf, files[u]? = some (file, sf) → u < files.length := fun u _ _ hu =>
    (List.getElem?_eq_some_iff.1 hu).1
  refine ⟨fun d hd => hmem d (hI.platform d hd), ?_, fun u file sf hu hne => ?_, fun j hj => ?_,
    fun u file sf hu g hg => Array.mem_toList_iff.2 (hI.queued u file sf (hlt u file sf hu) hu g hg)⟩
  · -- the adapters are of another kind
    rw [hdecls, List.filter_append, List.map_append, hI.names,
      List.filter_eq_nil_iff.2 fun d hd => by
        obtain ⟨a, ha, rfl⟩ := List.mem_map.1 hd
        simpa using hI.adapter_kinds a (Array.mem_toList_iff.1 ha)]
    simp
  · obtain ⟨hh, hd, hd', hhd⟩ := hI.holder u file sf (hlt u file sf hu) hu hne
    exact ⟨by simpa using hh, hd, hmem hd hd', hhd⟩
  · rcases hI.owners j (Array.mem_toList_iff.1 hj) with ⟨u, file, sf, -, hu, g, hg, rfl⟩ | ⟨d, hd, hkd, hown⟩
    · exact .inl ⟨u, file, sf, hu, g, hg, rfl⟩
    · refine .inr ⟨d, ?_, hkd, hown⟩
      rw [← Array.mem_toList_iff, hdecls]
      exact hd

namespace Structure.HoldersOk

variable {files : List (String × SourceFile)} {s : Structure} {u u' : Nat} {file file' : String}
  {sf sf' : SourceFile}

/-- Two files with the same holder are one, when the names of the table are
    distinct. -/
theorem holder_unique (hH : s.HoldersOk files) (hd : s.table.Distinct) (hu : files[u]? = some (file, sf))
    (hu' : files[u']? = some (file', sf')) (hf : Primitive.functions sf ≠ []) (hf' : Primitive.functions sf' ≠ [])
    (hn : holderName file = holderName file') : u = u' := by
  have hnd : (s.holders.filterMap id).Nodup := by
    rw [← hH.names]
    exact (List.filter_sublist.map _).nodup hd
  refine List.eq_of_filterMap_id_nodup hnd (hH.holder u file sf hu hf).1 ?_
  rw [hn]
  exact (hH.holder u' file' sf' hu' hf').1

/-- A job for a method of the holder of a file is the job of one of the file's
    global functions. -/
theorem job_of_holder (hH : s.HoldersOk files) (hd : s.table.Distinct) (hu : files[u]? = some (file, sf))
    (hf : Primitive.functions sf ≠ []) {j : BodyJob} (hj : j ∈ s.jobs) (hown : j.key.owner = holderName file) :
    ∃ g ∈ Primitive.functions sf, j = holderJob (fileResolver files sf) (holderName file) u g := by
  rcases hH.jobs j hj with ⟨u', file', sf', hu', g, hg, rfl⟩ | ⟨d, hd', hkd, hown'⟩
  · obtain rfl := hH.holder_unique hd hu' hu (List.ne_nil_of_mem hg) hf hown
    obtain ⟨rfl, rfl⟩ := Prod.mk.inj (Option.some_inj.1 (hu'.symm.trans hu))
    exact ⟨g, hg, rfl⟩
  · -- a class of another kind does not have the holder's name
    obtain ⟨-, hh, hh', hhd⟩ := hH.holder u file sf hu hf
    obtain rfl := hd.eq_of_name hd' hh' (hown'.symm.trans (hown.trans hhd.name.symm))
    exact absurd hhd.kind hkd

end Structure.HoldersOk

end ClassCompiler
