import Mathlib.Data.List.Nodup
import ClassCompiler.Proofs.Structure.Declarations

/-!
# The class table the structural pass builds

The table starts with the platform classes; each file's declarations are then
registered in turn, the adapters after every file, and last every impl is
checked and recorded. Registration refuses a second declaration of a name, so
the names in the table stay distinct, and lookups by name find the one
declaration of that name.

* `ClassTable.Distinct`, `ClassTable.get?_eq_some_iff`: distinct names, and what
  a lookup finds;
* `ClassTable.registerAll`, `ClassTable.recordImpls`: what the loops of
  registration and impl checking do;
* `buildStructure_ok`: after a successful pass, the names are distinct; every
  declaration not of the platform is `Declared` by the jobs; every adapter is
  that of an impl, checked and recorded; every recorded impl has its adapter;
  every job is for a function of the files and a method of a declaration.
-/

namespace ClassCompiler

open Syntax

namespace ClassTable

variable {t t' : ClassTable} {d : TypeDecl}

/-- No two declarations of the table have the same name. -/
def Distinct (t : ClassTable) : Prop := (t.decls.toList.map (·.name)).Nodup

theorem register_ok : t.register d = .ok t' ↔ t.contains d.name = false ∧ t' = { t with decls := t.decls.push d } := by
  unfold register
  split
  · rename_i h
    exact iff_of_false (fun h' => by cases h') fun h' => by simp [h'.1] at h
  · rename_i h
    exact ⟨fun h' => by cases h'; exact ⟨by simpa using h, rfl⟩, fun h' => h'.2 ▸ rfl⟩

theorem get?_of_eq_some {n : String} (h : t.get? n = some d) : d ∈ t.decls ∧ d.name = n := by
  unfold get? at h
  exact ⟨Array.mem_of_find?_eq_some h, by simpa using Array.find?_some h⟩

theorem contains_iff {n : String} : t.contains n = true ↔ ∃ d ∈ t.decls, d.name = n := by
  unfold contains get?
  simp [Array.find?_isSome]

/-- In a table of distinct names, a name is that of one declaration. -/
theorem Distinct.eq_of_name (ht : t.Distinct) {d' : TypeDecl} (hd : d ∈ t.decls) (hd' : d' ∈ t.decls)
    (h : d.name = d'.name) : d = d' :=
  List.inj_on_of_nodup_map ht (Array.mem_toList_iff.2 hd) (Array.mem_toList_iff.2 hd') h

/-- In a table of distinct names, a lookup finds the declaration of the name. -/
theorem get?_eq_some_iff (ht : t.Distinct) {n : String} : t.get? n = some d ↔ d ∈ t.decls ∧ d.name = n := by
  refine ⟨get?_of_eq_some, fun hdn => ?_⟩
  obtain ⟨hd, hn⟩ := hdn
  obtain ⟨d', hd'⟩ := Option.isSome_iff_exists.1 (contains_iff.2 ⟨d, hd, hn⟩)
  obtain ⟨hm', hn'⟩ := get?_of_eq_some hd'
  rw [hd', ht.eq_of_name hm' hd (hn'.trans hn.symm)]

theorem mem_of_mem_emitted (hd : d ∈ t.emitted) : d ∈ t.decls :=
  Array.mem_toList_iff.1 (List.mem_filter.1 hd).1

theorem register_distinct (ht : t.Distinct) (h : t.register d = .ok t') : t'.Distinct := by
  obtain ⟨hc, rfl⟩ := register_ok.1 h
  rw [Distinct, Array.toList_push, List.map_append, List.nodup_append]
  refine ⟨ht, List.nodup_singleton _, fun a ha b hb hab => ?_⟩
  obtain ⟨d', hd', rfl⟩ := List.mem_map.1 ha
  rw [List.map_singleton, List.mem_singleton] at hb
  subst hb
  exact absurd (contains_iff.2 ⟨d', Array.mem_toList_iff.1 hd', hab⟩) (by simp [hc])

theorem platform_distinct : platform.Distinct := by
  unfold Distinct
  decide

theorem platform_library : ∀ d ∈ platform.decls, d.kind = .library := by decide

/-- Declarations registered one after the other, by any step that registers the
    declaration of each element: they are appended in order, and the names stay
    distinct. -/
theorem registerAll {α ε : Type} (decl : α → TypeDecl) {f : α → ClassTable → Except ε (ForInStep ClassTable)}
    (hf : ∀ x t r, f x t = .ok r → ∃ t', t.register (decl x) = .ok t' ∧ r = .yield t') :
    ∀ {xs : List α} {t t' : ClassTable}, t.Distinct → forIn xs t f = .ok t' →
      t'.decls.toList = t.decls.toList ++ xs.map decl ∧ t'.impls = t.impls ∧ t'.Distinct
  | [], t, t', ht, h => by cases h; simpa using ht
  | x :: xs, t, t', ht, h => by
    rw [List.forIn_cons] at h
    obtain ⟨r, hr, h⟩ := Except.bind_eq_ok.1 h
    obtain ⟨t₁, h₁, rfl⟩ := hf x t r hr
    have hd₁ := register_distinct ht h₁
    obtain ⟨-, rfl⟩ := register_ok.1 h₁
    obtain ⟨hdecls, himpls, hdist⟩ := registerAll decl hf hd₁ h
    exact ⟨by simp [hdecls], himpls, hdist⟩

@[simp] theorem registerImpl_decls {s r : String} : (t.registerImpl s r).decls = t.decls := by
  unfold registerImpl
  split <;> rfl

theorem implements_registerImpl {a b s r : String} :
    (t.registerImpl s r).implements a b = true ↔ t.implements a b = true ∨ (a = s ∧ b = r) := by
  unfold registerImpl implements
  split
  · rename_i h
    constructor
    · exact .inl
    · rintro (h' | ⟨rfl, rfl⟩)
      · exact h'
      · exact h
  · simp

/-- A check of an impl reads only the declarations of the table. -/
theorem checkImpl_congr {p : PendingImpl} (h : t'.decls = t.decls) : checkImpl t' p = checkImpl t p := by
  unfold checkImpl ClassTable.get?
  rw [h]

/-- Impls checked and recorded one after the other, by any step that checks the
    impl and records it: the declarations stay, each impl passed its check, and
    the recorded pairs are those of the impls. -/
theorem recordImpls {ε : Type} {f : PendingImpl → ClassTable → Except ε (ForInStep ClassTable)}
    (hf : ∀ p t r, f p t = .ok r → checkImpl t p = .ok () ∧ r = .yield (t.registerImpl p.structName p.traitName)) :
    ∀ {ps : List PendingImpl} {t t' : ClassTable}, forIn ps t f = .ok t' →
      t'.decls = t.decls ∧ (∀ p ∈ ps, checkImpl t p = .ok ()) ∧
      ∀ a b, t'.implements a b = true ↔ t.implements a b = true ∨ ∃ p ∈ ps, p.structName = a ∧ p.traitName = b
  | [], t, t', h => by cases h; simp
  | p :: ps, t, t', h => by
    rw [List.forIn_cons] at h
    obtain ⟨r, hr, h⟩ := Except.bind_eq_ok.1 h
    obtain ⟨hp, rfl⟩ := hf p t r hr
    obtain ⟨hdecls, hchecks, himpls⟩ := recordImpls hf h
    refine ⟨by rw [hdecls, registerImpl_decls], ?_, fun a b => ?_⟩
    · intro p' hp'
      rcases List.mem_cons.1 hp' with rfl | hp'
      · exact hp
      · rw [← checkImpl_congr registerImpl_decls]
        exact hchecks p' hp'
    · rw [himpls, implements_registerImpl]
      constructor
      · rintro ((h | ⟨rfl, rfl⟩) | ⟨p', hp', rfl, rfl⟩)
        · exact .inl h
        · exact .inr ⟨p, List.mem_cons_self, rfl, rfl⟩
        · exact .inr ⟨p', List.mem_cons_of_mem _ hp', rfl, rfl⟩
      · rintro (h | ⟨p', hp', rfl, rfl⟩)
        · exact .inl (.inl h)
        · rcases List.mem_cons.1 hp' with rfl | hp'
          · exact .inl (.inr ⟨rfl, rfl⟩)
          · exact .inr ⟨p', hp', rfl, rfl⟩

end ClassTable

/-! ### The pass over the files -/

/-- An invariant kept by every step of a loop holds at its end. -/
theorem Except.forIn_inv {α β ε : Type} {xs : List α} {f : α → β → Except ε (ForInStep β)} (I : β → Prop)
    (hf : ∀ x ∈ xs, ∀ b r, I b → f x b = .ok r → I r.value) :
    ∀ {b b' : β}, I b → forIn xs b f = .ok b' → I b' := by
  induction xs with
  | nil =>
    intro b b' hb h
    cases h
    exact hb
  | cons x xs ih =>
    intro b b' hb h
    rw [List.forIn_cons] at h
    obtain ⟨r, hr, h⟩ := Except.bind_eq_ok.1 h
    have hr' := hf x List.mem_cons_self b r hb hr
    cases r with
    | done b₁ =>
      cases h
      exact hr'
    | yield b₁ => exact ih (fun x hx => hf x (List.mem_cons_of_mem _ hx)) hr' h

/-- The functions with bodies a file defines. -/
def Syntax.SourceFile.functions (f : SourceFile) : List FnDecl := f.items.flatMap Item.functions

section Files

variable {fns : List FnDecl} {t t' : ClassTable} {jobs : Array BodyJob} {pending : Array PendingImpl}
  {adapters : Array (Nat × TypeDecl)}

/-- What the pass over the files keeps, for the functions `fns` of all files:
    the names of the table are distinct, no impl is recorded yet, and the table
    holds platform classes and declared classes that are not adapters; each
    adapter waiting for registration is declared and is that of a pending impl,
    and each pending impl has its adapter; every job is for a function of the
    files and a method of a declaration made. -/
structure PassInv (fns : List FnDecl) (t : ClassTable) (jobs : Array BodyJob) (pending : Array PendingImpl)
    (adapters : Array (Nat × TypeDecl)) : Prop where
  distinct : t.Distinct
  impls : t.impls = []
  decls : ∀ d ∈ t.decls, d.kind = .library ∨ Declared jobs.toList d ∧ d.kind ≠ .adapter
  queued : ∀ a ∈ adapters, Declared jobs.toList a.2 ∧ ∃ p ∈ pending, AdapterShape p a.2
  impl_adapter : ∀ p ∈ pending, ∃ a ∈ adapters, AdapterShape p a.2
  jobs : ∀ j ∈ jobs, j.decl ∈ fns ∧ ∃ d ∈ t.decls.toList ++ adapters.toList.map (·.2), Owns d j

theorem PassInv.start : PassInv fns ClassTable.platform #[] #[] #[] where
  distinct := ClassTable.platform_distinct
  impls := rfl
  decls d hd := .inl (ClassTable.platform_library d hd)
  queued a ha := by simp at ha
  impl_adapter p hp := by simp at hp
  jobs j hj := by simp at hj

/-- A file passed over, its declarations registered after those before it. -/
theorem PassInv.file (hI : PassInv fns t jobs pending adapters) {fp : FilePass}
    (hfp : FilePass.Inv jobs.toList pending.toList fns fp) (i : Nat)
    (ht : t'.decls.toList = t.decls.toList ++ fp.decls.toList) (himpls : t'.impls = t.impls) (hdist : t'.Distinct) :
    PassInv fns t' fp.jobs fp.pending (adapters ++ fp.adapters.map (i, ·)) := by
  have hjobs : jobs.toList ⊆ fp.jobs.toList := hfp.jobs_prefix.subset
  have hmem : ∀ d, d ∈ t'.decls ↔ d ∈ t.decls ∨ d ∈ fp.decls := by
    intro d
    rw [← Array.mem_toList_iff, ht]
    simp
  refine ⟨hdist, himpls.trans hI.impls, fun d hd => ?_, fun a ha => ?_, fun p hp => ?_, fun j hj => ?_⟩
  · rcases (hmem d).1 hd with hd | hd
    · exact (hI.decls d hd).imp_right fun h => ⟨h.1.mono hjobs, h.2⟩
    · exact .inr (hfp.decls d hd)
  · rcases Array.mem_append.1 ha with ha | ha
    · obtain ⟨hd, p, hp, hs⟩ := hI.queued a ha
      exact ⟨hd.mono hjobs, p, Array.mem_toList_iff.1 (hfp.pending_prefix.subset (Array.mem_toList_iff.2 hp)), hs⟩
    · obtain ⟨d, hd, rfl⟩ := Array.mem_map.1 ha
      exact hfp.adapters d hd
  · rcases hfp.pending p hp with hp | ⟨d, hd, hs⟩
    · obtain ⟨a, ha, hs⟩ := hI.impl_adapter p (Array.mem_toList_iff.1 hp)
      exact ⟨a, Array.mem_append_left _ ha, hs⟩
    · exact ⟨(i, d), Array.mem_append_right _ (Array.mem_map_of_mem hd), hs⟩
  · -- a job of an earlier file keeps its declaration; a new one has its
    -- declaration among those of this file
    have hsub : ∀ d, d ∈ t.decls.toList ++ adapters.toList.map (·.2) ∨ d ∈ fp.decls.toList ++ fp.adapters.toList →
        d ∈ t'.decls.toList ++ (adapters ++ fp.adapters.map (i, ·)).toList.map (·.2) := by
      intro d hd
      rw [ht]
      simp only [List.mem_append, Array.toList_append, Array.toList_map, List.map_append, List.map_map] at hd ⊢
      rcases hd with (hd | hd) | (hd | hd)
      · exact .inl (.inl hd)
      · exact .inr (.inl hd)
      · exact .inl (.inr hd)
      · exact .inr (.inr (by simpa using hd))
    rcases hfp.jobs j hj with hj | ⟨hf, d, hd, ho⟩
    · obtain ⟨hf, d, hd, ho⟩ := hI.jobs j (Array.mem_toList_iff.1 hj)
      exact ⟨hf, d, hsub d (.inl hd), ho⟩
    · exact ⟨hf, d, hsub d (.inr hd), ho⟩

end Files

/-- What a successful structural pass guarantees, for the functions `fns` of
    the files: the names of the table are distinct; every class not of the
    platform is declared by the jobs; every adapter is that of an impl that was
    checked and recorded; every recorded impl was checked and has its adapter in
    the table; and every job is for a function of the files and a method of a
    class of the table. -/
structure Structure.WellFormed (fns : List FnDecl) (s : Structure) : Prop where
  distinct : s.table.Distinct
  declared : ∀ d ∈ s.table.decls, d.kind = .library ∨ Declared s.jobs d
  adapter : ∀ d ∈ s.table.decls, d.kind = .adapter →
    ∃ p, AdapterShape p d ∧ checkImpl s.table p = .ok () ∧ s.table.implements p.structName p.traitName = true
  impl : ∀ st tr, s.table.implements st tr = true →
    ∃ p, p.structName = st ∧ p.traitName = tr ∧ checkImpl s.table p = .ok () ∧
      ∃ d ∈ s.table.decls, AdapterShape p d
  jobs : ∀ j ∈ s.jobs, j.decl ∈ fns ∧ ∃ d ∈ s.table.decls, Owns d j

/-- The step of the pass that registers a declaration and reports a refusal
    against a file. -/
theorem registers {α : Type} {decl : α → TypeDecl} {file : α → String} (x : α) (t : ClassTable)
    (r : ForInStep ClassTable)
    (h : (match t.register (decl x) with
      | .ok t' => do
        let table ← pure t'
        pure (ForInStep.yield table)
      | .error e => do
        let table ← throw (FileError.mk (file x) e)
        pure (ForInStep.yield table) : Except FileError (ForInStep ClassTable)) = .ok r) :
    ∃ t', t.register (decl x) = .ok t' ∧ r = .yield t' := by
  split at h
  · rename_i t' ht'
    exact ⟨t', ht', (Except.pure_eq_ok.1 h).symm⟩
  · obtain ⟨_, h, _⟩ := Except.bind_eq_ok.1 h
    cases h

/-- A successful structural pass gives a well-formed structure. The invariant
    of the files' loop is `PassInv`; the adapters are then registered after
    every file, and the impls checked against the full table. -/
theorem buildStructure_ok {files : List (String × SourceFile)} {s : Structure} (h : buildStructure files = .ok s) :
    s.WellFormed (files.flatMap fun f => f.2.functions) := by
  unfold buildStructure at h
  dsimp only at h
  obtain ⟨⟨t, jobs, holders, pending, adapters⟩, hloop, h⟩ := Except.bind_eq_ok.1 h
  obtain ⟨t₁, hreg, h⟩ := Except.bind_eq_ok.1 h
  obtain ⟨t₂, hrec, h⟩ := Except.bind_eq_ok.1 h
  cases Except.pure_eq_ok.1 h
  -- the files, one after the other
  have hI : PassInv (files.flatMap fun f => f.2.functions) t jobs pending adapters := by
    refine Except.forIn_inv (fun st => PassInv _ st.1 st.2.1 st.2.2.2.1 st.2.2.2.2) ?_ PassInv.start hloop
    rintro ⟨file, i⟩ hx ⟨t, jobs, holders, pending, adapters⟩ r hI hr
    dsimp only at hr hI ⊢
    split at hr
    · rename_i fp hfp
      obtain ⟨_, hp, hr⟩ := Except.bind_eq_ok.1 hr
      cases Except.pure_eq_ok.1 hp
      obtain ⟨t', hreg, hr⟩ := Except.bind_eq_ok.1 hr
      cases Except.pure_eq_ok.1 hr
      rw [← Array.forIn_toList] at hreg
      obtain ⟨hdecls, himpls, hdist⟩ := ClassTable.registerAll id registers hI.distinct hreg
      have hfns : ∀ it ∈ file.2.items, ∀ f ∈ it.functions, f ∈ files.flatMap fun f => f.2.functions :=
        fun it hit f hf => List.mem_flatMap.2 ⟨file, List.fst_mem_of_mem_zipIdx hx, List.mem_flatMap.2 ⟨it, hit, hf⟩⟩
      exact hI.file (FilePass.items_inv hfns (FilePass.Inv.start rfl rfl rfl rfl rfl) hfp) i (by simpa using hdecls)
        himpls hdist
    · obtain ⟨_, h, _⟩ := Except.bind_eq_ok.1 hr
      cases h
  -- then the adapters, and last the impls
  rw [← Array.forIn_toList] at hreg hrec
  obtain ⟨hdecls₁, himpls₁, hdist₁⟩ := ClassTable.registerAll Prod.snd registers hI.distinct hreg
  obtain ⟨hdecls₂, hchecks, himpls₂⟩ := ClassTable.recordImpls (by
    intro p t r h
    split at h
    · exact ⟨‹_›, (Except.pure_eq_ok.1 h).symm⟩
    · obtain ⟨_, h, _⟩ := Except.bind_eq_ok.1 h
      cases h) hrec
  have hmem : ∀ d, d ∈ t₂.decls ↔ d ∈ t.decls ∨ ∃ a ∈ adapters, a.2 = d := by
    intro d
    rw [← Array.mem_toList_iff, hdecls₂, hdecls₁]
    simp
  have hcheck : ∀ p ∈ pending, checkImpl t₂ p = .ok () := fun p hp => by
    rw [ClassTable.checkImpl_congr hdecls₂]
    exact hchecks p (Array.mem_toList_iff.2 hp)
  have himpl : ∀ st tr, t₂.implements st tr = true ↔ ∃ p ∈ pending, p.structName = st ∧ p.traitName = tr := by
    intro st tr
    rw [himpls₂]
    simp [ClassTable.implements, himpls₁, hI.impls]
  refine ⟨?_, fun d hd => ?_, fun d hd hk => ?_, fun st tr h => ?_, fun j hj => ?_⟩
  · unfold ClassTable.Distinct
    rwa [hdecls₂]
  · rcases (hmem d).1 hd with hd | ⟨a, ha, rfl⟩
    · exact (hI.decls d hd).imp_right (·.1)
    · exact .inr (hI.queued a ha).1
  · rcases (hmem d).1 hd with hd | ⟨a, ha, rfl⟩
    · rcases hI.decls d hd with hl | ⟨-, hna⟩
      · rw [hl] at hk
        cases hk
      · exact absurd hk hna
    · obtain ⟨-, p, hp, hs⟩ := hI.queued a ha
      exact ⟨p, hs, hcheck p hp, (himpl _ _).2 ⟨p, hp, rfl, rfl⟩⟩
  · obtain ⟨p, hp, rfl, rfl⟩ := (himpl st tr).1 h
    obtain ⟨a, ha, hs⟩ := hI.impl_adapter p hp
    exact ⟨p, rfl, rfl, hcheck p hp, a.2, (hmem _).2 (.inr ⟨a, ha, rfl⟩), hs⟩
  · obtain ⟨hf, d, hd, ho⟩ := hI.jobs j (Array.mem_toList_iff.1 hj)
    refine ⟨hf, d, ?_, ho⟩
    rw [← Array.mem_toList_iff, hdecls₂, hdecls₁]
    simpa using hd

end ClassCompiler
