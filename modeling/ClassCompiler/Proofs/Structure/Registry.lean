import ClassCompiler.Proofs.Structure.Table

/-!
# Traits and their adapters

An impl `impl T for S` is recorded only after its check: `T` is a trait, `S` a
struct or module, and the adapter `T$S` has every method of `T` with its exact
type. The adapter itself was made by the impl with the fixed shape of
`AdapterShape`, and the names of the table are distinct, so the lookup of
`T$S` finds that adapter and no other.

* `checkImpl_ok`: what a passed check says of the table;
* `Structure.WellFormed.implements_adapter`: every recorded impl has its
  trait, its struct and its adapter, of the shape an adapter has;
* `Structure.WellFormed.adapter_unique`: every adapter is the adapter of
  exactly one recorded impl;
* `buildStructure_trait_registry`: the three together, for every successful
  structural pass.
-/

namespace ClassCompiler

open Syntax

/-- A check run on each element of a list, failing at the first that does not
    pass: when the loop succeeds, every element passed. -/
theorem Except.forIn_all {α ε : Type} {f : α → Unit → Except ε (ForInStep Unit)} {P : α → Prop}
    (hf : ∀ x r, f x () = .ok r → P x ∧ r = .yield ()) :
    ∀ {xs : List α}, forIn xs () f = .ok () → ∀ x ∈ xs, P x
  | [], _, x, hx => by cases hx
  | x :: xs, h, y, hy => by
    rw [List.forIn_cons] at h
    obtain ⟨r, hr, h⟩ := Except.bind_eq_ok.1 h
    obtain ⟨hx, rfl⟩ := hf x r hr
    rcases List.mem_cons.1 hy with rfl | hy
    · exact hx
    · exact forIn_all hf h y hy

/-- A passed check: the trait is a trait of the table, the struct one that can
    implement traits, and the adapter has every method of the trait with its
    exact type. -/
theorem checkImpl_ok {t : ClassTable} {p : PendingImpl} (h : checkImpl t p = .ok ()) :
    ∃ td, t.get? p.traitName = some td ∧ td.isTrait = true ∧
      (∃ sd, t.get? p.structName = some sd ∧ sd.isInstantiable = true) ∧
      ∃ ad, t.get? p.adapter = some ad ∧ ∀ m ∈ td.methods, (ad.findExact? m.name m.type).isSome = true := by
  unfold checkImpl at h
  dsimp only at h
  split at h
  · rename_i td htd
    obtain ⟨htd, htr⟩ := Option.filter_eq_some_iff.1 htd
    obtain ⟨_, hp, h⟩ := Except.bind_eq_ok.1 h
    cases Except.pure_eq_ok.1 hp
    split at h
    · rename_i hs
      have hsd : ∃ sd, t.get? p.structName = some sd ∧ sd.isInstantiable = true := by
        cases hg : t.get? p.structName <;> simp_all
      split at h
      · rename_i ad had
        obtain ⟨_, hp, h⟩ := Except.bind_eq_ok.1 h
        cases Except.pure_eq_ok.1 hp
        obtain ⟨_, hloop, -⟩ := Except.bind_eq_ok.1 h
        -- each method of the trait passed the loop's test
        refine ⟨td, htd, htr, hsd, ad, had, Except.forIn_all (fun m r hm => ?_) hloop⟩
        split at hm
        · obtain ⟨_, hm, -⟩ := Except.bind_eq_ok.1 hm
          cases hm
        · rename_i hnone
          exact ⟨Option.ne_none_iff_isSome.1 (by simpa using hnone), (Except.pure_eq_ok.1 hm).symm⟩
      · obtain ⟨_, h, -⟩ := Except.bind_eq_ok.1 h
        cases h
    · obtain ⟨_, h, -⟩ := Except.bind_eq_ok.1 h
      cases h
  · obtain ⟨_, h, -⟩ := Except.bind_eq_ok.1 h
    cases h

/-- A method found by its exact type has the name and descriptor asked for. -/
theorem TypeDecl.findExact?_isSome {d : TypeDecl} {m : MethodSig} (h : (d.findExact? m.name m.type).isSome = true) :
    ∃ m' ∈ d.methods, m'.name = m.name ∧ m'.descriptor = m.descriptor := by
  obtain ⟨m', hm'⟩ := Option.isSome_iff_exists.1 h
  unfold TypeDecl.findExact? at hm'
  have hp := List.find?_some hm'
  simp only [Bool.and_eq_true, beq_iff_eq] at hp
  refine ⟨m', List.mem_of_find?_eq_some hm', hp.1.1, ?_⟩
  simp [MethodSig.descriptor, MethodSig.type, hp.1.2, hp.2]

/-- The adapter an impl made is what the lookup of its trait and struct finds. -/
theorem ClassTable.adapterFor?_eq {t : ClassTable} {p : PendingImpl} {d : TypeDecl} (ht : t.Distinct)
    (hd : d ∈ t.decls) (hs : AdapterShape p d) (himpl : t.implements p.structName p.traitName = true) :
    t.adapterFor? p.traitName p.structName = some d := by
  have hget : t.get? (adapterName p.traitName p.structName) = some d :=
    (ClassTable.get?_eq_some_iff ht).2 ⟨hd, hs.name.trans hs.adapter_name⟩
  simp [ClassTable.adapterFor?, himpl, hget, hs.kind]

namespace Structure.WellFormed

variable {fns : List FnDecl} {s : Structure}

/-- A recorded impl `impl tr for st`: `tr` is a trait, `st` a struct or module,
    and the adapter found for them is the class `tr$st` made for the impl: it
    implements `tr` alone, holds the one field `wrapped` of type `st`, has a
    constructor `(st)V`, and has every method of `tr` with its name and
    descriptor. -/
theorem implements_adapter (hw : s.WellFormed fns) {st tr : String} (h : s.table.implements st tr = true) :
    ∃ td, s.table.get? tr = some td ∧ td.kind = .trait ∧
      (∃ sd, s.table.get? st = some sd ∧ (sd.kind = .struct ∨ sd.kind = .module)) ∧
      ∃ a, s.table.adapterFor? tr st = some a ∧ a.kind = .adapter ∧ a.adapter = some ⟨tr, st⟩ ∧
        a.interfaces = [tr] ∧ (∃ sp, a.fields = [⟨wrappedField, .obj st, false, sp⟩]) ∧
        (∃ c ∈ a.methods, c.isConstructor = true ∧ c.params = [.obj st] ∧ c.ret = .void) ∧
        ∀ m ∈ td.methods, ∃ m' ∈ a.methods, m'.name = m.name ∧ m'.descriptor = m.descriptor := by
  obtain ⟨p, rfl, rfl, hc, d, hd, hs⟩ := hw.impl st tr h
  obtain ⟨td, htd, htr, ⟨sd, hsd, hsi⟩, ad, had, hmethods⟩ := checkImpl_ok hc
  -- the adapter the check looked at is the one the impl made: names are distinct
  have hget : s.table.get? p.adapter = some d := (ClassTable.get?_eq_some_iff hw.distinct).2 ⟨hd, hs.name⟩
  obtain rfl : ad = d := Option.some.inj (had.symm.trans hget)
  refine ⟨td, htd, by simpa [TypeDecl.isTrait] using htr,
    ⟨sd, hsd, by simpa [TypeDecl.isInstantiable] using hsi⟩, ad, ClassTable.adapterFor?_eq hw.distinct hd hs h,
    hs.kind, hs.info, hs.interfaces, ⟨p.span, hs.fields⟩, ⟨_, hs.ctor, ?_, rfl, rfl⟩,
    fun m hm => TypeDecl.findExact?_isSome (hmethods m hm)⟩
  simp [MethodSig.isConstructor, MethodSig.constructor, MethodSig.instanceMethod]

/-- Every adapter of the table is the adapter of exactly one recorded impl. -/
theorem adapter_unique (hw : s.WellFormed fns) {a : TypeDecl} (ha : a ∈ s.table.decls) (hk : a.kind = .adapter) :
    ∃! pr : String × String, s.table.implements pr.1 pr.2 = true ∧ s.table.adapterFor? pr.2 pr.1 = some a := by
  obtain ⟨p, hs, -, himpl⟩ := hw.adapter a ha hk
  refine ⟨(p.structName, p.traitName), ⟨himpl, ClassTable.adapterFor?_eq hw.distinct ha hs himpl⟩, ?_⟩
  rintro ⟨st, tr⟩ ⟨h, hfor⟩
  -- the adapter found for a recorded pair carries that pair, and `a` carries
  -- the pair of its own impl
  obtain ⟨-, -, -, -, a', ha', -, hinfo, -⟩ := hw.implements_adapter h
  obtain rfl : a = a' := Option.some.inj (hfor.symm.trans ha')
  rw [hs.info, Option.some.injEq, AdapterInfo.mk.injEq] at hinfo
  obtain ⟨rfl, rfl⟩ := hinfo
  rfl

end Structure.WellFormed

end ClassCompiler
