import ClassCompiler.Proofs.Codegen.Flow
import ClassCompiler.Proofs.Codegen.Layout

/-!
# Code that is a piece of its own

Compiling an expression or a statement adds a piece of code that control
enters at its start and leaves only at its end: every jump in it goes to a
label made, and placed, while the piece was compiled. `Emitter.Confined e e'`
says so of the code added from the emitter `e` to `e'`:

* `Emitter.Extends`: `e`'s code is kept as the start, the labels known at `e`
  keep their state, the label invariant is kept, and every jump added goes to
  a label made in between. Every emitter operation keeps it, the ones that
  insert code at a mark too;
* `Emitter.Confined`: moreover every label made in between is placed;
* `Confined.closed`: in any body that extends `e'`'s code and holds each label
  at most once, the piece `[|e|, |e'|)` is closed (`Flow.Closed`).
-/

namespace ClassCompiler

/-- An entry that neither jumps nor stands for a label. -/
def Instruction.isPlain : Instruction → Bool
  | .jump .. | .label _ => false
  | _ => true

theorem Instruction.notLabel_of_isPlain {i : Instruction} (h : i.isPlain = true) :
    Emitter.NotLabel i := by
  rintro l rfl
  cases h

namespace Emitter

variable {e e' e₀ e₁ e₂ : Emitter} {l m : Nat} {op : Opcode} {i : Instruction}

theorem insert_code_toList (e : Emitter) (m : Nat) (is : List Instruction) :
    (e.insert m is).code.toList = e.code.toList.take m ++ is ++ e.code.toList.drop m := by
  simp [insert, List.extract, List.take_of_length_le]

/-- No entry stands after the end of the code. -/
theorem not_mem_drop_size {x : Instruction} : x ∉ e.code.toList.drop e.code.size := by
  rw [← Array.length_toList, List.drop_length]
  exact List.not_mem_nil

/-- Placing a known label places it, whether or not it was placed before. -/
theorem isBound_place_self (h : l < e.bound.size) : (e.place l).isBound l = true := by
  unfold place
  split
  · simp [isBound, Array.getD_eq_getD_getElem?, h]
  · rename_i hfree
    simp only [h, decide_true, Bool.true_and, Bool.not_eq_eq_eq_not, Bool.not_true] at hfree
    simpa using hfree

/-- A placed label is a known one. -/
theorem lt_of_isBound (h : e.isBound l = true) : l < e.bound.size := by
  simp only [isBound, Array.getD_eq_getD_getElem?] at h
  rcases Nat.lt_or_ge l e.bound.size with hl | hge
  · exact hl
  · rw [Array.getElem?_eq_none hge] at h
    cases h

/-- Making a label keeps the placed labels placed. -/
theorem isBound_newLabel {l' : Nat} (h : e.isBound l' = true) : e.newLabel.2.isBound l' = true := by
  simpa [isBound, Array.getD_eq_getD_getElem?, Array.getElem?_push, Nat.ne_of_lt (lt_of_isBound h)]
    using h

/-- Placing a label keeps the placed labels placed. -/
theorem isBound_place {l' : Nat} (h : e.isBound l' = true) : (e.place l).isBound l' = true := by
  by_cases hl : l = l'
  · subst hl
    exact isBound_place_self (lt_of_isBound h)
  · unfold place
    split
    · simpa [isBound, Array.getD_eq_getD_getElem?, Array.getElem?_setIfInBounds, hl] using h
    · exact h

/-- From `e` to `e'` code was added as a piece that jumps only to labels of its
    own: `e`'s code stays the start, the labels known at `e` keep their state,
    and the label invariant is kept. -/
structure Extends (e e' : Emitter) : Prop where
  prefix_ : e.code.toList <+: e'.code.toList
  bound_keep : ∀ l < e.bound.size, e'.bound[l]? = e.bound[l]?
  bound_le : e.bound.size ≤ e'.bound.size
  labels : e.LabelsOk → e'.LabelsOk
  jumps : ∀ op l, Instruction.jump op l ∈ e'.code.toList.drop e.code.size →
    e.bound.size ≤ l ∧ l < e'.bound.size

namespace Extends

theorem refl (e : Emitter) : Extends e e :=
  ⟨List.prefix_refl _, fun _ _ => rfl, Nat.le_refl _, id, fun _ _ h => (not_mem_drop_size h).elim⟩

theorem size_le (h : Extends e e') : e.code.size ≤ e'.code.size := by
  simpa using h.prefix_.length_le

theorem trans (h₁ : Extends e e₁) (h₂ : Extends e₁ e₂) : Extends e e₂ where
  prefix_ := h₁.prefix_.trans h₂.prefix_
  bound_keep l hl := by rw [h₂.bound_keep l (Nat.lt_of_lt_of_le hl h₁.bound_le), h₁.bound_keep l hl]
  bound_le := Nat.le_trans h₁.bound_le h₂.bound_le
  labels := h₂.labels ∘ h₁.labels
  jumps op l hj := by
    -- the code added from `e` is the code added up to `e₁`, then the rest
    obtain ⟨t, ht⟩ := h₂.prefix_
    have hdrop : e₂.code.toList.drop e.code.size =
        e₁.code.toList.drop e.code.size ++ e₂.code.toList.drop e₁.code.size := by
      rw [← ht, List.drop_append_of_le_length (by simpa using h₁.size_le), List.drop_left' (by simp)]
    rw [hdrop, List.mem_append] at hj
    rcases hj with hj | hj
    · have := h₁.jumps op l hj
      have := h₂.bound_le
      omega
    · have := h₂.jumps op l hj
      have := h₁.bound_le
      omega

/-- A placed label stays placed. -/
theorem isBound (h : Extends e e') (hb : e.isBound l = true) : e'.isBound l = true := by
  have hl := lt_of_isBound hb
  simp only [Emitter.isBound, Array.getD_eq_getD_getElem?] at hb ⊢
  rw [h.bound_keep l hl]
  exact hb

theorem of_eq (hc : e'.code = e.code) (hb : e'.bound = e.bound) : Extends e e' where
  prefix_ := by simp only [hc, List.prefix_refl]
  bound_keep _ _ := by rw [hb]
  bound_le := by simp only [hb, Nat.le_refl]
  labels h l := by
    rw [show e'.isBound l = e.isBound l by simp [Emitter.isBound, hb], hc]
    exact h l
  jumps _ _ hj := by
    rw [hc] at hj
    exact (not_mem_drop_size hj).elim

theorem push (hi : i.isPlain = true) : Extends e (e.push i) where
  prefix_ := by simp
  bound_keep _ _ := rfl
  bound_le := Nat.le_refl _
  labels h := h.push (Instruction.notLabel_of_isPlain hi)
  jumps op l hj := by
    simp only [push_code, Array.toList_push, Array.length_toList, List.drop_left', List.mem_singleton]
      at hj
    subst hj
    cases hi

theorem newLabel : Extends e e.newLabel.2 where
  prefix_ := by simp
  bound_keep l hl := by simp [Array.getElem?_push, Nat.ne_of_lt hl]
  bound_le := by simp
  labels h := h.newLabel
  jumps _ _ hj := by
    rw [newLabel_code] at hj
    exact (not_mem_drop_size hj).elim

/-- A jump to a label made after `e₀`. -/
theorem jump (h : Extends e₀ e) (h₁ : e₀.bound.size ≤ l) (h₂ : l < e.bound.size) :
    Extends e₀ (e.jump op l) where
  prefix_ := h.prefix_.trans (by simp)
  bound_keep := h.bound_keep
  bound_le := h.bound_le
  labels h₀ := (h.labels h₀).push fun _ => Instruction.noConfusion
  jumps op' l' hj := by
    rw [jump_code, Array.toList_push, List.drop_append_of_le_length (by simpa using h.size_le),
      List.mem_append, List.mem_singleton] at hj
    rcases hj with hj | hj
    · exact h.jumps op' l' hj
    · cases hj
      exact ⟨h₁, h₂⟩

/-- Placing a label made after `e₀`. -/
theorem place (h : Extends e₀ e) (hl : e₀.bound.size ≤ l) : Extends e₀ (e.place l) where
  prefix_ := h.prefix_.trans (prefix_place l)
  bound_keep l' hl' := by rw [place_bound_ne (by omega), h.bound_keep l' hl']
  bound_le := by simpa using h.bound_le
  labels h₀ := (h.labels h₀).place
  jumps op l' hj := by
    rw [place_bound_size]
    rcases place_code (e := e) l with hc | hc <;> rw [hc] at hj
    · rw [Array.toList_push, List.drop_append_of_le_length (by simpa using h.size_le),
        List.mem_append, List.mem_singleton] at hj
      rcases hj with hj | hj
      · exact h.jumps op l' hj
      · cases hj
    · exact h.jumps op l' hj

/-- Inserting entries that neither jump nor stand for labels at a mark taken
    after `e₀`. -/
theorem insert (h : Extends e₀ e) (hm : e₀.code.size ≤ m) (his : ∀ i ∈ is, i.isPlain = true) :
    Extends e₀ (e.insert m is) where
  prefix_ := by
    rw [insert_code_toList, List.append_assoc]
    exact List.prefix_append_of_prefix (List.prefix_take_iff.2 ⟨h.prefix_, by simpa using hm⟩)
  bound_keep := h.bound_keep
  bound_le := h.bound_le
  labels h₀ l := by
    have hnone : is.count (.label l) = 0 :=
      List.count_eq_zero.2 fun hmem => Instruction.notLabel_of_isPlain (his _ hmem) l rfl
    show _ = if e.isBound l = true then 1 else 0
    rw [← h.labels h₀ l, insert_code_toList, List.count_append, List.count_append, hnone,
      Nat.add_zero, ← List.count_append, List.take_append_drop]
  jumps op l hj := by
    have hk : e₀.code.size ≤ (e.code.toList.take m).length := by
      have := h.size_le
      simp only [List.length_take, Array.length_toList]
      omega
    rw [insert_code_toList, List.append_assoc, List.drop_append_of_le_length hk, List.drop_take,
      List.mem_append, List.mem_append] at hj
    rcases hj with hj | hj | hj
    · exact h.jumps op l (List.mem_of_mem_take hj)
    · cases his _ hj
    · refine h.jumps op l ?_
      rw [show m = e₀.code.size + (m - e₀.code.size) by omega, ← List.drop_drop] at hj
      exact List.mem_of_mem_drop hj

end Extends

/-- From `e` to `e'` code was added as a piece of its own: it jumps only to
    labels of its own, and places all of them. -/
structure Confined (e e' : Emitter) : Prop extends Extends e e' where
  placed : ∀ l, e.bound.size ≤ l → l < e'.bound.size → e'.isBound l = true

namespace Confined

theorem refl (e : Emitter) : Confined e e := ⟨.refl e, fun _ h₁ h₂ => absurd h₂ (by omega)⟩

theorem trans (h₁ : Confined e e₁) (h₂ : Confined e₁ e₂) : Confined e e₂ where
  toExtends := h₁.toExtends.trans h₂.toExtends
  placed l hl hl' := by
    by_cases hl₁ : l < e₁.bound.size
    · exact h₂.isBound (h₁.placed l hl hl₁)
    · exact h₂.placed l (by omega) hl'

/-- Code that makes no label is a piece of its own as soon as it jumps only to
    labels of its own. -/
theorem of_extends (h : Extends e e') (hb : e'.bound.size = e.bound.size) : Confined e e' :=
  ⟨h, fun _ h₁ h₂ => absurd h₂ (by omega)⟩

theorem of_eq (hc : e'.code = e.code) (hb : e'.bound = e.bound) : Confined e e' :=
  of_extends (.of_eq hc hb) (by rw [hb])

theorem push (hi : i.isPlain = true) : Confined e (e.push i) := of_extends (.push hi) rfl

/-- A push after a piece of its own extends it. -/
theorem push_after (h : Confined e₀ e) (hi : i.isPlain = true) : Confined e₀ (e.push i) :=
  h.trans (push hi)

theorem insert (h : Confined e₀ e) (hm : e₀.code.size ≤ m) (his : ∀ i ∈ is, i.isPlain = true) :
    Confined e₀ (e.insert m is) :=
  ⟨h.toExtends.insert hm his, h.placed⟩

theorem foldl {α : Type} (f : Emitter → α → Emitter) (hf : ∀ e a, Confined e (f e a)) :
    ∀ (xs : List α) (e : Emitter), Confined e (xs.foldl f e)
  | [], e => refl e
  | a :: xs, e => (hf e a).trans (foldl f hf xs (f e a))

/-- Pushing entries that neither jump nor stand for labels. -/
theorem foldl_push {is : List Instruction} (e : Emitter) (his : ∀ i ∈ is, i.isPlain = true) :
    Confined e (is.foldl Emitter.push e) := by
  induction is generalizing e with
  | nil => exact refl e
  | cons i is ih =>
    exact (push (his i List.mem_cons_self)).trans (ih _ fun j hj => his j (List.mem_cons_of_mem i hj))

/-! ### The emitter's operations -/

theorem emit (op : Opcode) : Confined e (e.emit op) := push rfl

theorem load (t : Ty) (n : Nat) : Confined e (e.load t n) := push rfl

theorem store (t : Ty) (n : Nat) : Confined e (e.store t n) := push rfl

theorem emitReturn (t : Ty) : Confined e (e.emitReturn t) := push rfl

theorem emitString (str : String) : Confined e (e.emitString str) := push rfl

theorem emitBool (b : Bool) : Confined e (e.emitBool b) := push rfl

theorem classRef (op : Opcode) (name : String) : Confined e (e.classRef op name) := push rfl

theorem field (op : Opcode) (owner name : String) (t : Ty) : Confined e (e.field op owner name t) :=
  push rfl

theorem invoke (op : Opcode) (owner name : String) (mt : MethodType) :
    Confined e (e.invoke op owner name mt) :=
  push rfl

theorem emitInt (v : Int32) : Confined e (e.emitInt v) := by
  rw [emitInt_eq]
  refine push ?_
  unfold intConst
  split
  any_goals rfl
  split
  · rfl
  · split <;> rfl

theorem emitLong (v : Int64) : Confined e (e.emitLong v) := by
  rw [emitLong_eq]
  refine push ?_
  unfold longConst
  split <;> rfl

theorem emitFloat (bits : UInt32) : Confined e (e.emitFloat bits) := by
  unfold Emitter.emitFloat
  split
  · exact emit _
  · split
    · exact emit _
    · split
      · exact emit _
      · exact push rfl

theorem emitDouble (bits : UInt64) : Confined e (e.emitDouble bits) := by
  unfold Emitter.emitDouble
  split
  · exact emit _
  · split
    · exact emit _
    · exact push rfl

theorem pop (t : Ty) : Confined e (e.pop t) := by
  unfold Emitter.pop
  split
  · exact refl e
  · exact emit _
  · exact emit _

theorem newArray (t : Ty) : Confined e (e.newArray t) := by
  unfold Emitter.newArray
  split
  · exact push rfl
  · exact classRef _ _

theorem setLine (n : Nat) : Confined e (e.setLine n) := by
  unfold Emitter.setLine
  split
  · exact (push rfl).trans (of_eq rfl rfl)
  · exact refl e

/-- A label made after `e` is not placed at `e`. -/
theorem isBound_of_le (h : e.bound.size ≤ l) : e.isBound l = false := by
  simp [Emitter.isBound, Array.getD_eq_getD_getElem?, Array.getElem?_eq_none h]

/-- In a body that extends `e'`'s code and holds each label at most once, the
    code added from `e` to `e'` is closed: its jumps go to its own labels, and
    these stand in it. -/
theorem closed (h : Confined e e') (he : e.LabelsOk) {C : List Instruction}
    (hC : e'.code.toList <+: C) (huniq : ∀ l, C.count (.label l) ≤ 1) :
    Flow.Closed C e.code.size e'.code.size := by
  intro p q hap hpb hst
  obtain ⟨t, rfl⟩ := hC
  cases hst with
  | next => exact ⟨by omega, by omega⟩
  | @jump _ op l hp hq =>
    rw [List.getElem?_append_left (by simpa using hpb)] at hp
    have hmem : Instruction.jump op l ∈ e'.code.toList.drop e.code.size := by
      refine List.mem_of_getElem? (show (e'.code.toList.drop e.code.size)[p - e.code.size]? = _ from ?_)
      rw [List.getElem?_drop, Nat.add_sub_cancel' hap, hp]
    obtain ⟨hl, hl'⟩ := h.jumps op l hmem
    -- the label stands once in the code up to `e'`, and not in `e`'s code
    have hcount : e'.code.toList.count (.label l) = 1 := by
      rw [h.labels he l, h.placed l hl hl', if_pos rfl]
    have hpos : 0 < e'.code.toList.count (.label l) := by omega
    obtain ⟨r, hr⟩ := List.mem_iff_getElem?.1 (List.count_pos_iff.1 hpos)
    have hrlt : r < e'.code.size := by simpa using (List.getElem?_eq_some_iff.1 hr).1
    have hre : e.code.size ≤ r := by
      rcases Nat.lt_or_ge r e.code.size with hlt | hge
      · have hnot : e.code.toList.count (.label l) = 0 := by simp [he l, isBound_of_le hl]
        obtain ⟨u, hu⟩ := h.prefix_
        rw [← hu, List.getElem?_append_left (by simpa using hlt)] at hr
        exact absurd (List.count_pos_iff.2 (List.mem_of_getElem? hr)) (by omega)
      · exact hge
    have hrC : (e'.code.toList ++ t)[r]? = some (.label l) := by
      rw [List.getElem?_append_left (by simpa using hrlt), hr]
    have := Flow.eq_of_count_le_one hq hrC (huniq l)
    omega

end Confined

end Emitter

end ClassCompiler
