import ClassCompiler.ClassFile.StackDepth
import ClassCompiler.Proofs.Codegen.Faults

/-!
# The depth analysis is exact

The depth of the operand stack at an entry of a body is fixed by the path
control takes to it: the first entry starts on an empty stack, and each entry
hands the depth it leaves to the entries control goes to from it (`Flows`),
the place of its jump's label and the next entry when it falls through. The
depths are 16-bit words, as the class file writes them, so a depth past 65535
wraps around (`StackEffect.after`).

`maxStack` walks the entries from the first one along these edges, keeping a
worklist of the entries reached but not yet visited. It is the exact analysis
over 16-bit words: it succeeds exactly when the entries control reaches
(`Reaches`) can be given one depth each that the edges agree on, with every
entry finding the words it takes and every jump its label (`Consistent`), and
its result is then the greatest depth a reachable entry leaves
(`IsDeepest`). Otherwise it fails with an underflow, a mismatch, an unbound
label or the error of an entry's stack effect.

What one visit of the walk keeps, and so every run of it:

* `Sound`: every entry recorded is reachable, and every entry recorded and no
  longer pending has its stack effect, its label and the depths the edges ask
  of the entries it goes to; the greatest depth found is one an entry visited
  leaves;
* `Agrees d`: every entry recorded has the depth `d` gives it, so that with a
  consistent `d` no visit fails (`Agrees.run_ok`);
* `load`: the entries pending plus those never reached drop by one with each
  visit, so the walk empties its worklist within the steps it is given
  (`run_pending`).

The main statements are `maxStack_exact` and `maxStack_fails`.
-/

namespace ClassCompiler

/-- The depth an entry with stack effect `e` leaves on a stack of `d` words,
    as a 16-bit word. -/
def StackEffect.after (e : StackEffect) (d : Nat) : Nat := (d - e.pops + e.pushes) % depthModulus

@[simp] theorem Except.ok_bind {ε α β : Type} (a : α) (f : α → Except ε β) :
    (Except.ok a : Except ε α) >>= f = f a := rfl

namespace DepthWalk

/-! ### The depths control fixes -/

section Spec

variable (insns : Array Instruction) (labels : Std.HashMap Nat Nat)

/-- Control goes from entry `i` to entry `j`: `j` is where the label of the jump
    at `i` stands, or the entry after `i`, which falls through. -/
inductive Flows (i : Nat) : Nat → Prop
  | jump {op : Opcode} {l j : Nat} : insns[i]? = some (.jump op l) → labels.get? l = some j → Flows i j
  | next : (insns[i]?.getD default).fallsThrough = true → Flows i (i + 1)

/-- The entries control reaches from the first one. -/
inductive Reaches : Nat → Prop
  | start : 0 < insns.size → Reaches 0
  | step {i j : Nat} : Reaches i → Flows insns labels i j → j < insns.size → Reaches j

/-- One depth for each entry, which the reachable entries agree on: the first
    entry starts on an empty stack, and each reachable entry has a stack effect,
    finds the words it takes, finds the label it jumps to, and leaves to every
    entry control goes to the depth that entry has. -/
structure Consistent (d : Nat → Nat) : Prop where
  start : d 0 = 0
  fits : ∀ i, Reaches insns labels i → ∃ e, (insns[i]?.getD default).stackEffect = .ok e ∧
    e.pops ≤ d i ∧ ∀ j, Flows insns labels i j → j < insns.size → d j = e.after (d i)
  bound : ∀ i op l, Reaches insns labels i → insns[i]? = some (.jump op l) → (labels.get? l).isSome

/-- `m` is the greatest depth a reachable entry leaves, or `0` when no entry is
    reachable. -/
structure IsDeepest (d : Nat → Nat) (m : Nat) : Prop where
  le : ∀ i e, Reaches insns labels i → (insns[i]?.getD default).stackEffect = .ok e → e.after (d i) ≤ m
  attained : m = 0 ∨
    ∃ i e, Reaches insns labels i ∧ (insns[i]?.getD default).stackEffect = .ok e ∧ e.after (d i) = m

variable {insns labels}

theorem Reaches.lt_size {i : Nat} (h : Reaches insns labels i) : i < insns.size := by
  cases h with
  | start h => exact h
  | step _ _ hj => exact hj

/-- Control fixes the depth of every reachable entry: two consistent
    assignments agree there. -/
theorem Consistent.eq_of_reaches {d d' : Nat → Nat} (hd : Consistent insns labels d)
    (hd' : Consistent insns labels d') {i : Nat} (hi : Reaches insns labels i) : d i = d' i := by
  induction hi with
  | start => rw [hd.start, hd'.start]
  | step hi hf hj ih =>
    obtain ⟨e, he, -, hflow⟩ := hd.fits _ hi
    obtain ⟨e', he', -, hflow'⟩ := hd'.fits _ hi
    have hee : e = e' := by
      rw [he] at he'
      cases he'
      rfl
    rw [hflow _ hf hj, hflow' _ hf hj, ih, hee]

theorem IsDeepest.of_consistent {d d' : Nat → Nat} {m : Nat} (hd : Consistent insns labels d)
    (hd' : Consistent insns labels d') (h : IsDeepest insns labels d m) : IsDeepest insns labels d' m where
  le i e hi he := hd.eq_of_reaches hd' hi ▸ h.le i e hi he
  attained := by
    rcases h.attained with h0 | ⟨i, e, hi, he, hm⟩
    · exact .inl h0
    · exact .inr ⟨i, e, hi, he, hd.eq_of_reaches hd' hi ▸ hm⟩

theorem IsDeepest.unique {d : Nat → Nat} {m m' : Nat} (h : IsDeepest insns labels d m)
    (h' : IsDeepest insns labels d m') : m = m' := by
  have hle : ∀ {m m'}, IsDeepest insns labels d m → IsDeepest insns labels d m' → m ≤ m' := by
    intro m m' h h'
    rcases h.attained with h0 | ⟨i, e, hi, he, hm⟩
    · omega
    · exact hm ▸ h'.le i e hi he
  exact Nat.le_antisymm (hle h h') (hle h' h)

end Spec

/-! ### One step of the walk -/

/-- The depth recorded for entry `i`, once it was reached. -/
def depthAt (w : DepthWalk) (i : Nat) : Option Nat := w.depths[i]?.getD none

/-- `w` once entry `j`, reached for the first time, is recorded with `a` words
    and put on the worklist. -/
def record (w : DepthWalk) (j a : Nat) : DepthWalk :=
  { w with depths := w.depths.setIfInBounds j (some a), pending := j :: w.pending }

/-- Reach each of the entries `js` in turn with `a` words. -/
def reachAll (method : String) (w : DepthWalk) (js : List Nat) (a : Nat) : Except EmitError DepthWalk :=
  js.foldlM (fun w j => w.reach method j a) w

/-- The entries control goes to from `insn` at `i`: the place of its label, and
    the next entry when it falls through. An unbound label is an error. -/
def nexts (method : String) (labels : Std.HashMap Nat Nat) (insn : Instruction) (i : Nat) :
    Except EmitError (List Nat) :=
  match insn with
  | .jump _ l =>
    match labels.get? l with
    | none => .error (.unboundLabel method l)
    | some t => .ok (t :: if insn.fallsThrough then [i + 1] else [])
  | _ => .ok (if insn.fallsThrough then [i + 1] else [])

@[simp] theorem reachAll_nil {method : String} {w : DepthWalk} {a : Nat} : reachAll method w [] a = .ok w := rfl

theorem reachAll_cons {method : String} {w : DepthWalk} {j a : Nat} {js : List Nat} :
    reachAll method w (j :: js) a = w.reach method j a >>= fun w => reachAll method w js a := rfl

section Record

variable {w : DepthWalk} {j a : Nat}

@[simp] theorem record_size : (w.record j a).depths.size = w.depths.size := by
  simp [record]

@[simp] theorem record_deepest : (w.record j a).deepest = w.deepest := rfl

@[simp] theorem record_pending : (w.record j a).pending = j :: w.pending := rfl

theorem depthAt_of_size_le {i : Nat} (h : w.depths.size ≤ i) : w.depthAt i = none := by
  simp [depthAt, Array.getElem?_eq_none h]

theorem depthAt_record (hj : j < w.depths.size) (k : Nat) :
    (w.record j a).depthAt k = if k = j then some a else w.depthAt k := by
  by_cases hk : k = j
  · subst hk
    simp [depthAt, record, hj]
  · simp [depthAt, record, hk, Ne.symm hk]

end Record

theorem reach_ok {method : String} {w w' : DepthWalk} {j a : Nat} (h : w.reach method j a = .ok w') :
    (w' = w ∧ (w.depthAt j = some a ∨ w.depths.size ≤ j)) ∨
      (j < w.depths.size ∧ w.depthAt j = none ∧ w' = w.record j a) := by
  unfold reach at h
  split at h
  · rename_i hj
    have hat : w.depthAt j = w.depths[j] := by simp [depthAt, Array.getElem?_eq_getElem hj]
    split at h
    · rename_i b hb
      split at h
      · rename_i hba
        cases h
        exact .inl ⟨rfl, .inl (by rw [hat, hb, hba])⟩
      · cases h
    · rename_i hb
      cases h
      right
      refine ⟨hj, by rw [hat, hb], ?_⟩
      simp [record, Array.setIfInBounds, hj]
  · cases h
    exact .inl ⟨rfl, .inr (by omega)⟩

theorem reach_error {method : String} {w : DepthWalk} {j a : Nat} {err : EmitError}
    (h : w.reach method j a = .error err) :
    ∃ b, w.depthAt j = some b ∧ b ≠ a ∧ err = .stackMismatch method j b a := by
  unfold reach at h
  split at h
  · rename_i hj
    split at h
    · rename_i b hb
      split at h
      · cases h
      · rename_i hne
        cases h
        exact ⟨b, by simp [depthAt, Array.getElem?_eq_getElem hj, hb], hne, rfl⟩
    · cases h
  · cases h

/-! ### Reaching the entries control goes to -/

/-- The entries pending plus the entries never reached. -/
def load (w : DepthWalk) : Nat := w.pending.length + w.depths.countP Option.isNone

/-- What reaching the entries `js` with `a` words made of `w`: the entries of
    `js` in range are recorded with `a`, the other entries keep what they had,
    and the entries recorded for the first time went on the worklist, once
    each, so the load is the same. -/
structure Reached (w : DepthWalk) (js : List Nat) (a : Nat) (w' : DepthWalk) : Prop where
  size : w'.depths.size = w.depths.size
  deepest : w'.deepest = w.deepest
  depthAt : ∀ k, w'.depthAt k = if k ∈ js ∧ k < w.depths.size then some a else w.depthAt k
  keeps : ∀ k c, w.depthAt k = some c → w'.depthAt k = some c
  pending : ∃ fresh, w'.pending = fresh ++ w.pending ∧ fresh.Nodup ∧
    ∀ k, k ∈ fresh ↔ w.depthAt k = none ∧ k ∈ js ∧ k < w.depths.size
  load : w'.load = w.load

namespace Reached

variable {w w₁ w' : DepthWalk} {js js₁ js₂ : List Nat} {a : Nat}

theorem refl (w : DepthWalk) (a : Nat) : Reached w [] a w where
  size := rfl
  deepest := rfl
  depthAt _ := by simp
  keeps _ _ h := h
  pending := ⟨[], rfl, List.nodup_nil, by simp⟩
  load := rfl

theorem append (h₁ : Reached w js₁ a w₁) (h₂ : Reached w₁ js₂ a w') : Reached w (js₁ ++ js₂) a w' where
  size := h₂.size.trans h₁.size
  deepest := h₂.deepest.trans h₁.deepest
  depthAt k := by
    rw [h₂.depthAt, h₁.depthAt, h₁.size]
    by_cases hk₁ : k ∈ js₁ <;> by_cases hk₂ : k ∈ js₂ <;> by_cases hk : k < w.depths.size <;> simp [*]
  keeps k c h := h₂.keeps k c (h₁.keeps k c h)
  pending := by
    obtain ⟨f₁, hp₁, hn₁, hf₁⟩ := h₁.pending
    obtain ⟨f₂, hp₂, hn₂, hf₂⟩ := h₂.pending
    -- an entry recorded for the first time in the second stretch was not
    -- recorded in the first
    have hnew : ∀ k ∈ f₂, w.depthAt k = none ∧ ¬ (k ∈ js₁ ∧ k < w.depths.size) := by
      intro k hk
      have hnone := ((hf₂ k).1 hk).1
      rw [h₁.depthAt] at hnone
      split at hnone
      · cases hnone
      · exact ⟨hnone, by assumption⟩
    refine ⟨f₂ ++ f₁, by rw [hp₂, hp₁, List.append_assoc], ?_, fun k => ?_⟩
    · refine List.nodup_append.2 ⟨hn₂, hn₁, fun k hk k' hk' hkk => ?_⟩
      subst hkk
      obtain ⟨-, hr, hlt⟩ := (hf₁ k).1 hk'
      exact (hnew k hk).2 ⟨hr, hlt⟩
    · rw [List.mem_append, hf₁, List.mem_append]
      constructor
      · rintro (hk | ⟨hnone, hr, hlt⟩)
        · obtain ⟨-, hr, hlt⟩ := (hf₂ k).1 hk
          exact ⟨(hnew k hk).1, .inr hr, h₁.size ▸ hlt⟩
        · exact ⟨hnone, .inl hr, hlt⟩
      · rintro ⟨hnone, hr | hr, hlt⟩
        · exact .inr ⟨hnone, hr, hlt⟩
        · by_cases hr₁ : k ∈ js₁
          · exact .inr ⟨hnone, hr₁, hlt⟩
          · refine .inl ((hf₂ k).2 ⟨?_, hr, h₁.size ▸ hlt⟩)
            rw [h₁.depthAt, if_neg (fun h => hr₁ h.1), hnone]
  load := h₂.load.trans h₁.load

theorem mem_pending (R : Reached w js a w') {k : Nat} (hk : k ∈ w.pending) : k ∈ w'.pending := by
  obtain ⟨fresh, hp, -, -⟩ := R.pending
  rw [hp]
  exact List.mem_append_right _ hk

/-- An entry recorded before, and off the worklist, stays off it. -/
theorem not_mem_pending (R : Reached w js a w') {k c : Nat} (hk : w.depthAt k = some c)
    (hkp : k ∉ w.pending) : k ∉ w'.pending := by
  obtain ⟨fresh, hp, -, hfresh⟩ := R.pending
  rw [hp, List.mem_append, not_or]
  refine ⟨fun hf => ?_, hkp⟩
  rw [((hfresh k).1 hf).1] at hk
  cases hk

/-- An entry recorded for the first time is on the worklist. -/
theorem mem_pending_of_new (R : Reached w js a w') {k c : Nat} (hnone : w.depthAt k = none)
    (hk : w'.depthAt k = some c) : k ∈ w'.pending := by
  obtain ⟨fresh, hp, -, hfresh⟩ := R.pending
  rw [R.depthAt, hnone] at hk
  split at hk
  · rename_i hnew
    rw [hp]
    exact List.mem_append_left _ ((hfresh k).2 ⟨hnone, hnew⟩)
  · cases hk

/-- A worklist of recorded entries stays one. -/
theorem pending_recorded (R : Reached w js a w') (h : ∀ k ∈ w.pending, (w.depthAt k).isSome) :
    ∀ k ∈ w'.pending, (w'.depthAt k).isSome := by
  obtain ⟨fresh, hp, -, hfresh⟩ := R.pending
  intro k hk
  rw [hp, List.mem_append] at hk
  rcases hk with hk | hk
  · obtain ⟨-, hkjs, hlt⟩ := (hfresh k).1 hk
    rw [R.depthAt, if_pos ⟨hkjs, hlt⟩]
    rfl
  · obtain ⟨c, hc⟩ := Option.isSome_iff_exists.1 (h k hk)
    rw [R.keeps k c hc]
    rfl

/-- A worklist of recorded entries, each once, stays one: the entries that join
    it were not recorded. -/
theorem nodup (R : Reached w js a w') (hnd : w.pending.Nodup) (h : ∀ k ∈ w.pending, (w.depthAt k).isSome) :
    w'.pending.Nodup := by
  obtain ⟨fresh, hp, hfnd, hfresh⟩ := R.pending
  rw [hp]
  refine List.nodup_append.2 ⟨hfnd, hnd, fun k hk k' hk' hkk => ?_⟩
  subst hkk
  have hsome := h k hk'
  rw [((hfresh k).1 hk).1] at hsome
  cases hsome

end Reached

theorem record_load {w : DepthWalk} {j a : Nat} (hj : j < w.depths.size) (hnone : w.depthAt j = none) :
    (w.record j a).load = w.load := by
  have hget : w.depths[j] = none := by
    simpa [depthAt, Array.getElem?_eq_getElem hj] using hnone
  have hset : w.depths.setIfInBounds j (some a) = w.depths.set j (some a) hj := by
    simp [Array.setIfInBounds, hj]
  have hcount := Array.countP_set (p := Option.isNone) (a := some a) hj
  have hpos : 0 < w.depths.countP Option.isNone :=
    Array.countP_pos_iff.2 ⟨none, hget ▸ Array.getElem_mem hj, rfl⟩
  simp only [hget, Option.isNone_none, if_true, Option.isNone_some, Bool.false_eq_true, if_false] at hcount
  simp only [load, record, hset, hcount, List.length_cons]
  omega

theorem reach_reached {method : String} {w w' : DepthWalk} {j a : Nat} (h : w.reach method j a = .ok w') :
    Reached w [j] a w' := by
  rcases reach_ok h with ⟨rfl, hj⟩ | ⟨hj, hnone, rfl⟩
  · refine ⟨rfl, rfl, fun k => ?_, fun _ _ h => h, ⟨[], rfl, List.nodup_nil, fun k => ?_⟩, rfl⟩
    · by_cases hk : k = j
      · subst hk
        rcases hj with hj | hj
        · simp [hj]
        · simp [depthAt_of_size_le hj, hj]
      · simp [hk]
    · simp only [List.not_mem_nil, List.mem_singleton, false_iff]
      rintro ⟨hnone, rfl, hlt⟩
      rcases hj with hj | hj
      · rw [hj] at hnone
        cases hnone
      · omega
  · refine ⟨record_size, rfl, fun k => ?_, fun k c hk => ?_, ⟨[j], rfl, by simp, fun k => ?_⟩,
      record_load hj hnone⟩
    · rw [depthAt_record hj]
      by_cases hk : k = j <;> simp [hk, hj]
    · rw [depthAt_record hj, if_neg]
      · exact hk
      · rintro rfl
        rw [hnone] at hk
        cases hk
    · simp only [List.mem_singleton]
      constructor
      · rintro rfl
        exact ⟨hnone, rfl, hj⟩
      · exact fun h => h.2.1

theorem reachAll_reached {method : String} {a : Nat} :
    ∀ {js : List Nat} {w w' : DepthWalk}, reachAll method w js a = .ok w' → Reached w js a w'
  | [], w, w', h => by
    cases h
    exact Reached.refl w a
  | j :: js, w, w', h => by
    rw [reachAll_cons] at h
    obtain ⟨w₁, h₁, h⟩ := Except.bind_eq_ok.1 h
    exact (reach_reached h₁).append (reachAll_reached h)

/-- Reaching entries fails only at an entry recorded with another depth. -/
theorem reachAll_error {method : String} {a : Nat} {err : EmitError} :
    ∀ {js : List Nat} {w : DepthWalk}, reachAll method w js a = .error err →
      ∃ j b, err = .stackMismatch method j b a
  | [], _, h => by cases h
  | j :: js, w, h => by
    rw [reachAll_cons] at h
    rcases Except.bind_eq_error.1 h with h | ⟨w₁, -, h⟩
    · obtain ⟨b, -, -, rfl⟩ := reach_error h
      exact ⟨j, b, rfl⟩
    · exact reachAll_error h

/-- Reaching entries succeeds when each of them recorded before has the depth
    it is reached with. -/
theorem reachAll_ok_of {method : String} {a : Nat} :
    ∀ {js : List Nat} {w : DepthWalk}, (∀ j ∈ js, ∀ b, w.depthAt j = some b → b = a) →
      ∃ w', reachAll method w js a = .ok w'
  | [], w, _ => ⟨w, rfl⟩
  | j :: js, w, h => by
    rw [reachAll_cons]
    cases h₁ : w.reach method j a with
    | error err =>
      obtain ⟨b, hb, hne, -⟩ := reach_error h₁
      exact absurd (h j List.mem_cons_self b hb) hne
    | ok w₁ =>
      -- the entries still to reach keep their depth, or now have `a`
      refine reachAll_ok_of fun j' hj' b hb => ?_
      rw [(reach_reached h₁).depthAt] at hb
      split at hb
      · cases hb
        rfl
      · exact h j' (List.mem_cons_of_mem _ hj') b hb

/-- A visit of a pending entry, as the walk makes it: the entry's stack effect,
    the underflow check, the entries control goes to, and reaching each of them
    with the depth the entry leaves. -/
theorem run_succ_cons {method : String} {insns : Array Instruction} {labels : Std.HashMap Nat Nat}
    {fuel i : Nat} {rest : List Nat} {w : DepthWalk} (hw : w.pending = i :: rest) :
    run method insns labels (fuel + 1) w =
      ((insns[i]?.getD default).stackEffect >>= fun e =>
        if (w.depthAt i).getD 0 < e.pops then .error (.stackUnderflow method i)
        else nexts method labels (insns[i]?.getD default) i >>= fun js =>
          reachAll method { w with pending := rest, deepest := max w.deepest (e.after ((w.depthAt i).getD 0)) }
            js (e.after ((w.depthAt i).getD 0))) >>= run method insns labels fuel := by
  rw [run, hw, bind_assoc]
  simp only [depthAt, StackEffect.after]
  generalize insns[i]?.getD default = insn
  congr 1
  funext e
  by_cases hc : (w.depths[i]?.getD none).getD 0 < e.pops
  · simp only [hc, if_true]
    rfl
  · simp only [hc, if_false]
    cases insn with
    | jump op l =>
      simp only [nexts]
      cases labels.get? l with
      | none => rfl
      | some t =>
        simp only [Except.ok_bind, reachAll_cons, bind_assoc]
        congr 1
        funext w'
        -- a GOTO does not fall through, so the walk's test for it changes nothing
        by_cases hop : op = .goto
        · subst hop
          rfl
        · simp only [hop, beq_iff_eq, if_false]
          split <;> simp [reachAll_cons]
    | _ =>
      dsimp only [nexts]
      split <;> simp [reachAll_cons]

/-! ### The entries control goes to -/

section Nexts

variable {method : String} {labels : Std.HashMap Nat Nat} {insn : Instruction} {i : Nat} {js : List Nat}

theorem mem_nexts (h : nexts method labels insn i = .ok js) (j : Nat) :
    j ∈ js ↔ (∃ op l, insn = .jump op l ∧ labels.get? l = some j) ∨ (insn.fallsThrough = true ∧ j = i + 1) := by
  unfold nexts at h
  split at h
  · rename_i op l
    split at h
    · cases h
    · rename_i t ht
      cases h
      have hjump : (∃ op' l', Instruction.jump op l = .jump op' l' ∧ labels.get? l' = some j) ↔ j = t := by
        constructor
        · rintro ⟨op', l', h, hl⟩
          cases h
          rw [ht] at hl
          exact (Option.some.inj hl).symm
        · rintro rfl
          exact ⟨op, l, rfl, ht⟩
      rw [hjump]
      by_cases hft : (Instruction.jump op l).fallsThrough = true <;> simp [hft]
  · rename_i hnot
    cases h
    have hjump : ¬ ∃ op l, insn = .jump op l ∧ labels.get? l = some j := by
      rintro ⟨op, l, h, -⟩
      exact hnot op l h
    rw [or_iff_right hjump]
    by_cases hft : insn.fallsThrough = true <;> simp [hft]

theorem nexts_bound (h : nexts method labels insn i = .ok js) {op : Opcode} {l : Nat} (hl : insn = .jump op l) :
    (labels.get? l).isSome := by
  subst hl
  cases hget : labels.get? l with
  | none =>
    rw [nexts, hget] at h
    cases h
  | some t => rfl

theorem nexts_ok_of_bound (h : ∀ op l, insn = .jump op l → (labels.get? l).isSome) :
    ∃ js, nexts method labels insn i = .ok js := by
  unfold nexts
  split
  · rename_i op l
    split
    · rename_i hnone
      have := h op l rfl
      rw [hnone] at this
      cases this
    · exact ⟨_, rfl⟩
  · exact ⟨_, rfl⟩

theorem nexts_error {err : EmitError} (h : nexts method labels insn i = .error err) :
    ∃ l, err = .unboundLabel method l := by
  unfold nexts at h
  split at h
  · split at h
    · cases h
      exact ⟨_, rfl⟩
    · cases h
  · cases h

end Nexts

/-- The entry at a place is a jump when the place holds that jump: the entry
    read past the end is no jump. -/
theorem getD_eq_jump {insns : Array Instruction} {i : Nat} {op : Opcode} {l : Nat} :
    insns[i]?.getD default = .jump op l ↔ insns[i]? = some (.jump op l) := by
  cases insns[i]? with
  | none => exact iff_of_false (by intro h; cases h) (by simp)
  | some insn => simp

theorem flows_iff {insns : Array Instruction} {labels : Std.HashMap Nat Nat} {i j : Nat} :
    Flows insns labels i j ↔ (∃ op l, insns[i]?.getD default = .jump op l ∧ labels.get? l = some j) ∨
      ((insns[i]?.getD default).fallsThrough = true ∧ j = i + 1) := by
  simp only [getD_eq_jump]
  constructor
  · rintro (⟨hi, hl⟩ | hft)
    · exact .inl ⟨_, _, hi, hl⟩
    · exact .inr ⟨hft, rfl⟩
  · rintro (⟨op, l, hi, hl⟩ | ⟨hft, rfl⟩)
    · exact .jump hi hl
    · exact .next hft

/-- The entries the walk reaches from entry `i` are those control goes to. -/
theorem mem_nexts_iff_flows {method : String} {insns : Array Instruction} {labels : Std.HashMap Nat Nat}
    {i : Nat} {js : List Nat} (h : nexts method labels (insns[i]?.getD default) i = .ok js) (j : Nat) :
    j ∈ js ↔ Flows insns labels i j := by
  rw [mem_nexts h, flows_iff]

/-! ### Visits -/

section Visits

variable {method : String} {insns : Array Instruction} {labels : Std.HashMap Nat Nat}

theorem run_succ_nil {fuel : Nat} {w : DepthWalk} (hw : w.pending = []) :
    run method insns labels (fuel + 1) w = .ok w := by
  rw [run, hw]

/-- What a successful visit of the pending entry `i` did: the entry has a
    stack effect and finds its words, the entries control goes to were reached
    with the depth it leaves, and the walk went on from there. -/
theorem run_succ_ok {fuel i : Nat} {rest : List Nat} {w w' : DepthWalk} (hw : w.pending = i :: rest)
    (h : run method insns labels (fuel + 1) w = .ok w') :
    ∃ e js w₃, (insns[i]?.getD default).stackEffect = .ok e ∧ e.pops ≤ (w.depthAt i).getD 0 ∧
      nexts method labels (insns[i]?.getD default) i = .ok js ∧
      reachAll method { w with pending := rest, deepest := max w.deepest (e.after ((w.depthAt i).getD 0)) } js
        (e.after ((w.depthAt i).getD 0)) = .ok w₃ ∧
      run method insns labels fuel w₃ = .ok w' := by
  rw [run_succ_cons hw] at h
  obtain ⟨w₃, h, hrun⟩ := Except.bind_eq_ok.1 h
  obtain ⟨e, he, h⟩ := Except.bind_eq_ok.1 h
  split at h
  · cases h
  · obtain ⟨js, hjs, h⟩ := Except.bind_eq_ok.1 h
    exact ⟨e, js, w₃, he, by omega, hjs, h, hrun⟩

/-- A visit takes one entry off the load. -/
theorem visit_load {i a m : Nat} {rest js : List Nat} {w w₃ : DepthWalk} (hw : w.pending = i :: rest)
    (h : reachAll method { w with pending := rest, deepest := m } js a = .ok w₃) : w₃.load + 1 = w.load := by
  rw [(reachAll_reached h).load]
  simp only [load, hw, List.length_cons]
  omega

/-- A run that starts with fewer entries to load than steps empties the
    worklist. -/
theorem run_pending : ∀ {fuel : Nat} {w w' : DepthWalk}, run method insns labels fuel w = .ok w' →
    w.load < fuel → w'.pending = []
  | 0, _, _, _, hlt => absurd hlt (Nat.not_lt_zero _)
  | fuel + 1, w, w', h, hlt => by
    cases hw : w.pending with
    | nil =>
      rw [run_succ_nil hw] at h
      cases h
      exact hw
    | cons i rest =>
      obtain ⟨e, js, w₃, -, -, -, hreach, hrun⟩ := run_succ_ok hw h
      have := visit_load hw hreach
      exact run_pending hrun (by omega)

/-- The errors the depth analysis reports: an entry finding too few words, an
    entry reached with two depths, a jump to a label never placed, or an entry
    whose stack effect is unknown. -/
def IsDepthError (method : String) (insns : Array Instruction) (err : EmitError) : Prop :=
  (∃ i, err = .stackUnderflow method i) ∨ (∃ i a b, err = .stackMismatch method i a b) ∨
    (∃ l, err = .unboundLabel method l) ∨ ∃ i : Nat, (insns[i]?.getD default).stackEffect = .error err

theorem run_error : ∀ {fuel : Nat} {w : DepthWalk} {err : EmitError},
    run method insns labels fuel w = .error err → IsDepthError method insns err
  | 0, _, _, h => by cases h
  | fuel + 1, w, err, h => by
    cases hw : w.pending with
    | nil =>
      rw [run_succ_nil hw] at h
      cases h
    | cons i rest =>
      rw [run_succ_cons hw] at h
      rcases Except.bind_eq_error.1 h with h | ⟨w₃, -, h⟩
      · rcases Except.bind_eq_error.1 h with h | ⟨e, -, h⟩
        · exact .inr (.inr (.inr ⟨i, h⟩))
        · split at h
          · cases h
            exact .inl ⟨i, rfl⟩
          · rcases Except.bind_eq_error.1 h with h | ⟨js, -, h⟩
            · exact .inr (.inr (.inl (nexts_error h)))
            · obtain ⟨j, b, rfl⟩ := reachAll_error h
              exact .inr (.inl ⟨j, b, _, rfl⟩)
      · exact run_error h

end Visits

/-! ### What the walk knows -/

section Invariants

variable {method : String} {insns : Array Instruction} {labels : Std.HashMap Nat Nat}

/-- What the walk knows of an entry it visited with `b` words on the stack: its
    stack effect, that it finds its words and the label it jumps to, that the
    entries control goes to are recorded with the depth it leaves, and that
    this depth is counted. -/
structure Visited (insns : Array Instruction) (labels : Std.HashMap Nat Nat) (w : DepthWalk) (i b : Nat) :
    Prop where
  effect : ∃ e, (insns[i]?.getD default).stackEffect = .ok e ∧ e.pops ≤ b ∧ e.after b ≤ w.deepest ∧
    ∀ j, Flows insns labels i j → j < insns.size → w.depthAt j = some (e.after b)
  bound : ∀ op l, insns[i]? = some (.jump op l) → (labels.get? l).isSome

/-- A visited entry stays visited while recorded depths are kept and the
    greatest depth grows. -/
theorem Visited.mono {w w' : DepthWalk} {i b : Nat} (h : Visited insns labels w i b)
    (hkeep : ∀ k c, w.depthAt k = some c → w'.depthAt k = some c) (hdeep : w.deepest ≤ w'.deepest) :
    Visited insns labels w' i b where
  effect := by
    obtain ⟨e, he, hpops, hle, hflow⟩ := h.effect
    exact ⟨e, he, hpops, Nat.le_trans hle hdeep, fun j hf hj => hkeep _ _ (hflow j hf hj)⟩
  bound := h.bound

/-- The invariant of the walk: the entries recorded are reachable, the first
    one with an empty stack; the worklist holds recorded entries, once each;
    the entries recorded and off the worklist are visited; and the greatest
    depth found is `0` or one a visited entry leaves. -/
structure Sound (insns : Array Instruction) (labels : Std.HashMap Nat Nat) (w : DepthWalk) : Prop where
  size : w.depths.size = insns.size
  start : 0 < insns.size → w.depthAt 0 = some 0
  reaches : ∀ i b, w.depthAt i = some b → Reaches insns labels i
  pending : ∀ i ∈ w.pending, (w.depthAt i).isSome
  nodup : w.pending.Nodup
  visited : ∀ i b, w.depthAt i = some b → i ∉ w.pending → Visited insns labels w i b
  deepest : w.deepest = 0 ∨ ∃ i b e, w.depthAt i = some b ∧ i ∉ w.pending ∧
    (insns[i]?.getD default).stackEffect = .ok e ∧ e.after b = w.deepest

/-- A visit keeps the invariant. The entry visited leaves the worklist with
    what the visit found out; the entries reached for the first time join it. -/
theorem Sound.visit {w w₃ : DepthWalk} {i : Nat} {rest js : List Nat} {e : StackEffect}
    (hs : Sound insns labels w) (hw : w.pending = i :: rest)
    (he : (insns[i]?.getD default).stackEffect = .ok e) (hpops : e.pops ≤ (w.depthAt i).getD 0)
    (hjs : nexts method labels (insns[i]?.getD default) i = .ok js)
    (h : reachAll method { w with pending := rest, deepest := max w.deepest (e.after ((w.depthAt i).getD 0)) }
      js (e.after ((w.depthAt i).getD 0)) = .ok w₃) :
    Sound insns labels w₃ := by
  obtain ⟨b, hb⟩ := Option.isSome_iff_exists.1 (hs.pending i (hw ▸ List.mem_cons_self))
  rw [hb, Option.getD_some] at hpops h
  have R := reachAll_reached h
  have hrest : ∀ k ∈ rest, (w.depthAt k).isSome := fun k hk => hs.pending k (hw ▸ List.mem_cons_of_mem _ hk)
  have hnd := hs.nodup
  rw [hw, List.nodup_cons] at hnd
  have hat : ∀ k, w₃.depthAt k = if k ∈ js ∧ k < insns.size then some (e.after b) else w.depthAt k := by
    intro k
    rw [R.depthAt, ← hs.size]
    rfl
  have hdeep : w₃.deepest = max w.deepest (e.after b) := R.deepest
  have hi : Reaches insns labels i := hs.reaches i b hb
  refine ⟨R.size.trans hs.size, fun h0 => R.keeps 0 0 (hs.start h0), fun k c hk => ?_, R.pending_recorded hrest,
    R.nodup hnd.2 hrest, fun k c hk hkp => ?_, ?_⟩
  · -- reaches: a new entry is one `i` goes to
    rw [hat] at hk
    split at hk
    · rename_i hk'
      exact .step hi ((mem_nexts_iff_flows hjs k).1 hk'.1) hk'.2
    · exact hs.reaches k c hk
  · -- visited: `i` by this visit, any other entry by an earlier one
    by_cases hki : k = i
    · subst hki
      rw [R.keeps k b hb] at hk
      cases hk
      refine ⟨⟨e, he, hpops, hdeep ▸ Nat.le_max_right _ _, fun j hf hj => ?_⟩, fun op l hl => ?_⟩
      · rw [hat, if_pos ⟨(mem_nexts_iff_flows hjs j).2 hf, hj⟩]
      · exact nexts_bound hjs (getD_eq_jump.2 hl)
    · cases hc : w.depthAt k with
      | none => exact absurd (R.mem_pending_of_new hc hk) hkp
      | some c' =>
        rw [R.keeps k c' hc] at hk
        cases hk
        have hkp' : k ∉ w.pending := by
          rw [hw, List.mem_cons, not_or]
          exact ⟨hki, fun hk' => hkp (R.mem_pending hk')⟩
        exact (hs.visited k _ hc hkp').mono R.keeps (hdeep ▸ Nat.le_max_left _ _)
  · -- deepest: the depth `i` leaves, or the greatest found before
    rcases Nat.le_total w.deepest (e.after b) with hle | hle
    · exact .inr ⟨i, b, e, R.keeps i b hb, R.not_mem_pending hb hnd.1, he, by rw [hdeep, Nat.max_eq_right hle]⟩
    · rw [hdeep, Nat.max_eq_left hle]
      rcases hs.deepest with h0 | ⟨k, c, e', hk, hkp, he', hm⟩
      · exact .inl h0
      · have hkp' : k ∉ rest := fun hk' => hkp (hw ▸ List.mem_cons_of_mem _ hk')
        exact .inr ⟨k, c, e', R.keeps k c hk, R.not_mem_pending hk hkp', he', hm⟩

theorem Sound.run : ∀ {fuel : Nat} {w w' : DepthWalk}, Sound insns labels w →
    DepthWalk.run method insns labels fuel w = .ok w' → Sound insns labels w'
  | 0, _, _, hs, h => by
    cases h
    exact hs
  | fuel + 1, w, w', hs, h => by
    cases hw : w.pending with
    | nil =>
      rw [run_succ_nil hw] at h
      cases h
      exact hs
    | cons i rest =>
      obtain ⟨e, js, w₃, he, hpops, hjs, hreach, hrun⟩ := run_succ_ok hw h
      exact Sound.run (hs.visit hw he hpops hjs hreach) hrun

/-- The invariant of a walk against a consistent assignment `d`: every entry
    recorded is reachable and has the depth `d` gives it, and the worklist
    holds recorded entries. -/
structure Agrees (insns : Array Instruction) (labels : Std.HashMap Nat Nat) (d : Nat → Nat) (w : DepthWalk) :
    Prop where
  size : w.depths.size = insns.size
  recorded : ∀ i b, w.depthAt i = some b → Reaches insns labels i ∧ b = d i
  pending : ∀ i ∈ w.pending, (w.depthAt i).isSome

/-- Against a consistent assignment a visit succeeds: the entry has its effect,
    finds its words and its label, and every entry it goes to that was recorded
    before has the depth it leaves. -/
theorem Agrees.visit (method : String) {d : Nat → Nat} {w : DepthWalk} {i : Nat} {rest : List Nat}
    (ha : Agrees insns labels d w) (hd : Consistent insns labels d) (hw : w.pending = i :: rest) :
    ∃ e js w₃, (insns[i]?.getD default).stackEffect = .ok e ∧ e.pops ≤ (w.depthAt i).getD 0 ∧
      nexts method labels (insns[i]?.getD default) i = .ok js ∧
      reachAll method { w with pending := rest, deepest := max w.deepest (e.after ((w.depthAt i).getD 0)) } js
        (e.after ((w.depthAt i).getD 0)) = .ok w₃ ∧
      Agrees insns labels d w₃ := by
  obtain ⟨b, hb⟩ := Option.isSome_iff_exists.1 (ha.pending i (hw ▸ List.mem_cons_self))
  obtain ⟨hi, rfl⟩ := ha.recorded i b hb
  obtain ⟨e, he, hpops, hflow⟩ := hd.fits i hi
  obtain ⟨js, hjs⟩ : ∃ js, nexts method labels (insns[i]?.getD default) i = .ok js :=
    nexts_ok_of_bound fun op l hl => hd.bound i op l hi (getD_eq_jump.1 hl)
  rw [hb, Option.getD_some]
  -- an entry control goes to that was recorded has the depth `d` gives it,
  -- which is the depth the visited entry leaves
  have hagree : ∀ j ∈ js, ∀ c, w.depthAt j = some c → c = e.after (d i) := by
    intro j hj c hc
    obtain ⟨hr, rfl⟩ := ha.recorded j c hc
    exact hflow j ((mem_nexts_iff_flows hjs j).1 hj) hr.lt_size
  obtain ⟨w₃, h⟩ : ∃ w₃, reachAll method { w with pending := rest, deepest := max w.deepest (e.after (d i)) }
      js (e.after (d i)) = .ok w₃ := reachAll_ok_of hagree
  refine ⟨e, js, w₃, he, hpops, hjs, h, ?_⟩
  have R := reachAll_reached h
  refine ⟨R.size.trans ha.size, fun k c hk => ?_,
    R.pending_recorded fun k hk => ha.pending k (hw ▸ List.mem_cons_of_mem _ hk)⟩
  rw [R.depthAt] at hk
  split at hk
  · -- a new entry has the depth `i` leaves, which `d` gives it
    rename_i hk'
    cases hk
    have hf := (mem_nexts_iff_flows hjs k).1 hk'.1
    have hlt : k < insns.size := ha.size ▸ hk'.2
    exact ⟨.step hi hf hlt, (hflow k hf hlt).symm⟩
  · exact ha.recorded k c hk

/-- Against a consistent assignment no run fails. -/
theorem Agrees.run_ok {d : Nat → Nat} (hd : Consistent insns labels d) :
    ∀ {fuel : Nat} {w : DepthWalk}, Agrees insns labels d w → ∃ w', DepthWalk.run method insns labels fuel w = .ok w'
  | 0, w, _ => ⟨w, rfl⟩
  | fuel + 1, w, ha => by
    cases hw : w.pending with
    | nil => exact ⟨w, run_succ_nil hw⟩
    | cons i rest =>
      obtain ⟨e, js, w₃, he, hpops, hjs, hreach, ha₃⟩ := ha.visit method hd hw
      obtain ⟨w', hrun⟩ := Agrees.run_ok hd ha₃
      refine ⟨w', ?_⟩
      rw [run_succ_cons hw, he, Except.ok_bind, if_neg (by omega), hjs, Except.ok_bind, hreach, Except.ok_bind,
        hrun]

/-- A walk that emptied its worklist recorded every reachable entry: by
    induction on the path to it, as a visited entry records the entries control
    goes to. -/
theorem Sound.recorded_of_reaches {w : DepthWalk} (hs : Sound insns labels w) (hp : w.pending = [])
    {i : Nat} (hi : Reaches insns labels i) : ∃ b, w.depthAt i = some b ∧ Visited insns labels w i b := by
  induction hi with
  | start h0 => exact ⟨0, hs.start h0, hs.visited 0 0 (hs.start h0) (by simp [hp])⟩
  | step _ hf hj ih =>
    obtain ⟨b, -, hv⟩ := ih
    obtain ⟨e, -, -, -, hflow⟩ := hv.effect
    exact ⟨_, hflow _ hf hj, hs.visited _ _ (hflow _ hf hj) (by simp [hp])⟩

/-- A walk that emptied its worklist visited every reachable entry: the depths
    it recorded are consistent. -/
theorem Sound.consistent {w : DepthWalk} (hs : Sound insns labels w) (hp : w.pending = []) :
    Consistent insns labels (fun i => (w.depthAt i).getD 0) := by
  refine ⟨?_, fun i hi => ?_, fun i op l hi hl => ?_⟩
  · by_cases h0 : 0 < insns.size
    · simp [hs.start h0]
    · simp [depthAt_of_size_le (show w.depths.size ≤ 0 by rw [hs.size]; omega)]
  · obtain ⟨b, hb, hv⟩ := hs.recorded_of_reaches hp hi
    obtain ⟨e, he, hpops, -, hflow⟩ := hv.effect
    refine ⟨e, he, by simpa [hb] using hpops, fun j hf hj => ?_⟩
    simp [hb, hflow j hf hj]
  · obtain ⟨b, -, hv⟩ := hs.recorded_of_reaches hp hi
    exact hv.bound op l hl

/-- The greatest depth a walk that emptied its worklist found is the greatest
    depth a reachable entry leaves. -/
theorem Sound.isDeepest {w : DepthWalk} (hs : Sound insns labels w) (hp : w.pending = []) :
    IsDeepest insns labels (fun i => (w.depthAt i).getD 0) w.deepest := by
  refine ⟨fun i e hi he => ?_, ?_⟩
  · obtain ⟨b, hb, hv⟩ := hs.recorded_of_reaches hp hi
    obtain ⟨e', he', -, hle, -⟩ := hv.effect
    rw [he] at he'
    cases he'
    simpa [hb] using hle
  · rcases hs.deepest with h0 | ⟨k, c, e, hk, -, he, hm⟩
    · exact .inl h0
    · exact .inr ⟨k, e, hs.reaches k c hk, he, by simpa [hk] using hm⟩

end Invariants

/-! ### The analysis -/

/-- The walk before any entry is reached. -/
def empty (n : Nat) : DepthWalk := { depths := Array.replicate n none, pending := [], deepest := 0 }

@[simp] theorem depthAt_empty (n i : Nat) : (empty n).depthAt i = none := by
  by_cases hi : i < n <;> simp [empty, depthAt, hi]

theorem empty_load (n : Nat) : (empty n).load = n := by
  simp [empty, load, Array.countP_replicate]

/-- The analysis reaches the first entry of the empty walk, then walks. -/
theorem maxStack_eq_walk (method : String) (insns : Array Instruction) :
    maxStack method insns = ((empty insns.size).reach method 0 0 >>= fun w =>
      run method insns (labelPositions insns) (insns.size + 1) w >>= fun w => pure w.deepest) := rfl

theorem empty_reach (method : String) (n : Nat) : ∃ w₀, (empty n).reach method 0 0 = .ok w₀ := by
  cases h : (empty n).reach method 0 0 with
  | error err =>
    obtain ⟨b, hb, -⟩ := reach_error h
    simp at hb
  | ok w₀ => exact ⟨w₀, rfl⟩

section Start

variable {insns : Array Instruction} {labels : Std.HashMap Nat Nat} {w₀ : DepthWalk}

/-- Once the first entry is reached, the walk records it alone, with an empty
    stack, and has it on the worklist. -/
theorem Reached.first (h : Reached (empty insns.size) [0] 0 w₀) :
    w₀.depths.size = insns.size ∧ (∀ i b, w₀.depthAt i = some b → i = 0 ∧ b = 0 ∧ 0 < insns.size) ∧
      (0 < insns.size → w₀.depthAt 0 = some 0) ∧ (∀ i ∈ w₀.pending, i = 0 ∧ 0 < insns.size) ∧
      (0 < insns.size → 0 ∈ w₀.pending) ∧ w₀.pending.Nodup := by
  have hsize : (empty insns.size).depths.size = insns.size := Array.size_replicate
  obtain ⟨fresh, hp, hnd, hfresh⟩ := h.pending
  have hp : w₀.pending = fresh := by simpa [empty] using hp
  refine ⟨h.size.trans hsize, fun i b hb => ?_, fun h0 => ?_, fun i hi => ?_, fun h0 => ?_, hp ▸ hnd⟩
  · rw [h.depthAt, hsize] at hb
    split at hb
    · rename_i hi
      cases hb
      exact ⟨List.mem_singleton.1 hi.1, rfl, List.mem_singleton.1 hi.1 ▸ hi.2⟩
    · simp at hb
  · rw [h.depthAt, hsize, if_pos ⟨List.mem_singleton_self 0, h0⟩]
  · obtain ⟨-, hi, hlt⟩ := (hfresh i).1 (hp ▸ hi)
    rw [List.mem_singleton] at hi
    exact ⟨hi, hi ▸ hsize ▸ hlt⟩
  · exact hp ▸ (hfresh 0).2 ⟨depthAt_empty _ _, List.mem_singleton_self 0, by rw [hsize]; exact h0⟩

theorem Reached.sound_first (h : Reached (empty insns.size) [0] 0 w₀) : Sound insns labels w₀ := by
  obtain ⟨hsize, hrec, hstart, hpend, hfirst, hnd⟩ := h.first
  refine ⟨hsize, hstart, fun i b hb => ?_, fun i hi => ?_, hnd, fun i b hb hi => ?_, .inl h.deepest⟩
  · obtain ⟨rfl, -, h0⟩ := hrec i b hb
    exact .start h0
  · obtain ⟨rfl, h0⟩ := hpend i hi
    rw [hstart h0]
    rfl
  · -- the first entry is still pending
    obtain ⟨rfl, -, h0⟩ := hrec i b hb
    exact absurd (hfirst h0) hi

theorem Reached.agrees_first {d : Nat → Nat} (hd : d 0 = 0) (h : Reached (empty insns.size) [0] 0 w₀) :
    Agrees insns labels d w₀ := by
  obtain ⟨hsize, hrec, hstart, hpend, -, -⟩ := h.first
  refine ⟨hsize, fun i b hb => ?_, fun i hi => ?_⟩
  · obtain ⟨rfl, rfl, h0⟩ := hrec i b hb
    exact ⟨.start h0, hd.symm⟩
  · obtain ⟨rfl, h0⟩ := hpend i hi
    rw [hstart h0]
    rfl

end Start

/-- When the analysis succeeds, its result is the greatest depth a reachable
    entry leaves, under depths the reachable entries agree on. -/
theorem maxStack_sound {method : String} {insns : Array Instruction} {m : Nat}
    (h : maxStack method insns = .ok m) :
    ∃ d, Consistent insns (labelPositions insns) d ∧ IsDeepest insns (labelPositions insns) d m := by
  rw [maxStack_eq_walk] at h
  obtain ⟨w₀, h₀, h⟩ := Except.bind_eq_ok.1 h
  obtain ⟨w, hrun, h⟩ := Except.bind_eq_ok.1 h
  cases h
  have R := reach_reached h₀
  have hs := R.sound_first.run hrun
  -- the walk starts with one entry per step it is given, less one
  have hp := run_pending hrun (by rw [R.load, empty_load]; omega)
  exact ⟨_, hs.consistent hp, hs.isDeepest hp⟩

/-- The depth analysis is exact over 16-bit words: it succeeds with `m` exactly
    when the entries control reaches from the first one can be given depths
    that the edges between them agree on, with no entry finding fewer words
    than it takes and every jump finding its label, and `m` is then the
    greatest depth a reachable entry leaves. -/
theorem maxStack_exact (method : String) (insns : Array Instruction) (m : Nat) :
    maxStack method insns = .ok m ↔
      ∃ d, Consistent insns (labelPositions insns) d ∧ IsDeepest insns (labelPositions insns) d m := by
  refine ⟨maxStack_sound, fun hex => ?_⟩
  obtain ⟨d, hd, hm⟩ := hex
  obtain ⟨w₀, h₀⟩ := empty_reach method insns.size
  obtain ⟨w, hrun⟩ : ∃ w, run method insns (labelPositions insns) (insns.size + 1) w₀ = .ok w :=
    ((reach_reached h₀).agrees_first hd.start).run_ok hd
  have hok : maxStack method insns = .ok w.deepest := by
    rw [maxStack_eq_walk, h₀, Except.ok_bind, hrun, Except.ok_bind]
    rfl
  obtain ⟨d', hd', hm'⟩ := maxStack_sound hok
  rw [hok, (hm.of_consistent hd hd').unique hm']

/-- The depth analysis fails only with an underflow, a mismatch, an unbound
    label or the error of an entry's stack effect, and only when no
    assignment of depths is consistent. -/
theorem maxStack_fails (method : String) (insns : Array Instruction) (err : EmitError)
    (h : maxStack method insns = .error err) :
    IsDepthError method insns err ∧ ¬ ∃ d, Consistent insns (labelPositions insns) d := by
  refine ⟨?_, fun hex => ?_⟩
  · rw [maxStack_eq_walk] at h
    rcases Except.bind_eq_error.1 h with h | ⟨w₀, -, h⟩
    · obtain ⟨b, hb, -⟩ := reach_error h
      simp at hb
    · rcases Except.bind_eq_error.1 h with h | ⟨w, -, h⟩
      · exact run_error h
      · cases h
  · obtain ⟨d, hd⟩ := hex
    obtain ⟨w₀, h₀⟩ := empty_reach method insns.size
    obtain ⟨w, hrun⟩ : ∃ w, run method insns (labelPositions insns) (insns.size + 1) w₀ = .ok w :=
      ((reach_reached h₀).agrees_first hd.start).run_ok hd
    rw [maxStack_eq_walk, h₀, Except.ok_bind, hrun, Except.ok_bind] at h
    cases h

/-- Two branches that meet with different depths. -/
example : maxStack "m" #[.simple .iconst0, .jump .ifeq 0, .simple .iconst1, .label 0, .simple .returnVoid] =
    .error (.stackMismatch "m" 3 0 1) := by
  cbv

end DepthWalk

end ClassCompiler
