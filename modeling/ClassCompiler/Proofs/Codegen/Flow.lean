import Mathlib.Logic.Relation
import ClassCompiler.Codegen.Emitter

/-!
# Control flow of a method body

The entries of a body read as a control-flow graph on positions: from an
entry that falls through, control goes on to the next position, and from a
jump to the position where its label stands. Position `code.length`, past the
last entry, is where a method that runs off its end would go; the JVM refuses
such a method.

* `Flow.FallsOff code`: control can come from the entry past the last entry;
* `Flow.Closed code a b`: the entries of `[a, b)` lead only into `[a, b]`, so a
  path from `a` either stays in `[a, b)` or passes `b` (`Closed.path`);
* `Flow.Sealed code a b`: from `a`, control stays in `[a, b)` for good; built
  from closed pieces and a last piece that is sealed (`Closed.sealed`);
* `not_fallsOff_of_reachableEnd`: the emitter's own test is sound: when the
  last operation or label of a body does not fall through, control never runs
  off its end.
-/

namespace ClassCompiler.Flow

open Relation

/-- One edge of the control-flow graph of `code`. -/
inductive Step (code : List Instruction) : Nat → Nat → Prop
  /-- An entry that falls through leads to the next position. -/
  | next {p : Nat} {i : Instruction} : code[p]? = some i → i.fallsThrough = true → Step code p (p + 1)
  /-- A jump leads to the position of its label. -/
  | jump {p q : Nat} {op : Opcode} {l : Nat} :
      code[p]? = some (.jump op l) → code[q]? = some (.label l) → Step code p q

/-- Control can come from the entry past the last entry. -/
def FallsOff (code : List Instruction) : Prop := ReflTransGen (Step code) 0 code.length

/-- The entries of `[a, b)` lead only into `[a, b]`. -/
def Closed (code : List Instruction) (a b : Nat) : Prop :=
  ∀ p q, a ≤ p → p < b → Step code p q → a ≤ q ∧ q ≤ b

/-- From `a`, control stays in `[a, b)`: it never comes to `b` or beyond. -/
def Sealed (code : List Instruction) (a b : Nat) : Prop :=
  ∀ q, ReflTransGen (Step code) a q → a ≤ q ∧ q < b

variable {code : List Instruction} {a b c p q : Nat}

theorem Step.lt_length (h : Step code p q) : p < code.length := by
  cases h with
  | next hp _ => exact (List.getElem?_eq_some_iff.1 hp).1
  | jump hp _ => exact (List.getElem?_eq_some_iff.1 hp).1

/-- An entry that neither falls through nor jumps has no edge. -/
theorem Step.not_of_stop {i : Instruction} (hp : code[p]? = some i) (hi : i.fallsThrough = false)
    (hj : ∀ op l, i ≠ .jump op l) : ¬ Step code p q := by
  intro h
  cases h with
  | next hp' hi' =>
    rw [hp] at hp'
    cases hp'
    rw [hi] at hi'
    cases hi'
  | jump hp' _ =>
    rw [hp] at hp'
    cases hp'
    exact hj _ _ rfl

theorem Closed.trans (h₁ : Closed code a b) (h₂ : Closed code b c) (hab : a ≤ b) (hbc : b ≤ c) :
    Closed code a c := by
  intro p q hap hpc hst
  by_cases hpb : p < b
  · have := h₁ p q hap hpb hst
    omega
  · have := h₂ p q (by omega) hpc hst
    omega

/-- A path from the start of a closed piece stays in it until it passes its
    end. -/
theorem Closed.path (h : Closed code a b) (hab : a ≤ b) (hq : ReflTransGen (Step code) a q) :
    (a ≤ q ∧ q < b) ∨ ReflTransGen (Step code) b q := by
  induction hq with
  | refl =>
    by_cases hlt : a < b
    · exact .inl ⟨Nat.le_refl a, hlt⟩
    · exact .inr (by rw [show a = b by omega])
  | @tail p' q' _ hst ih =>
    rcases ih with ⟨hap, hpb⟩ | hb
    · obtain ⟨haq, hqb⟩ := h p' q' hap hpb hst
      by_cases hlt : q' < b
      · exact .inl ⟨haq, hlt⟩
      · exact .inr (by rw [show q' = b by omega])
    · exact .inr (hb.tail hst)

/-- A closed piece followed by a sealed one is sealed. -/
theorem Closed.sealed (h₁ : Closed code a b) (hab : a ≤ b) (h₂ : Sealed code b c) :
    Sealed code a c := by
  intro q hq
  rcases h₁.path hab hq with ⟨haq, hqb⟩ | hb
  · have := h₂ b ReflTransGen.refl
    exact ⟨haq, by omega⟩
  · have := h₂ q hb
    exact ⟨by omega, this.2⟩

theorem Sealed.mono (h : Sealed code a b) (hbc : b ≤ c) : Sealed code a c := fun q hq =>
  ⟨(h q hq).1, Nat.lt_of_lt_of_le (h q hq).2 hbc⟩

theorem Sealed.lt (h : Sealed code a b) : a < b := (h a .refl).2

theorem Sealed.not_path (h : Sealed code a b) : ¬ ReflTransGen (Step code) a b := fun hb =>
  Nat.lt_irrefl b (h b hb).2

/-- An entry that neither falls through nor jumps seals itself. -/
theorem sealed_stop {i : Instruction} (hp : code[p]? = some i) (hi : i.fallsThrough = false)
    (hj : ∀ op l, i ≠ .jump op l) : Sealed code p (p + 1) := by
  intro q hq
  rcases ReflTransGen.cases_head hq with rfl | ⟨r, hst, _⟩
  · exact ⟨Nat.le_refl _, Nat.lt_succ_self _⟩
  · exact absurd hst (Step.not_of_stop hp hi hj)

/-- A position all of whose edges go forward, into pieces sealed up to `b`,
    is sealed up to `b`. -/
theorem sealed_of_succ (hab : a < b) (h : ∀ q, Step code a q → a < q ∧ Sealed code q b) :
    Sealed code a b := by
  intro q hq
  rcases ReflTransGen.cases_head hq with rfl | ⟨r, hst, hr⟩
  · exact ⟨Nat.le_refl _, hab⟩
  · obtain ⟨har, hseal⟩ := h r hst
    have := hseal q hr
    exact ⟨by omega, this.2⟩

/-- An entry that stands at most once in a body stands at one position. -/
theorem eq_of_count_le_one {x : Instruction}
    (hp : code[p]? = some x) (hq : code[q]? = some x) (h : code.count x ≤ 1) : p = q := by
  induction code generalizing p q with
  | nil => simp at hp
  | cons y ys ih =>
    have hys : ys.count x ≤ 1 := Nat.le_trans (List.count_le_count_cons ..) h
    -- a second place of `x` in the tail would make it stand twice
    have twice : ∀ k, ys[k]? = some x → y = x → False := fun k hk hy => by
      have := List.count_pos_iff.2 (List.mem_of_getElem? hk)
      rw [List.count_cons, hy] at h
      simp at h
      omega
    cases p with
    | zero =>
      cases q with
      | zero => rfl
      | succ q => exact (twice q hq (by simpa using hp)).elim
    | succ p =>
      cases q with
      | zero => exact (twice p hp (by simpa using hq)).elim
      | succ q => exact congrArg (· + 1) (ih hp hq hys)

/-- The edges from an entry: to the next position, or, from a jump, to its
    label. -/
theorem Step.cases_at {i : Instruction} (h : Step code p q) (hp : code[p]? = some i) :
    q = p + 1 ∨ ∃ op l, i = .jump op l ∧ code[q]? = some (.label l) := by
  cases h with
  | next => exact .inl rfl
  | jump hp' hq =>
    rw [hp] at hp'
    cases hp'
    exact .inr ⟨_, _, rfl, hq⟩

/-- A label leads on to the next entry only. -/
theorem sealed_label {l : Nat} (hp : code[p]? = some (.label l)) (h : Sealed code (p + 1) b) :
    Sealed code p b :=
  sealed_of_succ (Nat.lt_of_succ_lt h.lt) fun q hq => by
    rcases hq.cases_at hp with rfl | ⟨_, _, hj, _⟩
    · exact ⟨Nat.lt_succ_self p, h⟩
    · cases hj

/-- A jump forward to a label that stands once, with the code after the jump
    and the code from the label on both sealed. -/
theorem sealed_branch {op : Opcode} {l t : Nat} (hp : code[p]? = some (.jump op l))
    (ht : code[t]? = some (.label l)) (huniq : code.count (.label l) ≤ 1) (hpt : p < t)
    (h₁ : Sealed code (p + 1) b) (h₂ : Sealed code t b) : Sealed code p b :=
  sealed_of_succ (Nat.lt_trans hpt h₂.lt) fun q hq => by
    rcases hq.cases_at hp with rfl | ⟨_, _, hj, hq'⟩
    · exact ⟨Nat.lt_succ_self p, h₁⟩
    · cases hj
      rw [eq_of_count_le_one hq' ht huniq]
      exact ⟨hpt, h₂⟩

/-! ### The emitter's test for a reachable end -/

/-- The last entry passing a test splits a body: no entry after it passes. -/
theorem split_of_find?_reverse {P : Instruction → Bool} {i : Instruction}
    (h : code.reverse.find? P = some i) :
    ∃ pre post, code = pre ++ i :: post ∧ ∀ j ∈ post, P j = false := by
  obtain ⟨-, as, bs, hsplit, has⟩ := List.find?_eq_some_iff_append.1 h
  refine ⟨bs.reverse, as.reverse, ?_, fun j hj => by simpa using has j (List.mem_reverse.1 hj)⟩
  rw [← List.reverse_reverse code, hsplit]
  simp

/-- When the last operation or label of a body does not fall through, no
    position after it is reachable, so control never runs off the end. -/
theorem not_fallsOff_of_reachableEnd {e : Emitter} (h : e.reachableEnd = false) :
    ¬ FallsOff e.code.toList := by
  unfold Emitter.reachableEnd at h
  split at h
  · rename_i i hfind
    obtain ⟨pre, post, hcode, hpost⟩ := split_of_find?_reverse hfind
    -- every reachable position is at most the one of `i`
    have hreach : ∀ q, ReflTransGen (Step e.code.toList) 0 q → q ≤ pre.length := by
      intro q hq
      induction hq with
      | refl => exact Nat.zero_le _
      | @tail p r _ hst ih =>
        cases hst with
        | next hp hthrough =>
          by_cases hpl : p = pre.length
          · subst hpl
            rw [hcode, List.getElem?_append_right (Nat.le_refl _), Nat.sub_self] at hp
            cases hp
            rw [h] at hthrough
            cases hthrough
          · omega
        | jump _ hr =>
          rw [hcode] at hr
          by_cases hle : r ≤ pre.length
          · exact hle
          rw [List.getElem?_append_right (by omega)] at hr
          obtain ⟨k, hk⟩ : ∃ k, r - pre.length = k + 1 := ⟨r - pre.length - 1, by omega⟩
          rw [hk, List.getElem?_cons_succ] at hr
          have := hpost _ (List.mem_of_getElem? hr)
          simp [Instruction.opcode?] at this
    intro hoff
    have := hreach _ hoff
    rw [hcode] at this
    simp only [List.length_append, List.length_cons] at this
    omega
  · cases h

end ClassCompiler.Flow
