import ClassCompiler.Proofs.Machine.Step

/-!
# Budgeted runs

What a run does with every budget of steps, told by how many steps a stretch of
execution takes.

* `Exceeds fuel m fs`: with a budget of `fuel` the run stops at the step limit;
* `Moves m fs k m' fs'`: `k` steps lead from one configuration to the other:
  with `k` more steps of budget the run is the same, and every budget below
  `k` is exceeded on the way;
* `Fails` and `Returns`: after `k` steps the run stops with an error, or the
  outermost frame returns, whatever the budget beyond `k`.

A configuration that moves on is never stuck, so knowing that a run reaches a
point after `k` steps also tells what each smaller budget does. This is what
lets a simulation say when the machine diverges: a source that runs out of
fuel at depth `n` has made the machine take at least `n` steps.
-/

namespace ClassCompiler.Machine

/-- With a budget of `fuel` steps the run stops at the step limit. -/
def Exceeds (fuel : Nat) (m : State) (fs : List Frame) : Prop :=
  ∃ m', run fuel m fs = .error m' "step limit exceeded"

/-- `k` steps lead from `(m, fs)` to `(m', fs')`. -/
structure Moves (m : State) (fs : List Frame) (k : Nat) (m' : State) (fs' : List Frame) :
    Prop where
  run_add : ∀ fuel, run (fuel + k) m fs = run fuel m' fs'
  exceeds : ∀ fuel < k, Exceeds fuel m fs

/-- After `k` steps the run stops with the error `msg`. -/
def Fails (m : State) (fs : List Frame) (k : Nat) (msg : String) : Prop :=
  ∃ m', (∀ fuel < k, Exceeds fuel m fs) ∧ ∀ fuel, run (fuel + k) m fs = .error m' msg

/-- After `k` steps the outermost frame returns `result`. -/
def Returns (m : State) (fs : List Frame) (k : Nat) (result : Option Value) : Prop :=
  ∃ m', (∀ fuel < k, Exceeds fuel m fs) ∧
    ∀ fuel, run (fuel + k) m fs = .returned m' result fuel

section Fetch

variable {m : State} {f : Frame} {cs : List Frame} {i : Instruction}

/-- A step: fetch the entry, then spend one step of budget on it. -/
theorem run_succ (h : f.code.instructions[f.pc]? = some i) (fuel : Nat) :
    run (fuel + 1) m (f :: cs) =
      match advance m f cs i with
      | .error (.error msg) => .error m msg
      | .error (.crash msg) => .crash msg
      | .ok (.run m frames) => run fuel m frames
      | .ok (.halt m v) => .returned m v fuel := by
  -- both sides choose by the outcome of the step
  cases hx : advance m f cs i with
  | error e => cases e <;> simp [run, h, hx]
  | ok n => cases n <;> simp [run, h, hx]

/-- With no budget left, a frame that has an entry to execute stops. -/
theorem exceeds_zero (h : f.code.instructions[f.pc]? = some i) : Exceeds 0 m (f :: cs) :=
  ⟨m, by rw [run, h]⟩

end Fetch

namespace Moves

variable {m m₁ m₂ : State} {fs fs₁ fs₂ : List Frame} {k j : Nat}

theorem refl (m : State) (fs : List Frame) : Moves m fs 0 m fs :=
  ⟨fun _ => rfl, fun _ h => absurd h (Nat.not_lt_zero _)⟩

theorem trans (h₁ : Moves m fs k m₁ fs₁) (h₂ : Moves m₁ fs₁ j m₂ fs₂) :
    Moves m fs (k + j) m₂ fs₂ where
  run_add fuel := by rw [show fuel + (k + j) = fuel + j + k by omega, h₁.run_add, h₂.run_add]
  exceeds fuel hlt := by
    by_cases hk : fuel < k
    · exact h₁.exceeds fuel hk
    · obtain ⟨d, rfl⟩ := Nat.exists_eq_add_of_le (Nat.le_of_not_lt hk)
      rw [Exceeds, Nat.add_comm k d, h₁.run_add]
      exact h₂.exceeds d (by omega)

/-- Every budget below `k + j` is exceeded when the first `k` steps lead to a
    point from which every budget below `j` is. -/
theorem exceeds_add (h : Moves m fs k m₁ fs₁) (hj : ∀ fuel < j, Exceeds fuel m₁ fs₁) :
    ∀ fuel < k + j, Exceeds fuel m fs := by
  intro fuel hlt
  by_cases hk : fuel < k
  · exact h.exceeds fuel hk
  · obtain ⟨d, rfl⟩ := Nat.exists_eq_add_of_le (Nat.le_of_not_lt hk)
    rw [Exceeds, Nat.add_comm k d, h.run_add]
    exact hj d (by omega)

theorem fails (h : Moves m fs k m₁ fs₁) {msg : String} (hf : Fails m₁ fs₁ j msg) :
    Fails m fs (k + j) msg := by
  obtain ⟨m', hex, hrun⟩ := hf
  refine ⟨m', h.exceeds_add hex, fun fuel => ?_⟩
  rw [Nat.add_comm k j, ← Nat.add_assoc, h.run_add, hrun]

theorem returns (h : Moves m fs k m₁ fs₁) {r : Option Value} (hr : Returns m₁ fs₁ j r) :
    Returns m fs (k + j) r := by
  obtain ⟨m', hex, hrun⟩ := hr
  refine ⟨m', h.exceeds_add hex, fun fuel => ?_⟩
  rw [Nat.add_comm k j, ← Nat.add_assoc, h.run_add, hrun]

end Moves

section Step

variable {m m' : State} {f f' callee : Frame} {cs fs' : List Frame} {i : Instruction}

/-- One step that leaves a configuration to run on. -/
theorem Moves.of_advance (hi : f.code.instructions[f.pc]? = some i)
    (h : advance m f cs i = .ok (.run m' fs')) : Moves m (f :: cs) 1 m' fs' where
  run_add fuel := by rw [run_succ hi, h]
  exceeds fuel hlt := by
    obtain rfl : fuel = 0 := by omega
    exact exceeds_zero hi

/-- One entry executed in the top frame, which goes on. -/
theorem Moves.of_exec (hi : f.code.instructions[f.pc]? = some i)
    (h : exec m { f with pc := f.pc + 1 } i = .ok (.next m' f')) :
    Moves m (f :: cs) 1 m' (f' :: cs) :=
  .of_advance hi (by simp only [advance, h]; rfl)

/-- One entry executed in the top frame that starts a call. -/
theorem Moves.of_call (hi : f.code.instructions[f.pc]? = some i)
    (h : exec m { f with pc := f.pc + 1 } i = .ok (.call m' f' callee)) :
    Moves m (f :: cs) 1 m' (callee :: f' :: cs) :=
  .of_advance hi (by simp only [advance, h]; rfl)

/-- A frame that returns hands its result to its caller. -/
theorem Moves.of_return {c : Frame} {v : Option Value} (hi : f.code.instructions[f.pc]? = some i)
    (h : exec m { f with pc := f.pc + 1 } i = .ok (.ret m' v)) :
    Moves m (f :: c :: cs) 1 m' (c.resumeWith f.resume v :: cs) :=
  .of_advance hi (by simp only [advance, h]; rfl)

/-- The outermost frame returns. -/
theorem Returns.of_exec {v : Option Value} (hi : f.code.instructions[f.pc]? = some i)
    (h : exec m { f with pc := f.pc + 1 } i = .ok (.ret m' v)) : Returns m [f] 1 v := by
  refine ⟨m', fun fuel hlt => ?_, fun fuel => ?_⟩
  · obtain rfl : fuel = 0 := by omega
    exact exceeds_zero hi
  · rw [run_succ hi]
    simp only [advance, h]
    rfl

/-- An entry whose execution is an error. -/
theorem Fails.of_exec {msg : String} (hi : f.code.instructions[f.pc]? = some i)
    (h : exec m { f with pc := f.pc + 1 } i = .error (.error msg)) : Fails m (f :: cs) 1 msg := by
  refine ⟨m, fun fuel hlt => ?_, fun fuel => ?_⟩
  · obtain rfl : fuel = 0 := by omega
    exact exceeds_zero hi
  · rw [run_succ hi]
    simp only [advance, h]
    rfl

end Step

end ClassCompiler.Machine
