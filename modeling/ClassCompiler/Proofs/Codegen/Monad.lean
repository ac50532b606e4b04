import ClassCompiler.Codegen.Stmt

/-!
# Runs of code generation

A code generator `g : Gen α` run in a context `c` from a state `s` either fails
or gives a result and a new state. These lemmas take a successful run apart,
one primitive at a time, so that a proof about a whole generator never unfolds
the monad:

* `bind_ok`: a run of `x >>= f` is a run of `x` followed by a run of `f`;
* the primitives `out`, `mark`, `newLabel`, `withScope` and the checks
  `requireValue` and `expectBool` each say exactly how they change the state;
* a failing primitive has no successful run.
-/

namespace ClassCompiler.Gen

variable {α β : Type} {c : MethodContext} {s s' s'' : GenState}

theorem bind_ok {x : Gen α} {f : α → Gen β} {b : β} :
    (x >>= f) c s = .ok (b, s'') ↔ ∃ a s', x c s = .ok (a, s') ∧ f a c s' = .ok (b, s'') := by
  simp only [bind, ReaderT.bind, StateT.bind, Except.bind]
  cases h : x c s with
  | error e => simp
  | ok p =>
    obtain ⟨a, s'⟩ := p
    simp only [Except.ok.injEq, Prod.mk.injEq]
    exact ⟨fun h => ⟨a, s', ⟨rfl, rfl⟩, h⟩, fun ⟨_, _, ⟨ha, hs⟩, h⟩ => ha ▸ hs ▸ h⟩

/-- The successful run that gives a known result and state. -/
theorem ok_pair_iff {ε : Type} {a b : α} {t : GenState} :
    (Except.ok (a, s) : Except ε (α × GenState)) = .ok (b, t) ↔ b = a ∧ t = s := by
  simp only [Except.ok.injEq, Prod.mk.injEq]
  exact ⟨fun ⟨h₁, h₂⟩ => ⟨h₁.symm, h₂.symm⟩, fun ⟨h₁, h₂⟩ => ⟨h₁.symm, h₂.symm⟩⟩

theorem map_ok {x : Gen α} {f : α → β} {b : β} :
    (f <$> x) c s = .ok (b, s') ↔ ∃ a, x c s = .ok (a, s') ∧ b = f a := by
  simp only [Functor.map, StateT.map, bind, Except.bind]
  cases h : x c s with
  | error e => simp
  | ok p =>
    obtain ⟨a, s₁⟩ := p
    simp only [pure, Except.pure, Except.ok.injEq, Prod.mk.injEq]
    exact ⟨fun ⟨h₁, h₂⟩ => ⟨a, ⟨rfl, h₂⟩, h₁.symm⟩, fun ⟨_, ⟨ha, hs⟩, hb⟩ => ⟨by rw [hb, ha], hs⟩⟩

theorem pure_ok {a b : α} : (pure a : Gen α) c s = .ok (b, s') ↔ b = a ∧ s' = s :=
  ok_pair_iff

theorem read_ok {d : MethodContext} :
    (read : Gen MethodContext) c s = .ok (d, s') ↔ d = c ∧ s' = s :=
  ok_pair_iff

theorem get_ok {t : GenState} : (get : Gen GenState) c s = .ok (t, s') ↔ t = s ∧ s' = s :=
  ok_pair_iff

theorem modify_ok {f : GenState → GenState} {u : Unit} :
    (modify f : Gen Unit) c s = .ok (u, s') ↔ s' = f s := by
  rw [show (modify f : Gen Unit) c s = .ok ((), f s) from rfl, ok_pair_iff]
  exact ⟨fun h => h.2, fun h => ⟨rfl, h⟩⟩

theorem out_ok {f : Emitter → Emitter} {u : Unit} :
    out f c s = .ok (u, s') ↔ s' = { s with emitter := f s.emitter } :=
  modify_ok

theorem mark_ok {n : Nat} : mark c s = .ok (n, s') ↔ n = s.emitter.code.size ∧ s' = s :=
  ok_pair_iff

theorem newLabel_ok {l : Nat} :
    newLabel c s = .ok (l, s') ↔
      l = s.emitter.bound.size ∧ s' = { s with emitter := s.emitter.newLabel.2 } :=
  ok_pair_iff

theorem liftExcept_ok {r : Except CompilationError α} {a : α} :
    liftExcept r c s = .ok (a, s') ↔ r = .ok a ∧ s' = s := by
  cases r with
  | error e =>
    refine ⟨fun h => ?_, fun h => ?_⟩
    · cases h
    · cases h.1
  | ok b =>
    rw [show liftExcept (.ok b) c s = .ok (b, s) from rfl, ok_pair_iff, Except.ok.injEq]
    exact ⟨fun ⟨h₁, h₂⟩ => ⟨h₁.symm, h₂⟩, fun ⟨h₁, h₂⟩ => ⟨h₁.symm, h₂⟩⟩

theorem withScope_ok {f : Scope → Except CompilationError (α × Scope)} {a : α} :
    withScope f c s = .ok (a, s') ↔ ∃ sc, f s.scope = .ok (a, sc) ∧ s' = { s with scope := sc } := by
  simp only [withScope, bind_ok, get_ok, liftExcept_ok, pure_ok]
  constructor
  · rintro ⟨_, _, ⟨rfl, rfl⟩, ⟨b, sc⟩, _, ⟨hf, rfl⟩, _, _, hset, rfl, rfl⟩
    exact ⟨sc, hf, modify_ok.1 hset⟩
  · rintro ⟨sc, hf, rfl⟩
    exact ⟨s, s, ⟨rfl, rfl⟩, (a, sc), s, ⟨hf, rfl⟩, (), _, modify_ok.2 rfl, rfl, rfl⟩

theorem resolveKnown_ok {t : Syntax.TypeExpr} {r : Ty} :
    resolveKnown t c s = .ok (r, s') ↔ c.resolveKnown t = .ok r ∧ s' = s := by
  simp only [resolveKnown, bind_ok, read_ok, liftExcept_ok]
  constructor
  · rintro ⟨_, _, ⟨rfl, rfl⟩, h⟩
    exact h
  · intro h
    exact ⟨c, s, ⟨rfl, rfl⟩, h⟩

theorem fail_ne {e : CompilationError} {p : α × GenState} : (fail e : Gen α) c s ≠ .ok p := by
  intro h
  cases h

theorem mismatch_ne {m : Mismatch} {sp : Span} {p : α × GenState} :
    (mismatch m sp : Gen α) c s ≠ .ok p := by
  intro h
  cases h

/-- A value is needed: the type is kept, and must be neither `void` nor a type
    name. -/
theorem requireValue_ok {sp : Span} {t t' : Ty} :
    requireValue sp t c s = .ok (t', s') ↔ t' = t ∧ s' = s ∧ t ≠ .void ∧ t.isTypeRef = false := by
  cases t with
  | void => exact ⟨fun h => absurd h mismatch_ne, fun h => absurd rfl h.2.2.1⟩
  | typeRef target => exact ⟨fun h => absurd h mismatch_ne, fun h => absurd h.2.2.2 (by simp [Ty.isTypeRef])⟩
  | _ =>
    simp only [requireValue, pure_ok, Ty.isTypeRef, ne_eq, reduceCtorEq, not_false_eq_true,
      and_true]

theorem expectBool_ok {site : BoolSite} {t : Ty} {sp : Span} {u : Unit} :
    expectBool site t sp c s = .ok (u, s') ↔ t = .bool ∧ s' = s := by
  unfold expectBool
  by_cases h : t = .bool
  · subst h
    simp [pure_ok]
  · simp only [beq_iff_eq, h, if_false, false_and, iff_false]
    exact mismatch_ne

end ClassCompiler.Gen
