import ClassCompiler.Source.Parser

/-!
# Parsing steps

A parsing step runs from a cursor to an outcome and the cursor it leaves
(`Parse.exec`). The lemmas here say what each primitive step does, so that
proofs about the grammar never unfold the monad, and name the two properties
every parsing function is shown to have:

* `Cursor.current`, `Cursor.step`: the next significant token and the cursor
  past it; a token that is not the end is consumed, the end never is;
* `Cursor.Ok`: the end token is the only one of kind `eof`, which is what the
  parser's own construction of the cursor guarantees;
* `Cursor.Follows c c'`: `c'` lies on from `c`, with the same tokens, a position
  no earlier, and the errors of `c` followed by new ones that are not lexical;
* `Parse.Moves`: a step only goes forward and fails only with an error that is
  not lexical;
* `Parse.Advances`: a step consumes at least one token when it succeeds.
-/

namespace ClassCompiler.Syntax

namespace Cursor

/-- The next significant token; past the last one, the end token. -/
def current (c : Cursor) : Token := c.toks.getD c.pos c.eof

/-- The cursor past the next token. At the end it does not move. -/
def step (c : Cursor) : Cursor :=
  match c.toks[c.pos]? with
  | some t => { c with pos := c.pos + 1, prev := t.span }
  | none => c

/-- The number of significant tokens not yet consumed. -/
def rem (c : Cursor) : Nat := c.toks.size - c.pos

/-- The end token is the only token of kind `eof`. -/
structure Ok (c : Cursor) : Prop where
  eof : c.eof.kind = .eof
  toks : ∀ t ∈ c.toks, t.kind ≠ .eof

/-- `c'` lies on from `c`: the same tokens, a position no earlier, and the
    errors of `c` followed by new ones, none of them lexical. -/
structure Follows (c c' : Cursor) : Prop where
  toks : c'.toks = c.toks
  eof : c'.eof = c.eof
  pos_le : c.pos ≤ c'.pos
  errors : ∃ new : List ParseError,
    c'.errors.toList = c.errors.toList ++ new ∧ ∀ e ∈ new, e.kind ≠ .lexical

variable {c c' c'' : Cursor}

@[simp] theorem step_toks : c.step.toks = c.toks := by
  unfold step
  split <;> rfl

@[simp] theorem step_eof : c.step.eof = c.eof := by
  unfold step
  split <;> rfl

@[simp] theorem step_errors : c.step.errors = c.errors := by
  unfold step
  split <;> rfl

@[simp] theorem step_aliases : c.step.aliases = c.aliases := by
  unfold step
  split <;> rfl

theorem step_pos (h : c.pos < c.toks.size) : c.step.pos = c.pos + 1 := by
  unfold step
  rw [Array.getElem?_eq_getElem h]

theorem pos_le_step : c.pos ≤ c.step.pos := by
  unfold step
  split
  · exact Nat.le_succ _
  · exact Nat.le_refl _

/-- A token that is not the end lies before the end of the tokens. -/
theorem Ok.pos_lt (h : c.Ok) (hk : c.current.kind ≠ .eof) : c.pos < c.toks.size := by
  refine Nat.lt_of_not_le fun hge => hk ?_
  rw [current, Array.getD_eq_getD_getElem?, Array.getElem?_eq_none hge]
  exact h.eof

/-- Consuming a token that is not the end leaves one token fewer. -/
theorem rem_step (h : c.Ok) (hk : c.current.kind ≠ .eof) : c.step.rem + 1 = c.rem := by
  have hlt := h.pos_lt hk
  simp only [step, Array.getElem?_eq_getElem hlt, rem]
  omega

namespace Follows

theorem refl (c : Cursor) : Follows c c := ⟨rfl, rfl, Nat.le_refl _, [], by simp, by simp⟩

theorem trans (h₁ : Follows c c') (h₂ : Follows c' c'') : Follows c c'' where
  toks := h₂.toks.trans h₁.toks
  eof := h₂.eof.trans h₁.eof
  pos_le := Nat.le_trans h₁.pos_le h₂.pos_le
  errors := by
    obtain ⟨n₁, e₁, h₁⟩ := h₁.errors
    obtain ⟨n₂, e₂, h₂⟩ := h₂.errors
    refine ⟨n₁ ++ n₂, by rw [e₂, e₁, List.append_assoc], fun e he => ?_⟩
    rcases List.mem_append.1 he with he | he
    · exact h₁ e he
    · exact h₂ e he

theorem ok (h : Follows c c') (hc : c.Ok) : c'.Ok :=
  ⟨h.eof ▸ hc.eof, h.toks ▸ hc.toks⟩

theorem rem_le (h : Follows c c') : c'.rem ≤ c.rem := by
  unfold rem
  rw [h.toks]
  exact Nat.sub_le_sub_left h.pos_le _

/-- A cursor further on at the same position is at the same token. -/
theorem current_eq (h : Follows c c') (hpos : c'.pos = c.pos) : c'.current = c.current := by
  simp only [current, h.toks, h.eof, hpos]

/-- A cursor strictly further on, from a token that is not the end, has fewer
    tokens left. -/
theorem rem_lt (h : Follows c c') (hpos : c.pos < c'.pos) (hlt : c.pos < c.toks.size) :
    c'.rem < c.rem := by
  unfold rem
  rw [h.toks]
  omega

theorem step (c : Cursor) : Follows c c.step :=
  ⟨step_toks, step_eof, pos_le_step, [], by simp, by simp⟩

/-- From a token that is not the end, a cursor further on at another position
    has fewer tokens left. -/
theorem rem_lt_of_ne (h : Follows c c') (hc : c.Ok) (hk : c.current.kind ≠ .eof)
    (hpos : c'.pos ≠ c.pos) : c'.rem < c.rem :=
  h.rem_lt (Nat.lt_of_le_of_ne h.pos_le (Ne.symm hpos)) (hc.pos_lt hk)

/-- From a token that is not the end, one token past any cursor further on
    leaves fewer tokens: either that cursor moved, or it stands at the same
    token, which is not the end. -/
theorem step_rem_lt (h : Follows c c') (hc : c.Ok) (hk : c.current.kind ≠ .eof) :
    c'.step.rem < c.rem := by
  by_cases hpos : c'.pos = c.pos
  · have hstep := rem_step (h.ok hc) (by rw [h.current_eq hpos]; exact hk)
    have hrem : c'.rem = c.rem := by
      unfold rem
      rw [h.toks, hpos]
    omega
  · have := h.rem_lt_of_ne hc hk hpos
    have := (Follows.step c').rem_le
    omega

/-- Recording an error that is not lexical. -/
theorem record {e : ParseError} (he : e.kind ≠ .lexical) :
    Follows c { c with errors := c.errors.push e } :=
  ⟨rfl, rfl, Nat.le_refl _, [e], by simp, by simpa using he⟩

theorem aliases (a : AliasMap) : Follows c { c with aliases := a } :=
  ⟨rfl, rfl, Nat.le_refl _, [], by simp, by simp⟩

end Follows

end Cursor

namespace Parse

variable {α β : Type} {c : Cursor}

/-- Run a parsing step from a cursor: its outcome and the cursor it leaves. -/
def exec (p : Parse α) (c : Cursor) : Except ParseError α × Cursor := p.run.run c

/-! ### Running the monad -/

@[simp] theorem exec_pure (a : α) (c : Cursor) : (pure a : Parse α).exec c = (.ok a, c) := rfl

@[simp] theorem exec_throw (e : ParseError) (c : Cursor) : (throw e : Parse α).exec c = (.error e, c) :=
  rfl

@[simp] theorem exec_get (c : Cursor) : (get : Parse Cursor).exec c = (.ok c, c) := rfl

@[simp] theorem exec_modify (f : Cursor → Cursor) (c : Cursor) :
    (modify f : Parse Unit).exec c = (.ok (), f c) := rfl

/-- A step followed by another runs the second from where the first stopped,
    unless the first failed. -/
theorem exec_bind (p : Parse α) (f : α → Parse β) (c : Cursor) :
    (p >>= f).exec c = match (p.exec c).1 with
      | .ok a => (f a).exec (p.exec c).2
      | .error e => (.error e, (p.exec c).2) := by
  simp only [exec, bind, ExceptT.bind, ExceptT.mk, ExceptT.run, StateT.run, StateT.bind,
    ExceptT.bindCont]
  rcases p c with ⟨_ | a, c'⟩ <;> rfl

theorem exec_map (f : α → β) (p : Parse α) (c : Cursor) :
    (f <$> p).exec c = match (p.exec c).1 with
      | .ok a => (.ok (f a), (p.exec c).2)
      | .error e => (.error e, (p.exec c).2) := by
  simp only [exec, Functor.map, ExceptT.map, ExceptT.mk, ExceptT.run, StateT.run, StateT.bind, bind]
  rcases p c with ⟨_ | a, c'⟩ <;> rfl

/-- `attempt` turns the outcome of a step into its value, keeping the cursor
    it left, also after a failure. -/
theorem exec_attempt (p : Parse α) (c : Cursor) :
    (attempt p).exec c = (.ok (p.exec c).1, (p.exec c).2) := by
  simp only [attempt, exec, tryCatch, tryCatchThe, MonadExceptOf.tryCatch, ExceptT.tryCatch,
    ExceptT.mk, ExceptT.run, StateT.run, StateT.bind, Functor.map, ExceptT.map, bind]
  rcases p c with ⟨_ | a, c'⟩ <;> rfl

/-- A step with a known successful outcome hands its value and cursor to what
    follows. -/
theorem exec_bind_of {p : Parse α} {f : α → Parse β} {a : α} {c' : Cursor}
    (hp : p.exec c = (.ok a, c')) : (p >>= f).exec c = (f a).exec c' := by
  rw [exec_bind, hp]

/-- Two steps that run alike from `c`, each followed by continuations that run
    alike wherever the first succeeds, run alike. -/
theorem exec_bind_congr {p p' : Parse α} {f f' : α → Parse β} (hp : p.exec c = p'.exec c)
    (hf : ∀ a c', p.exec c = (.ok a, c') → (f a).exec c' = (f' a).exec c') :
    (p >>= f).exec c = (p' >>= f').exec c := by
  rw [exec_bind, exec_bind, ← hp]
  rcases h : p.exec c with ⟨_ | a, c'⟩
  · rfl
  · exact hf a c' h

/-! ### The primitive steps -/

theorem exec_peekAt (n : Nat) (c : Cursor) :
    (peekAt n).exec c = (.ok (c.toks.getD (c.pos + n) c.eof), c) := rfl

@[simp] theorem exec_peek (c : Cursor) : peek.exec c = (.ok c.current, c) := rfl

@[simp] theorem exec_set (c' c : Cursor) : (set c' : Parse Unit).exec c = (.ok (), c') := rfl

@[simp] theorem exec_advance (c : Cursor) : advance.exec c = (.ok c.current, c.step) := by
  simp only [advance, exec_bind, exec_get]
  unfold Cursor.current Cursor.step
  split
  · rename_i t ht
    simp [exec_map, Array.getD_eq_getD_getElem?, ht]
  · rename_i ht
    simp [Array.getD_eq_getD_getElem?, ht]

@[simp] theorem exec_skip (c : Cursor) : skip.exec c = (.ok (), c.step) := by
  simp [skip, exec_map]

@[simp] theorem exec_check (k : TokenKind) (c : Cursor) :
    (check k).exec c = (.ok (c.current.kind == k), c) := rfl

@[simp] theorem exec_atEnd (c : Cursor) : atEnd.exec c = (.ok (c.current.kind == .eof), c) := rfl

@[simp] theorem exec_record (e : ParseError) (c : Cursor) :
    (record e).exec c = (.ok (), { c with errors := c.errors.push e }) := rfl

theorem exec_eat (k : TokenKind) (c : Cursor) :
    (eat k).exec c = if c.current.kind = k then (.ok (some c.current), c.step) else (.ok none, c) := by
  by_cases hk : c.current.kind = k <;> simp [eat, exec_bind, exec_map, hk]

theorem exec_expect (k : TokenKind) (c : Cursor) :
    (expect k).exec c =
      if c.current.kind = k then (.ok c.current, c.step)
      else if c.current.kind = .eof then (.error (unexpectedEof c.current.span), c)
      else (.error ⟨.expectedToken, c.current.span,
        "expected " ++ k.description ++ ", found " ++ describe c.current⟩, c) := by
  by_cases hk : c.current.kind = k
  · simp [expect, exec_bind, hk]
  · by_cases he : c.current.kind = .eof
    · rw [he] at hk
      simp [expect, exec_bind, hk, he]
    · simp [expect, exec_bind, hk, he]

theorem exec_expectIdent (c : Cursor) :
    expectIdent.exec c =
      if c.current.kind = .ident then (.ok ⟨c.current.lexeme, c.current.span⟩, c.step)
      else if c.current.kind = .eof then (.error (unexpectedEof c.current.span), c)
      else (.error ⟨.expectedIdentifier, c.current.span,
        "expected identifier, found " ++ describe c.current⟩, c) := by
  by_cases hk : c.current.kind = .ident
  · simp [expectIdent, exec_bind, exec_map, hk]
  · by_cases he : c.current.kind = .eof <;> simp [expectIdent, exec_bind, hk, he]

theorem exec_expectSemicolon (c : Cursor) :
    expectSemicolon.exec c =
      if c.current.kind = .semicolon then (.ok c.current, c.step)
      else (.error ⟨.missingSemicolon, Span.point c.prev.line (c.prev.col + c.prev.len),
        "expected ';', found " ++ describe c.current⟩, c) := by
  by_cases hk : c.current.kind = .semicolon <;> simp [expectSemicolon, exec_bind, exec_eat, hk]

/-- The join point of a `do` block whose two arms bind into the same rest. -/
theorem ite_bind_eq {b : Prop} [Decidable b] (x y : Parse α) (f : α → Parse β) :
    (if b then x >>= f else y >>= f) = (if b then x else y) >>= f := by
  split <;> rfl

@[simp] theorem unexpectedEof_kind (s : Span) : (unexpectedEof s).kind = .unexpectedEof := rfl

/-! ### Steps that move forward -/

/-- A step that moves forward: from every cursor it leaves one further on, and
    it fails only with an error that is not lexical. -/
def Moves (p : Parse α) : Prop :=
  ∀ c : Cursor, c.Follows (p.exec c).2 ∧ ∀ e, (p.exec c).1 = .error e → e.kind ≠ .lexical

/-- From `c`, the step consumes a token whenever it succeeds. -/
def Consumes (p : Parse α) (c : Cursor) : Prop :=
  ∀ a c', p.exec c = (.ok a, c') → c'.rem < c.rem

/-- A step that consumes a token whenever it succeeds. -/
def Advances (p : Parse α) : Prop := ∀ c : Cursor, c.Ok → Consumes p c

namespace Moves

variable {p : Parse α}

theorem follows (hp : Moves p) (c : Cursor) : c.Follows (p.exec c).2 := (hp c).1

theorem follows_of (hp : Moves p) {c c' : Cursor} {r : Except ParseError α} (h : p.exec c = (r, c')) :
    c.Follows c' := by
  simpa [h] using hp.follows c

theorem of_follows (h : ∀ c : Cursor, c.Follows (p.exec c).2) (he : ∀ c e, (p.exec c).1 = .error e → e.kind ≠ .lexical) :
    Moves p :=
  fun c => ⟨h c, he c⟩

protected theorem pure (a : α) : Moves (pure a : Parse α) :=
  fun c => ⟨.refl c, fun e h => by cases h⟩

protected theorem throw {e : ParseError} (he : e.kind ≠ .lexical) : Moves (throw e : Parse α) :=
  fun c => ⟨.refl c, fun e' h => by cases h; exact he⟩

protected theorem bind {f : α → Parse β} (hp : Moves p) (hf : ∀ a, Moves (f a)) : Moves (p >>= f) := by
  intro c
  rw [exec_bind]
  cases h : (p.exec c).1 with
  | ok a =>
    exact ⟨(hp c).1.trans (hf a _).1, (hf a _).2⟩
  | error e =>
    refine ⟨(hp c).1, fun e' he' => ?_⟩
    cases he'
    exact (hp c).2 e h

protected theorem map {f : α → β} (hp : Moves p) : Moves (f <$> p) := by
  intro c
  rw [exec_map]
  cases h : (p.exec c).1 with
  | ok a => exact ⟨(hp c).1, fun e he => by cases he⟩
  | error e =>
    refine ⟨(hp c).1, fun e' he' => ?_⟩
    cases he'
    exact (hp c).2 e h

/-- A continuation on the two parts of a pair, as after `let (a, b) ← p`. -/
theorem pair {β γ : Type} {f : α × β → Parse γ} (h : ∀ a b, Moves (f (a, b))) (x : α × β) :
    Moves (f x) := by
  obtain ⟨a, b⟩ := x
  exact h a b

protected theorem ite {b : Prop} [Decidable b] {q : Parse α} (hp : Moves p) (hq : Moves q) :
    Moves (if b then p else q) := by
  split
  · exact hp
  · exact hq

/-- The outcome of a step taken as a value: the continuation may rely on a
    failure not being lexical. -/
theorem attempt_bind {f : Except ParseError α → Parse β} (hp : Moves p)
    (hf : ∀ r, (∀ e, r = .error e → e.kind ≠ .lexical) → Moves (f r)) : Moves (attempt p >>= f) := by
  intro c
  rw [exec_bind, exec_attempt]
  have hr := hf (p.exec c).1 (hp c).2 (p.exec c).2
  exact ⟨(hp c).1.trans hr.1, hr.2⟩

theorem peekAt (n : Nat) : Moves (peekAt n) := fun c => ⟨.refl c, fun e h => by cases h⟩

theorem peek : Moves peek := peekAt 0

theorem get : Moves (get : Parse Cursor) := fun c => ⟨.refl c, fun e h => by cases h⟩

theorem advance : Moves advance := fun c => by
  rw [exec_advance]
  exact ⟨.step c, fun e h => by cases h⟩

theorem skip : Moves skip := fun c => by
  rw [exec_skip]
  exact ⟨.step c, fun e h => by cases h⟩

theorem check (k : TokenKind) : Moves (check k) := fun c => ⟨.refl c, fun e h => by cases h⟩

theorem atEnd : Moves atEnd := check .eof

theorem record {e : ParseError} (he : e.kind ≠ .lexical) : Moves (record e) := fun c => by
  rw [exec_record]
  exact ⟨.record he, fun e h => by cases h⟩

/-- Changing the recorded aliases. -/
theorem setAliases (g : Cursor → AliasMap) :
    Moves (modify fun c => { c with aliases := g c } : Parse Unit) :=
  fun c => ⟨by rw [exec_modify]; exact Cursor.Follows.aliases _, fun e h => by cases h⟩

theorem eat (k : TokenKind) : Moves (eat k) := fun c => by
  rw [exec_eat]
  split
  · exact ⟨.step c, fun e h => by cases h⟩
  · exact ⟨.refl c, fun e h => by cases h⟩

theorem expect (k : TokenKind) : Moves (expect k) := fun c => by
  rw [exec_expect]
  split
  · exact ⟨.step c, fun e h => by cases h⟩
  · split
    · exact ⟨.refl c, fun e h => by cases h; simp⟩
    · exact ⟨.refl c, fun e h => by cases h; simp⟩

theorem expectIdent : Moves expectIdent := fun c => by
  rw [exec_expectIdent]
  split
  · exact ⟨.step c, fun e h => by cases h⟩
  · split
    · exact ⟨.refl c, fun e h => by cases h; simp⟩
    · exact ⟨.refl c, fun e h => by cases h; simp⟩

theorem expectSemicolon : Moves expectSemicolon := fun c => by
  rw [exec_expectSemicolon]
  split
  · exact ⟨.step c, fun e h => by cases h⟩
  · exact ⟨.refl c, fun e h => by cases h; simp⟩

theorem exhausted : Moves (exhausted : Parse α) :=
  Moves.bind get fun _ => Moves.throw (by simp)

theorem numberLiteral (t : Token) (negate : Bool) : Moves (numberLiteral t negate) := by
  unfold Syntax.Parse.numberLiteral
  split
  · exact Moves.pure _
  · exact Moves.throw (by simp)

end Moves

namespace Consumes

variable {p : Parse α} {f : α → Parse β} {c : Cursor}

/-- A step that consumes, followed by steps that move forward. -/
theorem bind_left (hp : Consumes p c) (hf : ∀ a, Moves (f a)) : Consumes (p >>= f) c := by
  intro b c'' h
  rw [exec_bind] at h
  rcases hx : p.exec c with ⟨_ | a, c'⟩
  · rw [hx] at h
    cases h
  · rw [hx] at h
    exact Nat.lt_of_le_of_lt ((hf a).follows_of h).rem_le (hp a c' hx)

/-- A step that moves forward, followed by steps that consume. -/
theorem bind_right (hp : Moves p) (hf : ∀ a c', p.exec c = (.ok a, c') → Consumes (f a) c') :
    Consumes (p >>= f) c := by
  intro b c'' h
  rw [exec_bind] at h
  rcases hx : p.exec c with ⟨_ | a, c'⟩
  · rw [hx] at h
    cases h
  · rw [hx] at h
    exact Nat.lt_of_lt_of_le (hf a c' hx b c'' h) (hp.follows_of hx).rem_le

protected theorem map {g : α → β} (hp : Consumes p c) : Consumes (g <$> p) c := by
  intro b c' h
  rw [exec_map] at h
  rcases hx : p.exec c with ⟨_ | a, c₁⟩
  · rw [hx] at h
    cases h
  · rw [hx] at h
    cases h
    exact hp a _ hx

/-- A step that fails consumes vacuously. -/
protected theorem throw {e : ParseError} : Consumes (throw e : Parse α) c := fun _ _ h => by cases h

/-- What follows a look at the next token. -/
theorem peek_bind {f : Token → Parse β} (h : Consumes (f c.current) c) : Consumes (peek >>= f) c := by
  intro b c' h'
  rw [exec_bind_of (exec_peek c)] at h'
  exact h b c' h'

theorem skip (hc : c.Ok) (hk : c.current.kind ≠ .eof) : Consumes skip c := fun _ _ h => by
  rw [exec_skip] at h
  cases h
  have := Cursor.rem_step hc hk
  omega

theorem advance (hc : c.Ok) (hk : c.current.kind ≠ .eof) : Consumes advance c := fun _ _ h => by
  rw [exec_advance] at h
  cases h
  have := Cursor.rem_step hc hk
  omega

end Consumes

namespace Advances

variable {p : Parse α} {f : α → Parse β}

theorem rem_lt (hp : Advances p) {c c' : Cursor} {a : α} (hc : c.Ok) (h : p.exec c = (.ok a, c')) :
    c'.rem < c.rem :=
  hp c hc a c' h

/-- A step that consumes, followed by steps that move forward. -/
theorem bind_left (hp : Advances p) (hf : ∀ a, Moves (f a)) : Advances (p >>= f) :=
  fun c hc => (hp c hc).bind_left hf

/-- A step that moves forward, followed by steps that consume. -/
theorem bind_right (hp : Moves p) (hf : ∀ a, Advances (f a)) : Advances (p >>= f) :=
  fun _ hc => Consumes.bind_right hp fun a _ h => hf a _ ((hp.follows_of h).ok hc)

protected theorem map {g : α → β} (hp : Advances p) : Advances (g <$> p) :=
  fun c hc => (hp c hc).map

protected theorem throw {e : ParseError} : Advances (throw e : Parse α) := fun _ _ => Consumes.throw

theorem exhausted : Advances (exhausted : Parse α) :=
  bind_right Moves.get fun _ => Advances.throw

theorem expect (k : TokenKind) (hk : k ≠ .eof) : Advances (expect k) := fun c hc a c' h => by
  rw [exec_expect] at h
  split at h
  · rename_i hck
    cases h
    have := Cursor.rem_step hc (hck ▸ hk)
    omega
  · split at h <;> cases h

theorem expectIdent : Advances expectIdent := fun c hc a c' h => by
  rw [exec_expectIdent] at h
  split at h
  · rename_i hck
    cases h
    have := Cursor.rem_step hc (by rw [hck]; decide)
    omega
  · split at h <;> cases h

theorem expectSemicolon : Advances expectSemicolon := fun c hc a c' h => by
  rw [exec_expectSemicolon] at h
  split at h
  · rename_i hck
    cases h
    have := Cursor.rem_step hc (by rw [hck]; decide)
    omega
  · cases h

end Advances

/-- A step that moves forward and consumes a token whenever it succeeds: the
    first step of every declaration. -/
structure Progress (p : Parse α) : Prop where
  moves : Moves p
  advances : Advances p

namespace Progress

variable {p : Parse α} {f : α → Parse β}

/-- A step that makes progress, followed by steps that move forward. -/
protected theorem bind (hp : Progress p) (hf : ∀ a, Moves (f a)) : Progress (p >>= f) :=
  ⟨hp.moves.bind hf, hp.advances.bind_left hf⟩

/-- A step that moves forward, followed by steps that make progress. -/
theorem bind_right (hp : Moves p) (hf : ∀ a, Progress (f a)) : Progress (p >>= f) :=
  ⟨hp.bind fun a => (hf a).moves, Advances.bind_right hp fun a => (hf a).advances⟩

protected theorem throw {e : ParseError} (he : e.kind ≠ .lexical) : Progress (throw e : Parse α) :=
  ⟨Moves.throw he, Advances.throw⟩

protected theorem map {g : α → β} (hp : Progress p) : Progress (g <$> p) :=
  ⟨hp.moves.map, hp.advances.map⟩

theorem expect (k : TokenKind) (hk : k ≠ .eof) : Progress (expect k) :=
  ⟨Moves.expect k, Advances.expect k hk⟩

theorem expectIdent : Progress expectIdent := ⟨Moves.expectIdent, Advances.expectIdent⟩

end Progress

/-! ### Steps that run alike -/

section Congr

variable {p p' : Parse α} {f f' : α → Parse β}

/-- Two steps that run alike and move forward, followed by continuations that
    run alike from every cursor no further back. -/
theorem exec_bind_congr_moves (hp : p.exec c = p'.exec c) (hpm : Moves p) (hc : c.Ok)
    (hf : ∀ a c', c'.Ok → c'.rem ≤ c.rem → (f a).exec c' = (f' a).exec c') :
    (p >>= f).exec c = (p' >>= f').exec c :=
  exec_bind_congr hp fun a c' h =>
    hf a c' ((hpm.follows_of h).ok hc) (hpm.follows_of h).rem_le

/-- Two steps that run alike and consume a token, followed by continuations that
    run alike from every cursor with fewer tokens left. -/
theorem exec_bind_congr_advances (hp : p.exec c = p'.exec c) (hpm : Moves p) (hpa : Advances p)
    (hc : c.Ok) (hf : ∀ a c', c'.Ok → c'.rem < c.rem → (f a).exec c' = (f' a).exec c') :
    (p >>= f).exec c = (p' >>= f').exec c :=
  exec_bind_congr hp fun a c' h => hf a c' ((hpm.follows_of h).ok hc) (hpa.rem_lt hc h)

/-- A step that consumes the next token, which is not the end, followed by
    continuations that run alike from the cursor past it. -/
theorem exec_bind_congr_expect {k : TokenKind} {g g' : Token → Parse β} (hk : c.current.kind = k)
    (hne : k ≠ .eof) (hc : c.Ok)
    (hg : c.step.Ok → c.step.rem + 1 = c.rem → (g c.current).exec c.step = (g' c.current).exec c.step) :
    (expect k >>= g).exec c = (expect k >>= g').exec c := by
  have hx : (expect k).exec c = (.ok c.current, c.step) := by simp [exec_expect, hk]
  rw [exec_bind_of hx, exec_bind_of hx]
  exact hg ((Cursor.Follows.step c).ok hc) (Cursor.rem_step hc (hk ▸ hne))

end Congr

end Parse

end ClassCompiler.Syntax
