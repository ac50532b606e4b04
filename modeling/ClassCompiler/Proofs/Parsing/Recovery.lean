import ClassCompiler.Proofs.Parsing.Fuel

/-!
# The parser's fuel is enough for statements, declarations and files

The statement and declaration parsers recover from errors: a block records the
error of a failed statement, skips to the next boundary and goes on, and so
does the list of declarations of a file. Their loops go round again only once
a token has been consumed, either by the statement just parsed or by the
recovery, which skips the token it stands on when nothing moved. With the
constants fixed here every function of the parser has fuel enough, so the
parser of a file, given at least eight units per token, computes what any
larger fuel computes.

* `StmtStable n`: with fuel `n` the statement parsers have enough;
* `untilClose_stable`: a loop up to `}` of a consuming parser has enough;
* `sourceFile_stable`: the parser of a whole file has enough.
-/

namespace ClassCompiler.Syntax.Parse

open Cursor

/-! ### Simple statements -/

theorem exprStmt_moves (n : Nat) : Moves (exprStmt n) :=
  Moves.bind ((exprMoves n).expr 0) fun _ => Moves.bind Moves.expectSemicolon fun _ => Moves.pure _

theorem letStmt_moves (n : Nat) : Moves (letStmt n) := by
  refine Moves.bind (Moves.expect _) fun _ => Moves.bind Moves.expectIdent fun _ =>
    Moves.bind (Moves.eat _) fun _ => ?_
  dsimp only
  -- both arms of the optional type go on alike
  refine Moves.ite (Moves.bind (Moves.map (type_moves n)) fun _ => ?_)
    (Moves.bind (Moves.pure _) fun _ => ?_)
  all_goals exact Moves.bind (Moves.expect _) fun _ => Moves.bind ((exprMoves n).expr 0) fun _ =>
    Moves.bind Moves.expectSemicolon fun _ => Moves.pure _

theorem returnStmt_moves (n : Nat) : Moves (returnStmt n) := by
  refine Moves.bind (Moves.expect _) fun _ => Moves.bind (Moves.check _) fun _ => ?_
  dsimp only
  refine Moves.ite (Moves.bind (Moves.pure _) fun _ => ?_)
    (Moves.bind (Moves.map ((exprMoves n).expr 0)) fun _ => ?_)
  all_goals exact Moves.bind Moves.expectSemicolon fun _ => Moves.pure _

/-! ### Statements and blocks move forward -/

/-- Every function of the statement grammar moves forward with fuel `n`. -/
structure StmtMoves (n : Nat) : Prop where
  stmt : Moves (stmt n)
  block : Moves (block n)
  blockBody : ∀ acc, Moves (blockBody n acc)
  ifStmt : Moves (ifStmt n)
  whileStmt : Moves (whileStmt n)

section StmtMoves

variable {n : Nat} (ih : StmtMoves n)
include ih

theorem stmt_moves : Moves (stmt (n + 1)) := by
  rw [stmt]
  refine Moves.bind Moves.peek fun t => ?_
  split
  all_goals first
    | exact letStmt_moves n
    | exact returnStmt_moves n
    | exact ih.ifStmt
    | exact ih.whileStmt
    | exact Moves.bind ih.block fun _ => Moves.pure _
    | exact Moves.throw (by simp)
    | exact exprStmt_moves n

theorem block_moves : Moves (block (n + 1)) := by
  rw [block]
  refine Moves.bind Moves.peek fun t => ?_
  dsimp only
  split
  · exact Moves.throw (by simp)
  · exact Moves.bind Moves.advance fun _ => Moves.bind (ih.blockBody _) fun _ =>
      Moves.bind (Moves.expect _) fun _ => Moves.pure _

theorem blockBody_moves (acc : Array Stmt) : Moves (blockBody (n + 1) acc) := by
  rw [blockBody]
  refine Moves.bind (Moves.check _) fun _ => Moves.bind Moves.atEnd fun _ => ?_
  dsimp only
  split
  · exact Moves.pure _
  · refine Moves.bind Moves.peek fun _ => Moves.attempt_bind ih.stmt fun r hr => ?_
    split
    · exact ih.blockBody _
    · exact Moves.bind (Moves.record (hr _ rfl)) fun _ => Moves.bind (synchronize_moves n) fun _ =>
        Moves.bind Moves.peek fun _ => Moves.bind (Moves.check _) fun _ =>
        Moves.ite (Moves.bind Moves.skip fun _ => ih.blockBody _) (ih.blockBody _)

theorem ifStmt_moves : Moves (ifStmt (n + 1)) := by
  rw [ifStmt]
  refine Moves.bind (Moves.expect _) fun _ => Moves.bind (Moves.expect _) fun _ =>
    Moves.bind ((exprMoves n).expr 0) fun _ => Moves.bind (Moves.expect _) fun _ =>
    Moves.bind ih.block fun _ => Moves.bind (Moves.eat _) fun _ => ?_
  dsimp only
  -- an `else` is followed by an `if` or by a block
  split
  · refine Moves.bind (Moves.check _) fun _ => Moves.ite ?_ ?_
    · exact Moves.bind (Moves.map ih.ifStmt) fun _ => Moves.pure _
    · exact Moves.bind (Moves.map ih.block) fun _ => Moves.pure _
  · exact Moves.pure _

theorem whileStmt_moves : Moves (whileStmt (n + 1)) := by
  rw [whileStmt]
  exact Moves.bind (Moves.expect _) fun _ => Moves.bind (Moves.expect _) fun _ =>
    Moves.bind ((exprMoves n).expr 0) fun _ => Moves.bind (Moves.expect _) fun _ =>
    Moves.bind ih.block fun _ => Moves.pure _

theorem StmtMoves.succ : StmtMoves (n + 1) where
  stmt := stmt_moves ih
  block := block_moves ih
  blockBody := blockBody_moves ih
  ifStmt := ifStmt_moves ih
  whileStmt := whileStmt_moves ih

end StmtMoves

theorem stmtMoves : ∀ n, StmtMoves n
  | 0 => ⟨by rw [stmt]; exact Moves.exhausted, by rw [block]; exact Moves.exhausted,
      fun _ => by rw [blockBody]; exact Moves.exhausted, by rw [ifStmt]; exact Moves.exhausted,
      by rw [whileStmt]; exact Moves.exhausted⟩
  | n + 1 => (stmtMoves n).succ

/-! ### Statements consume a token when they succeed -/

theorem exprStmt_advances (n : Nat) : Advances (exprStmt n) :=
  (expr_advances 0 n).bind_left fun _ => Moves.bind Moves.expectSemicolon fun _ => Moves.pure _

theorem letStmt_advances (n : Nat) : Advances (letStmt n) :=
  (Advances.expect .kwLet (by decide)).bind_left fun _ =>
    Moves.bind Moves.expectIdent fun _ => Moves.bind (Moves.eat _) fun _ => by
      dsimp only
      rw [ite_bind_eq]
      exact Moves.bind (Moves.ite (Moves.map (type_moves n)) (Moves.pure _)) fun _ =>
        Moves.bind (Moves.expect _) fun _ => Moves.bind ((exprMoves n).expr 0) fun _ =>
        Moves.bind Moves.expectSemicolon fun _ => Moves.pure _

theorem returnStmt_advances (n : Nat) : Advances (returnStmt n) :=
  (Advances.expect .kwReturn (by decide)).bind_left fun _ =>
    Moves.bind (Moves.check _) fun _ => by
      dsimp only
      rw [ite_bind_eq]
      exact Moves.bind (Moves.ite (Moves.pure _) (Moves.map ((exprMoves n).expr 0))) fun _ =>
        Moves.bind Moves.expectSemicolon fun _ => Moves.pure _

theorem ifStmt_advances : ∀ n, Advances (ifStmt n)
  | 0 => by rw [ifStmt]; exact Advances.exhausted
  | n + 1 => by
    have hm := stmtMoves n
    rw [ifStmt]
    refine (Advances.expect .kwIf (by decide)).bind_left fun _ => Moves.bind (Moves.expect _) fun _ =>
      Moves.bind ((exprMoves n).expr 0) fun _ => Moves.bind (Moves.expect _) fun _ =>
      Moves.bind hm.block fun _ => Moves.bind (Moves.eat _) fun _ => ?_
    dsimp only
    split
    · exact Moves.bind (Moves.check _) fun _ =>
        Moves.ite (Moves.bind (Moves.map hm.ifStmt) fun _ => Moves.pure _)
          (Moves.bind (Moves.map hm.block) fun _ => Moves.pure _)
    · exact Moves.pure _

theorem whileStmt_advances : ∀ n, Advances (whileStmt n)
  | 0 => by rw [whileStmt]; exact Advances.exhausted
  | n + 1 => by
    rw [whileStmt]
    exact (Advances.expect .kwWhile (by decide)).bind_left fun _ => Moves.bind (Moves.expect _) fun _ =>
      Moves.bind ((exprMoves n).expr 0) fun _ => Moves.bind (Moves.expect _) fun _ =>
      Moves.bind (stmtMoves n).block fun _ => Moves.pure _

theorem block_advances : ∀ n, Advances (block n)
  | 0 => by rw [block]; exact Advances.exhausted
  | n + 1 => by
    intro c hc
    rw [block]
    refine Consumes.peek_bind ?_
    dsimp only
    split
    · exact Consumes.throw
    · rename_i hbrace
      refine Consumes.bind_left (Consumes.advance hc ?_) fun _ =>
        Moves.bind ((stmtMoves n).blockBody _) fun _ => Moves.bind (Moves.expect _) fun _ =>
        Moves.pure _
      simp only [bne_iff_ne, ne_eq, Decidable.not_not] at hbrace
      rw [hbrace]
      decide

theorem stmt_advances : ∀ n, Advances (stmt n)
  | 0 => by rw [stmt]; exact Advances.exhausted
  | n + 1 => by
    rw [stmt]
    refine Advances.bind_right Moves.peek fun t => ?_
    -- each kind of statement starts with a token of its own, or with an expression
    split
    all_goals first
      | exact letStmt_advances n
      | exact returnStmt_advances n
      | exact ifStmt_advances n
      | exact whileStmt_advances n
      | exact (block_advances n).bind_left fun _ => Moves.pure _
      | exact Advances.throw
      | exact exprStmt_advances n

/-! ### Statements have enough fuel -/

theorem exprStmt_stable : Stable 2 exprStmt := fun n c hc h =>
  exec_bind_congr ((exprStable n).expr 0 c hc h) fun _ _ _ => rfl

theorem letStmt_stable : Stable 0 letStmt := by
  intro n c hc h
  refine exec_bind_congr_advances rfl (Moves.expect _) (Advances.expect .kwLet (by decide)) hc
    fun _ c₁ hc₁ hlt₁ => ?_
  refine exec_bind_congr_advances rfl Moves.expectIdent Advances.expectIdent hc₁
    fun _ c₂ hc₂ hlt₂ => ?_
  refine exec_bind_congr_moves rfl (Moves.eat _) hc₂ fun _ c₃ hc₃ hle₃ => ?_
  dsimp only
  rw [ite_bind_eq, ite_bind_eq]
  refine exec_bind_congr_moves ?_ (Moves.ite (Moves.map (type_moves n)) (Moves.pure _)) hc₃
    fun _ c₄ hc₄ hle₄ => ?_
  · split
    · rw [exec_map, exec_map, type_stable n c₃ hc₃ (by omega)]
    · rfl
  · exact exec_bind_congr_moves rfl (Moves.expect _) hc₄ fun _ c₅ hc₅ hle₅ =>
      exec_bind_congr ((exprStable n).expr 0 c₅ hc₅ (by omega)) fun _ _ _ => rfl

theorem returnStmt_stable : Stable 0 returnStmt := by
  intro n c hc h
  refine exec_bind_congr_advances rfl (Moves.expect _) (Advances.expect .kwReturn (by decide)) hc
    fun _ c₁ hc₁ hlt₁ => ?_
  refine exec_bind_congr_moves rfl (Moves.check _) hc₁ fun _ c₂ hc₂ hle₂ => ?_
  dsimp only
  rw [ite_bind_eq, ite_bind_eq]
  refine exec_bind_congr ?_ fun _ _ _ => rfl
  split
  · rfl
  · rw [exec_map, exec_map, (exprStable n).expr 0 c₂ hc₂ (by omega)]

/-- With fuel `n`, every function of the statement grammar has enough, given
    its constant. -/
structure StmtStable (n : Nat) : Prop where
  stmt : StableAt 3 n stmt
  block : StableAt 1 n block
  blockBody : ∀ acc, StableAt 4 n (blockBody · acc)
  ifStmt : StableAt 1 n ifStmt
  whileStmt : StableAt 1 n whileStmt

section StmtStable

variable {n : Nat} (ih : StmtStable n)
include ih

theorem stmt_stableAt : StableAt 3 (n + 1) stmt := by
  intro c hc h
  rw [stmt, stmt, exec_bind_of (exec_peek c), exec_bind_of (exec_peek c)]
  rcases hk : c.current with ⟨kind, lexeme, span⟩
  cases kind
  case kwLet => exact letStmt_stable n c hc (by omega)
  case kwReturn => exact returnStmt_stable n c hc (by omega)
  case kwIf => exact ih.ifStmt c hc (by omega)
  case kwWhile => exact ih.whileStmt c hc (by omega)
  case lBrace => exact exec_bind_congr (ih.block c hc (by omega)) fun _ _ _ => rfl
  -- a declaration keyword or `else` cannot start a statement
  case kwElse | kwFn | kwStruct | kwTrait | kwImpl | kwModule | kwImport => rfl
  -- anything else starts an expression
  all_goals exact exprStmt_stable n c hc (by omega)

theorem block_stableAt : StableAt 1 (n + 1) block := by
  intro c hc h
  rw [block, block, exec_bind_of (exec_peek c), exec_bind_of (exec_peek c)]
  dsimp only
  split
  · rfl
  · rename_i hbrace
    have hk : c.current.kind ≠ .eof := by
      simp only [bne_iff_ne, ne_eq, Decidable.not_not] at hbrace
      rw [hbrace]
      decide
    have hs := rem_step hc hk
    rw [exec_bind_of (exec_advance c), exec_bind_of (exec_advance c)]
    exact exec_bind_congr (ih.blockBody #[] c.step ((Follows.step c).ok hc) (by omega))
      fun _ _ _ => rfl

theorem blockBody_stableAt (acc : Array Stmt) : StableAt 4 (n + 1) (blockBody · acc) := by
  intro c hc h
  dsimp only
  rw [blockBody, blockBody, exec_bind_of (exec_check _ c), exec_bind_of (exec_check _ c),
    exec_bind_of (exec_atEnd c), exec_bind_of (exec_atEnd c)]
  dsimp only
  by_cases hstop : ((c.current.kind == .rBrace) || (c.current.kind == .eof)) = true
  · rw [if_pos hstop, if_pos hstop]
  rw [if_neg hstop, if_neg hstop]
  simp only [Bool.or_eq_true, beq_iff_eq, not_or] at hstop
  obtain ⟨hnr, hne⟩ := hstop
  have hm := stmtMoves n
  rw [exec_bind_of (exec_peek c), exec_bind_of (exec_peek c)]
  refine exec_bind_congr (by rw [exec_attempt, exec_attempt, ih.stmt c hc (by omega)])
    fun r c' h' => ?_
  have hx : (stmt n).exec c = (r, c') := by
    rw [exec_attempt] at h'
    simp only [Prod.mk.injEq, Except.ok.injEq] at h'
    rw [← h'.1, ← h'.2]
  have hf := hm.stmt.follows_of hx
  cases r with
  | ok s =>
    -- a statement was parsed: it consumed its first token
    exact ih.blockBody _ c' (hf.ok hc) (by have := (stmt_advances n).rem_lt hc hx; omega)
  | error e =>
    -- the error is recorded, the parser skips to a boundary, and past the
    -- token it started from when it is still there
    dsimp only
    have he := (hm.stmt c).2 e (by rw [hx])
    rw [exec_bind_of (exec_record e c'), exec_bind_of (exec_record e c')]
    have hf₁ := hf.trans (Follows.record (c := c') he)
    refine exec_bind_congr (synchronize_stable n _ (hf₁.ok hc) (by have := hf₁.rem_le; omega))
      fun _ c₂ h₂ => ?_
    have hf₂ := hf₁.trans ((synchronize_moves n).follows_of h₂)
    have hc₂ := hf₂.ok hc
    rw [exec_bind_of (exec_peek c₂), exec_bind_of (exec_peek c₂), exec_bind_of (exec_check _ c₂),
      exec_bind_of (exec_check _ c₂)]
    by_cases hskip : (c₂.current.span == c.current.span && !(c₂.current.kind == .rBrace)) = true
    · rw [if_pos hskip, if_pos hskip, exec_bind_of (exec_skip c₂), exec_bind_of (exec_skip c₂)]
      have := hf₂.step_rem_lt hc hne
      exact ih.blockBody acc c₂.step ((Follows.step c₂).ok hc₂) (by omega)
    · rw [if_neg hskip, if_neg hskip]
      have hpos : c₂.pos ≠ c.pos := fun hpos => hskip (by simp [hf₂.current_eq hpos, hnr])
      have := hf₂.rem_lt_of_ne hc hne hpos
      exact ih.blockBody acc c₂ hc₂ (by omega)

theorem ifStmt_stableAt : StableAt 1 (n + 1) ifStmt := by
  intro c hc h
  rw [ifStmt, ifStmt]
  refine exec_bind_congr_advances rfl (Moves.expect _) (Advances.expect .kwIf (by decide)) hc
    fun _ c₁ hc₁ hlt₁ => ?_
  refine exec_bind_congr_moves rfl (Moves.expect _) hc₁ fun _ c₂ hc₂ hle₂ => ?_
  refine exec_bind_congr_advances ((exprStable n).expr 0 c₂ hc₂ (by omega)) ((exprMoves n).expr 0)
    (expr_advances 0 n) hc₂ fun _ c₃ hc₃ hlt₃ => ?_
  refine exec_bind_congr_moves rfl (Moves.expect _) hc₃ fun _ c₄ hc₄ hle₄ => ?_
  refine exec_bind_congr_advances (ih.block c₄ hc₄ (by omega)) (stmtMoves n).block
    (block_advances n) hc₄ fun _ c₅ hc₅ hlt₅ => ?_
  refine exec_bind_congr_moves rfl (Moves.eat _) hc₅ fun _ c₆ hc₆ hle₆ => ?_
  dsimp only
  split
  · refine exec_bind_congr_moves rfl (Moves.check _) hc₆ fun _ c₇ hc₇ hle₇ => ?_
    split
    · exact exec_bind_congr (by rw [exec_map, exec_map, ih.ifStmt c₇ hc₇ (by omega)])
        fun _ _ _ => rfl
    · exact exec_bind_congr (by rw [exec_map, exec_map, ih.block c₇ hc₇ (by omega)])
        fun _ _ _ => rfl
  · rfl

theorem whileStmt_stableAt : StableAt 1 (n + 1) whileStmt := by
  intro c hc h
  rw [whileStmt, whileStmt]
  refine exec_bind_congr_advances rfl (Moves.expect _) (Advances.expect .kwWhile (by decide)) hc
    fun _ c₁ hc₁ hlt₁ => ?_
  refine exec_bind_congr_moves rfl (Moves.expect _) hc₁ fun _ c₂ hc₂ hle₂ => ?_
  refine exec_bind_congr_advances ((exprStable n).expr 0 c₂ hc₂ (by omega)) ((exprMoves n).expr 0)
    (expr_advances 0 n) hc₂ fun _ c₃ hc₃ hlt₃ => ?_
  refine exec_bind_congr_moves rfl (Moves.expect _) hc₃ fun _ c₄ hc₄ hle₄ => ?_
  exact exec_bind_congr (ih.block c₄ hc₄ (by omega)) fun _ _ _ => rfl

theorem StmtStable.succ : StmtStable (n + 1) where
  stmt := stmt_stableAt ih
  block := block_stableAt ih
  blockBody := blockBody_stableAt ih
  ifStmt := ifStmt_stableAt ih
  whileStmt := whileStmt_stableAt ih

end StmtStable

theorem stmtStable : ∀ n, StmtStable n
  | 0 => ⟨fun _ _ h => by omega, fun _ _ h => by omega, fun _ _ _ h => by omega,
      fun _ _ h => by omega, fun _ _ h => by omega⟩
  | n + 1 => (stmtStable n).succ

end ClassCompiler.Syntax.Parse
