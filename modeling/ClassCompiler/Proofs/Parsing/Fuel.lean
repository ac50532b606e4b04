import ClassCompiler.Proofs.Parsing.Steps

/-!
# The parser's fuel is never what stops it

Every parsing function takes a fuel argument that bounds its recursion, and
with no fuel left fails as at the end of the file. The parser of a file is
given eight units of fuel per token and some to spare. This module shows that
this is always enough: with fuel of at least eight per token left plus a small
constant, one more unit changes nothing, so the parser computes what the
unbounded recursion computes, and that recursion terminates.

The argument is the one the recovery loops rely on. Every loop round and every
level of nesting either consumes a token or is one of boundedly many steps
between two tokens; a loop goes round again only after its body consumed a
token (`Parse.Advances`), and after a failure the recovery skips at least one
token unless it stands at a `}` or the end.

* `Parse.Stable L p`: from every cursor with at least `8` units of fuel per
  token left plus `L`, the family `p` gives with `n + 1` what it gives with `n`;
* the `*_moves` lemmas: each parsing function only moves forward, for any fuel;
* the `*_stable` lemmas: the fuel of each function, given the constant it
  needs, is enough.
-/

namespace ClassCompiler.Syntax.Parse

open Cursor

variable {α : Type}

/-- With fuel `n`, from every cursor with well-formed tokens and at least eight
    units of fuel per token left plus `L`, one more unit of fuel changes
    nothing. -/
def StableAt (L n : Nat) (p : Nat → Parse α) : Prop :=
  ∀ c : Cursor, c.Ok → 8 * c.rem + L ≤ n → (p n).exec c = (p (n + 1)).exec c

/-- `StableAt L n p` for every fuel `n`. -/
def Stable (L : Nat) (p : Nat → Parse α) : Prop := ∀ n, StableAt L n p

/-- A stable family gives the same with any fuel beyond what it needs. -/
theorem Stable.add {L : Nat} {p : Nat → Parse α} (h : Stable L p) {n : Nat} {c : Cursor} (hc : c.Ok)
    (hn : 8 * c.rem + L ≤ n) : ∀ k, (p (n + k)).exec c = (p n).exec c
  | 0 => rfl
  | k + 1 => by
    rw [← Nat.add_assoc, ← h (n + k) c hc (by omega)]
    exact Stable.add h hc hn k

/-! ### Skipping to a boundary -/

theorem synchronize_moves : ∀ n, Moves (synchronize n)
  | 0 => Moves.pure ()
  | n + 1 => by
    rw [synchronize]
    refine Moves.bind Moves.peek fun t => ?_
    split
    all_goals first
      | exact Moves.pure ()
      | exact Moves.skip
      | exact Moves.bind Moves.skip fun _ => synchronize_moves n

theorem synchronize_stable : Stable 1 synchronize
  | 0, c, _, h => absurd h (by omega)
  | n + 1, c, hc, h => by
    rw [synchronize, synchronize, exec_bind_of (exec_peek c), exec_bind_of (exec_peek c)]
    rcases hk : c.current with ⟨kind, lexeme, span⟩
    -- a stop or a `;` ends the loop; any other token is skipped and it goes on
    cases kind
    all_goals first
      | rfl
      | rw [exec_bind_of (exec_skip c), exec_bind_of (exec_skip c)]
        have := rem_step hc (by simp [hk])
        exact synchronize_stable n _ ((Follows.step c).ok hc) (by omega)

theorem synchronizeItem_moves : ∀ n, Moves (synchronizeItem n)
  | 0 => Moves.pure ()
  | n + 1 => by
    rw [synchronizeItem]
    refine Moves.bind Moves.peek fun t => ?_
    split
    all_goals first
      | exact Moves.pure ()
      | exact Moves.bind Moves.skip fun _ => synchronizeItem_moves n

theorem synchronizeItem_stable : Stable 1 synchronizeItem
  | 0, c, _, h => absurd h (by omega)
  | n + 1, c, hc, h => by
    rw [synchronizeItem, synchronizeItem, exec_bind_of (exec_peek c), exec_bind_of (exec_peek c)]
    rcases hk : c.current with ⟨kind, lexeme, span⟩
    cases kind
    all_goals first
      | rfl
      | rw [exec_bind_of (exec_skip c), exec_bind_of (exec_skip c)]
        have := rem_step hc (by simp [hk])
        exact synchronizeItem_stable n _ ((Follows.step c).ok hc) (by omega)

/-! ### Names and types -/

theorem pathRest_moves : ∀ n segs span, Moves (pathRest n segs span)
  | 0, _, _ => Moves.exhausted
  | n + 1, segs, span => by
    rw [pathRest]
    refine Moves.bind (Moves.check _) fun _ => Moves.bind (Moves.peekAt 1) fun _ => ?_
    split
    · exact Moves.bind Moves.skip fun _ => Moves.bind Moves.expectIdent fun _ => pathRest_moves n _ _
    · exact Moves.pure _

theorem pathRest_stable (segs : Array Ident) (span : Span) : Stable 1 (pathRest · segs span) := by
  intro n
  induction n generalizing segs span with
  | zero => intro c _ h; omega
  | succ n ih =>
    intro c hc h
    simp only [pathRest]
    rw [exec_bind_of (exec_check _ c), exec_bind_of (exec_check _ c),
      exec_bind_of (exec_peekAt 1 c), exec_bind_of (exec_peekAt 1 c)]
    split
    · rename_i hdot
      have hk : c.current.kind ≠ .eof := by
        simp only [Bool.and_eq_true, beq_iff_eq] at hdot
        rw [hdot.1]
        decide
      -- the dot and the name after it come before the rest of the path
      rw [exec_bind_of (exec_skip c), exec_bind_of (exec_skip c)]
      have hstep := rem_step hc hk
      refine exec_bind_congr rfl fun seg c₁ h₁ => ?_
      have hc₁ := (Moves.expectIdent.follows_of h₁).ok ((Follows.step c).ok hc)
      have hlt := Advances.expectIdent.rem_lt ((Follows.step c).ok hc) h₁
      exact ih _ _ c₁ hc₁ (by omega)
    · rfl

theorem path_moves (n : Nat) : Moves (path n) :=
  Moves.bind Moves.expectIdent fun _ => pathRest_moves n _ _

theorem path_advances (n : Nat) : Advances (path n) :=
  Advances.bind_left Advances.expectIdent fun _ => pathRest_moves n _ _

theorem path_stable : Stable 1 path := by
  intro n c hc h
  refine exec_bind_congr rfl fun first c₁ h₁ => ?_
  have hc₁ := (Moves.expectIdent.follows_of h₁).ok hc
  have hlt := Advances.expectIdent.rem_lt hc h₁
  exact pathRest_stable _ _ n c₁ hc₁ (by omega)

theorem dimensions_moves : ∀ n dims span, Moves (dimensions n dims span)
  | 0, _, _ => Moves.exhausted
  | n + 1, dims, span => by
    rw [dimensions]
    refine Moves.bind (Moves.check _) fun _ => Moves.bind (Moves.peekAt 1) fun _ => ?_
    split
    · exact Moves.bind Moves.skip fun _ => Moves.bind Moves.advance fun _ => dimensions_moves n _ _
    · exact Moves.pure _

theorem dimensions_stable (dims : Nat) (span : Span) : Stable 1 (dimensions · dims span) := by
  intro n
  induction n generalizing dims span with
  | zero => intro c _ h; omega
  | succ n ih =>
    intro c hc h
    simp only [dimensions]
    rw [exec_bind_of (exec_check _ c), exec_bind_of (exec_check _ c),
      exec_bind_of (exec_peekAt 1 c), exec_bind_of (exec_peekAt 1 c)]
    split
    · rename_i hopen
      simp only [Bool.and_eq_true, beq_iff_eq] at hopen
      have hk : c.current.kind ≠ .eof := by
        rw [hopen.1]
        decide
      have hc₁ := (Follows.step c).ok hc
      have hk₁ : c.step.current.kind ≠ .eof := by
        -- the token after `[` is the `]` that `peekAt 1` saw
        have hlt := hc.pos_lt hk
        rw [Cursor.current, step_pos hlt, step_toks, step_eof, hopen.2]
        decide
      rw [exec_bind_of (exec_skip c), exec_bind_of (exec_skip c),
        exec_bind_of (exec_advance c.step), exec_bind_of (exec_advance c.step)]
      have h₁ := rem_step hc hk
      have h₂ := rem_step hc₁ hk₁
      exact ih _ _ c.step.step ((Follows.step _).ok hc₁) (by omega)
    · rfl

theorem type_moves (n : Nat) : Moves (type n) := by
  refine Moves.bind Moves.peek fun t => ?_
  dsimp only
  split
  · exact Moves.bind (Moves.throw (by simp)) fun _ => Moves.bind (path_moves n) fun p =>
      Moves.bind (dimensions_moves n 0 p.span) (Moves.pair fun _ _ => Moves.pure _)
  · exact Moves.bind (path_moves n) fun p =>
      Moves.bind (dimensions_moves n 0 p.span) (Moves.pair fun _ _ => Moves.pure _)

theorem type_advances (n : Nat) : Advances (type n) := by
  refine Advances.bind_right Moves.peek fun t => ?_
  dsimp only
  split
  · exact Advances.bind_left Advances.throw fun _ => Moves.bind (path_moves n) fun p =>
      Moves.bind (dimensions_moves n 0 p.span) (Moves.pair fun _ _ => Moves.pure _)
  · exact Advances.bind_left (path_advances n) fun p =>
      Moves.bind (dimensions_moves n 0 p.span) (Moves.pair fun _ _ => Moves.pure _)

theorem type_stable : Stable 1 type := by
  intro n c hc h
  simp only [type]
  rw [exec_bind_of (exec_peek c), exec_bind_of (exec_peek c)]
  by_cases hk : (c.current.kind != .ident) = true
  · simp [hk]
  · rw [if_neg hk, if_neg hk]
    refine exec_bind_congr (path_stable n c hc h) fun p c₂ h₂ => ?_
    have hc₂ := ((path_moves n).follows_of h₂).ok hc
    have hlt := (path_advances n).rem_lt hc h₂
    exact exec_bind_congr (dimensions_stable 0 p.span n c₂ hc₂ (by omega)) fun _ _ _ => rfl

/-! ### Expressions -/

/-- Every function of the expression grammar moves forward with fuel `n`. -/
structure ExprMoves (n : Nat) : Prop where
  expr : ∀ minBp, Moves (expr n minBp)
  operators : ∀ minBp lhs, Moves (operators n minBp lhs)
  operand : Moves (operand n)
  member : ∀ obj, Moves (member n obj)
  index : ∀ obj, Moves (index n obj)
  call : ∀ callee, Moves (call n callee)
  arguments : ∀ o k, Moves (arguments n o k)
  argumentList : ∀ acc, Moves (argumentList n acc)

section ExprMoves

variable {n : Nat} (ih : ExprMoves n)
include ih

theorem operators_moves (minBp : Nat) (lhs : Expr) : Moves (operators (n + 1) minBp lhs) := by
  rw [operators]
  refine Moves.bind Moves.peek fun t => ?_
  dsimp only
  repeat' split
  all_goals first
    | exact Moves.pure _
    | skip
  · exact Moves.bind (ih.member _) fun _ => ih.operators _ _
  · exact Moves.bind (ih.index _) fun _ => ih.operators _ _
  · exact Moves.bind (ih.call _) fun _ => ih.operators _ _
  · exact Moves.bind Moves.skip fun _ => Moves.bind (ih.expr _) fun _ => ih.operators _ _
  · exact Moves.bind Moves.skip fun _ => Moves.bind (ih.expr _) fun _ => ih.operators _ _

theorem operand_moves : Moves (operand (n + 1)) := by
  rw [operand]
  refine Moves.bind Moves.peek fun t => ?_
  split
  -- a number, a string, a keyword literal or a name: one token
  all_goals first
    | exact Moves.bind Moves.skip fun _ => Moves.bind (Moves.numberLiteral _ _) fun _ => Moves.pure _
    | exact Moves.bind Moves.skip fun _ => Moves.pure _
    | skip
  all_goals first
    | exact Moves.throw (by simp)
    | skip
  · exact Moves.bind Moves.advance fun _ => Moves.bind (ih.expr 0) fun _ =>
      Moves.bind (Moves.expect _) fun _ => Moves.pure _
  · exact Moves.bind (Moves.expect _) fun _ => Moves.bind (type_moves n) fun _ =>
      Moves.bind (ih.arguments _ _) (Moves.pair fun _ _ => Moves.pure _)
  · exact Moves.bind (Moves.expect _) fun _ => Moves.bind (type_moves n) fun _ =>
      Moves.bind (Moves.expect _) fun _ => Moves.bind (ih.arguments _ _) (Moves.pair fun _ _ => Moves.pure _)
  · exact Moves.bind (Moves.expect _) fun _ => Moves.bind (Moves.expect _) fun _ =>
      Moves.bind (type_moves n) fun _ => Moves.bind (Moves.expect _) fun _ =>
      Moves.bind (Moves.expect _) fun _ => Moves.bind (ih.expr 0) fun _ =>
      Moves.bind (Moves.expect _) fun _ => Moves.pure _
  -- `-` or `!`: a negative number, or an operator and its operand
  all_goals
    refine Moves.bind (Moves.peekAt 1) fun _ => ?_
    split
    · exact Moves.bind Moves.advance fun _ => Moves.bind Moves.advance fun _ =>
        Moves.bind (Moves.numberLiteral _ _) fun _ => Moves.pure _
    · exact Moves.bind Moves.skip fun _ => Moves.bind (ih.expr _) fun _ => Moves.pure _

theorem member_moves (obj : Expr) : Moves (member (n + 1) obj) := by
  rw [member]
  refine Moves.bind (Moves.expect _) fun _ => Moves.bind Moves.expectIdent fun _ =>
    Moves.bind (Moves.check _) fun _ => ?_
  split
  · exact Moves.bind (ih.arguments _ _) (Moves.pair fun _ _ => Moves.pure _)
  · exact Moves.pure _

theorem index_moves (obj : Expr) : Moves (index (n + 1) obj) := by
  rw [index]
  exact Moves.bind (Moves.expect _) fun _ => Moves.bind (ih.expr 0) fun _ =>
    Moves.bind (Moves.expect _) fun _ => Moves.pure _

theorem call_moves (callee : Expr) : Moves (call (n + 1) callee) := by
  unfold Syntax.Parse.call
  split
  · exact Moves.bind (ih.arguments _ _) (Moves.pair fun _ _ => Moves.pure _)
  · exact Moves.bind Moves.peek fun _ => Moves.throw (by simp)

theorem arguments_moves (o k : TokenKind) : Moves (arguments (n + 1) o k) := by
  rw [arguments]
  refine Moves.bind (Moves.expect _) fun _ => Moves.bind (Moves.check _) fun _ => ?_
  dsimp only
  split
  · exact Moves.bind (Moves.pure _) fun _ => Moves.bind (Moves.expect _) fun _ => Moves.pure _
  · exact Moves.bind (ih.argumentList _) fun _ => Moves.bind (Moves.expect _) fun _ => Moves.pure _

theorem argumentList_moves (acc : Array Expr) : Moves (argumentList (n + 1) acc) := by
  rw [argumentList]
  refine Moves.bind (ih.expr 0) fun _ => Moves.bind (Moves.eat _) fun _ => ?_
  split
  · exact ih.argumentList _
  · exact Moves.pure _

theorem ExprMoves.succ : ExprMoves (n + 1) where
  expr _ := by
    rw [Syntax.Parse.expr]
    exact Moves.bind ih.operand fun _ => ih.operators _ _
  operators := operators_moves ih
  operand := operand_moves ih
  member := member_moves ih
  index := index_moves ih
  call := call_moves ih
  arguments := arguments_moves ih
  argumentList := argumentList_moves ih

end ExprMoves

theorem exprMoves : ∀ n, ExprMoves n
  | 0 => ⟨fun _ => by rw [expr]; exact Moves.exhausted, fun _ _ => by rw [operators]; exact Moves.exhausted,
      by rw [operand]; exact Moves.exhausted, fun _ => by rw [member]; exact Moves.exhausted,
      fun _ => by rw [index]; exact Moves.exhausted, fun _ => by rw [call]; exact Moves.exhausted,
      fun _ _ => by rw [arguments]; exact Moves.exhausted,
      fun _ => by rw [argumentList]; exact Moves.exhausted⟩
  | n + 1 => (exprMoves n).succ

/-! ### Expressions consume a token when they succeed -/

theorem operand_advances : ∀ n, Advances (operand n)
  | 0 => by rw [operand]; exact Advances.exhausted
  | n + 1 => by
    intro c hc
    rw [operand]
    refine Consumes.peek_bind ?_
    rcases hk : c.current with ⟨kind, lexeme, span⟩
    have hne : kind ≠ .eof → c.current.kind ≠ .eof := fun h => by rw [hk]; exact h
    -- every alternative but the failing ones starts by consuming the token it saw
    cases kind
    case intLit | longLit | floatLit | doubleLit =>
      exact Consumes.bind_left (Consumes.skip hc (hne (by decide))) fun _ =>
        Moves.bind (Moves.numberLiteral _ _) fun _ => Moves.pure _
    case stringLit | kwTrue | kwFalse | kwNull | ident =>
      exact Consumes.bind_left (Consumes.skip hc (hne (by decide))) fun _ => Moves.pure _
    case lParen =>
      exact Consumes.bind_left (Consumes.advance hc (hne (by decide))) fun _ =>
        Moves.bind ((exprMoves n).expr 0) fun _ => Moves.bind (Moves.expect _) fun _ => Moves.pure _
    case kwNew =>
      exact (Advances.expect .kwNew (by decide) c hc).bind_left fun _ => Moves.bind (type_moves n) fun _ =>
        Moves.bind ((exprMoves n).arguments _ _) (Moves.pair fun _ _ => Moves.pure _)
    case lBracket =>
      exact (Advances.expect .lBracket (by decide) c hc).bind_left fun _ => Moves.bind (type_moves n) fun _ =>
        Moves.bind (Moves.expect _) fun _ => Moves.bind ((exprMoves n).arguments _ _) (Moves.pair fun _ _ =>
        Moves.pure _)
    case kwCast =>
      exact (Advances.expect .kwCast (by decide) c hc).bind_left fun _ => Moves.bind (Moves.expect _) fun _ =>
        Moves.bind (type_moves n) fun _ => Moves.bind (Moves.expect _) fun _ =>
        Moves.bind (Moves.expect _) fun _ => Moves.bind ((exprMoves n).expr 0) fun _ =>
        Moves.bind (Moves.expect _) fun _ => Moves.pure _
    case minus | bang =>
      refine Consumes.bind_right (Moves.peekAt 1) fun t c' h' => ?_
      rw [exec_peekAt] at h'
      cases h'
      split
      · exact Consumes.bind_left (Consumes.advance hc (hne (by decide))) fun _ =>
          Moves.bind Moves.advance fun _ => Moves.bind (Moves.numberLiteral _ _) fun _ => Moves.pure _
      · exact Consumes.bind_left (Consumes.skip hc (hne (by decide))) fun _ =>
          Moves.bind ((exprMoves n).expr _) fun _ => Moves.pure _
    all_goals exact Consumes.throw

theorem expr_advances (minBp : Nat) : ∀ n, Advances (expr n minBp)
  | 0 => by rw [expr]; exact Advances.exhausted
  | n + 1 => by
    rw [expr]
    exact (operand_advances n).bind_left fun _ => (exprMoves n).operators _ _

theorem arguments_advances (o k : TokenKind) (ho : o ≠ .eof) :
    ∀ n, Advances (arguments n o k)
  | 0 => by rw [arguments]; exact Advances.exhausted
  | n + 1 => by
    rw [arguments]
    refine (Advances.expect o ho).bind_left fun _ => Moves.bind (Moves.check _) fun _ => ?_
    dsimp only
    split
    · exact Moves.bind (Moves.pure _) fun _ => Moves.bind (Moves.expect _) fun _ => Moves.pure _
    · exact Moves.bind ((exprMoves n).argumentList _) fun _ =>
        Moves.bind (Moves.expect _) fun _ => Moves.pure _

theorem member_advances (obj : Expr) : ∀ n, Advances (member n obj)
  | 0 => by rw [member]; exact Advances.exhausted
  | n + 1 => by
    rw [member]
    refine (Advances.expect .dot (by decide)).bind_left fun _ => Moves.bind Moves.expectIdent fun _ =>
      Moves.bind (Moves.check _) fun _ => ?_
    split
    · exact Moves.bind ((exprMoves n).arguments _ _) (Moves.pair fun _ _ => Moves.pure _)
    · exact Moves.pure _

theorem index_advances (obj : Expr) : ∀ n, Advances (index n obj)
  | 0 => by rw [index]; exact Advances.exhausted
  | n + 1 => by
    rw [index]
    exact (Advances.expect .lBracket (by decide)).bind_left fun _ => Moves.bind ((exprMoves n).expr 0) fun _ =>
      Moves.bind (Moves.expect _) fun _ => Moves.pure _

theorem call_advances (callee : Expr) : ∀ n, Advances (call n callee)
  | 0 => by rw [call]; exact Advances.exhausted
  | n + 1 => by
    unfold Syntax.Parse.call
    split
    · exact (arguments_advances .lParen .rParen (by decide) n).bind_left (Moves.pair fun _ _ => Moves.pure _)
    · exact Advances.bind_right Moves.peek fun _ => Advances.throw

/-! ### Expressions have enough fuel -/

/-- With fuel `n`, every function of the expression grammar has enough, given
    its constant: one for a single form, two for an expression, three for the
    loop over operators and for a list of arguments. -/
structure ExprStable (n : Nat) : Prop where
  expr : ∀ minBp, StableAt 2 n (expr · minBp)
  operators : ∀ minBp lhs, StableAt 3 n (operators · minBp lhs)
  operand : StableAt 1 n operand
  member : ∀ obj, StableAt 1 n (member · obj)
  index : ∀ obj, StableAt 1 n (index · obj)
  call : ∀ callee, StableAt 2 n (call · callee)
  arguments : ∀ o k, o ≠ .eof → StableAt 1 n (arguments · o k)
  argumentList : ∀ acc, StableAt 3 n (argumentList · acc)

theorem ne_eof_of_beq {k k' : TokenKind} (h : (k == k') = true) (hk' : k' ≠ .eof) : k ≠ .eof := by
  rw [beq_iff_eq] at h
  rw [h]
  exact hk'

theorem ne_eof_of_binOp {k : TokenKind} {op : BinOp} (h : binOp? k = some op) : k ≠ .eof := by
  rintro rfl
  cases h

section ExprStable

variable {n : Nat} (ih : ExprStable n)
include ih

/-- After an assignment or a binary operator: the operator, its right operand
    and the rest of the loop. -/
theorem operators_after_operator {minBp bp : Nat} {mk : Expr → Expr} {c : Cursor} (hc : c.Ok)
    (h : 8 * c.rem + 3 ≤ n + 1) (hk : c.current.kind ≠ .eof)
    (cont : ∀ l c', c'.Ok → c'.rem < c.rem →
      (operators n minBp l).exec c' = (operators (n + 1) minBp l).exec c') :
    (skip >>= fun _ => expr n bp >>= fun r => operators n minBp (mk r)).exec c =
      (skip >>= fun _ => expr (n + 1) bp >>= fun r => operators (n + 1) minBp (mk r)).exec c := by
  rw [exec_bind_of (exec_skip c), exec_bind_of (exec_skip c)]
  have hs := rem_step hc hk
  have hc₁ := (Follows.step c).ok hc
  exact exec_bind_congr_advances (ih.expr bp c.step hc₁ (by omega)) ((exprMoves n).expr bp)
    (expr_advances bp n) hc₁ fun r c' hc' hlt => cont _ c' hc' (by omega)

theorem operators_stableAt (minBp : Nat) (lhs : Expr) :
    StableAt 3 (n + 1) (operators · minBp lhs) := by
  intro c hc h
  have hm := exprMoves n
  -- once the form after `lhs` has consumed its tokens, the loop goes on with fewer
  have cont : ∀ l c', c'.Ok → c'.rem < c.rem →
      (operators n minBp l).exec c' = (operators (n + 1) minBp l).exec c' :=
    fun l c' hc' hlt => ih.operators minBp l c' hc' (by omega)
  dsimp only
  rw [operators, operators, exec_bind_of (exec_peek c), exec_bind_of (exec_peek c)]
  dsimp only
  by_cases hpost : (c.current.kind == .dot || c.current.kind == .lBracket ||
      c.current.kind == .lParen) = true
  · rw [if_pos hpost, if_pos hpost]
    by_cases hp : postfixPower < minBp
    · rw [if_pos hp, if_pos hp]
    rw [if_neg hp, if_neg hp]
    by_cases hdot : (c.current.kind == .dot) = true
    · rw [if_pos hdot, if_pos hdot]
      exact exec_bind_congr_advances (ih.member lhs c hc (by omega)) (hm.member lhs)
        (member_advances lhs n) hc cont
    rw [if_neg hdot, if_neg hdot]
    by_cases hbr : (c.current.kind == .lBracket) = true
    · rw [if_pos hbr, if_pos hbr]
      exact exec_bind_congr_advances (ih.index lhs c hc (by omega)) (hm.index lhs)
        (index_advances lhs n) hc cont
    rw [if_neg hbr, if_neg hbr]
    exact exec_bind_congr_advances (ih.call lhs c hc (by omega)) (hm.call lhs)
      (call_advances lhs n) hc cont
  rw [if_neg hpost, if_neg hpost]
  by_cases hassign : (c.current.kind == .assign) = true
  · rw [if_pos hassign, if_pos hassign]
    by_cases hp : 2 < minBp
    · rw [if_pos hp, if_pos hp]
    rw [if_neg hp, if_neg hp]
    exact operators_after_operator ih hc h (ne_eof_of_beq hassign (by decide)) cont
  rw [if_neg hassign, if_neg hassign]
  cases hop : binOp? c.current.kind with
  | none => rfl
  | some op =>
    dsimp only
    by_cases hp : op.power.1 < minBp
    · rw [if_pos hp, if_pos hp]
    rw [if_neg hp, if_neg hp]
    exact operators_after_operator ih hc h (ne_eof_of_binOp hop) cont

theorem operand_stableAt : StableAt 1 (n + 1) operand := by
  intro c hc h
  have hm := exprMoves n
  rw [operand, operand, exec_bind_of (exec_peek c), exec_bind_of (exec_peek c)]
  rcases hk : c.current with ⟨kind, lexeme, span⟩
  have hne : kind ≠ .eof → c.current.kind ≠ .eof := fun h => by rw [hk]; exact h
  -- the alternatives that recurse do so after their first token
  cases kind
  case lParen =>
    have hs := rem_step hc (hne (by decide))
    have hc₁ := (Follows.step c).ok hc
    rw [exec_bind_of (exec_advance c), exec_bind_of (exec_advance c)]
    exact exec_bind_congr_moves (ih.expr 0 c.step hc₁ (by omega)) (hm.expr 0) hc₁
      fun _ _ _ _ => rfl
  case kwNew =>
    refine exec_bind_congr_expect (by rw [hk]) (by decide) hc fun hc₁ hs => ?_
    refine exec_bind_congr_advances (type_stable n c.step hc₁ (by omega)) (type_moves n)
      (type_advances n) hc₁ fun _ c₂ hc₂ hlt => ?_
    exact exec_bind_congr_moves (ih.arguments .lParen .rParen (by decide) c₂ hc₂ (by omega))
      (hm.arguments _ _) hc₂
      fun _ _ _ _ => rfl
  case lBracket =>
    refine exec_bind_congr_expect (by rw [hk]) (by decide) hc fun hc₁ hs => ?_
    refine exec_bind_congr_advances (type_stable n c.step hc₁ (by omega)) (type_moves n)
      (type_advances n) hc₁ fun _ c₂ hc₂ hlt => ?_
    refine exec_bind_congr_moves rfl (Moves.expect _) hc₂ fun _ c₃ hc₃ hle => ?_
    exact exec_bind_congr_moves (ih.arguments .lBracket .rBracket (by decide) c₃ hc₃ (by omega))
      (hm.arguments _ _) hc₃
      fun _ _ _ _ => rfl
  case kwCast =>
    refine exec_bind_congr_expect (by rw [hk]) (by decide) hc fun hc₁ hs => ?_
    refine exec_bind_congr_advances rfl (Moves.expect _) (Advances.expect .less (by decide)) hc₁
      fun _ c₂ hc₂ hlt₂ => ?_
    refine exec_bind_congr_advances (type_stable n c₂ hc₂ (by omega)) (type_moves n)
      (type_advances n) hc₂ fun _ c₃ hc₃ hlt₃ => ?_
    refine exec_bind_congr_moves rfl (Moves.expect _) hc₃ fun _ c₄ hc₄ hle₄ => ?_
    refine exec_bind_congr_moves rfl (Moves.expect _) hc₄ fun _ c₅ hc₅ hle₅ => ?_
    exact exec_bind_congr_moves (ih.expr 0 c₅ hc₅ (by omega)) (hm.expr 0) hc₅ fun _ _ _ _ => rfl
  case minus | bang =>
    rw [exec_bind_of (exec_peekAt 1 c), exec_bind_of (exec_peekAt 1 c)]
    split
    · rfl
    · have hs := rem_step hc (hne (by decide))
      have hc₁ := (Follows.step c).ok hc
      rw [exec_bind_of (exec_skip c), exec_bind_of (exec_skip c)]
      exact exec_bind_congr_moves (ih.expr _ c.step hc₁ (by omega)) (hm.expr _) hc₁
        fun _ _ _ _ => rfl
  all_goals rfl

theorem member_stableAt (obj : Expr) : StableAt 1 (n + 1) (member · obj) := by
  intro c hc h
  dsimp only
  rw [member, member]
  refine exec_bind_congr_advances rfl (Moves.expect _) (Advances.expect .dot (by decide)) hc
    fun _ c₁ hc₁ hlt₁ => ?_
  refine exec_bind_congr_advances rfl Moves.expectIdent Advances.expectIdent hc₁
    fun _ c₂ hc₂ hlt₂ => ?_
  refine exec_bind_congr_moves rfl (Moves.check _) hc₂ fun b c₃ hc₃ hle₃ => ?_
  split
  · exact exec_bind_congr_moves (ih.arguments .lParen .rParen (by decide) c₃ hc₃ (by omega))
      ((exprMoves n).arguments _ _) hc₃ fun _ _ _ _ => rfl
  · rfl

theorem index_stableAt (obj : Expr) : StableAt 1 (n + 1) (index · obj) := by
  intro c hc h
  dsimp only
  rw [index, index]
  refine exec_bind_congr_advances rfl (Moves.expect _) (Advances.expect .lBracket (by decide)) hc
    fun _ c₁ hc₁ hlt₁ => ?_
  exact exec_bind_congr_moves (ih.expr 0 c₁ hc₁ (by omega)) ((exprMoves n).expr 0) hc₁
    fun _ _ _ _ => rfl

theorem call_stableAt (callee : Expr) : StableAt 2 (n + 1) (call · callee) := by
  intro c hc h
  dsimp only
  unfold Syntax.Parse.call
  split
  · exact exec_bind_congr_moves (ih.arguments .lParen .rParen (by decide) c hc (by omega))
      ((exprMoves n).arguments _ _) hc fun _ _ _ _ => rfl
  · rfl

theorem arguments_stableAt {o : TokenKind} (k : TokenKind) (ho : o ≠ .eof) :
    StableAt 1 (n + 1) (arguments · o k) := by
  intro c hc h
  dsimp only
  rw [arguments, arguments]
  refine exec_bind_congr_advances rfl (Moves.expect _) (Advances.expect o ho) hc
    fun _ c₁ hc₁ hlt₁ => ?_
  refine exec_bind_congr_moves rfl (Moves.check _) hc₁ fun b c₂ hc₂ hle₂ => ?_
  dsimp only
  split
  · rfl
  · exact exec_bind_congr_moves (ih.argumentList _ c₂ hc₂ (by omega))
      ((exprMoves n).argumentList _) hc₂ fun _ _ _ _ => rfl

theorem argumentList_stableAt (acc : Array Expr) : StableAt 3 (n + 1) (argumentList · acc) := by
  intro c hc h
  dsimp only
  rw [argumentList, argumentList]
  refine exec_bind_congr_advances (ih.expr 0 c hc (by omega)) ((exprMoves n).expr 0)
    (expr_advances 0 n) hc fun e c₁ hc₁ hlt₁ => ?_
  refine exec_bind_congr_moves rfl (Moves.eat _) hc₁ fun r c₂ hc₂ hle₂ => ?_
  split
  · exact ih.argumentList _ c₂ hc₂ (by omega)
  · rfl

theorem ExprStable.succ : ExprStable (n + 1) where
  expr minBp c hc h := by
    dsimp only
    rw [Syntax.Parse.expr, Syntax.Parse.expr]
    exact exec_bind_congr_advances (ih.operand c hc (by omega)) (exprMoves n).operand
      (operand_advances n) hc fun lhs c' hc' hlt => ih.operators minBp lhs c' hc' (by omega)
  operators := operators_stableAt ih
  operand := operand_stableAt ih
  member := member_stableAt ih
  index := index_stableAt ih
  call := call_stableAt ih
  arguments _ k ho := arguments_stableAt ih k ho
  argumentList := argumentList_stableAt ih

end ExprStable

theorem exprStable : ∀ n, ExprStable n
  | 0 => ⟨fun _ _ _ h => by omega, fun _ _ _ _ h => by omega, fun _ _ h => by omega,
      fun _ _ _ h => by omega, fun _ _ _ h => by omega, fun _ _ _ h => by omega,
      fun _ _ _ _ _ h => by omega, fun _ _ _ h => by omega⟩
  | n + 1 => (exprStable n).succ

end ClassCompiler.Syntax.Parse
