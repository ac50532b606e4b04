import ClassCompiler.Proofs.Parsing.Recovery

/-!
# The parser's fuel is enough for declarations and files

Declarations are parsed by loops up to a closing `}` (`untilClose`), whose
rounds each consume a token, and a file by the list of its declarations, which
records the error of a failed one, skips a token when nothing moved and then
skips to the next declaration. With eight units of fuel per token plus one,
the parser of a file has enough.

* `untilClose_stable`: a loop of a consuming parser up to `}`, given the fuel
  its body needs, has enough;
* `items_stable`, `sourceFile_stable`: the declarations of a file.
-/

namespace ClassCompiler.Syntax.Parse

open Cursor

/-! ### Signatures, functions and fields -/

theorem paramList_moves : ∀ n acc, Moves (paramList n acc)
  | 0, _ => Moves.exhausted
  | n + 1, acc => by
    rw [paramList]
    refine Moves.bind Moves.expectIdent fun _ => Moves.bind (Moves.expect _) fun _ =>
      Moves.bind (type_moves n) fun _ => Moves.bind (Moves.eat _) fun _ => ?_
    split
    · exact paramList_moves n _
    · exact Moves.pure _

theorem paramList_stable (acc : Array Param) : Stable 1 (paramList · acc) := by
  intro n
  induction n generalizing acc with
  | zero => intro c _ h; omega
  | succ n ih =>
    intro c hc h
    dsimp only
    rw [paramList, paramList]
    refine exec_bind_congr_advances rfl Moves.expectIdent Advances.expectIdent hc
      fun _ c₁ hc₁ hlt₁ => ?_
    refine exec_bind_congr_moves rfl (Moves.expect _) hc₁ fun _ c₂ hc₂ hle₂ => ?_
    refine exec_bind_congr_advances (type_stable n c₂ hc₂ (by omega)) (type_moves n)
      (type_advances n) hc₂ fun _ c₃ hc₃ hlt₃ => ?_
    refine exec_bind_congr_moves rfl (Moves.eat _) hc₃ fun _ c₄ hc₄ hle₄ => ?_
    split
    · exact ih _ c₄ hc₄ (by omega)
    · rfl

theorem signature_progress (n : Nat) : Progress (signature n) := by
  refine (Progress.expect .kwFn (by decide)).bind fun _ => Moves.bind Moves.expectIdent fun _ =>
    Moves.bind (Moves.expect _) fun _ => Moves.bind (Moves.check _) fun _ => ?_
  dsimp only
  rw [ite_bind_eq]
  refine Moves.bind (Moves.ite (Moves.pure _) (paramList_moves n _)) fun _ =>
    Moves.bind (Moves.expect _) fun _ => Moves.bind (Moves.eat _) fun _ => ?_
  rw [ite_bind_eq]
  exact Moves.bind (Moves.ite (Moves.map (type_moves n)) (Moves.pure _)) fun _ => Moves.pure _

theorem signature_stable : Stable 0 signature := by
  intro n c hc h
  refine exec_bind_congr_advances rfl (Moves.expect _) (Advances.expect .kwFn (by decide)) hc
    fun _ c₁ hc₁ hlt₁ => ?_
  refine exec_bind_congr_advances rfl Moves.expectIdent Advances.expectIdent hc₁
    fun _ c₂ hc₂ hlt₂ => ?_
  refine exec_bind_congr_moves rfl (Moves.expect _) hc₂ fun _ c₃ hc₃ hle₃ => ?_
  refine exec_bind_congr_moves rfl (Moves.check _) hc₃ fun _ c₄ hc₄ hle₄ => ?_
  dsimp only
  rw [ite_bind_eq, ite_bind_eq]
  refine exec_bind_congr_moves ?_ (Moves.ite (Moves.pure _) (paramList_moves n _)) hc₄
    fun _ c₅ hc₅ hle₅ => ?_
  · split
    · rfl
    · exact paramList_stable _ n c₄ hc₄ (by omega)
  refine exec_bind_congr_moves rfl (Moves.expect _) hc₅ fun _ c₆ hc₆ hle₆ => ?_
  refine exec_bind_congr_moves rfl (Moves.eat _) hc₆ fun _ c₇ hc₇ hle₇ => ?_
  rw [ite_bind_eq, ite_bind_eq]
  refine exec_bind_congr ?_ fun _ _ _ => rfl
  split
  · rw [exec_map, exec_map, type_stable n c₇ hc₇ (by omega)]
  · rfl

theorem function_progress (n : Nat) : Progress (function n) :=
  (signature_progress n).bind fun _ => Moves.bind (stmtMoves n).block fun _ => Moves.pure _

theorem function_stable : Stable 0 function := by
  intro n c hc h
  refine exec_bind_congr_advances (signature_stable n c hc h) (signature_progress n).moves
    (signature_progress n).advances hc fun _ c₁ hc₁ hlt₁ => ?_
  exact exec_bind_congr ((stmtStable n).block c₁ hc₁ (by omega)) fun _ _ _ => rfl

theorem field_progress (n : Nat) : Progress (field n) :=
  Progress.expectIdent.bind fun _ => Moves.bind (Moves.expect _) fun _ =>
    Moves.bind (type_moves n) fun _ => Moves.bind Moves.expectSemicolon fun _ => Moves.pure _

theorem field_stable : Stable 0 field := by
  intro n c hc h
  refine exec_bind_congr_advances rfl Moves.expectIdent Advances.expectIdent hc
    fun _ c₁ hc₁ hlt₁ => ?_
  refine exec_bind_congr_moves rfl (Moves.expect _) hc₁ fun _ c₂ hc₂ hle₂ => ?_
  exact exec_bind_congr (type_stable n c₂ hc₂ (by omega)) fun _ _ _ => rfl

/-! ### Loops up to a closing brace -/

section UntilClose

variable {β : Type} {p p' : Parse β}

theorem untilClose_moves (hp : Moves p) : ∀ n acc, Moves (untilClose p n acc)
  | 0, _ => Moves.exhausted
  | n + 1, acc => by
    rw [untilClose]
    refine Moves.bind (Moves.check _) fun _ => Moves.bind Moves.atEnd fun _ => ?_
    split
    · exact Moves.pure _
    · exact Moves.bind hp fun _ => untilClose_moves hp n _

/-- A loop whose body consumes goes round at most once per token: fuel beyond
    the tokens left changes nothing. -/
theorem untilClose_succ (hpm : Moves p) (hpa : Advances p) :
    ∀ n acc (c : Cursor), c.Ok → c.rem < n →
      (untilClose p n acc).exec c = (untilClose p (n + 1) acc).exec c
  | 0, _, _, _, h => absurd h (Nat.not_lt_zero _)
  | n + 1, acc, c, hc, h => by
    rw [untilClose, untilClose, exec_bind_of (exec_check _ c), exec_bind_of (exec_check _ c),
      exec_bind_of (exec_atEnd c), exec_bind_of (exec_atEnd c)]
    split
    · rfl
    · exact exec_bind_congr_advances rfl hpm hpa hc fun _ c' hc' hlt =>
        untilClose_succ hpm hpa n _ c' hc' (by omega)

/-- Two bodies that run alike from every cursor up to `c` make loops that run
    alike from `c`. -/
theorem untilClose_congr (hpm : Moves p) (hpa : Advances p) :
    ∀ n acc (c : Cursor), c.Ok → (∀ c' : Cursor, c'.Ok → c'.rem ≤ c.rem → p.exec c' = p'.exec c') →
      (untilClose p n acc).exec c = (untilClose p' n acc).exec c
  | 0, _, _, _, _ => rfl
  | n + 1, acc, c, hc, hpp => by
    rw [untilClose, untilClose, exec_bind_of (exec_check _ c), exec_bind_of (exec_check _ c),
      exec_bind_of (exec_atEnd c), exec_bind_of (exec_atEnd c)]
    split
    · rfl
    · exact exec_bind_congr_advances (hpp c hc (Nat.le_refl _)) hpm hpa hc fun _ c' hc' hlt =>
        untilClose_congr hpm hpa n _ c' hc' fun d hd hle => hpp d hd (by omega)

/-- A loop up to `}` of a body that makes progress and has enough fuel, run
    with the same fuel as its body, has enough. -/
theorem untilClose_stable {L : Nat} {q : Nat → Parse β} (hq : Stable L q)
    (hp : ∀ n, Progress (q n)) (acc : Array β) : Stable (L + 1) fun n => untilClose (q n) n acc := by
  intro n c hc h
  dsimp only
  rw [untilClose_succ (hp n).moves (hp n).advances n acc c hc (by omega)]
  exact untilClose_congr (hp n).moves (hp n).advances (n + 1) acc c hc fun c' hc' hle =>
    hq n c' hc' (by omega)

end UntilClose

/-! ### Declarations -/

theorem moduleBody_moves : ∀ n fields methods, Moves (moduleBody n fields methods)
  | 0, _, _ => Moves.exhausted
  | n + 1, fields, methods => by
    rw [moduleBody]
    refine Moves.bind (Moves.check _) fun _ => Moves.bind Moves.atEnd fun _ => ?_
    split
    · exact Moves.pure _
    · refine Moves.bind Moves.peek fun t => ?_
      split
      · exact Moves.bind Moves.skip fun _ => Moves.bind (Moves.expect _) fun _ =>
          Moves.bind (untilClose_moves (field_progress n).moves n _) fun _ =>
          Moves.bind (Moves.expect _) fun _ => moduleBody_moves n _ _
      · exact Moves.bind Moves.skip fun _ => Moves.bind (Moves.expect _) fun _ =>
          Moves.bind (untilClose_moves (function_progress n).moves n _) fun _ =>
          Moves.bind (Moves.expect _) fun _ => moduleBody_moves n _ _
      · exact Moves.throw (by simp)

theorem moduleBody_stable (fields : Array Field) (methods : Array FnDecl) :
    Stable 1 (moduleBody · fields methods) := by
  intro n
  induction n generalizing fields methods with
  | zero => intro c _ h; omega
  | succ n ih =>
    intro c hc h
    dsimp only
    rw [moduleBody, moduleBody, exec_bind_of (exec_check _ c), exec_bind_of (exec_check _ c),
      exec_bind_of (exec_atEnd c), exec_bind_of (exec_atEnd c)]
    split
    · rfl
    rw [exec_bind_of (exec_peek c), exec_bind_of (exec_peek c)]
    rcases hk : c.current with ⟨kind, lexeme, span⟩
    have hc₁ := (Follows.step c).ok hc
    -- a section: its keyword, its braces and its items, then the next section
    cases kind
    case kwStruct =>
      have hs := rem_step hc (by simp [hk])
      rw [exec_bind_of (exec_skip c), exec_bind_of (exec_skip c)]
      refine exec_bind_congr_moves rfl (Moves.expect _) hc₁ fun _ c₂ hc₂ hle₂ => ?_
      refine exec_bind_congr_moves (untilClose_stable field_stable field_progress fields n c₂ hc₂
        (by omega)) (untilClose_moves (field_progress n).moves n _) hc₂ fun _ c₃ hc₃ hle₃ => ?_
      exact exec_bind_congr_moves rfl (Moves.expect _) hc₃ fun _ c₄ hc₄ hle₄ =>
        ih _ _ c₄ hc₄ (by omega)
    case kwImpl =>
      have hs := rem_step hc (by simp [hk])
      rw [exec_bind_of (exec_skip c), exec_bind_of (exec_skip c)]
      refine exec_bind_congr_moves rfl (Moves.expect _) hc₁ fun _ c₂ hc₂ hle₂ => ?_
      refine exec_bind_congr_moves (untilClose_stable function_stable function_progress methods n c₂
        hc₂ (by omega)) (untilClose_moves (function_progress n).moves n _) hc₂
        fun _ c₃ hc₃ hle₃ => ?_
      exact exec_bind_congr_moves rfl (Moves.expect _) hc₃ fun _ c₄ hc₄ hle₄ =>
        ih _ _ c₄ hc₄ (by omega)
    all_goals rfl

theorem importDecl_progress (n : Nat) : Progress (importDecl n) := by
  refine (Progress.expect .kwImport (by decide)).bind fun _ => Moves.bind (path_moves n) fun _ =>
    Moves.bind (Moves.eat _) fun _ => ?_
  dsimp only
  rw [ite_bind_eq]
  exact Moves.bind (Moves.ite (Moves.map Moves.expectIdent) (Moves.pure _)) fun _ =>
    Moves.bind Moves.expectSemicolon fun _ => Moves.bind (Moves.setAliases _) fun _ => Moves.pure _

theorem importDecl_stable : Stable 0 importDecl := by
  intro n c hc h
  refine exec_bind_congr_advances rfl (Moves.expect _) (Advances.expect .kwImport (by decide)) hc
    fun _ c₁ hc₁ hlt₁ => ?_
  exact exec_bind_congr (path_stable n c₁ hc₁ (by omega)) fun _ _ _ => rfl

theorem moduleDecl_progress (n : Nat) : Progress (moduleDecl n) :=
  (Progress.expect .kwModule (by decide)).bind fun _ => Moves.bind (path_moves n) fun _ =>
    Moves.bind (Moves.expect _) fun _ => Moves.bind (moduleBody_moves n _ _) fun _ =>
    Moves.bind (Moves.expect _) fun _ => Moves.pure _

theorem moduleDecl_stable : Stable 0 moduleDecl := by
  intro n c hc h
  refine exec_bind_congr_advances rfl (Moves.expect _) (Advances.expect .kwModule (by decide)) hc
    fun _ c₁ hc₁ hlt₁ => ?_
  refine exec_bind_congr_advances (path_stable n c₁ hc₁ (by omega)) (path_moves n)
    (path_advances n) hc₁ fun _ c₂ hc₂ hlt₂ => ?_
  refine exec_bind_congr_moves rfl (Moves.expect _) hc₂ fun _ c₃ hc₃ hle₃ => ?_
  exact exec_bind_congr (moduleBody_stable _ _ n c₃ hc₃ (by omega)) fun _ _ _ => rfl

theorem structDecl_progress (n : Nat) : Progress (structDecl n) :=
  (Progress.expect .kwStruct (by decide)).bind fun _ => Moves.bind (path_moves n) fun _ =>
    Moves.bind (Moves.expect _) fun _ =>
    Moves.bind (untilClose_moves (field_progress n).moves n _) fun _ =>
    Moves.bind (Moves.expect _) fun _ => Moves.pure _

theorem structDecl_stable : Stable 0 structDecl := by
  intro n c hc h
  refine exec_bind_congr_advances rfl (Moves.expect _) (Advances.expect .kwStruct (by decide)) hc
    fun _ c₁ hc₁ hlt₁ => ?_
  refine exec_bind_congr_advances (path_stable n c₁ hc₁ (by omega)) (path_moves n)
    (path_advances n) hc₁ fun _ c₂ hc₂ hlt₂ => ?_
  refine exec_bind_congr_moves rfl (Moves.expect _) hc₂ fun _ c₃ hc₃ hle₃ => ?_
  exact exec_bind_congr (untilClose_stable field_stable field_progress _ n c₃ hc₃ (by omega))
    fun _ _ _ => rfl

/-- A signature of a trait, up to its `;`. -/
theorem traitMember_progress (n : Nat) :
    Progress (signature n >>= fun s => expectSemicolon >>= fun _ => (pure s : Parse Sig)) :=
  (signature_progress n).bind fun _ => Moves.bind Moves.expectSemicolon fun _ => Moves.pure _

theorem traitMember_stable :
    Stable 0 fun n => signature n >>= fun s => expectSemicolon >>= fun _ => (pure s : Parse Sig) :=
  fun n c hc h => exec_bind_congr (signature_stable n c hc h) fun _ _ _ => rfl

theorem traitDecl_progress (n : Nat) : Progress (traitDecl n) :=
  (Progress.expect .kwTrait (by decide)).bind fun _ => Moves.bind (path_moves n) fun _ =>
    Moves.bind (Moves.expect _) fun _ =>
    Moves.bind (untilClose_moves (traitMember_progress n).moves n _) fun _ =>
    Moves.bind (Moves.expect _) fun _ => Moves.pure _

theorem traitDecl_stable : Stable 0 traitDecl := by
  intro n c hc h
  refine exec_bind_congr_advances rfl (Moves.expect _) (Advances.expect .kwTrait (by decide)) hc
    fun _ c₁ hc₁ hlt₁ => ?_
  refine exec_bind_congr_advances (path_stable n c₁ hc₁ (by omega)) (path_moves n)
    (path_advances n) hc₁ fun _ c₂ hc₂ hlt₂ => ?_
  refine exec_bind_congr_moves rfl (Moves.expect _) hc₂ fun _ c₃ hc₃ hle₃ => ?_
  exact exec_bind_congr (untilClose_stable traitMember_stable traitMember_progress _ n c₃ hc₃
    (by omega)) fun _ _ _ => rfl

theorem implDecl_progress (n : Nat) : Progress (implDecl n) :=
  (Progress.expect .kwImpl (by decide)).bind fun _ => Moves.bind (type_moves n) fun _ =>
    Moves.bind (Moves.expect _) fun _ => Moves.bind (type_moves n) fun _ =>
    Moves.bind (Moves.expect _) fun _ =>
    Moves.bind (untilClose_moves (function_progress n).moves n _) fun _ =>
    Moves.bind (Moves.expect _) fun _ => Moves.pure _

theorem implDecl_stable : Stable 0 implDecl := by
  intro n c hc h
  refine exec_bind_congr_advances rfl (Moves.expect _) (Advances.expect .kwImpl (by decide)) hc
    fun _ c₁ hc₁ hlt₁ => ?_
  refine exec_bind_congr_advances (type_stable n c₁ hc₁ (by omega)) (type_moves n)
    (type_advances n) hc₁ fun _ c₂ hc₂ hlt₂ => ?_
  refine exec_bind_congr_moves rfl (Moves.expect _) hc₂ fun _ c₃ hc₃ hle₃ => ?_
  refine exec_bind_congr_advances (type_stable n c₃ hc₃ (by omega)) (type_moves n)
    (type_advances n) hc₃ fun _ c₄ hc₄ hlt₄ => ?_
  refine exec_bind_congr_moves rfl (Moves.expect _) hc₄ fun _ c₅ hc₅ hle₅ => ?_
  exact exec_bind_congr (untilClose_stable function_stable function_progress _ n c₅ hc₅
    (by omega)) fun _ _ _ => rfl

theorem item_progress (n : Nat) : Progress (item n) := by
  refine Progress.bind_right Moves.peek fun t => ?_
  split
  · exact importDecl_progress n
  · exact moduleDecl_progress n
  · exact structDecl_progress n
  · exact traitDecl_progress n
  · exact implDecl_progress n
  · exact (function_progress n).bind fun _ => Moves.pure _
  · exact Progress.throw (by simp)

theorem item_stable : Stable 0 item := by
  intro n c hc h
  rw [item, item, exec_bind_of (exec_peek c), exec_bind_of (exec_peek c)]
  rcases hk : c.current with ⟨kind, lexeme, span⟩
  cases kind
  case kwImport => exact importDecl_stable n c hc h
  case kwModule => exact moduleDecl_stable n c hc h
  case kwStruct => exact structDecl_stable n c hc h
  case kwTrait => exact traitDecl_stable n c hc h
  case kwImpl => exact implDecl_stable n c hc h
  case kwFn => exact exec_bind_congr (function_stable n c hc h) fun _ _ _ => rfl
  all_goals rfl

/-! ### The declarations of a file -/

theorem items_moves : ∀ n acc, Moves (items n acc)
  | 0, acc => Moves.pure acc
  | n + 1, acc => by
    rw [items]
    refine Moves.bind Moves.atEnd fun _ => ?_
    split
    · exact Moves.pure _
    · refine Moves.bind Moves.peek fun _ => Moves.attempt_bind (item_progress n).moves fun r hr => ?_
      split
      · exact items_moves n _
      · refine Moves.bind (Moves.record (hr _ rfl)) fun _ => Moves.bind Moves.peek fun _ => ?_
        exact Moves.ite (Moves.bind Moves.skip fun _ => Moves.bind (synchronizeItem_moves n) fun _ =>
          items_moves n _) (Moves.bind (synchronizeItem_moves n) fun _ => items_moves n _)

theorem items_stable (acc : Array Item) : Stable 1 (items · acc) := by
  intro n
  induction n generalizing acc with
  | zero => intro c _ h; omega
  | succ n ih =>
    intro c hc h
    dsimp only
    rw [items, items, exec_bind_of (exec_atEnd c), exec_bind_of (exec_atEnd c)]
    by_cases hend : (c.current.kind == .eof) = true
    · rw [if_pos hend, if_pos hend]
    rw [if_neg hend, if_neg hend]
    have hne : c.current.kind ≠ .eof := fun h => hend (by rw [h]; rfl)
    have hp := item_progress n
    rw [exec_bind_of (exec_peek c), exec_bind_of (exec_peek c)]
    refine exec_bind_congr (by rw [exec_attempt, exec_attempt, item_stable n c hc (by omega)])
      fun r c' h' => ?_
    have hx : (item n).exec c = (r, c') := by
      rw [exec_attempt] at h'
      simp only [Prod.mk.injEq, Except.ok.injEq] at h'
      rw [← h'.1, ← h'.2]
    have hf := hp.moves.follows_of hx
    cases r with
    | ok i =>
      exact ih _ c' (hf.ok hc) (by have := hp.advances.rem_lt hc hx; omega)
    | error e =>
      -- the error is recorded, the token the declaration started from is
      -- skipped when nothing moved, and the parser skips to a declaration
      dsimp only
      have he := (hp.moves c).2 e (by rw [hx])
      rw [exec_bind_of (exec_record e c'), exec_bind_of (exec_record e c')]
      have hf₁ := hf.trans (Follows.record (c := c') he)
      have hc₁ := hf₁.ok hc
      rw [exec_bind_of (exec_peek _), exec_bind_of (exec_peek _)]
      by_cases hskip : ({ c' with errors := c'.errors.push e }.current.span == c.current.span) = true
      · rw [if_pos hskip, if_pos hskip, exec_bind_of (exec_skip _), exec_bind_of (exec_skip _)]
        have hlt := hf₁.step_rem_lt hc hne
        have hc₂ := (Follows.step _).ok hc₁
        refine exec_bind_congr (synchronizeItem_stable n _ hc₂ (by omega)) fun _ c₃ h₃ => ?_
        have := ((synchronizeItem_moves n).follows_of h₃).rem_le
        exact ih acc c₃ (((synchronizeItem_moves n).follows_of h₃).ok hc₂) (by omega)
      · rw [if_neg hskip, if_neg hskip]
        have hpos : c'.pos ≠ c.pos := fun hpos => hskip (by simp [hf₁.current_eq hpos])
        have hlt := hf₁.rem_lt_of_ne hc hne hpos
        refine exec_bind_congr (synchronizeItem_stable n _ hc₁ (by omega)) fun _ c₃ h₃ => ?_
        have := ((synchronizeItem_moves n).follows_of h₃).rem_le
        exact ih acc c₃ (((synchronizeItem_moves n).follows_of h₃).ok hc₁) (by omega)

theorem sourceFile_moves (n : Nat) : Moves (sourceFile n) :=
  Moves.bind Moves.peek fun _ => Moves.bind (items_moves n _) fun _ =>
    Moves.bind Moves.get fun _ => Moves.pure _

/-- The parser of a file, from a cursor with at least eight units of fuel per
    token left plus one, gives what it gives with one more. -/
theorem sourceFile_stable : Stable 1 sourceFile := by
  intro n c hc h
  rw [sourceFile, sourceFile, exec_bind_of (exec_peek c), exec_bind_of (exec_peek c)]
  exact exec_bind_congr (items_stable #[] n c hc h) fun _ _ _ => rfl

end ClassCompiler.Syntax.Parse
