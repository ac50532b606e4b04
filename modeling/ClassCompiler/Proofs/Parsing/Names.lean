import ClassCompiler.Proofs.Parsing.Reports
import ClassCompiler.Proofs.Structure.Table

/-!
# Names are identifiers

The scanner makes an identifier token only from a letter or `_` followed by
the longest run of letters, digits and `_`, and a keyword or an operator is
never of the identifier class. The parser takes every name it binds from an
identifier token. So every function of a parsed file is named by an
identifier, and none is named `<init>`, the name the class file format keeps
for constructors.

* `isIdentifier`: the spelling of an identifier;
* `tokenize_ident`: every identifier token the scanner makes is so spelled;
* `Parse.Gives`: every value a parsing step returns has a property, from a
  cursor whose identifier tokens are spelled as identifiers;
* `parse_functions_named`: every function of a parsed file has an identifier
  as its name.
-/

namespace ClassCompiler

/-- The spelling of an identifier: a letter or `_`, then letters, digits and `_`. -/
def isIdentifier (s : String) : Bool :=
  match s.toList with
  | c :: cs => isIdentStart c && cs.all isIdentContinue
  | [] => false

theorem isIdentifier_constructorName : isIdentifier constructorName = false := by decide

/-! ### The scanner -/

section Scanner

/-- The run of characters read by `eatWhile` is the text of the token made from it. -/
theorem tokenFrom_eatWhile (k : TokenKind) (s : Scan) (p : Char → Bool) :
    (tokenFrom k s.rest s.pos (s.eatWhile p).1).lexeme = String.ofList (s.rest.takeWhile p) := by
  simp only [tokenFrom, Scan.eatWhile, Pos.stepAll_chars, Nat.add_sub_cancel_left]
  rw [← List.prefix_iff_eq_take.1 (List.takeWhile_prefix _)]

theorem isIdentifier_takeWhile {c : Char} {r : List Char} (h : isIdentStart c = true) :
    isIdentifier (String.ofList ((c :: r).takeWhile isIdentContinue)) = true := by
  rw [List.takeWhile_cons_of_pos (isIdentContinue_of_isIdentStart h)]
  simp only [isIdentifier, String.toList_ofList, h, Bool.true_and]
  exact List.all_takeWhile

theorem keyword?_ne_ident (s : String) : TokenKind.keyword? s ≠ some .ident := by
  unfold TokenKind.keyword?
  split <;> simp

theorem operatorKind?_ne_ident (c : Char) (next : Option Char) (two : Bool) :
    operatorKind? c next ≠ some (.ident, two) := by
  unfold operatorKind?
  split <;> simp

theorem scanStringBody_kind (start : Pos) (src : List Char) :
    ∀ r p errs, (scanStringBody start src r p errs).1.kind ≠ .ident := by
  intro r p errs
  fun_induction scanStringBody start src r p errs <;> simp_all [errorToken, tokenFrom]

theorem scanNumber_kind (s : Scan) : (scanNumber s).1.kind ≠ .ident := by
  unfold scanNumber scanNumber.finish
  dsimp only
  repeat' split
  all_goals simp_all [errorToken, tokenFrom]

/-- A token of the identifier class is made only from a letter or `_` and the
    run of letters, digits and `_` after it. -/
theorem scanOne_ident {s s' : Scan} {t : Token} (h : scanOne s = .token t s') (hk : t.kind = .ident) :
    isIdentifier t.lexeme = true := by
  unfold scanOne at h
  split at h
  · cases h
    cases hk
  rename_i c r hr
  dsimp only at h
  split at h
  · -- a slash: a comment, an unterminated one, or the operator
    repeat' split at h
    all_goals cases h
    all_goals simp [errorToken, tokenFrom] at hk
  split at h
  · cases h
    exact absurd hk (scanStringBody_kind _ _ _ _ _)
  split at h
  · cases h
    exact absurd hk (scanNumber_kind s)
  split at h
  · rename_i hstart
    cases h
    -- a word: its class is that of a keyword when it is one
    have hkw : TokenKind.keyword? (String.ofList (s.rest.takeWhile isIdentContinue)) = none := by
      cases hkw : TokenKind.keyword? (String.ofList (s.rest.takeWhile isIdentContinue)) with
      | none => rfl
      | some k =>
        simp only [Scan.eatWhile, hkw, Option.getD_some, tokenFrom] at hk
        exact absurd (hkw.trans (congrArg some hk)) (keyword?_ne_ident _)
    rw [tokenFrom_eatWhile, hr]
    exact isIdentifier_takeWhile hstart
  split at h
  · rename_i kind two hop
    cases h
    simp only [tokenFrom] at hk
    exact absurd (hk ▸ hop) (operatorKind?_ne_ident c r.head? two)
  · cases h
    cases hk

/-- Every identifier token the scanning loop has made is spelled as an identifier. -/
theorem scanAll_ident : ∀ n (s : Scan) (acc : Array Token),
    (∀ t ∈ acc, t.kind = .ident → isIdentifier t.lexeme = true) →
    ∀ t ∈ (scanAll n s acc).1, t.kind = .ident → isIdentifier t.lexeme = true
  | 0, s, acc, hacc, t, ht, hk => by
    rcases Array.mem_push.1 ht with ht | rfl
    · exact hacc t ht hk
    · cases hk
  | n + 1, s, acc, hacc, t, ht, hk => by
    rw [scanAll] at ht
    split at ht
    · exact scanAll_ident n _ acc hacc t ht hk
    · rename_i t' s' hstep
      -- the token just made joins the others
      have hacc' : ∀ u ∈ acc.push t', u.kind = .ident → isIdentifier u.lexeme = true := by
        intro u hu hku
        rcases Array.mem_push.1 hu with hu | rfl
        · exact hacc u hu hku
        · exact scanOne_ident hstep hku
      split at ht
      · exact hacc' t ht hk
      · exact scanAll_ident n _ _ hacc' t ht hk

/-- Every identifier token of a text is spelled as an identifier. -/
theorem tokenize_ident (src : String) :
    ∀ t ∈ (tokenize src).1, t.kind = .ident → isIdentifier t.lexeme = true :=
  scanAll_ident _ _ _ (by simp)

end Scanner

/-! ### The parser -/

namespace Syntax

/-- A function named by an identifier. -/
def FnDecl.Named (f : FnDecl) : Prop := isIdentifier f.sig.name.name = true

/-- Every identifier token of the cursor, its end token included, is spelled
    as an identifier. -/
def Cursor.Spelled (c : Cursor) : Prop :=
  ∀ t, (t ∈ c.toks ∨ t = c.eof) → t.kind = .ident → isIdentifier t.lexeme = true

namespace Cursor

variable {c c' : Cursor}

theorem Spelled.current (h : c.Spelled) (hk : c.current.kind = .ident) :
    isIdentifier c.current.lexeme = true := by
  refine h _ ?_ hk
  unfold Cursor.current
  rw [Array.getD_eq_getD_getElem?]
  cases hg : c.toks[c.pos]? with
  | none => exact .inr rfl
  | some t => exact .inl (Array.mem_of_getElem? hg)

/-- A cursor further on has the same tokens. -/
theorem Follows.spelled (h : c.Follows c') (hc : c.Spelled) : c'.Spelled := by
  intro t ht
  rw [h.toks, h.eof] at ht
  exact hc t ht

/-- The cursor over the tokens of a text, whose identifier tokens are spelled as
    identifiers, and whose end token is the last of them. -/
theorem ofTokens_spelled {toks : Array Token}
    (h : ∀ t ∈ toks, t.kind = .ident → isIdentifier t.lexeme = true)
    (hback : ∃ t, toks.back? = some t ∧ t.kind = .eof) : (Cursor.ofTokens toks).Spelled := by
  obtain ⟨e, he, hk⟩ := hback
  rintro t (ht | rfl) htk
  · simp only [Cursor.ofTokens, Array.mem_filter] at ht
    exact h t ht.1 htk
  · simp only [Cursor.ofTokens, he, Option.getD_some] at htk
    rw [hk] at htk
    cases htk

end Cursor

namespace Parse

variable {α β : Type} {P : α → Prop} {Q : β → Prop} {p : Parse α} {f : α → Parse β}

/-- Every value the step returns, from a cursor whose identifier tokens are
    spelled as identifiers, has `P`. -/
def Gives (P : α → Prop) (p : Parse α) : Prop :=
  ∀ c a c', c.Spelled → p.exec c = (.ok a, c') → P a

namespace Gives

protected theorem pure {a : α} (h : P a) : Gives P (pure a : Parse α) := by
  intro c b c' _ he
  simp only [exec_pure, Prod.mk.injEq, Except.ok.injEq] at he
  exact he.1 ▸ h

protected theorem throw {e : ParseError} : Gives P (throw e : Parse α) := by
  intro c b c' _ he
  simp at he

theorem exhausted : Gives P (exhausted : Parse α) := by
  intro c b c' _ he
  simp [Parse.exhausted, exec_bind] at he

/-- A step that moves forward and whose values have `P`, followed by steps whose
    values have `Q` given `P`. -/
protected theorem bind (hm : Moves p) (hp : Gives P p) (hf : ∀ a, P a → Gives Q (f a)) :
    Gives Q (p >>= f) := by
  intro c b c' hc he
  rw [exec_bind] at he
  cases hr : (p.exec c).1 with
  | error e =>
    rw [hr] at he
    cases he
  | ok a =>
    rw [hr] at he
    exact hf a (hp c a _ hc (Prod.ext hr rfl)) _ b c' ((hm.follows c).spelled hc) he

/-- A step that moves forward, whatever it returns, followed by steps whose
    values have `Q`. -/
theorem after (hm : Moves p) (hf : ∀ a, Gives Q (f a)) : Gives Q (p >>= f) :=
  Gives.bind (P := fun _ => True) hm (fun _ _ _ _ _ => trivial) fun a _ => hf a

protected theorem ite {b : Prop} [Decidable b] {q : Parse α} (hp : Gives P p) (hq : Gives P q) :
    Gives P (if b then p else q) := by
  split
  · exact hp
  · exact hq

theorem attempt_bind {f : Except ParseError α → Parse β} (hm : Moves p) (hp : Gives P p)
    (hf : ∀ r, (∀ e, r = .error e → e.kind ≠ .lexical) → (∀ a, r = .ok a → P a) → Gives Q (f r)) :
    Gives Q (attempt p >>= f) := by
  intro c b c' hc he
  rw [exec_bind, exec_attempt] at he
  exact hf _ (hm c).2 (fun a ha => hp c a _ hc (Prod.ext ha rfl)) _ b c' ((hm.follows c).spelled hc) he

/-- The name `expectIdent` reads is the text of an identifier token. -/
theorem expectIdent : Gives (fun i : Ident => isIdentifier i.name = true) expectIdent := by
  intro c i c' hc he
  rw [exec_expectIdent] at he
  split at he
  · rename_i hk
    simp only [Prod.mk.injEq, Except.ok.injEq] at he
    rw [← he.1]
    exact hc.current hk
  · split at he <;> simp at he

end Gives

/-- The loop up to `}` keeps `P` of every element it collects. -/
theorem untilClose_all (hm : Moves p) (hp : Gives P p) :
    ∀ n acc, (∀ x ∈ acc, P x) → Gives (fun xs : Array α => ∀ x ∈ xs, P x) (untilClose p n acc)
  | 0, _, _ => Gives.exhausted
  | n + 1, acc, hacc => by
    rw [untilClose]
    refine Gives.after (Moves.check _) fun _ => Gives.after Moves.atEnd fun _ => ?_
    split
    · exact Gives.pure hacc
    · refine Gives.bind hm hp fun x hx => untilClose_all hm hp n _ fun y hy => ?_
      rcases Array.mem_push.1 hy with hy | rfl
      · exact hacc y hy
      · exact hx

theorem signature_named (n : Nat) : Gives (fun s : Sig => isIdentifier s.name.name = true) (signature n) := by
  refine Gives.after (Moves.expect _) fun _ => Gives.bind Moves.expectIdent Gives.expectIdent fun _ hname => ?_
  refine Gives.after (Moves.expect _) fun _ => Gives.after (Moves.check _) fun _ => ?_
  dsimp only
  rw [ite_bind_eq]
  refine Gives.after (Moves.ite (Moves.pure _) (paramList_moves n _)) fun _ =>
    Gives.after (Moves.expect _) fun _ => Gives.after (Moves.eat _) fun _ => ?_
  rw [ite_bind_eq]
  exact Gives.after (Moves.ite (Moves.map (type_moves n)) (Moves.pure _)) fun _ => Gives.pure hname

theorem function_named (n : Nat) : Gives FnDecl.Named (function n) :=
  Gives.bind (signature_progress n).moves (signature_named n) fun _ h =>
    Gives.after (stmtMoves n).block fun _ => Gives.pure h

theorem moduleBody_named : ∀ n fields methods, (∀ f ∈ methods, FnDecl.Named f) →
    Gives (fun r : Array Field × Array FnDecl => ∀ f ∈ r.2, FnDecl.Named f) (moduleBody n fields methods)
  | 0, _, _, _ => Gives.exhausted
  | n + 1, fields, methods, hms => by
    rw [moduleBody]
    refine Gives.after (Moves.check _) fun _ => Gives.after Moves.atEnd fun _ => ?_
    split
    · exact Gives.pure hms
    · refine Gives.after Moves.peek fun t => ?_
      split
      · exact Gives.after Moves.skip fun _ => Gives.after (Moves.expect _) fun _ =>
          Gives.after (untilClose_moves (field_progress n).moves n _) fun _ =>
          Gives.after (Moves.expect _) fun _ => moduleBody_named n _ _ hms
      · exact Gives.after Moves.skip fun _ => Gives.after (Moves.expect _) fun _ =>
          Gives.bind (untilClose_moves (function_progress n).moves n _)
            (untilClose_all (function_progress n).moves (function_named n) n _ hms) fun _ h =>
          Gives.after (Moves.expect _) fun _ => moduleBody_named n _ _ h
      · exact Gives.throw

/-! #### Declarations and files -/

theorem importDecl_named (n : Nat) : Gives (fun it : Item => ∀ f ∈ it.functions, f.Named) (importDecl n) := by
  refine Gives.after (Moves.expect _) fun _ => Gives.after (path_moves n) fun _ =>
    Gives.after (Moves.eat _) fun _ => ?_
  dsimp only
  rw [ite_bind_eq]
  exact Gives.after (Moves.ite (Moves.map Moves.expectIdent) (Moves.pure _)) fun _ =>
    Gives.after Moves.expectSemicolon fun _ => Gives.after (Moves.setAliases _) fun _ =>
    Gives.pure (by simp [Item.functions])

theorem moduleDecl_named (n : Nat) : Gives (fun it : Item => ∀ f ∈ it.functions, f.Named) (moduleDecl n) := by
  refine Gives.after (Moves.expect _) fun _ => Gives.after (path_moves n) fun _ =>
    Gives.after (Moves.expect _) fun _ =>
    Gives.bind (moduleBody_moves n _ _) (moduleBody_named n _ _ (by simp)) fun r hr => ?_
  obtain ⟨fields, methods⟩ := r
  exact Gives.after (Moves.expect _) fun _ => Gives.pure (by simpa [Item.functions] using hr)

theorem structDecl_named (n : Nat) : Gives (fun it : Item => ∀ f ∈ it.functions, f.Named) (structDecl n) :=
  Gives.after (Moves.expect _) fun _ => Gives.after (path_moves n) fun _ =>
    Gives.after (Moves.expect _) fun _ =>
    Gives.after (untilClose_moves (field_progress n).moves n _) fun _ =>
    Gives.after (Moves.expect _) fun _ => Gives.pure (by simp [Item.functions])

theorem traitDecl_named (n : Nat) : Gives (fun it : Item => ∀ f ∈ it.functions, f.Named) (traitDecl n) :=
  Gives.after (Moves.expect _) fun _ => Gives.after (path_moves n) fun _ =>
    Gives.after (Moves.expect _) fun _ =>
    Gives.after (untilClose_moves (traitMember_progress n).moves n _) fun _ =>
    Gives.after (Moves.expect _) fun _ => Gives.pure (by simp [Item.functions])

theorem implDecl_named (n : Nat) : Gives (fun it : Item => ∀ f ∈ it.functions, f.Named) (implDecl n) :=
  Gives.after (Moves.expect _) fun _ => Gives.after (type_moves n) fun _ =>
    Gives.after (Moves.expect _) fun _ => Gives.after (type_moves n) fun _ =>
    Gives.after (Moves.expect _) fun _ =>
    Gives.bind (untilClose_moves (function_progress n).moves n _)
      (untilClose_all (function_progress n).moves (function_named n) n _ (by simp)) fun _ h =>
    Gives.after (Moves.expect _) fun _ => Gives.pure (by simpa [Item.functions] using h)

theorem item_named (n : Nat) : Gives (fun it : Item => ∀ f ∈ it.functions, f.Named) (item n) := by
  refine Gives.after Moves.peek fun t => ?_
  split
  · exact importDecl_named n
  · exact moduleDecl_named n
  · exact structDecl_named n
  · exact traitDecl_named n
  · exact implDecl_named n
  · exact Gives.bind (function_progress n).moves (function_named n) fun _ h =>
      Gives.pure (by simpa [Item.functions] using h)
  · exact Gives.throw

theorem items_named : ∀ n acc, (∀ it ∈ acc, ∀ f ∈ Item.functions it, f.Named) →
    Gives (fun is : Array Item => ∀ it ∈ is, ∀ f ∈ it.functions, f.Named) (items n acc)
  | 0, _, h => Gives.pure h
  | n + 1, acc, h => by
    rw [items]
    refine Gives.after Moves.atEnd fun _ => ?_
    split
    · exact Gives.pure h
    · refine Gives.after Moves.peek fun _ =>
        Gives.attempt_bind (item_progress n).moves (item_named n) fun r hr hok => ?_
      split
      · -- a declaration parsed joins the others
        refine items_named n _ fun it hit => ?_
        rcases Array.mem_push.1 hit with hit | rfl
        · exact h it hit
        · exact hok _ rfl
      · -- a failed one is recorded and skipped
        refine Gives.after (Moves.record (hr _ rfl)) fun _ => Gives.after Moves.peek fun _ => ?_
        exact Gives.ite
          (Gives.after Moves.skip fun _ => Gives.after (synchronizeItem_moves n) fun _ => items_named n _ h)
          (Gives.after (synchronizeItem_moves n) fun _ => items_named n _ h)

theorem sourceFile_named (n : Nat) :
    Gives (fun file : SourceFile => ∀ f ∈ file.functions, f.Named) (sourceFile n) :=
  Gives.after Moves.peek fun _ => Gives.bind (items_moves n _) (items_named n _ (by simp)) fun _ h =>
    Gives.after Moves.get fun _ => Gives.pure fun f hf => by
      simp only [SourceFile.functions, List.mem_flatMap, Array.mem_toList_iff] at hf
      obtain ⟨it, hit, hf⟩ := hf
      exact h it hit f hf

end Parse

/-- A successful parse of tokens returns the file the parser of a file returned. -/
theorem parseTokens_eq_ok {fuel : Nat} {toks : Array Token} {lexErrors : Array LexError} {file : SourceFile}
    (h : parseTokens fuel toks lexErrors = .ok file) :
    ∃ c, (Parse.sourceFile fuel).exec (Cursor.ofTokens toks) = (.ok file, c) := by
  obtain ⟨file', hfile⟩ := Parse.sourceFile_succeeds fuel (Cursor.ofTokens toks)
  have hrun : (Parse.sourceFile fuel).exec (Cursor.ofTokens toks) =
      (.ok file', ((Parse.sourceFile fuel).exec (Cursor.ofTokens toks)).2) := Prod.ext hfile rfl
  rw [parseTokens_of_run _ hrun] at h
  split at h
  · cases h
    exact ⟨_, hrun⟩
  · cases h

/-- Every function of a parsed file is named by an identifier. -/
theorem parse_functions_named {src : String} {file : SourceFile} (h : parse src = .ok file) :
    ∀ f ∈ file.functions, f.Named := by
  rw [parse_eq_parseTokens] at h
  obtain ⟨c, hrun⟩ := parseTokens_eq_ok h
  exact Parse.sourceFile_named _ _ _ _ (Cursor.ofTokens_spelled (tokenize_ident src) (tokenize_back src)) hrun

/-- No function of a parsed file is named as constructors are. -/
theorem FnDecl.Named.ne_constructorName {f : FnDecl} (h : f.Named) : f.sig.name.name ≠ constructorName := by
  intro he
  rw [FnDecl.Named, he, isIdentifier_constructorName] at h
  cases h

end Syntax

end ClassCompiler
