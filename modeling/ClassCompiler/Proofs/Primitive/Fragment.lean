import ClassCompiler.Proofs.Primitive.Semantics
import ClassCompiler.Proofs.Machine.Value

/-!
# Primitive programs

Which programs the primitive semantics is about, read off their syntax, and
how its values sit on the machine.

* `FragExpr vars e`: `e` is built from `int`, `long` and `bool` literals,
  variables among `vars`, the operators, assignments to variables, numeric
  casts and calls by bare name;
* `FragStmt vars s vars'`: `s` is a statement of such expressions (`let`,
  assignment, block, `if`, `while`, `return`), `vars'` the variables in scope
  after it;
* `FragFn f`: a function whose parameter and return types are primitive and
  whose body is in the fragment;
* `fragFn?`, `fragFn_of_check`: the fragment checked by evaluation, so that
  it can be decided for a given program;
* `PVal.toValue`: the machine value of a source value: the narrow types and
  `bool` are ints (`false` is 0, `true` is 1).
-/

namespace ClassCompiler.Primitive

open Syntax Machine

/-- The machine value of a source value. -/
def PVal.toValue : PVal → Value
  | .int v => .int v
  | .long v => .long v
  | .bool b => .int (if b then 1 else 0)
  | .byte v => .int v.toInt32
  | .char v => .int v.toUInt32.toInt32
  | .short v => .int v.toInt32

/-- The variable an assignment target names, in as many parentheses as it
    likes. -/
inductive LocalTarget (vars : List String) : Expr → Prop
  | ident {id : Ident} : id.name ∈ vars → LocalTarget vars (.ident id)
  | paren {e : Expr} {sp : Span} : LocalTarget vars e → LocalTarget vars (.paren e sp)

/-- Expressions of the fragment over the variables `vars`. -/
inductive FragExpr (vars : List String) : Expr → Prop
  | int {v : Int32} {sp : Span} : FragExpr vars (.lit (.int v) sp)
  | long {v : Int64} {sp : Span} : FragExpr vars (.lit (.long v) sp)
  | bool {b : Bool} {sp : Span} : FragExpr vars (.lit (.bool b) sp)
  | ident {id : Ident} : id.name ∈ vars → FragExpr vars (.ident id)
  | paren {e : Expr} {sp : Span} : FragExpr vars e → FragExpr vars (.paren e sp)
  | unary {op : UnOp} {e : Expr} {sp : Span} : FragExpr vars e → FragExpr vars (.unary op e sp)
  | binary {op : BinOp} {l r : Expr} {sp : Span} :
      FragExpr vars l → FragExpr vars r → FragExpr vars (.binary op l r sp)
  | assign {target value : Expr} {sp : Span} :
      LocalTarget vars target → FragExpr vars value → FragExpr vars (.assign target value sp)
  | call {callee : Ident} {args : List Expr} {sp : Span} :
      (∀ a ∈ args, FragExpr vars a) → FragExpr vars (.call callee args sp)
  | cast {t : TypeExpr} {e : Expr} {sp : Span} :
      (PTy.ofTypeExpr? t).isSome → FragExpr vars e → FragExpr vars (.cast t e sp)

mutual

/-- Statements of the fragment, from the variables in scope before to those
    after. -/
inductive FragStmt : List String → Stmt → List String → Prop
  | expr {vars : List String} {e : Expr} {sp : Span} :
      FragExpr vars e → FragStmt vars (.expr e sp) vars
  | letDecl {vars : List String} {x : Ident} {ty : Option TypeExpr} {init : Expr} {sp : Span} :
      (∀ t ∈ ty, (PTy.ofTypeExpr? t).isSome) → FragExpr vars init →
      FragStmt vars (.letDecl x ty init sp) (x.name :: vars)
  | ret {vars : List String} {value : Option Expr} {sp : Span} :
      (∀ e ∈ value, FragExpr vars e) → FragStmt vars (.ret value sp) vars
  | block {vars : List String} {b : Block} : FragBlock vars b → FragStmt vars (.block b) vars
  | ifThen {vars : List String} {c : Expr} {t : Block} {sp : Span} :
      FragExpr vars c → FragBlock vars t → FragStmt vars (.ifElse c t none sp) vars
  /-- The `else` branch declares nothing, as a block or a further `if` does. -/
  | ifElse {vars : List String} {c : Expr} {t : Block} {e : Stmt} {sp : Span} :
      FragExpr vars c → FragBlock vars t → FragStmt vars e vars →
      FragStmt vars (.ifElse c t (some e) sp) vars
  | while {vars : List String} {c : Expr} {body : Block} {sp : Span} :
      FragExpr vars c → FragBlock vars body → FragStmt vars (.while c body sp) vars

/-- A block of the fragment; its own variables end with it. -/
inductive FragBlock : List String → Block → Prop
  | mk {vars vars' : List String} {stmts : List Stmt} {sp : Span} :
      FragStmts vars stmts vars' → FragBlock vars (.mk stmts sp)

inductive FragStmts : List String → List Stmt → List String → Prop
  | nil {vars : List String} : FragStmts vars [] vars
  | cons {vars vars' vars'' : List String} {s : Stmt} {rest : List Stmt} :
      FragStmt vars s vars' → FragStmts vars' rest vars'' → FragStmts vars (s :: rest) vars''

end

/-- The return type of a function: `none` for `void`. -/
def retType? (f : FnDecl) : Option (Option PTy) :=
  match f.sig.ret with
  | none => some none
  | some t =>
    if t.dims = 0 ∧ t.path.dotted = "void" then some none
    else (PTy.ofTypeExpr? t).map some

/-- A function of the fragment: primitive parameters, a primitive or `void`
    result, and a body of the fragment over its parameters. -/
structure FragFn (f : FnDecl) : Prop where
  params : (paramTypes? f).isSome
  ret : (retType? f).isSome
  body : ∃ vars', FragStmts (f.sig.params.map (·.name.name)).reverse f.body.stmts vars'

/-- A file whose global functions are all of the fragment. -/
def FragFile (sf : SourceFile) : Prop := ∀ f ∈ functions sf, FragFn f

/-! ### Deciding the fragment -/

/-- Whether `e` is an assignment target naming a variable among `vars`. -/
def localTarget? (vars : List String) : Expr → Bool
  | .ident id => vars.contains id.name
  | .paren e _ => localTarget? vars e
  | _ => false

mutual

/-- Whether `e` is an expression of the fragment over `vars`. -/
def fragExpr? (vars : List String) : Expr → Bool
  | .lit (.int _) _ | .lit (.long _) _ | .lit (.bool _) _ => true
  | .ident id => vars.contains id.name
  | .paren e _ | .unary _ e _ => fragExpr? vars e
  | .binary _ l r _ => fragExpr? vars l && fragExpr? vars r
  | .assign target value _ => localTarget? vars target && fragExpr? vars value
  | .call _ args _ => fragArgs? vars args
  | .cast t e _ => (PTy.ofTypeExpr? t).isSome && fragExpr? vars e
  | _ => false

/-- Whether every argument is an expression of the fragment over `vars`. -/
def fragArgs? (vars : List String) : List Expr → Bool
  | [] => true
  | a :: args => fragExpr? vars a && fragArgs? vars args

end

mutual

/-- The variables in scope after `s`, when `s` is a statement of the fragment
    over `vars`. -/
def fragStmt? (vars : List String) : Stmt → Option (List String)
  | .expr e _ => if fragExpr? vars e then some vars else none
  | .letDecl x ty init _ =>
    if (ty.all fun t => (PTy.ofTypeExpr? t).isSome) && fragExpr? vars init then some (x.name :: vars) else none
  | .ret value _ => if value.all (fragExpr? vars) then some vars else none
  | .block b => if fragBlock? vars b then some vars else none
  | .ifElse c t none _ => if fragExpr? vars c && fragBlock? vars t then some vars else none
  | .ifElse c t (some e) _ =>
    if fragExpr? vars c && fragBlock? vars t && fragStmt? vars e == some vars then some vars else none
  | .while c body _ => if fragExpr? vars c && fragBlock? vars body then some vars else none

/-- Whether `b` is a block of the fragment over `vars`. -/
def fragBlock? (vars : List String) : Block → Bool
  | .mk stmts _ => (fragStmts? vars stmts).isSome

/-- The variables in scope after `ss`, when they are statements of the
    fragment over `vars`. -/
def fragStmts? (vars : List String) : List Stmt → Option (List String)
  | [] => some vars
  | s :: rest => (fragStmt? vars s).bind fun vars' => fragStmts? vars' rest

end

/-- Whether `f` is a function of the fragment. -/
def fragFn? (f : FnDecl) : Bool :=
  (paramTypes? f).isSome && (retType? f).isSome &&
    (fragStmts? (f.sig.params.map (·.name.name)).reverse f.body.stmts).isSome

section Decide

variable {vars : List String}

theorem localTarget_of_check : ∀ {e : Expr}, localTarget? vars e = true → LocalTarget vars e
  | .ident id, h => .ident (by simpa [localTarget?] using h)
  | .paren e _, h => .paren (localTarget_of_check (by simpa [localTarget?] using h))
  | .lit .., h | .binary .., h | .unary .., h | .assign .., h | .call .., h | .field .., h | .method .., h
  | .index .., h | .cast .., h | .newObj .., h | .array .., h => by simp [localTarget?] at h

mutual

theorem fragExpr_of_check : ∀ {e : Expr}, fragExpr? vars e = true → FragExpr vars e
  | .lit (.int _) _, _ => .int
  | .lit (.long _) _, _ => .long
  | .lit (.bool _) _, _ => .bool
  | .ident id, h => .ident (by simpa [fragExpr?] using h)
  | .paren e _, h => .paren (fragExpr_of_check (by simpa [fragExpr?] using h))
  | .unary _ e _, h => .unary (fragExpr_of_check (by simpa [fragExpr?] using h))
  | .binary _ l r _, h => by
    simp only [fragExpr?, Bool.and_eq_true] at h
    exact .binary (fragExpr_of_check h.1) (fragExpr_of_check h.2)
  | .assign target value _, h => by
    simp only [fragExpr?, Bool.and_eq_true] at h
    exact .assign (localTarget_of_check h.1) (fragExpr_of_check h.2)
  | .call _ args _, h => .call (fragArgs_of_check (by simpa [fragExpr?] using h))
  | .cast t e _, h => by
    simp only [fragExpr?, Bool.and_eq_true] at h
    exact .cast h.1 (fragExpr_of_check h.2)
  | .lit (.float _) _, h | .lit (.double _) _, h | .lit (.string _) _, h | .lit .null _, h
  | .field .., h | .method .., h | .index .., h | .newObj .., h | .array .., h => by simp [fragExpr?] at h

theorem fragArgs_of_check : ∀ {args : List Expr}, fragArgs? vars args = true → ∀ a ∈ args, FragExpr vars a
  | [], _ => fun _ ha => absurd ha List.not_mem_nil
  | b :: args, h => by
    simp only [fragArgs?, Bool.and_eq_true] at h
    have hb := fragExpr_of_check h.1
    have hargs := fragArgs_of_check h.2
    intro a ha
    rcases List.mem_cons.1 ha with rfl | ha
    · exact hb
    · exact hargs a ha

end

mutual

theorem fragStmt_of_check : ∀ {vars vars' : List String} {s : Stmt}, fragStmt? vars s = some vars' → FragStmt vars s vars'
  | _, _, .expr e _, h => by
    simp only [fragStmt?, Option.ite_none_right_eq_some, Option.some.injEq] at h
    obtain ⟨he, rfl⟩ := h
    exact .expr (fragExpr_of_check he)
  | _, _, .letDecl x ty init _, h => by
    simp only [fragStmt?, Option.ite_none_right_eq_some, Option.some.injEq, Bool.and_eq_true, Option.all_eq_true] at h
    obtain ⟨⟨hty, hinit⟩, rfl⟩ := h
    exact .letDecl hty (fragExpr_of_check hinit)
  | _, _, .ret value _, h => by
    simp only [fragStmt?, Option.ite_none_right_eq_some, Option.some.injEq, Option.all_eq_true] at h
    obtain ⟨hv, rfl⟩ := h
    exact .ret fun e he => fragExpr_of_check (hv e he)
  | _, _, .block b, h => by
    simp only [fragStmt?, Option.ite_none_right_eq_some, Option.some.injEq] at h
    obtain ⟨hb, rfl⟩ := h
    exact .block (fragBlock_of_check hb)
  | _, _, .ifElse c t none _, h => by
    simp only [fragStmt?, Option.ite_none_right_eq_some, Option.some.injEq, Bool.and_eq_true] at h
    obtain ⟨⟨hc, ht⟩, rfl⟩ := h
    exact .ifThen (fragExpr_of_check hc) (fragBlock_of_check ht)
  | _, _, .ifElse c t (some e) _, h => by
    simp only [fragStmt?, Option.ite_none_right_eq_some, Option.some.injEq, Bool.and_eq_true, beq_iff_eq] at h
    obtain ⟨⟨⟨hc, ht⟩, he⟩, rfl⟩ := h
    exact .ifElse (fragExpr_of_check hc) (fragBlock_of_check ht) (fragStmt_of_check he)
  | _, _, .while c body _, h => by
    simp only [fragStmt?, Option.ite_none_right_eq_some, Option.some.injEq, Bool.and_eq_true] at h
    obtain ⟨⟨hc, hb⟩, rfl⟩ := h
    exact .while (fragExpr_of_check hc) (fragBlock_of_check hb)

theorem fragBlock_of_check : ∀ {vars : List String} {b : Block}, fragBlock? vars b = true → FragBlock vars b
  | _, .mk stmts _, h => by
    obtain ⟨vars', h⟩ := Option.isSome_iff_exists.1 h
    exact .mk (fragStmts_of_check h)

theorem fragStmts_of_check : ∀ {vars vars' : List String} {ss : List Stmt}, fragStmts? vars ss = some vars' →
    FragStmts vars ss vars'
  | _, _, [], h => by
    cases h
    exact .nil
  | _, _, s :: rest, h => by
    obtain ⟨vars₁, h₁, h⟩ := Option.bind_eq_some_iff.1 h
    exact .cons (fragStmt_of_check h₁) (fragStmts_of_check h)

end

/-- A function the check accepts is of the fragment. -/
theorem fragFn_of_check {f : FnDecl} (h : fragFn? f = true) : FragFn f := by
  simp only [fragFn?, Bool.and_eq_true] at h
  obtain ⟨⟨hp, hr⟩, hb⟩ := h
  obtain ⟨vars', hb⟩ := Option.isSome_iff_exists.1 hb
  exact ⟨hp, hr, vars', fragStmts_of_check hb⟩

/-- A file the check accepts is of the fragment. -/
theorem fragFile_of_check {sf : SourceFile} (h : (functions sf).all fragFn? = true) : FragFile sf :=
  fun f hf => fragFn_of_check (List.all_eq_true.1 h f hf)

end Decide

end ClassCompiler.Primitive
