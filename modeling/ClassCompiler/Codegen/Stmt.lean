import ClassCompiler.Codegen.Expr

/-!
# Statements and method bodies

* Every statement first records its line (when line numbers are on).
* `let` takes its declared type or, without one, the initializer's type; a
  bare `null` needs a declared type. The variable is declared after its
  initializer is compiled.
* `if` jumps over the then-block with `IFEQ`; the `GOTO` over the else branch is
  left out when the then-block always returns. `while` tests at the head and
  jumps back with `GOTO`.
* A block's variables can be named only inside it.
* A void method whose end is reachable gets a final `RETURN`; any other method
  must return on every path: some statement of its body is a `return`, a
  block that always returns, or an `if` with an `else` whose branches both
  always return. Loops never count.
-/

namespace ClassCompiler

open Syntax

mutual

/-- Whether every path through a block ends in a `return`. -/
def Syntax.Block.alwaysReturns : Block → Bool
  | .mk stmts _ => Syntax.Stmt.anyReturns stmts

/-- Whether some statement of a list always returns. -/
def Syntax.Stmt.anyReturns : List Stmt → Bool
  | [] => false
  | s :: rest => s.alwaysReturns || Syntax.Stmt.anyReturns rest

/-- Whether every path through a statement ends in a `return`. -/
def Syntax.Stmt.alwaysReturns : Stmt → Bool
  | .ret .. => true
  | .block b => b.alwaysReturns
  | .ifElse _ t (some e) _ => t.alwaysReturns && e.alwaysReturns
  | _ => false

end

namespace Gen

/-- `let name (: ty)? = init;` with the initializer's type compiled. -/
def declareLocal (name : Ident) (declared : Option Ty) (init : Ty) (initSpan span : Span) :
    Gen Unit := do
  let t ← match declared with
    | some t => if t.accepts init then pure t else mismatch (.badInitializer name.name t init) initSpan
    | none => if init.isNull then mismatch (.nullInference name.name) span else pure init
  let slot ← withScope (·.declare name.name t name.span)
  out (·.store t slot)

mutual

/-- Compile a statement. -/
def stmt (s : Stmt) : Gen Unit := do
  out (·.setLine s.span.line)
  match s with
  | .expr e _ =>
    let t ← expr e
    unless t.isTypeRef do out (·.pop t)
  | .letDecl name ty init span =>
    let declared ← match ty with
      | some t => some <$> resolveKnown t
      | none => pure none
    let i ← requireValue init.span (← expr init)
    declareLocal name declared i init.span span
  | .ret value span =>
    let r := (← read).method.ret
    match value, r.isVoid with
    | some e, false =>
      let v ← requireValue e.span (← expr e)
      unless r.accepts v do mismatch (.badReturn v r) e.span
      out (·.emitReturn r)
    | none, true => out (·.emit .returnVoid)
    | some e, true => mismatch .valueFromVoid e.span
    | none, false => mismatch (.missingValue r) span
  | .block b => block b
  | .ifElse cond thenB elseS _ =>
    let c ← requireValue cond.span (← expr cond)
    expectBool .ifCondition c cond.span
    let elseL ← newLabel
    out (·.jump .ifeq elseL)
    block thenB
    match elseS with
    | some e =>
      let stop ← if thenB.alwaysReturns then pure none else do
        let l ← newLabel
        out (·.jump .goto l)
        pure (some l)
      out (·.place elseL)
      stmt e
      if let some l := stop then out (·.place l)
    | none => out (·.place elseL)
  | .while cond body _ =>
    let head ← newLabel
    let exit ← newLabel
    out (·.place head)
    let c ← requireValue cond.span (← expr cond)
    expectBool .whileCondition c cond.span
    out (·.jump .ifeq exit)
    block body
    out fun e => (e.jump .goto head).place exit

/-- Compile a block in a scope of its own. -/
def block : Block → Gen Unit
  | .mk stmts _ => do
    modify fun s => { s with scope := s.scope.enter }
    stmtList stmts
    modify fun s => { s with scope := s.scope.leave }

/-- Compile statements in order. -/
def stmtList : List Stmt → Gen Unit
  | [] => pure ()
  | s :: rest => do
    stmt s
    stmtList rest

end

/-- Declare the parameters, in order, at the method's span. -/
def declareParams : Gen Unit := do
  let m := (← read).method
  for (t, i) in m.params.zipIdx do
    let name := (m.paramNames[i]?).getD ("arg" ++ toString i)
    let _ ← withScope (·.declare name t m.span)

/-- The body of a method: its parameters, its statements in the method's own
    scope, and the final return. -/
def methodBody (decl : FnDecl) : Gen Unit := do
  declareParams
  stmtList decl.body.stmts
  let m := (← read).method
  if m.ret.isVoid then
    if (← get).emitter.reachableEnd then out (·.emit .returnVoid)
  else if !decl.body.alwaysReturns then
    fail (.missingReturn m.name decl.span)

end Gen

/-- Compile a method body in its context. -/
def compileMethod (c : MethodContext) (decl : FnDecl) : Except CompilationError Code := do
  let start : GenState :=
    ⟨Emitter.new c.options.lineNumbers, if c.method.isStatic then Scope.forStatic else Scope.forInstance⟩
  let ((), s) ← (Gen.methodBody decl).run c |>.run start
  s.emitter.finish s.scope.maxLocals

end ClassCompiler
