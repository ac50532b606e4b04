import ClassCompiler.Proofs.Primitive.Fragment
import ClassCompiler.Proofs.Machine.Exec
import ClassCompiler.Codegen.Rules

/-!
# Operators on the machine

The instructions the operator rules choose compute, on the machine values of
their operands, the machine value of what the operator gives in the source,
and fail exactly where the source divides by zero.

* `Agrees m st t r x`: the source result `r`, a value of type `t`, and the run
  `x` of instructions from the stack `st` agree;
* `arith_agrees`, `negate_agrees`, `not_agrees`, `logic_agrees` and
  `conversion_agrees`: arithmetic, negation, `!`, `&&` and `||`, and numeric
  casts;
* `compare_agrees`: a comparison leaves what it decides to the jump the rules
  choose.
-/

namespace ClassCompiler.Primitive

open Syntax Machine

/-! ### Values of the fragment on the machine -/

namespace PVal

/-- An int-like value is on the machine the int it computes as. -/
theorem toValue_of_toInt? {a : PVal} {i : Int32} (h : a.toInt? = some i) : a.toValue = .int i := by
  cases a <;> simp_all [toInt?, toValue]

/-- The numeric values of kind `int` compute as ints. -/
theorem toInt?_of_kind {a : PVal} (hn : a.ty.ty.isNumeric) (hk : a.ty.ty.kind = .int) :
    ∃ i, a.toInt? = some i := by
  cases a <;> simp_all [toInt?, ty, PTy.ty, Ty.isNumeric, Ty.kind]

theorem eq_long_of_kind {a : PVal} (hk : a.ty.ty.kind = .long) : ∃ x, a = .long x := by
  cases a <;> simp_all [ty, PTy.ty, Ty.kind]

/-- The values of the fragment are of kind `int` or `long`. -/
theorem kind_eq (a : PVal) : a.ty.ty.kind = .int ∨ a.ty.ty.kind = .long := by
  cases a <;> simp [ty, PTy.ty, Ty.kind]

theorem eq_bool_of_ty {a : PVal} (h : a.ty.ty = .bool) : ∃ b, a = .bool b := by
  cases a <;> simp_all [ty, PTy.ty]

end PVal

theorem PTy.ty_injective : Function.Injective PTy.ty := by
  intro a b h
  cases a <;> cases b <;> first | rfl | cases h

@[simp] theorem PTy.ty_inj {a b : PTy} : a.ty = b.ty ↔ a = b := PTy.ty_injective.eq_iff

/-! ### Agreement of one operation -/

/-- The source result `r`, a value of type `t`, and the run `x` of the
    operation's instructions from the stack `st` agree: a value is pushed as
    its machine value, and a division by zero is the machine's
    `ArithmeticException`. Nothing else may happen in the source. -/
def Agrees (m : State) (st : List Value) (t : Ty) :
    Res PVal → Except Fault (State × List Value) → Prop
  | .ok v, x => v.ty.ty = t ∧ x = .ok (m, Stack.push v.toValue st)
  | .error .divByZero, x => x = fail "ArithmeticException: / by zero"
  | .error _, _ => False

variable {m : State} {st : List Value}

theorem agrees_ok {v : PVal} {t : Ty} {x : Except Fault (State × List Value)}
    (ht : v.ty.ty = t) (hx : x = .ok (m, Stack.push v.toValue st)) : Agrees m st t (.ok v) x :=
  ⟨ht, hx⟩

/-! ### Arithmetic -/

section Arith

variable {op : BinOp} {ar : Opcode.Arith} {code : Opcode}

/-- Arithmetic on two values that compute as ints is int arithmetic. -/
theorem binop_int_arith {a b : PVal} {x y : Int32} (hop : op.arith? = some ar)
    (ha : a.toInt? = some x) (hb : b.toInt? = some y) : binop op a b = .int <$> intArith op x y := by
  cases a <;> simp only [PVal.toInt?, reduceCtorEq, Option.some.injEq] at ha <;>
    cases b <;> simp only [PVal.toInt?, reduceCtorEq, Option.some.injEq] at hb <;>
    subst ha hb <;> cases op <;> cases hop <;> rfl

theorem binop_long_arith {x y : Int64} (hop : op.arith? = some ar) :
    binop op (.long x) (.long y) = .long <$> longArith op x y := by
  cases op <;> cases hop <;> rfl

theorem int_arith_agrees (hop : op.arith? = some ar) (hc : Opcode.arith ar .int = some code)
    (x y : Int32) :
    Agrees m st .int (.int <$> intArith op x y) (runSimple m [code] (.int y :: .int x :: st)) := by
  cases op <;> cases hop <;> cases hc
  case add => exact agrees_ok rfl (by rw [runSimple_cons (simple_int_total (Or.inl rfl) x y)]; rfl)
  case sub =>
    exact agrees_ok rfl (by rw [runSimple_cons (simple_int_total (Or.inr (Or.inl rfl)) x y)]; rfl)
  case mul =>
    exact agrees_ok rfl
      (by rw [runSimple_cons (simple_int_total (Or.inr (Or.inr (Or.inl rfl))) x y)]; rfl)
  case div =>
    by_cases hy : y = 0
    · subst hy
      rw [runSimple_cons_error (simple_int_divide_zero (Or.inl rfl) x)]
      rfl
    · simp only [intArith, hy, if_false]
      exact agrees_ok rfl (by rw [runSimple_cons (simple_int_divide (Or.inl rfl) hy)]; rfl)
  case rem =>
    by_cases hy : y = 0
    · subst hy
      rw [runSimple_cons_error (simple_int_divide_zero (Or.inr rfl) x)]
      rfl
    · simp only [intArith, hy, if_false]
      exact agrees_ok rfl (by rw [runSimple_cons (simple_int_divide (Or.inr rfl) hy)]; rfl)

theorem long_arith_agrees (hop : op.arith? = some ar) (hc : Opcode.arith ar .long = some code)
    (x y : Int64) :
    Agrees m st .long (.long <$> longArith op x y)
      (runSimple m [code] (.top :: .long y :: .top :: .long x :: st)) := by
  cases op <;> cases hop <;> cases hc
  case add => exact agrees_ok rfl (by rw [runSimple_cons (simple_long_total (Or.inl rfl) x y)]; rfl)
  case sub =>
    exact agrees_ok rfl (by rw [runSimple_cons (simple_long_total (Or.inr (Or.inl rfl)) x y)]; rfl)
  case mul =>
    exact agrees_ok rfl (by rw [runSimple_cons (simple_long_total (Or.inr (Or.inr rfl)) x y)]; rfl)
  case div =>
    by_cases hy : y = 0
    · subst hy
      rw [runSimple_cons_error (simple_long_divide_zero (Or.inl rfl) x)]
      rfl
    · simp only [longArith, hy, if_false]
      exact agrees_ok rfl (by rw [runSimple_cons (simple_long_divide (Or.inl rfl) hy)]; rfl)
  case rem =>
    by_cases hy : y = 0
    · subst hy
      rw [runSimple_cons_error (simple_long_divide_zero (Or.inr rfl) x)]
      rfl
    · simp only [longArith, hy, if_false]
      exact agrees_ok rfl (by rw [runSimple_cons (simple_long_divide (Or.inr rfl) hy)]; rfl)

/-- Arithmetic the rules accept computes on the machine what it computes in
    the source: ints wrap, longs wrap, and a division by zero fails in both. -/
theorem arith_agrees {a b : PVal} {t : Ty} (hop : op.arith? = some ar)
    (hrule : Rules.arith ar a.ty.ty b.ty.ty = some (code, t)) :
    Agrees m st t (binop op a b)
      (runSimple m [code] (Stack.push b.toValue (Stack.push a.toValue st))) := by
  simp only [Rules.arith, Bool.and_eq_true, beq_iff_eq] at hrule
  split at hrule
  · rename_i hcond
    obtain ⟨⟨hna, hnb⟩, hk⟩ := hcond
    obtain ⟨c, hc, hct⟩ := Option.map_eq_some_iff.1 hrule
    cases hct
    rcases a.kind_eq with hka | hka <;> rw [hka] at hc hk
    · obtain ⟨x, hx⟩ := PVal.toInt?_of_kind hna hka
      obtain ⟨y, hy⟩ := PVal.toInt?_of_kind hnb hk.symm
      rw [binop_int_arith hop hx hy, PVal.toValue_of_toInt? hx, PVal.toValue_of_toInt? hy, if_pos hka]
      exact int_arith_agrees hop hc x y
    ·
      obtain ⟨x, rfl⟩ := PVal.eq_long_of_kind hka
      obtain ⟨y, rfl⟩ := PVal.eq_long_of_kind hk.symm
      rw [binop_long_arith hop]
      exact long_arith_agrees hop hc x y
  · cases hrule

end Arith

/-! ### Negation and `!` -/

theorem negate_agrees {a : PVal} {code : Opcode} {t : Ty}
    (hrule : Rules.negate a.ty.ty = some (code, t)) :
    Agrees m st t (unop .neg a) (runSimple m [code] (Stack.push a.toValue st)) := by
  cases a <;> simp [Rules.negate, PVal.ty, PTy.ty, Ty.isNumeric, Ty.kind, Opcode.negate] at hrule <;>
    obtain ⟨rfl, rfl⟩ := hrule <;> exact agrees_ok rfl rfl

theorem not_agrees (b : Bool) :
    Agrees m st .bool (unop .not (.bool b))
      (runSimple m [.iconst1, .ixor] (Stack.push (PVal.bool b).toValue st)) := by
  refine agrees_ok rfl ?_
  cases b <;> rfl

/-! ### `&&` and `||` -/

/-- Both operands are evaluated; `IAND` and `IOR` on 0 and 1 are the
    connectives. -/
theorem logic_agrees {op : BinOp} (hop : op.isLogical = true) (x y : Bool) :
    Agrees m st .bool (binop op (.bool x) (.bool y))
      (runSimple m [if op == .and then .iand else .ior]
        (Stack.push (PVal.bool y).toValue (Stack.push (PVal.bool x).toValue st))) := by
  cases op <;> simp [BinOp.isLogical] at hop <;> refine agrees_ok rfl ?_ <;>
    cases x <;> cases y <;> rfl

/-! ### Casts -/

/-- A char is the low 16 bits of an int, read without sign. -/
theorem UInt16.ofNat_toInt32 (n : Nat) : (UInt16.ofNat n).toUInt32.toInt32 = Int32.ofNat (n % 65536) := by
  apply Int32.toBitVec_inj.1
  apply BitVec.eq_of_toNat_eq
  simp

/-- A cast between two different numeric types converts as the rules'
    instructions do: through `int` to a narrow type, by extending the sign to
    `long`, and to the low 32 bits from `long`. -/
theorem conversion_agrees {a : PVal} {target : PTy} (hne : a.ty ≠ target)
    (hna : a.ty.ty.isNumeric) (hnt : target.ty.isNumeric) :
    Agrees m st target.ty (cast target a)
      (runSimple m (Rules.conversion a.ty.ty target.ty) (Stack.push a.toValue st)) := by
  cases a <;> cases target <;> simp only [PVal.ty, PTy.ty, Ty.isNumeric, ne_eq, not_true,
    reduceCtorEq] at hne hna hnt <;> refine agrees_ok rfl ?_ <;> first
    | rfl
    | simp only [PVal.ty, PVal.toValue, PTy.ty, Rules.conversion, runSimple, Stack.push_int,
        Stack.push_long, simple_i2c, simple_l2i, UInt16.ofNat_toInt32, List.nil_append, List.cons_append]

theorem cast_self (a : PVal) : cast a.ty a = .ok a := by
  simp [cast]

/-! ### Comparisons -/

section Compare

variable {op : BinOp} {cmp : Opcode.Comparison}

theorem relation_int (hop : op.comparison? = some cmp) (x y : Int32) :
    relation op x y = .ok (intCompare (Opcode.ifIcmp cmp) x y) := by
  cases op <;> cases hop <;> simp only [relation, intCompare, Opcode.ifIcmp]
  all_goals first | rfl | (by_cases h : x = y <;> simp [h])

/-- `LCMP` orders two longs as `-1`, `0` or `1`, and the jump tests that
    against zero. -/
theorem relation_long (hop : op.comparison? = some cmp) (x y : Int64) :
    relation op x y = .ok (intTest (Opcode.ifZero cmp) (Ordering.toInt32 (compare x y))) := by
  have hcmp : compare x y = if x < y then .lt else if x = y then .eq else .gt := rfl
  rw [hcmp]
  by_cases hlt : x < y
  · have hne : x ≠ y := fun h => Int64.lt_irrefl (h ▸ hlt)
    have hle : x ≤ y := Int64.le_iff_lt_or_eq.2 (.inl hlt)
    have hnle : ¬ y ≤ x := fun h => Int64.not_lt.2 h hlt
    cases op <;> cases hop <;>
      simp [relation, intTest, Opcode.ifZero, Ordering.toInt32, hlt, hne, hle, hnle] <;> decide
  · by_cases heq : x = y
    · subst heq
      cases op <;> cases hop <;>
        simp [relation, intTest, Opcode.ifZero, Ordering.toInt32, Int64.lt_irrefl] <;> decide
    · have hgt : y < x := (Int64.lt_or_lt_of_ne heq).resolve_left hlt
      have hle : y ≤ x := Int64.le_iff_lt_or_eq.2 (.inl hgt)
      cases op <;> cases hop <;>
        simp [relation, intTest, Opcode.ifZero, Ordering.toInt32, hlt, heq, hgt, hle] <;> decide

theorem binop_int_compare {a b : PVal} {x y : Int32} (hop : op.comparison? = some cmp)
    (ha : a.toInt? = some x) (hb : b.toInt? = some y) : binop op a b = .bool <$> relation op x y := by
  cases a <;> simp only [PVal.toInt?, reduceCtorEq, Option.some.injEq] at ha <;>
    cases b <;> simp only [PVal.toInt?, reduceCtorEq, Option.some.injEq] at hb <;>
    subst ha hb <;> cases op <;> cases hop <;> rfl

theorem isIntCompare_ifIcmp (c : Opcode.Comparison) : IsIntCompare (Opcode.ifIcmp c) := by
  cases c <;> simp [IsIntCompare, Opcode.ifIcmp]

theorem isIntTest_ifZero (c : Opcode.Comparison) : IsIntTest (Opcode.ifZero c) := by
  cases c <;> simp [IsIntTest, Opcode.ifZero]

/-- Values that compute as ints are compared by `IF_ICMPxx`. -/
theorem compare_int_agrees {a b : PVal} {x y : Int32} (hop : op.comparison? = some cmp)
    (ha : a.toInt? = some x) (hb : b.toInt? = some y) :
    ∃ c, binop op a b = .ok (.bool c) ∧ ∃ st', runSimple m []
      (Stack.push b.toValue (Stack.push a.toValue st)) = .ok (m, st') ∧
        branch (Opcode.ifIcmp cmp) st' = .ok (c, st) := by
  rw [PVal.toValue_of_toInt? ha, PVal.toValue_of_toInt? hb]
  refine ⟨intCompare (Opcode.ifIcmp cmp) x y, ?_, _, rfl, branch_int_compare (isIntCompare_ifIcmp cmp) x y⟩
  rw [binop_int_compare hop ha hb, relation_int hop]
  rfl

/-- Longs are ordered by `LCMP` and the jump tests the order against zero. -/
theorem compare_long_agrees (hop : op.comparison? = some cmp) (x y : Int64) :
    ∃ c, binop op (.long x) (.long y) = .ok (.bool c) ∧ ∃ st', runSimple m [.lcmp]
      (Stack.push (PVal.long y).toValue (Stack.push (PVal.long x).toValue st)) = .ok (m, st') ∧
        branch (Opcode.ifZero cmp) st' = .ok (c, st) := by
  refine ⟨intTest (Opcode.ifZero cmp) (Ordering.toInt32 (compare x y)), ?_, _,
    runSimple_cons (simple_lcmp x y), branch_int_test (isIntTest_ifZero cmp) _⟩
  have hb : binop op (.long x) (.long y) = .bool <$> relation op x y := by
    cases op <;> cases hop <;> rfl
  rw [hb, relation_long hop]
  rfl

/-- Bools compare only for equality, as the ints 0 and 1. -/
theorem compare_bool_agrees (hop : op.comparison? = some cmp) (heq : cmp.isEquality = true)
    (x y : Bool) :
    ∃ c, binop op (.bool x) (.bool y) = .ok (.bool c) ∧ ∃ st', runSimple m []
      (Stack.push (PVal.bool y).toValue (Stack.push (PVal.bool x).toValue st)) = .ok (m, st') ∧
        branch (Opcode.ifIcmp cmp) st' = .ok (c, st) := by
  cases cmp <;> simp only [Opcode.Comparison.isEquality, reduceCtorEq] at heq <;> cases op <;>
    cases hop <;> exact ⟨_, rfl, _, rfl, by cases x <;> cases y <;> rfl⟩

/-- A comparison the rules accept decides in the source what its jump decides
    on the machine, after the instructions that come before the jump. -/
theorem compare_agrees {a b : PVal} {pre : List Opcode} {jump : Opcode}
    (hop : op.comparison? = some cmp) (hrule : Rules.compare cmp a.ty.ty b.ty.ty = some (pre, jump))
    (m : State) (st : List Value) :
    ∃ c, binop op a b = .ok (.bool c) ∧ ∃ st', runSimple m pre
      (Stack.push b.toValue (Stack.push a.toValue st)) = .ok (m, st') ∧ branch jump st' = .ok (c, st) := by
  cases a <;> cases b <;> simp [Rules.compare, PVal.ty, PTy.ty, Ty.isReference, Ty.kind,
    Opcode.compare] at hrule
  case long.long x y =>
    obtain ⟨rfl, rfl⟩ := hrule
    exact compare_long_agrees hop x y
  case bool.bool x y =>
    obtain ⟨heq, rfl, rfl⟩ := hrule
    exact compare_bool_agrees hop heq x y
  all_goals
    obtain ⟨rfl, rfl⟩ := hrule
    exact compare_int_agrees hop rfl rfl

end Compare

end ClassCompiler.Primitive
