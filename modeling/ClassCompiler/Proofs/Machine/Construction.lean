import ClassCompiler.Proofs.Structure.Constructors
import ClassCompiler.Proofs.Codegen.Arrays
import ClassCompiler.Proofs.Primitive.Meaning
import ClassCompiler.Proofs.Structure.Registry

/-!
# Constructors store their arguments

The constructor generated for a struct or module hands `this` to the
constructor of `Object`, then stores each parameter into the field of the
same position and returns:

```
    ALOAD 0
    INVOKESPECIAL java/lang/Object.<init>()V
    ALOAD 0, xLOAD slot(i), PUTFIELD S.f(i)     -- per field
    RETURN
```

* `constructorCode_eq`: the code generated, given parameters of the fields'
  types: `ctorInstructions`, with `1 + ` the parameters' slots as locals;
* `Moves.storeField`, the step: one field stored from its slot; and
  `Moves.fieldStores`, the run, by induction on the fields;
* `Moves.constructor`: a frame of that code whose locals hold `this` and
  arguments of the parameters' types returns, and the instance then holds
  the arguments in its fields; `Moves.callConstructor`: so does a call of it;
* `installed_constructor`: in a compiled program, the one constructor of a
  struct, module or adapter is installed with that code;
* `construct_stores_arguments`: a call of the constructor of a struct or
  module, with arguments of its fields' types, stores each in its field;
  `construct_adapter_stores_wrapped`: the constructor of an adapter stores
  the value it wraps in `wrapped`.

Arguments of the fields' types are what the stores need: a `null` where a
`long` or a `double` is expected takes one slot where the code reads two.
-/

namespace ClassCompiler

/-! ### The code of a generated constructor -/

/-- The stores of a generated constructor of `owner`, from slot `slot` on: for
    each field and the parameter given for it, `this`, then the parameter with
    the load of its kind, then `PUTFIELD` into the field. -/
def ctorStores (owner : String) : List (FieldDecl × Ty) → Nat → List Instruction
  | [], _ => []
  | (f, p) :: ps, slot =>
    .slot .aload 0 :: .slot (Opcode.loadFor p.kind) slot :: .field .putfield ⟨owner, f.name, f.ty.descriptor⟩ ::
      ctorStores owner ps (slot + p.slotSize)

/-- The instance fields of a declaration and the parameters of a constructor,
    paired in order. -/
def ctorPairs (d : TypeDecl) (ctor : MethodSig) : List (FieldDecl × Ty) :=
  (d.fields.filter (!·.isStatic)).zip ctor.sourceParams

/-- The code of a generated constructor: `this` handed to the superclass's
    constructor, the stores from slot 1, then `RETURN`. -/
def ctorInstructions (d : TypeDecl) (ctor : MethodSig) : List Instruction :=
  .slot .aload 0 :: Emitter.invokeRef .invokespecial (d.superclass.getD objectClass) ctor.name ⟨[], .void⟩ ::
    (ctorStores d.name (ctorPairs d ctor) 1 ++ [.simple .returnVoid])

/-- One round of the loop of `constructorCode`. -/
def ctorRound (owner : String) (x : FieldDecl × Ty) (s : Emitter × Nat) : Emitter × Nat :=
  (((s.1.load (.obj owner) 0).load x.2 s.2).field .putfield owner x.1.name x.1.ty, s.2 + x.2.slotSize)

/-- A loop each of whose rounds goes on with `g` computes the fold of `g`. -/
theorem Except.forIn_eq_foldl {α β ε : Type} {xs : List α} {f : α → β → Except ε (ForInStep β)} (g : α → β → β)
    (hf : ∀ x ∈ xs, ∀ b, f x b = .ok (.yield (g x b))) :
    ∀ b, forIn xs b f = .ok (xs.foldl (fun b x => g x b) b) := by
  induction xs with
  | nil => exact fun _ => rfl
  | cons x xs ih =>
    intro b
    rw [List.forIn_cons, hf x List.mem_cons_self, List.foldl_cons]
    exact ih (fun x' hx' => hf x' (List.mem_cons_of_mem _ hx')) _

/-- The rounds append the stores, and advance the slot past each parameter. -/
theorem ctorRounds_code (owner : String) :
    ∀ (ps : List (FieldDecl × Ty)) (e : Emitter) (slot : Nat),
      (ps.foldl (fun s x => ctorRound owner x s) (e, slot)).1.code.toList = e.code.toList ++ ctorStores owner ps slot
  | [], e, slot => by simp [ctorStores]
  | (f, p) :: ps, e, slot => by
    rw [List.foldl_cons, ctorRounds_code owner ps]
    simp [ctorRound, ctorStores, Emitter.load, Emitter.field, Emitter.push, Ty.kind, Opcode.loadFor]

/-- A body of plain entries only is finished as it is. -/
theorem Emitter.finish_of_plain {e : Emitter} (h : ∀ i ∈ e.code.toList, i.isPlain = true) (n : Nat) :
    e.finish n = .ok ⟨e.code, n⟩ := by
  unfold finish
  rw [List.find?_eq_none.2 fun i hi => ?_]
  have hj := h i hi
  cases i <;> simp_all [Instruction.isPlain]

theorem ctorStores_plain (owner : String) :
    ∀ (ps : List (FieldDecl × Ty)) (slot : Nat), ∀ i ∈ ctorStores owner ps slot, i.isPlain = true
  | [], _ => by simp [ctorStores]
  | (f, p) :: ps, slot => by
    intro i hi
    simp only [ctorStores, List.mem_cons] at hi
    rcases hi with rfl | rfl | rfl | hi
    · rfl
    · rfl
    · rfl
    · exact ctorStores_plain owner ps _ i hi

/-- A constructor whose parameters have the types of the instance fields is
    generated as `ctorInstructions`, with a local for `this` and the slots of
    its parameters. -/
theorem constructorCode_eq {d : TypeDecl} {ctor : MethodSig} (h : CtorFits d ctor) :
    constructorCode d ctor = .ok ⟨(ctorInstructions d ctor).toArray, 1 + ctor.type.paramSlots⟩ := by
  unfold constructorCode
  dsimp only
  rw [show (d.fields.filter fun x => !x.isStatic).zip ctor.sourceParams = ctorPairs d ctor from rfl]
  rw [Except.forIn_eq_foldl (ctorRound d.name) (fun x hx b => by rw [if_neg (by simp [h x hx])]; rfl)]
  dsimp only [bind, Except.bind]
  -- the code is the prologue, the stores and the return, all plain entries
  have hcode : ((List.foldl (fun s x => ctorRound d.name x s) (((Emitter.new false).load (.obj d.name) 0).invoke
      .invokespecial (d.superclass.getD objectClass) ctor.name ⟨[], .void⟩, 1) (ctorPairs d ctor)).1.emit
        .returnVoid).code.toList = ctorInstructions d ctor := by
    simp only [Emitter.emit, Emitter.push, Array.toList_push, ctorRounds_code, ctorInstructions]
    simp [Emitter.invoke, Emitter.load, Emitter.push, Emitter.new, Ty.kind, Opcode.loadFor]
  rw [Emitter.finish_of_plain (by
    rw [hcode]
    intro i hi
    simp only [ctorInstructions, List.mem_cons, List.mem_append] at hi
    rcases hi with rfl | rfl | hi | rfl | hi
    · rfl
    · rfl
    · exact ctorStores_plain _ _ _ i hi
    · rfl
    · cases hi)]
  rw [← hcode, Array.toArray_toList]

/-- The constructor of the instance fields of a declaration pairs each field
    with its own type. -/
theorem ctorPairs_fieldsConstructor {d : TypeDecl} (hs : ∀ f ∈ d.fields, f.isStatic = false) (sp : Span) :
    ctorPairs d (FilePass.fieldsConstructor d.fields sp) = d.fields.map fun f => (f, f.ty) := by
  rw [ctorPairs, fieldsConstructor_sourceParams, List.filter_eq_self.2 (by simpa using hs)]
  simpa using List.zip_map' (f := id) (g := (·.ty)) (l := d.fields)

/-- Parameters take the sum of their slots. -/
theorem paramSlots_foldl : ∀ (ps : List Ty) (n : Nat), ps.foldl (fun n t => n + t.slotSize) n = n + (ps.map (·.slotSize)).sum
  | [], n => rfl
  | p :: ps, n => by
    rw [List.foldl_cons, paramSlots_foldl ps, List.map_cons, List.sum_cons]
    omega

/-- The parameters of the constructor of fields take the fields' slots and
    one for the marker. -/
theorem fieldsConstructor_paramSlots (fs : List FieldDecl) (sp : Span) :
    (FilePass.fieldsConstructor fs sp).type.paramSlots = (fs.map (·.ty.slotSize)).sum + 1 := by
  simp only [MethodType.paramSlots, MethodSig.type, FilePass.fieldsConstructor, MethodSig.constructor,
    MethodSig.instanceMethod, paramSlots_foldl, List.map_append, List.map_map, List.sum_append]
  simp [Function.comp_def, Ty.slotSize, Ty.kind, Kind.size]

/-! ### Running a generated constructor -/

namespace Machine

/-- The fields of an instance once each value is stored into the field of its
    name, one after the other, as `PUTFIELD` stores them. -/
def storeFields (fields : String → Option Value) : List (String × Value) → String → Option Value
  | [] => fields
  | (n, v) :: rest => storeFields (fun n' => if n' == n then some v else fields n') rest

/-- The arguments `vals` stand in the locals from slot `slot` on, each a value
    of its parameter's type, in the slot where the parameters before it end. -/
def ArgsAt (locals : Array Value) : List Ty → List Value → Nat → Prop
  | [], [], _ => True
  | p :: ps, v :: vs, slot => locals[slot]? = some v ∧ v.OfType p ∧ ArgsAt locals ps vs (slot + p.slotSize)
  | _, _, _ => False

variable {m : State} {f : Frame} {cs : List Frame}

/-- Storing into an entry of the heap twice keeps the second store. -/
theorem heap_set_set (h : Array Object) (a : Nat) (o o' : Object) : (h.set! a o).set! a o' = h.set! a o' := by
  simp only [Array.set!_eq_setIfInBounds, Array.setIfInBounds_setIfInBounds]

theorem heap_set_getElem? {h : Array Object} {a : Nat} {o o' : Object} (ha : h[a]? = some o) :
    (h.set! a o')[a]? = some o' := by
  have hlt := (Array.getElem?_eq_some_iff.1 ha).1
  simp [Array.set!_eq_setIfInBounds, hlt]

/-- One store: `this`, the parameter from its slot, then `PUTFIELD` put the
    parameter into its field, and leave the operand stack as it was. -/
theorem Moves.storeField {owner : String} {fd : FieldDecl} {p : Ty} {ps : List (FieldDecl × Ty)} {slot a : Nat}
    {v : Value} {cls : String} {fs : String → Option Value}
    (hcode : CodeAt f.code.instructions.toList f.pc (ctorStores owner ((fd, p) :: ps) slot))
    (hthis : f.locals[0]? = some (.ref a)) (hv : f.locals[slot]? = some v) (hvt : v.OfType p)
    (hobj : m.heap[a]? = some (.inst cls fs)) :
    Moves m (f :: cs) 3 { m with heap := m.heap.set! a (.inst cls fun n => if n == fd.name then some v else fs n) }
      ({ f with pc := f.pc + 3 } :: cs) := by
  simp only [ctorStores] at hcode
  have m₁ : Moves m (f :: cs) 1 m ({ f with pc := f.pc + 1, stack := .ref a :: f.stack } :: cs) :=
    Moves.of_exec hcode.fetch (exec_load (f := { f with pc := f.pc + 1 }) (by simp [IsLoad]) hthis)
  have m₂ : Moves m ({ f with pc := f.pc + 1, stack := .ref a :: f.stack } :: cs) 1 m
      ({ f with pc := f.pc + 1 + 1, stack := Stack.push v (.ref a :: f.stack) } :: cs) :=
    Moves.of_exec hcode.tail.fetch
      (exec_load (f := { f with pc := f.pc + 1 + 1, stack := .ref a :: f.stack }) (isLoad_loadFor _) hv)
  -- the value is popped whole, then `this`, whose instance takes the value
  have m₃ : Moves m ({ f with pc := f.pc + 1 + 1, stack := Stack.push v (.ref a :: f.stack) } :: cs) 1
      { m with heap := m.heap.set! a (.inst cls fun n => if n == fd.name then some v else fs n) }
      ({ f with pc := f.pc + 3 } :: cs) := by
    refine Moves.of_exec hcode.tail.tail.fetch ?_
    simp [exec, fieldOp, Stack.pop_push hvt.ne_top, hobj, bind, Except.bind, pure, Except.pure]
  exact (m₁.trans m₂).trans m₃

/-- The stores, field after field: each argument goes into the field paired
    with its parameter, and the operand stack is left as it was. The
    induction is on the pairs; each store is `Moves.storeField`, and the
    instance is stored into again at the same entry of the heap. -/
theorem Moves.fieldStores {owner : String} {a : Nat} {cls : String} :
    ∀ (ps : List (FieldDecl × Ty)) (vals : List Value) (slot : Nat) (m : State) (f : Frame)
      (fs : String → Option Value),
      CodeAt f.code.instructions.toList f.pc (ctorStores owner ps slot) → f.locals[0]? = some (.ref a) →
      ArgsAt f.locals (ps.map (·.2)) vals slot → m.heap[a]? = some (.inst cls fs) →
      Moves m (f :: cs) (3 * ps.length)
        { m with heap := m.heap.set! a (.inst cls (storeFields fs ((ps.map (·.1.name)).zip vals))) }
        ({ f with pc := f.pc + 3 * ps.length } :: cs)
  | [], [], _, m, f, fs, _, _, _, hobj => by
    simp only [List.map_nil, List.zip_nil_left, storeFields, heap_set_self hobj, List.length_nil,
      Nat.mul_zero, Nat.add_zero]
    exact Moves.refl _ _
  | [], _ :: _, _, _, _, _, _, _, hargs, _ => absurd hargs (by simp [ArgsAt])
  | _ :: _, [], _, _, _, _, _, _, hargs, _ => absurd hargs (by simp [ArgsAt])
  | (fd, p) :: ps, v :: vs, slot, m, f, fs, hcode, hthis, hargs, hobj => by
    obtain ⟨hv, hvt, hrest⟩ := hargs
    have h₁ : Moves m (f :: cs) 3 _ _ := Moves.storeField hcode hthis hv hvt hobj
    have hcode' : CodeAt f.code.instructions.toList (f.pc + 3) (ctorStores owner ps (slot + p.slotSize)) := by
      simp only [ctorStores] at hcode
      exact hcode.tail.tail.tail
    have h₂ := Moves.fieldStores ps vs (slot + p.slotSize)
      { m with heap := m.heap.set! a (.inst cls fun n => if n == fd.name then some v else fs n) }
      { f with pc := f.pc + 3 } _ hcode' hthis hrest (heap_set_getElem? hobj)
    have hpc : f.pc + 3 + 3 * ps.length = f.pc + 3 * ((fd, p) :: ps).length := by
      simp only [List.length_cons]
      omega
    have hk : 3 + 3 * ps.length = 3 * ((fd, p) :: ps).length := by
      simp only [List.length_cons]
      omega
    have h := h₁.trans h₂
    simp only [heap_set_set, hpc, hk] at h
    exact h

theorem ctorStores_length (owner : String) :
    ∀ (ps : List (FieldDecl × Ty)) (slot : Nat), (ClassCompiler.ctorStores owner ps slot).length = 3 * ps.length
  | [], _ => rfl
  | _ :: ps, _ => by
    simp only [ClassCompiler.ctorStores, List.length_cons, ctorStores_length owner ps]
    omega

/-- A frame of a generated constructor, on the instance `a` and with the
    arguments in its locals, returns to its caller after `3 n + 3` steps, `n`
    the number of fields, and the instance then holds each argument in the
    field paired with its parameter. The superclass's constructor, which no
    class of the machine defines, runs natively and does nothing. -/
theorem Moves.constructor {d : TypeDecl} {ctor : MethodSig} {vals : List Value} {a : Nat} {cls : String}
    {fs : String → Option Value} {c : Frame}
    (hcode : f.code.instructions.toList = ctorInstructions d ctor) (hpc : f.pc = 0) (hstack : f.stack = [])
    (hthis : f.locals[0]? = some (.ref a)) (hargs : ArgsAt f.locals ((ctorPairs d ctor).map (·.2)) vals 1)
    (hobj : m.heap[a]? = some (.inst cls fs)) (hsuper : m.knows (d.superclass.getD objectClass) = false)
    (hname : ctor.name = constructorName) :
    Moves m (f :: c :: cs) (3 * (ctorPairs d ctor).length + 3)
      { m with heap := m.heap.set! a (.inst cls (storeFields fs (((ctorPairs d ctor).map (·.1.name)).zip vals))) }
      (c.resumeWith f.resume none :: cs) := by
  have hC : CodeAt f.code.instructions.toList f.pc (ctorInstructions d ctor) := ⟨[], [], by simp [hcode], by simp [hpc]⟩
  have m₁ : Moves m (f :: c :: cs) 1 m ({ f with pc := f.pc + 1, stack := [.ref a] } :: c :: cs) :=
    Moves.of_exec hC.fetch (by rw [← hstack]; exact exec_load (f := { f with pc := f.pc + 1 }) (by simp [IsLoad]) hthis)
  -- `Object`'s constructor takes `this` and returns nothing
  have hdesc : MethodType.ofDescriptor (MethodType.descriptor ⟨[], .void⟩) = .ok ⟨[], .void⟩ := by decide
  have m₂ : Moves m ({ f with pc := f.pc + 1, stack := [.ref a] } :: c :: cs) 1 m
      ({ f with pc := f.pc + 1 + 1, stack := [] } :: c :: cs) := by
    refine Moves.of_exec hC.tail.fetch ?_
    simp [Emitter.invokeRef, exec, popArgs, hdesc, invoke, hsuper, hname, constructorName, bind, Except.bind,
      pure, Except.pure]
  have hstores : CodeAt f.code.instructions.toList (f.pc + 1 + 1)
      (ClassCompiler.ctorStores d.name (ctorPairs d ctor) 1 ++ [.simple .returnVoid]) := hC.tail.tail
  have m₃ : Moves m ({ f with pc := f.pc + 1 + 1, stack := [] } :: c :: cs) _ _ _ :=
    Moves.fieldStores (ctorPairs d ctor) vals 1 m { f with pc := f.pc + 1 + 1, stack := [] } fs hstores.app_left
      hthis hargs hobj
  have hret : CodeAt f.code.instructions.toList (f.pc + 1 + 1 + 3 * (ctorPairs d ctor).length)
      [.simple .returnVoid] := by
    have := hstores.app_right
    rwa [ctorStores_length] at this
  generalize storeFields fs (((ctorPairs d ctor).map (·.1.name)).zip vals) = F at m₃ ⊢
  have m₄ : Moves { m with heap := m.heap.set! a (.inst cls F) }
      ({ f with pc := f.pc + 1 + 1 + 3 * (ctorPairs d ctor).length, stack := [] } :: c :: cs) 1
      { m with heap := m.heap.set! a (.inst cls F) } (c.resumeWith f.resume none :: cs) :=
    Moves.of_return hret.fetch rfl
  have h := ((m₁.trans m₂).trans m₃).trans m₄
  rwa [show 1 + 1 + 3 * (ctorPairs d ctor).length + 1 = 3 * (ctorPairs d ctor).length + 3 by omega] at h

/-- A field no value is stored into keeps its value. -/
theorem storeFields_of_not_mem {n : String} :
    ∀ {fs : String → Option Value} {pairs : List (String × Value)}, n ∉ pairs.map Prod.fst →
      storeFields fs pairs n = fs n
  | _, [], _ => rfl
  | fs, (n', v) :: pairs, hn => by
    simp only [List.map_cons, List.mem_cons, not_or] at hn
    rw [storeFields, storeFields_of_not_mem hn.2]
    simp [hn.1]

/-- Into fields of distinct names, each value stored is the field's value. -/
theorem storeFields_of_mem {n : String} {v : Value} :
    ∀ {fs : String → Option Value} {pairs : List (String × Value)}, (pairs.map Prod.fst).Nodup →
      (n, v) ∈ pairs → storeFields fs pairs n = some v
  | _, [], _, h => absurd h List.not_mem_nil
  | fs, (n', v') :: pairs, hnd, h => by
    rw [List.map_cons, List.nodup_cons] at hnd
    rw [storeFields]
    rcases List.mem_cons.1 h with h | h
    · -- the last store into the field is this one
      obtain ⟨rfl, rfl⟩ := Prod.mk.inj h
      rw [storeFields_of_not_mem hnd.1]
      simp
    · exact storeFields_of_mem hnd.2 h

/-- A value of a type takes the type's slots: two for a `long` or a `double`,
    one for any other. -/
theorem Value.OfType.slotSize_eq {t : Ty} {v : Value} (hv : v.OfType t) :
    t.slotSize = if v.isWide then 2 else 1 := by
  cases hv with
  | null h | ref _ h => cases t <;> simp_all [Ty.isReference, Ty.slotSize, Ty.kind, Kind.size, Value.isWide]
  | _ => rfl

/-- The words of arguments of their parameters' types, after the words `pre`,
    stand where `ArgsAt` has them. -/
theorem argsAt_argWords {ps : List Ty} {vals : List Value} (h : List.Forall₂ (fun p v => v.OfType p) ps vals) :
    ∀ (pre rest : List Value), ArgsAt (pre ++ Primitive.argWords vals ++ rest).toArray ps vals pre.length := by
  induction h with
  | nil => exact fun _ _ => trivial
  | @cons p v ps vals hv _ ih =>
    intro pre rest
    have hwords : (if v.isWide then [v, .top] else [v]).length = p.slotSize := by
      rw [hv.slotSize_eq]
      split <;> rfl
    refine ⟨?_, hv, ?_⟩
    · simp only [Primitive.argWords, List.flatMap_cons, List.append_assoc]
      split <;> simp
    · have h := ih (pre ++ if v.isWide then [v, .top] else [v]) rest
      simp only [List.length_append, hwords] at h
      simpa [Primitive.argWords, List.append_assoc] using h

/-- An instance call enters the frame of the method's code: the receiver, the
    words of the arguments, `top` in the other slots, and an empty stack. -/
theorem enter_instance {owner name desc : String} {cls : ClassRecord} {mr : MethodRecord} {code : Code}
    (hcls : m.classNamed? owner = some cls) (hmr : cls.method? name desc = some mr) (hcode : mr.code = some code)
    (this : Value) (args : List Value) (r : Resume) :
    m.enter owner name desc (some this) args r =
      .ok ⟨owner, name, code, 0, (this :: Primitive.argWords args).toArray ++
        Array.replicate (code.maxLocals - ((Primitive.argWords args).length + 1)) .top, [], r⟩ := by
  simp only [State.enter, hcls, hmr, hcode, Primitive.argWords, Option.toList_some, List.singleton_append,
    List.size_toArray, List.length_cons]
  rfl

/-- A call of a generated constructor installed in its class, on an instance
    `a` and with arguments of its parameters' types (then the words `extra`,
    such as the marker), enters the generated code and returns to its caller,
    the instance then holding each argument in the field paired with its
    parameter. -/
theorem Moves.callConstructor {d : TypeDecl} {ctor : MethodSig} {cls : ClassRecord} {mr : MethodRecord} {n : Nat}
    (hcls : m.classNamed? d.name = some cls) (hmr : cls.method? ctor.name ctor.descriptor = some mr)
    (hcode : mr.code = some ⟨(ctorInstructions d ctor).toArray, n⟩) {vals : List Value}
    (hvals : List.Forall₂ (fun p v => v.OfType p) ((ctorPairs d ctor).map (·.2)) vals) {a : Nat} {cls' : String}
    {fs : String → Option Value} (hobj : m.heap[a]? = some (.inst cls' fs))
    (hsuper : m.knows (d.superclass.getD objectClass) = false) (hname : ctor.name = constructorName)
    (extra : List Value) (r : Resume) (c : Frame) (cs : List Frame) :
    ∃ callee, m.enter d.name ctor.name ctor.descriptor (some (.ref a)) (vals ++ extra) r = .ok callee ∧
      callee.code = ⟨(ctorInstructions d ctor).toArray, n⟩ ∧
      Moves m (callee :: c :: cs) (3 * (ctorPairs d ctor).length + 3)
        { m with heap := m.heap.set! a (.inst cls' (storeFields fs (((ctorPairs d ctor).map (·.1.name)).zip vals))) }
        (c.resumeWith r none :: cs) := by
  refine ⟨_, enter_instance hcls hmr hcode (.ref a) (vals ++ extra) r, rfl, ?_⟩
  -- the arguments stand in the slots after `this`, before the words of `extra`
  have hlocals : (Value.ref a :: Primitive.argWords (vals ++ extra)).toArray ++
      Array.replicate (n - ((Primitive.argWords (vals ++ extra)).length + 1)) .top =
      ([Value.ref a] ++ Primitive.argWords vals ++ (Primitive.argWords extra ++
        List.replicate (n - ((Primitive.argWords (vals ++ extra)).length + 1)) Value.top)).toArray := by
    apply Array.ext'
    simp [Primitive.argWords, List.flatMap_append]
  refine Moves.constructor (by simp) rfl rfl (by simp) ?_ hobj hsuper hname
  rw [hlocals]
  exact argsAt_argWords hvals [.ref a] _

end Machine

/-! ### The constructors of a compiled program -/

section Program

open Syntax Machine Primitive

variable {files : List (String × SourceFile)} {opts : CompileOptions} {s : Structure}
  {ctors bodies : List (MethodKey × Code)} {records : List ClassRecord}

/-- Every generated constructor is the code of a constructor of a class
    written out, filed under that constructor's key. -/
theorem constructors_entry {t : ClassTable} (h : constructors t = .ok ctors) {y : MethodKey × Code}
    (hy : y ∈ ctors) :
    ∃ d ∈ t.emitted, ∃ ctor ∈ d.methods.filter (·.isConstructor),
      y.1 = MethodKey.of d.name ctor ∧ constructorCode d ctor = .ok y.2 := by
  obtain ⟨d, hd, bs, hbs, hk⟩ := flatMapM_mem h _ hy
  obtain ⟨ctor, hctor, hcode⟩ := mapM_mem hbs _ hk
  split at hcode
  · rename_i code hc
    cases hcode
    exact ⟨d, (List.mem_filter.1 hd).1, ctor, hctor, rfl, hc⟩
  · cases hcode

/-- Under the key of the one constructor of a class written out, the
    generated constructors hold its code only: the class is the one of its
    name, and the constructor its only one. -/
theorem constructors_code_of_key {t : ClassTable} (ht : t.Distinct) (h : constructors t = .ok ctors)
    {d : TypeDecl} (hd : d ∈ t.emitted) {ctor : MethodSig} (hone : d.methods.filter (·.isConstructor) = [ctor])
    {y : MethodKey × Code} (hy : y ∈ ctors) (hkey : y.1 = MethodKey.of d.name ctor) :
    constructorCode d ctor = .ok y.2 := by
  obtain ⟨d', hd', ctor', hctor', hkey', hcode⟩ := constructors_entry h hy
  have hname : d'.name = d.name := congrArg MethodKey.owner (hkey'.symm.trans hkey)
  obtain rfl := ht.eq_of_name (ClassTable.mem_of_mem_emitted hd') (ClassTable.mem_of_mem_emitted hd) hname
  rw [hone, List.mem_singleton] at hctor'
  rwa [← hctor']

/-- No compiled body is filed under the name of constructors: each job is
    filed under the name of its function, and the functions of parsed files
    are named by identifiers. -/
theorem compileJobs_not_constructor (hnamed : ∀ f ∈ files.flatMap (fun x => x.2.functions), f.Named)
    (hs : buildStructure files = .ok s) (hbodies : compileJobs files opts s = .ok bodies) {y : MethodKey × Code}
    (hy : y ∈ bodies) : y.1.name ≠ constructorName := by
  rw [compileJobs_eq] at hbodies
  obtain ⟨j, hj, hok⟩ := mapM_mem hbodies y hy
  rw [compileJob_key hok, buildStructure_jobs_named hs j hj]
  exact (hnamed _ ((buildStructure_ok hs).jobs j hj).1).ne_constructorName

/-- The one constructor of a struct, module or adapter written out is
    installed with the generated code: the record the machine finds under the
    class's name has the constructor's method, whose code is
    `ctorInstructions`, with a local for `this` and the parameters' slots. -/
theorem installed_constructor (hnamed : ∀ f ∈ files.flatMap (fun x => x.2.functions), f.Named)
    (hs : buildStructure files = .ok s) (hctors : constructors s.table = .ok ctors)
    (hbodies : compileJobs files opts s = .ok bodies)
    (hrec : s.table.emitted.mapM (classRecordOf (ctors ++ bodies)) = .ok records) {d : TypeDecl}
    (hd : d ∈ s.table.emitted) (hi : (d.isInstantiable || d.adapter.isSome) = true) {ctor : MethodSig}
    (hone : d.methods.filter (·.isConstructor) = [ctor]) (habs : ctor.isAbstract = false) {m : State}
    (hm : m.classes = records) :
    ∃ cls mr, m.classNamed? d.name = some cls ∧ cls.method? ctor.name ctor.descriptor = some mr ∧
      mr.code = some ⟨(ctorInstructions d ctor).toArray, 1 + ctor.type.paramSlots⟩ := by
  have hw := buildStructure_ok hs
  obtain ⟨hmem, hc⟩ := List.mem_filter.1 (hone ▸ List.mem_singleton_self ctor)
  have hfits : CtorFits d ctor := hw.ctorFits hnamed (hw.emitted_declared hd).2 hi hmem hc
  -- the code generated is the only body filed under the constructor's key
  obtain ⟨code, hcode⟩ := constructors_mem hctors hd hi hmem hc
  have hgen : constructorCode d ctor = .ok code := constructors_code_of_key hw.distinct hctors hd hone hcode rfl
  have hcode_eq : code = ⟨(ctorInstructions d ctor).toArray, 1 + ctor.type.paramSlots⟩ :=
    Except.ok.inj (hgen.symm.trans (constructorCode_eq hfits))
  have hbody : bodyOf? (ctors ++ bodies) (MethodKey.of d.name ctor) = some code := by
    refine bodyOf?_of_unique (List.mem_append_left _ hcode) fun y hy hkey => ?_
    rcases List.mem_append.1 hy with hy | hy
    · exact Except.ok.inj ((constructors_code_of_key hw.distinct hctors hd hone hy hkey).symm.trans hgen)
    · refine absurd ?_ (compileJobs_not_constructor hnamed hs hbodies hy)
      rw [hkey]
      simpa [MethodKey.of, MethodSig.isConstructor] using hc
  -- the record's method is the one of the constructor's name and descriptor
  obtain ⟨cls, hok, hcls⟩ := classNamed_of_emitted hw.distinct hrec hd hm
  have hfind : d.methods.find? (fun x => x.name == ctor.name && x.descriptor == ctor.descriptor) = some ctor := by
    refine List.find?_eq_of_unique hmem (by simp) fun y hy hp => ?_
    have hy' : y ∈ d.methods.filter (·.isConstructor) := by
      simp only [Bool.and_eq_true, beq_iff_eq] at hp
      refine List.mem_filter.2 ⟨hy, ?_⟩
      simpa [MethodSig.isConstructor, hp.1] using hc
    rwa [hone, List.mem_singleton] at hy'
  obtain ⟨mr, hmr, -, -, hmr_code⟩ := List.Forall₂.find?_some
    (q := fun mr : MethodRecord => mr.name == ctor.name && mr.descriptor == ctor.descriptor)
    (fun x y hxy => by rw [hxy.1, hxy.2.1]) (classRecordOf_methods hok) hfind
  exact ⟨cls, mr, hcls, hmr, (hmr_code habs).trans (hbody.trans (congrArg some hcode_eq))⟩

/-- A machine loaded with the records of a compiled program knows no class
    named as the platform's `Object`: `Object` stands in the table, whose
    names are distinct, and is not written out. -/
theorem knows_object (hs : buildStructure files = .ok s)
    (hrec : s.table.emitted.mapM (classRecordOf bodies) = .ok records) {m : State} (hm : m.classes = records) :
    m.knows objectClass = false := by
  obtain ⟨obj, hobj, hname, -, -⟩ := platform_object
  rw [State.knows, Bool.eq_false_iff, ne_eq, Option.isSome_iff_exists]
  rintro ⟨r, hr⟩
  rw [State.classNamed?, hm] at hr
  obtain ⟨d, hd, hrd⟩ := mapM_mem hrec r (List.mem_reverse.1 (List.mem_of_find?_eq_some hr))
  have hn : d.name = obj.name := by
    rw [← classRecordOf_name hrd, hname]
    simpa using List.find?_some hr
  obtain rfl := (buildStructure_ok hs).distinct.eq_of_name (ClassTable.mem_of_mem_emitted hd)
    ((buildStructure_holders hs).platform obj hobj) hn
  have hlib := ClassTable.platform_library d hobj
  simp [ClassTable.emitted, hlib] at hd

/-- The passes of a compiled source set, over its parsed files and their
    structure. -/
theorem SourceSet.compile_passes {src : SourceSet} (hparse : src.parseAll = .ok files)
    (hs : buildStructure files = .ok s) (hc : src.compile = .ok records) :
    ∃ ctors bodies, constructors s.table = .ok ctors ∧ compileJobs files src.options s = .ok bodies ∧
      s.table.emitted.mapM (classRecordOf (ctors ++ bodies)) = .ok records := by
  have hcomp : compileProgram files src.options = .ok records := by
    rw [SourceSet.compile, hparse] at hc
    exact hc
  obtain ⟨s', ctors, bodies, hs', hctors, hbodies, hrec⟩ := compileProgram_ok hcomp
  rw [show s' = s from Except.ok.inj (hs'.symm.trans hs)] at hctors hbodies hrec
  exact ⟨ctors, bodies, hctors, hbodies, hrec⟩

/-- Construction stores the arguments in the fields. In a compiled program,
    the one constructor of a struct or module is installed with the code that
    stores each parameter into the field of its position, with two locals
    more than the fields' slots, for `this` and the marker. A call of it on an
    instance of the class, with arguments of the fields' types and `null` for
    the marker, enters that code and returns after `3 n + 3` steps, `n` the
    number of fields, and the instance then holds each argument in its
    field. -/
theorem construct_stores_arguments {src : SourceSet} (hparse : src.parseAll = .ok files)
    (hs : buildStructure files = .ok s) (hc : src.compile = .ok records) {d : TypeDecl} (hd : d ∈ s.table.decls)
    (hi : d.isInstantiable = true) {m : State} (hm : m.classes = records) {a : Nat}
    {fs : String → Option Value} (hobj : m.heap[a]? = some (.inst d.name fs)) {vals : List Value}
    (hvals : List.Forall₂ (fun f v => v.OfType f.ty) d.fields vals) (c : Frame) (cs : List Frame) :
    ∃ callee, m.enter d.name constructorName (FilePass.fieldsConstructor d.fields d.span).descriptor
        (some (.ref a)) (vals ++ [.null]) .push = .ok callee ∧
      callee.code = ⟨(ctorInstructions d (FilePass.fieldsConstructor d.fields d.span)).toArray,
        2 + (d.fields.map (·.ty.slotSize)).sum⟩ ∧
      Moves m (callee :: c :: cs) (3 * d.fields.length + 3)
        { m with heap := m.heap.set! a (.inst d.name (storeFields fs ((d.fields.map (·.name)).zip vals))) }
        (c.resumeWith .push none :: cs) ∧
      ∀ p ∈ d.fields.zip vals, storeFields fs ((d.fields.map (·.name)).zip vals) p.1.name = some p.2 := by
  obtain ⟨ctors, bodies, hctors, hbodies, hrec⟩ := SourceSet.compile_passes hparse hs hc
  have hnamed := SourceSet.parseAll_named hparse
  -- the struct or module has one constructor, that of its fields
  have hshape := buildStructure_fieldsShape hs hd hi
  have hone := hshape.constructors fun f hf => (hnamed f hf).ne_constructorName
  have hem : d ∈ s.table.emitted := by
    refine List.mem_filter.2 ⟨Array.mem_toList_iff.2 hd, ?_⟩
    simp only [TypeDecl.isInstantiable, Bool.or_eq_true, beq_iff_eq] at hi
    rcases hi with hk | hk <;> simp [hk]
  obtain ⟨cls, mr, hcls, hmr, hcode⟩ :=
    installed_constructor hnamed hs hctors hbodies hrec hem (by simp [hi]) hone rfl hm
  have hpairs := ctorPairs_fieldsConstructor hshape.instance_fields d.span
  have hlen : d.fields.length = vals.length := hvals.length_eq
  obtain ⟨callee, henter, hcallee, hmoves⟩ := Moves.callConstructor hcls hmr hcode
    (by rw [hpairs, List.map_map]; exact List.forall₂_map_left_iff.2 hvals) hobj
    (by rw [hshape.superclass]; exact knows_object hs hrec hm) rfl [.null] .push c cs
  refine ⟨callee, henter, ?_, by simpa [hpairs, Function.comp_def] using hmoves, fun p hp => ?_⟩
  · rw [hcallee, fieldsConstructor_paramSlots]
    congr 1
    omega
  · -- each field is stored once, under its own name
    have hnodup : (((d.fields.map (·.name)).zip vals).map Prod.fst).Nodup := by
      rw [List.map_fst_zip (by simp [hlen])]
      exact hshape.names
    refine storeFields_of_mem hnodup ?_
    rw [List.zip_map_left]
    exact List.mem_map.2 ⟨p, hp, rfl⟩

/-- The struct an adapter wraps is no platform class, so not the marker
    `java/lang/Void`: the impl's check found it a struct or module of the
    table. -/
theorem adapter_target_ne_marker (hs : buildStructure files = .ok s) {d : TypeDecl} (hd : d ∈ s.table.decls)
    {T S : String} (hinfo : d.adapter = some ⟨T, S⟩) (hk : d.kind = .adapter) : S ≠ voidMarkerClass := by
  have hw := buildStructure_ok hs
  obtain ⟨p, hp, hcheck, -⟩ := hw.adapter d hd hk
  obtain ⟨-, -, -, -, -, rfl⟩ : T = p.traitName ∧ S = p.structName := by
    simpa [hp.info] using hinfo.symm
  obtain ⟨-, -, -, ⟨sd, hsd, hinst⟩, -⟩ := checkImpl_ok hcheck
  rintro hS
  obtain ⟨v, hv, hvn⟩ : ∃ v ∈ ClassTable.platform.decls, v.name = voidMarkerClass := by decide
  obtain ⟨hsd, hsdn⟩ := ClassTable.get?_of_eq_some hsd
  obtain rfl := hw.distinct.eq_of_name hsd ((buildStructure_holders hs).platform v hv) (by rw [hsdn, hvn, hS])
  simp [TypeDecl.isInstantiable, ClassTable.platform_library sd hv] at hinst

/-- An adapter stores the value it wraps. In a compiled program, the one
    constructor `(S)V` of the adapter of an impl for the struct `S` is
    installed with the code that stores its parameter into `wrapped`. A call
    of it on an instance of the adapter with a value of type `S` returns after
    six steps, and the instance then holds the value in `wrapped`. -/
theorem construct_adapter_stores_wrapped {src : SourceSet} (hparse : src.parseAll = .ok files)
    (hs : buildStructure files = .ok s) (hc : src.compile = .ok records) {d : TypeDecl} (hd : d ∈ s.table.decls)
    {T S : String} (hinfo : d.adapter = some ⟨T, S⟩) {m : State} (hm : m.classes = records) {a : Nat}
    {fs : String → Option Value} (hobj : m.heap[a]? = some (.inst d.name fs)) {v : Value} (hv : v.OfType (.obj S))
    (r : Resume) (c : Frame) (cs : List Frame) :
    ∃ callee, m.enter d.name constructorName (MethodSig.constructor [.obj S]).descriptor (some (.ref a)) [v]
        r = .ok callee ∧
      Moves m (callee :: c :: cs) 6
        { m with heap := m.heap.set! a (.inst d.name fun n => if n == wrappedField then some v else fs n) }
        (c.resumeWith r none :: cs) := by
  obtain ⟨ctors, bodies, hctors, hbodies, hrec⟩ := SourceSet.compile_passes hparse hs hc
  have hnamed := SourceSet.parseAll_named hparse
  -- the adapter is that of an impl, with one field and one constructor
  have himpl : ImplAdapter files T S d :=
    (buildStructure_sourced hs).adapters d (Array.mem_toList_iff.2 hd) T S hinfo
  obtain ⟨sp, hfields, hone⟩ := ImplAdapter.constructors himpl fun f hf => (hnamed f hf).ne_constructorName
  obtain ⟨-, hk, hsuper, -⟩ := himpl
  have hem : d ∈ s.table.emitted := List.mem_filter.2 ⟨Array.mem_toList_iff.2 hd, by simp [hk]⟩
  obtain ⟨cls, mr, hcls, hmr, hcode⟩ :=
    installed_constructor hnamed hs hctors hbodies hrec hem (by simp [hinfo]) hone rfl hm
  -- its parameter is the struct, paired with `wrapped`
  have hS := adapter_target_ne_marker hs hd hinfo hk
  have hpairs : ctorPairs d { MethodSig.constructor [.obj S] with span := sp } =
      [(⟨wrappedField, .obj S, false, sp⟩, .obj S)] := by
    simp [ctorPairs, hfields, MethodSig.sourceParams, MethodSig.constructor, MethodSig.instanceMethod,
      MethodSig.isConstructor, hS]
  have hvals : List.Forall₂ (fun p v => v.OfType p)
      ((ctorPairs d { MethodSig.constructor [.obj S] with span := sp }).map (·.2)) [v] := by
    rw [hpairs]
    exact .cons hv .nil
  obtain ⟨callee, henter, -, hmoves⟩ := Moves.callConstructor hcls hmr hcode hvals hobj
    (by rw [hsuper]; exact knows_object hs hrec hm) rfl [] r c cs
  exact ⟨callee, henter, by simpa [hpairs, storeFields] using hmoves⟩

end Program

end ClassCompiler
