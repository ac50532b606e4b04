import ClassCompiler.Proofs.ClassFile.Decoding
import ClassCompiler.Proofs.ClassFile.PoolIndexes

/-!
# What the assembler writes

The two passes of the assembler agree. The layout pass gives every entry of a
body an offset and a pool operand; the encoding pass writes for each entry
bytes that read back as that entry, as many as the layout counted, so that a
jump holds the distance from its own offset to the offset where its label was
placed last. The line table the layout builds has increasing offsets, one for
each offset a line entry stands at, with the line of the last entry there,
clamped to 65535.

* `Layout.Records`: what a layout records of the entries placed so far, kept
  by each step (`Records.place`) and so by the whole pass
  (`Records.layout`);
* `LineTable`: what the line table records, kept by `addLine`;
* `assemble_encodes_layout`: what a successful assembly writes, and where a
  branch out of range comes from;
* `assemble_clamps_lines_and_misreads_bare_operands`: a line above 65535 is
  written as 65535, and an opcode with operands given alone swallows the
  next byte.
-/

namespace ClassCompiler

/-! ## Pool operands fit two bytes -/

namespace Pool

theorem entryIn?_lt {es : List PoolEntry} {start i : Nat} {f : PoolEntry}
    (h : entryIn? es start i = some f) : i < start + span es := by
  induction es generalizing start with
  | nil => cases h
  | cons e es ih =>
    unfold entryIn? at h
    have := e.one_le_width
    split at h
    · simp; omega
    · have := ih h; simp; omega

theorem Inv.lt_next {p : Pool} (hp : p.Inv) {i : Nat} {f : PoolEntry} (h : p.entryAt? i = some f) :
    i < p.next := by
  rw [hp.next]
  exact entryIn?_lt h

/-- An index the pool gives fits in two bytes. -/
theorem Inv.add_lt {p p' : Pool} (hp : p.Inv) {e : PoolEntry} {i : Nat} (h : p.add e = .ok (i, p')) :
    i < 65536 ∧ p'.Inv := by
  obtain ⟨hp', ⟨f, hf, -⟩, -⟩ := hp.add h
  have := hp'.lt_next hf
  have := hp'.bound
  exact ⟨by omega, hp'⟩

end Pool

/-- The pool operand of an entry fits in two bytes, and the pool keeps its
    invariant. -/
theorem Instruction.poolOperand_lt {pool pool' : Pool} (hp : pool.Inv) {i : Instruction} {operand : Nat}
    (h : i.poolOperand pool = .ok (operand, pool')) : operand < 65536 ∧ pool'.Inv := by
  cases i with
  | ldc c =>
    cases c with
    | string s =>
      obtain ⟨⟨u, p₁⟩, h₁, h⟩ := Except.bind_eq_ok.1 h
      exact (hp.utf8 h₁).1.add_lt h
    | _ => exact hp.add_lt h
  | classRef op name =>
    obtain ⟨⟨n, p₁⟩, h₁, h⟩ := Except.bind_eq_ok.1 h
    exact (hp.utf8 h₁).1.add_lt h
  | field op m =>
    obtain ⟨⟨c, p₁⟩, h₁, h⟩ := Except.bind_eq_ok.1 h
    obtain ⟨⟨nt, p₂⟩, h₂, h⟩ := Except.bind_eq_ok.1 h
    exact ((hp.classRef h₁).1.nameAndType h₂).1.add_lt h
  | invoke op m =>
    obtain ⟨⟨c, p₁⟩, h₁, h⟩ := Except.bind_eq_ok.1 h
    obtain ⟨⟨nt, p₂⟩, h₂, h⟩ := Except.bind_eq_ok.1 h
    have hp₂ := ((hp.classRef h₁).1.nameAndType h₂).1
    dsimp only at h
    split at h
    · exact hp₂.add_lt h
    · exact hp₂.add_lt h
  | _ => cases h; exact ⟨by omega, hp⟩

/-! ## The layout pass, one entry at a time -/

namespace Layout

/-- The layout after one more entry `i` with pool operand `operand`: the step
    of `layout`. -/
def place (acc : Layout) (i : Instruction) (operand : Nat) : Layout :=
  let acc := { acc with slots := acc.slots.push (acc.offset, operand) }
  let acc := match i with
    | .label l => { acc with labels := acc.labels.insert l acc.offset }
    | .line n => { acc with lines := addLine acc.lines acc.offset n }
    | _ => acc
  { acc with offset := acc.offset + i.encodedSize operand }

@[simp] theorem place_slots (acc : Layout) (i : Instruction) (operand : Nat) :
    (acc.place i operand).slots = acc.slots.push (acc.offset, operand) := by
  cases i <;> rfl

@[simp] theorem place_offset (acc : Layout) (i : Instruction) (operand : Nat) :
    (acc.place i operand).offset = acc.offset + i.encodedSize operand := by
  cases i <;> rfl

theorem place_labels (acc : Layout) (i : Instruction) (operand : Nat) :
    (acc.place i operand).labels =
      match i with
      | .label l => acc.labels.insert l acc.offset
      | _ => acc.labels := by
  cases i <;> rfl

end Layout

theorem layout_cons_ok {i : Instruction} {rest : List Instruction} {pool : Pool} {acc : Layout}
    {r : Layout × Pool} :
    layout (i :: rest) pool acc = .ok r ↔
      ∃ operand pool₁, i.poolOperand pool = .ok (operand, pool₁) ∧
        layout rest pool₁ (acc.place i operand) = .ok r := by
  rw [layout, Except.bind_eq_ok]
  constructor
  · rintro ⟨⟨operand, pool₁⟩, h₁, h⟩
    exact ⟨operand, pool₁, h₁, h⟩
  · rintro ⟨operand, pool₁, h₁, h⟩
    exact ⟨(operand, pool₁), h₁, h⟩


/-! ## What a layout records -/

theorem Placed.snoc {pc stop : Nat} {es : List (Instruction × Nat × Nat)} (h : Placed pc es stop)
    (i : Instruction) (operand : Nat) :
    Placed pc (es ++ [(i, stop, operand)]) (stop + i.encodedSize operand) := by
  induction h with
  | nil pc => exact .cons (.nil _)
  | cons _ ih => exact .cons ih

/-- The label `l` is placed at offset `t` among the entries `P`, and not again
    after. -/
def LastLabel (P : List (Instruction × Nat × Nat)) (l t : Nat) : Prop :=
  ∃ P₁ o P₂, P = P₁ ++ (.label l, t, o) :: P₂ ∧ ∀ e ∈ P₂, e.1 ≠ .label l

/-- A line entry for line `n` stands at offset `pc` among the entries `P`, and
    no line entry stands there after it. -/
def LastLine (P : List (Instruction × Nat × Nat)) (pc n : Nat) : Prop :=
  ∃ P₁ o P₂, P = P₁ ++ (.line n, pc, o) :: P₂ ∧ ∀ e ∈ P₂, e.2.1 = pc → ∀ n', e.1 ≠ .line n'

theorem LastLabel.snoc {P : List (Instruction × Nat × Nat)} {l t : Nat} (h : LastLabel P l t)
    {e : Instruction × Nat × Nat} (he : e.1 ≠ .label l) : LastLabel (P ++ [e]) l t := by
  obtain ⟨P₁, o, P₂, rfl, hP₂⟩ := h
  refine ⟨P₁, o, P₂ ++ [e], by simp, fun e' he' => ?_⟩
  rcases List.mem_append.1 he' with he' | he'
  · exact hP₂ e' he'
  · rw [List.mem_singleton.1 he']; exact he

theorem LastLabel.last (P : List (Instruction × Nat × Nat)) (l t o : Nat) :
    LastLabel (P ++ [(.label l, t, o)]) l t :=
  ⟨P, o, [], rfl, by simp⟩

theorem LastLine.snoc {P : List (Instruction × Nat × Nat)} {pc n : Nat} (h : LastLine P pc n)
    {e : Instruction × Nat × Nat} (he : e.2.1 = pc → ∀ n', e.1 ≠ .line n') : LastLine (P ++ [e]) pc n := by
  obtain ⟨P₁, o, P₂, rfl, hP₂⟩ := h
  refine ⟨P₁, o, P₂ ++ [e], by simp, fun e' he' => ?_⟩
  rcases List.mem_append.1 he' with he' | he'
  · exact hP₂ e' he'
  · rw [List.mem_singleton.1 he']; exact he

theorem LastLine.last (P : List (Instruction × Nat × Nat)) (pc n o : Nat) :
    LastLine (P ++ [(.line n, pc, o)]) pc n :=
  ⟨P, o, [], rfl, by simp⟩

/-- The last pair of a table of increasing offsets has the greatest offset. -/
theorem lt_last_of_sorted {init : List (Nat × Nat)} {last : Nat × Nat}
    (h : ((init ++ [last]).map (·.1)).Pairwise (· < ·)) : ∀ p ∈ init, p.1 < last.1 := by
  rw [List.map_append, List.pairwise_append] at h
  intro p hp
  exact h.2.2 _ (List.mem_map_of_mem hp) _ (by simp)

/-- A line entry at offset `cur`, at or after every offset of a table of
    increasing offsets: the table keeps its pairs at other offsets, in
    increasing order, and pairs `cur` with the line, clamped. -/
theorem addLine_spec {T : Array (Nat × Nat)} {cur n : Nat} (hcur : cur < 65536)
    (hsorted : (T.toList.map (·.1)).Pairwise (· < ·)) (hbelow : ∀ p ∈ T.toList, p.1 ≤ cur) :
    ((addLine T cur n).toList.map (·.1)).Pairwise (· < ·) ∧
      (∀ p, p ∈ (addLine T cur n).toList ↔ (p ∈ T.toList ∧ p.1 ≠ cur) ∨ p = (cur, min n 65535)) := by
  have hmod : cur % 65536 = cur := Nat.mod_eq_of_lt hcur
  unfold addLine
  simp only [hmod]
  cases hb : T.back? with
  | none =>
    have hT : T.toList = [] := by
      rw [← Array.getLast?_toList, List.getLast?_eq_none_iff] at hb
      exact hb
    simp [hT]
  | some last =>
    obtain ⟨pc, ln⟩ := last
    rw [← Array.getLast?_toList, List.getLast?_eq_some_iff] at hb
    obtain ⟨init, hT⟩ := hb
    rw [hT] at hsorted hbelow
    have hlt := lt_last_of_sorted hsorted
    have hpc : pc ≤ cur := hbelow (pc, ln) (by simp)
    dsimp only
    split
    · -- the same offset: the last pair is replaced
      subst pc
      simp only [Array.toList_push, Array.toList_pop, hT, List.dropLast_concat]
      refine ⟨by simpa using hsorted, fun p => ?_⟩
      simp only [List.mem_append, List.mem_singleton]
      constructor
      · rintro (hp | rfl)
        · exact .inl ⟨.inl hp, Nat.ne_of_lt (hlt p hp)⟩
        · exact .inr rfl
      · rintro (⟨hp | rfl, hne⟩ | rfl)
        · exact .inl hp
        · exact absurd rfl hne
        · exact .inr rfl
    · -- a new offset, past every other
      rename_i hne
      simp only [Array.toList_push, hT]
      refine ⟨?_, fun p => ?_⟩
      · simp only [List.map_append, List.map_cons, List.map_nil] at hsorted ⊢
        rw [List.pairwise_append]
        refine ⟨hsorted, by simp, ?_⟩
        intro a ha b hb
        simp only [List.mem_singleton] at hb
        subst hb
        simp only [List.mem_append, List.mem_map, List.mem_singleton] at ha
        rcases ha with ⟨p, hp, rfl⟩ | rfl
        · have := hlt p hp; simp at this; omega
        · omega
      · simp only [List.mem_append, List.mem_singleton]
        constructor
        · rintro ((hp | rfl) | rfl)
          · exact .inl ⟨.inl hp, by have := hlt p hp; simp at this; omega⟩
          · exact .inl ⟨.inr rfl, hne⟩
          · exact .inr rfl
        · rintro (⟨hp, -⟩ | rfl)
          · exact .inl hp
          · exact .inr rfl


/-- A line table that records the line entries among the entries `P`, all at
    or before `offset`: increasing offsets, each with the line of the last line
    entry there, clamped to 65535, and one for each offset a line entry stands
    at. -/
structure LineTable (T : Array (Nat × Nat)) (P : List (Instruction × Nat × Nat)) (offset : Nat) :
    Prop where
  sorted : (T.toList.map (·.1)).Pairwise (· < ·)
  last : ∀ p ∈ T.toList, ∃ n, LastLine P p.1 n ∧ p.2 = min n 65535
  covered : ∀ e ∈ P, ∀ n, e.1 = .line n → ∃ ln, (e.2.1, ln) ∈ T.toList
  below : ∀ p ∈ T.toList, p.1 ≤ offset

namespace LineTable

variable {T : Array (Nat × Nat)} {P : List (Instruction × Nat × Nat)} {offset : Nat}

theorem empty : LineTable #[] [] 0 where
  sorted := by simp
  last := by simp
  covered := by simp
  below := by simp

theorem mono (h : LineTable T P offset) {offset' : Nat} (hle : offset ≤ offset') : LineTable T P offset' :=
  { h with below := fun p hp => Nat.le_trans (h.below p hp) hle }

/-- An entry that is no line entry leaves the table as it is. -/
theorem other (h : LineTable T P offset) {i : Instruction} (hi : ∀ n, i ≠ .line n) (operand : Nat) :
    LineTable T (P ++ [(i, offset, operand)]) offset where
  sorted := h.sorted
  last p hp := by
    obtain ⟨n, hn, hp⟩ := h.last p hp
    exact ⟨n, hn.snoc fun _ n' => hi n', hp⟩
  covered e he n hn := by
    rcases List.mem_append.1 he with he | he
    · exact h.covered e he n hn
    · rw [List.mem_singleton.1 he] at hn; exact absurd hn (hi n)
  below := h.below

/-- A line entry at `offset`: its line replaces the pair at that offset, or is
    paired with it after the others. -/
theorem line (h : LineTable T P offset) (hoff : offset < 65536) (n operand : Nat) :
    LineTable (addLine T offset n) (P ++ [(.line n, offset, operand)]) offset := by
  obtain ⟨hsorted, hmem⟩ := addLine_spec (n := n) hoff h.sorted h.below
  refine ⟨hsorted, fun p hp => ?_, fun e he n' hn => ?_, fun p hp => ?_⟩
  · rcases (hmem p).1 hp with ⟨hp, hne⟩ | rfl
    · obtain ⟨n', hn', hp⟩ := h.last p hp
      exact ⟨n', hn'.snoc fun heq => absurd heq.symm hne, hp⟩
    · exact ⟨n, LastLine.last P offset n operand, rfl⟩
  · rcases List.mem_append.1 he with he | he
    · obtain ⟨ln, hln⟩ := h.covered e he n' hn
      by_cases hpc : e.2.1 = offset
      · exact ⟨min n 65535, (hmem _).2 (.inr (by rw [hpc]))⟩
      · exact ⟨ln, (hmem _).2 (.inl ⟨hln, hpc⟩)⟩
    · rw [List.mem_singleton.1 he]
      exact ⟨min n 65535, (hmem _).2 (.inr rfl)⟩
  · rcases (hmem p).1 hp with ⟨hp, -⟩ | rfl
    · exact h.below p hp
    · exact Nat.le_refl _

end LineTable

namespace Layout

theorem place_lines (acc : Layout) (i : Instruction) (operand : Nat) :
    (acc.place i operand).lines =
      match i with
      | .line n => addLine acc.lines acc.offset n
      | _ => acc.lines := by
  cases i <;> rfl

/-- What a layout records of the entries `P` placed so far, each with its
    offset and pool operand: their slots, their offsets one after the other
    from 0 up to the current one, for each label the offset where it was
    placed last, and their line table. -/
structure Records (acc : Layout) (P : List (Instruction × Nat × Nat)) : Prop where
  slots : acc.slots.toList = P.map (·.2)
  placed : Placed 0 P acc.offset
  labels : ∀ l t, acc.labels.get? l = some t → LastLabel P l t
  lines : LineTable acc.lines P acc.offset

theorem Records.empty : ({} : Layout).Records [] where
  slots := rfl
  placed := .nil 0
  labels := by simp
  lines := LineTable.empty

/-- Placing one more entry, while offsets fit in two bytes. -/
theorem Records.place {acc : Layout} {P : List (Instruction × Nat × Nat)} (hR : acc.Records P)
    (hoff : acc.offset < 65536) (i : Instruction) (operand : Nat) :
    (acc.place i operand).Records (P ++ [(i, acc.offset, operand)]) where
  slots := by simp [hR.slots]
  placed := by rw [place_offset]; exact hR.placed.snoc i operand
  labels l t h := by
    rw [place_labels] at h
    split at h
    · rename_i l'
      rw [Std.HashMap.get?_insert] at h
      split at h
      · cases h
        rename_i heq
        rw [beq_iff_eq] at heq
        subst heq
        exact LastLabel.last P l' acc.offset operand
      · rename_i hne
        exact (hR.labels l t h).snoc fun heq => hne (by cases heq; simp)
    · rename_i hne
      exact (hR.labels l t h).snoc (hne l)
  lines := by
    rw [place_lines, place_offset]
    split
    · exact (hR.lines.line hoff _ operand).mono (Nat.le_add_right _ _)
    · rename_i hne
      exact (hR.lines.other hne operand).mono (Nat.le_add_right _ _)

end Layout

theorem layout_offset_le :
    ∀ {insns : List Instruction} {pool pool' : Pool} {acc lay : Layout},
      layout insns pool acc = .ok (lay, pool') → acc.offset ≤ lay.offset
  | [], _, _, _, _, h => by cases h; exact Nat.le_refl _
  | _ :: _, _, _, _, _, h => by
    obtain ⟨_, _, -, h⟩ := layout_cons_ok.1 h
    have := layout_offset_le h
    simp only [Layout.place_offset] at this
    omega

/-- The whole layout pass, from a pool the writer built, on a body whose code
    fits: every entry is recorded, with a pool operand of two bytes. -/
theorem Layout.Records.layout :
    ∀ {insns : List Instruction} {pool pool' : Pool} {acc lay : Layout} {P : List (Instruction × Nat × Nat)},
      acc.Records P → pool.Inv → ClassCompiler.layout insns pool acc = .ok (lay, pool') → lay.offset < 65536 →
      ∃ Q, lay.Records (P ++ Q) ∧ Q.map (·.1) = insns ∧ (∀ e ∈ Q, e.2.2 < 65536) ∧ pool'.Inv
  | [], _, _, _, _, _, hR, hp, h, _ => by
    cases h
    exact ⟨[], by simpa using hR, rfl, by simp, hp⟩
  | i :: _, _, _, acc, _, P, hR, hp, h, hend => by
    obtain ⟨operand, pool₁, h₁, h⟩ := layout_cons_ok.1 h
    obtain ⟨ho, hp₁⟩ := Instruction.poolOperand_lt hp h₁
    have hle := layout_offset_le h
    simp only [Layout.place_offset] at hle
    obtain ⟨Q, hQ, hQi, hQo, hp'⟩ := Records.layout (hR.place (by omega) i operand) hp₁ h hend
    refine ⟨(i, acc.offset, operand) :: Q, by simpa using hQ, by simp [hQi], ?_, hp'⟩
    intro e he
    rcases List.mem_cons.1 he with rfl | he
    · exact ho
    · exact hQo e he


/-! ## Assembling -/

/-- The entries of a body with the offset and the pool operand the layout gave
    each. -/
def Layout.entries (lay : Layout) (insns : List Instruction) : List (Instruction × Nat × Nat) :=
  insns.zip lay.slots.toList

/-- A layout pass from the start, from a pool the writer built, on a body whose
    code fits, records its entries, each with a pool operand of two bytes. -/
theorem layout_records {insns : List Instruction} {pool pool' : Pool} {lay : Layout} (hpool : pool.Inv)
    (h : layout insns pool {} = .ok (lay, pool')) (hfit : lay.offset ≤ maxCodeLength) :
    lay.Records (lay.entries insns) ∧ ∀ e ∈ lay.entries insns, e.2.2 < 65536 := by
  obtain ⟨Q, hR, hQi, hQo, -⟩ := Layout.Records.empty.layout hpool h (by unfold maxCodeLength at hfit; omega)
  rw [List.nil_append] at hR
  have hQ : lay.entries insns = Q := by
    unfold Layout.entries
    rw [← hQi, hR.slots]
    exact (List.zip_of_prod rfl rfl).symm
  rw [hQ]
  exact ⟨hR, hQo⟩

theorem Layout.mem_entries {lay : Layout} {insns : List Instruction} {e : Instruction × Nat × Nat}
    (he : e ∈ lay.entries insns) : e.1 ∈ insns :=
  (List.of_mem_zip he).1

/-- What a successful assembly consists of: a stack analysis that passed, the
    layout, a code size that fits, and the entries encoded one after the
    other. -/
theorem assemble_ok {method : String} {code : Code} {pool pool' : Pool} {asm : AssembledCode}
    (h : assemble method code pool = .ok (asm, pool')) :
    ∃ lay, layout code.instructions.toList pool {} = .ok (lay, pool') ∧ lay.offset ≤ maxCodeLength ∧
      (lay.entries code.instructions.toList).foldlM
        (fun out e => encodeInstruction method lay.labels out e.1 e.2.1 e.2.2) #[] = .ok asm.bytes ∧
      asm.lineNumbers = lay.lines := by
  unfold assemble at h
  obtain ⟨stack, -, h⟩ := Except.bind_eq_ok.1 h
  obtain ⟨⟨lay, pool₁⟩, hlay, h⟩ := Except.bind_eq_ok.1 h
  dsimp only at h
  split at h
  · cases h
  · rename_i hfit
    obtain ⟨out, hout, h⟩ := Except.bind_eq_ok.1 h
    cases h
    exact ⟨lay, hlay, by omega, hout, rfl⟩


/-! ## Where a branch out of range comes from -/

/-- A step of the class writer that does not fail with a branch out of range. -/
def NoBranchError {α : Type} (x : Except EmitError α) : Prop :=
  ∀ m d, x ≠ .error (.branchOutOfRange m d)

namespace NoBranchError

theorem ok {α : Type} (a : α) : NoBranchError (.ok a : Except EmitError α) :=
  fun _ _ h => by cases h

theorem error {α : Type} {e : EmitError} (he : ∀ m d, e ≠ .branchOutOfRange m d) :
    NoBranchError (.error e : Except EmitError α) :=
  fun m d h => he m d (by cases h; rfl)

theorem bind {α β : Type} {x : Except EmitError α} {f : α → Except EmitError β} (hx : NoBranchError x)
    (hf : ∀ a, NoBranchError (f a)) : NoBranchError (x >>= f) := by
  intro m d h
  cases x with
  | error e =>
    simp only [Bind.bind, Except.bind, Except.error.injEq] at h
    exact hx m d (by rw [h])
  | ok a => exact hf a m d h

/-- A step that cannot fail with a branch out of range, followed by one that
    does: the first succeeded. -/
theorem bind_eq {α β : Type} {x : Except EmitError α} {f : α → Except EmitError β} (hx : NoBranchError x)
    {m : String} {d : Int} (h : x >>= f = .error (.branchOutOfRange m d)) :
    ∃ a, x = .ok a ∧ f a = .error (.branchOutOfRange m d) := by
  cases x with
  | error e =>
    simp only [Bind.bind, Except.bind, Except.error.injEq] at h
    exact absurd (by rw [h]) (hx m d)
  | ok a => exact ⟨a, rfl, h⟩

end NoBranchError

theorem DepthWalk.reach_noBranchError (method : String) (w : DepthWalk) (i depth : Nat) :
    NoBranchError (w.reach method i depth) := by
  unfold DepthWalk.reach
  split
  · split
    · split
      · exact .ok _
      · exact .error (by simp)
    · exact .ok _
  · exact .ok _

theorem Instruction.stackEffect_noBranchError (i : Instruction) : NoBranchError i.stackEffect := by
  unfold Instruction.stackEffect
  repeat' split
  all_goals first | exact .ok _ | exact .error (by simp)

theorem DepthWalk.run_noBranchError (method : String) (insns : Array Instruction)
    (labels : Std.HashMap Nat Nat) : ∀ fuel w, NoBranchError (DepthWalk.run method insns labels fuel w)
  | 0, _ => .ok _
  | fuel + 1, w => by
    unfold DepthWalk.run
    dsimp only
    -- every failure of a step is a descriptor, an underflow, an unbound label
    -- or a mismatch
    repeat' first
      | exact .ok _
      | exact .error (by simp)
      | exact DepthWalk.reach_noBranchError _ _ _ _
      | exact Instruction.stackEffect_noBranchError _
      | exact run_noBranchError method insns labels fuel _
      | refine NoBranchError.bind ?_ fun _ => ?_
      | split

theorem maxStack_noBranchError (method : String) (insns : Array Instruction) :
    NoBranchError (maxStack method insns) :=
  .bind (DepthWalk.reach_noBranchError _ _ _ _) fun _ =>
    .bind (DepthWalk.run_noBranchError _ _ _ _ _) fun _ => .ok _

theorem Pool.add_noBranchError (p : Pool) (e : PoolEntry) : NoBranchError (p.add e) := by
  unfold Pool.add
  dsimp only
  repeat' first | exact .ok _ | exact .error (by simp) | split

theorem Pool.utf8_noBranchError (p : Pool) (s : String) : NoBranchError (p.utf8 s) := by
  unfold Pool.utf8
  dsimp only
  split
  · exact .error (by simp)
  · exact p.add_noBranchError _

theorem Pool.classRef_noBranchError (p : Pool) (name : String) : NoBranchError (p.classRef name) :=
  .bind (p.utf8_noBranchError _) fun r => r.2.add_noBranchError _

theorem Pool.nameAndType_noBranchError (p : Pool) (name descriptor : String) :
    NoBranchError (p.nameAndType name descriptor) :=
  .bind (p.utf8_noBranchError _) fun r => .bind (r.2.utf8_noBranchError _) fun r' => r'.2.add_noBranchError _

theorem Instruction.poolOperand_noBranchError (pool : Pool) (i : Instruction) :
    NoBranchError (i.poolOperand pool) := by
  cases i with
  | ldc c =>
    cases c with
    | string s => exact .bind (pool.utf8_noBranchError _) fun r => r.2.add_noBranchError _
    | _ => exact pool.add_noBranchError _
  | classRef op name => exact pool.classRef_noBranchError name
  | field op m =>
    exact .bind (pool.classRef_noBranchError _) fun r =>
      .bind (r.2.nameAndType_noBranchError _ _) fun r' => r'.2.add_noBranchError _
  | invoke op m =>
    refine .bind (pool.classRef_noBranchError _) fun r =>
      .bind (r.2.nameAndType_noBranchError _ _) fun r' => ?_
    dsimp only
    split
    · exact r'.2.add_noBranchError _
    · exact r'.2.add_noBranchError _
  | _ => exact .ok _

theorem layout_noBranchError :
    ∀ (insns : List Instruction) (pool : Pool) (acc : Layout), NoBranchError (layout insns pool acc)
  | [], _, _ => .ok _
  | i :: rest, pool, acc => by
    unfold layout
    refine .bind (i.poolOperand_noBranchError pool) fun r => ?_
    cases r
    exact layout_noBranchError rest _ _

/-- A fold that fails, fails at one of its elements. -/
theorem List.foldlM_error_mem {α β ε : Type} {f : β → α → Except ε β} :
    ∀ {l : List α} {b : β} {err : ε}, l.foldlM f b = .error err → ∃ a ∈ l, ∃ b', f b' a = .error err
  | [], _, _, h => by cases h
  | a :: l, b, err, h => by
    rw [List.foldlM_cons] at h
    cases hb : f b a with
    | error e =>
      rw [hb] at h
      cases h
      exact ⟨a, List.mem_cons_self, b, hb⟩
    | ok b' =>
      rw [hb] at h
      obtain ⟨a', ha', b'', h'⟩ := foldlM_error_mem h
      exact ⟨a', List.mem_cons_of_mem _ ha', b'', h'⟩

/-- Only a jump whose label is too far fails with a branch out of range. -/
theorem encodeInstruction_branchOutOfRange {method : String} {labels : Std.HashMap Nat Nat}
    {out : Array UInt8} {i : Instruction} {offset operand : Nat} {m : String} {d : Int}
    (h : encodeInstruction method labels out i offset operand = .error (.branchOutOfRange m d)) :
    m = method ∧ ∃ op l t, i = .jump op l ∧ labels.get? l = some t ∧ d = (t : Int) - offset ∧
      (d < -32768 ∨ 32767 < d) := by
  cases i with
  | jump op l =>
    simp only [encodeInstruction] at h
    cases hl : labels.get? l with
    | none => simp only [hl] at h; cases h
    | some t =>
      simp only [hl] at h
      split at h
      · cases h
        exact ⟨rfl, op, l, t, rfl, hl, rfl, by omega⟩
      · cases h
  | _ => simp only [encodeInstruction] at h; (repeat' split at h) <;> cases h

/-- An assembly fails with a branch out of range only at a jump whose label,
    where the layout placed it last, is out of reach of two signed bytes. -/
theorem assemble_branchOutOfRange {method : String} {code : Code} {pool : Pool} (hpool : pool.Inv)
    {m : String} {d : Int} (h : assemble method code pool = .error (.branchOutOfRange m d)) :
    m = method ∧ ∃ lay pool', layout code.instructions.toList pool {} = .ok (lay, pool') ∧
      ∃ op l t offset operand, (.jump op l, offset, operand) ∈ lay.entries code.instructions.toList ∧
        lay.labels.get? l = some t ∧ LastLabel (lay.entries code.instructions.toList) l t ∧
        d = (t : Int) - offset ∧ (d < -32768 ∨ 32767 < d) := by
  unfold assemble at h
  obtain ⟨stack, -, h⟩ := (maxStack_noBranchError _ _).bind_eq h
  obtain ⟨⟨lay, pool'⟩, hlay, h⟩ := (layout_noBranchError _ _ _).bind_eq h
  dsimp only at h
  split at h
  · cases h
  · rename_i hfit
    simp only [Bind.bind, Except.bind] at h
    split at h
    · rename_i hf
      cases h
      -- the fold failed at some entry, which is a jump too far from its label
      obtain ⟨⟨i, offset, operand⟩, he, out, hi⟩ := List.foldlM_error_mem hf
      obtain ⟨rfl, op, l, t, rfl, hl, rfl, hd⟩ := encodeInstruction_branchOutOfRange hi
      have hR := (layout_records hpool hlay (by omega)).1
      exact ⟨rfl, lay, pool', hlay, op, l, t, offset, operand, he, hl, hR.labels l t hl, rfl, hd⟩
    · cases h

/-! ## What the assembler writes -/

/-- The assembler writes what it laid out. Take a body whose entries are
    encodable, and a pool the writer built. When the assembly succeeds, the
    layout places the entries one after the other from offset 0; the bytes of
    each entry are as many as the layout counted; a label stands for the
    offset where it was placed last; the code bytes read back, instruction by
    instruction, as the entries that produce code, each at its offset, with
    its pool operand and, for a jump, the distance from its own offset to its
    label's; and the line table records the line entries. When the assembly
    fails with a branch out of range, the distance is that of a jump to its
    label, and two signed bytes cannot hold it. -/
theorem assemble_encodes_layout {method : String} {code : Code} {pool : Pool}
    (hcode : ∀ i ∈ code.instructions.toList, i.Encodable) (hpool : pool.Inv) :
    (∀ asm pool', assemble method code pool = .ok (asm, pool') →
      ∃ lay, layout code.instructions.toList pool {} = .ok (lay, pool') ∧
        Placed 0 (lay.entries code.instructions.toList) lay.offset ∧
        (∀ e ∈ lay.entries code.instructions.toList, ∃ bs,
          encodeInstruction method lay.labels #[] e.1 e.2.1 e.2.2 = .ok bs ∧ bs.size = e.1.encodedSize e.2.2) ∧
        (∀ l t, lay.labels.get? l = some t → LastLabel (lay.entries code.instructions.toList) l t) ∧
        readCode asm.bytes.toList 0 = some ((lay.entries code.instructions.toList).filterMap fun e =>
          (e.1.readBack lay.labels e.2.1 e.2.2).map fun c => (e.2.1, c)) ∧
        LineTable asm.lineNumbers (lay.entries code.instructions.toList) lay.offset) ∧
    (∀ m d, assemble method code pool = .error (.branchOutOfRange m d) →
      m = method ∧ ∃ lay pool', layout code.instructions.toList pool {} = .ok (lay, pool') ∧
        ∃ op l t offset operand, (.jump op l, offset, operand) ∈ lay.entries code.instructions.toList ∧
          lay.labels.get? l = some t ∧ LastLabel (lay.entries code.instructions.toList) l t ∧
          d = (t : Int) - offset ∧ (d < -32768 ∨ 32767 < d)) := by
  refine ⟨fun asm pool' h => ?_, fun m d h => assemble_branchOutOfRange hpool h⟩
  obtain ⟨lay, hlay, hfit, hout, hlines⟩ := assemble_ok h
  obtain ⟨hR, hops⟩ := layout_records hpool hlay hfit
  have hE : ∀ e ∈ lay.entries code.instructions.toList, e.1.Encodable ∧ e.2.2 < 65536 := fun e he =>
    ⟨hcode e.1 (Layout.mem_entries he), hops e he⟩
  -- the bytes are the entries' own, one after the other
  obtain ⟨bytes, hbytes, hread⟩ := readCode_encodeAll hR.placed hE hout
  refine ⟨lay, hlay, hR.placed, fun e he => ?_, hR.labels, ?_, hlines ▸ hR.lines⟩
  · obtain ⟨bs, hbs⟩ := encodeAll_each hout e he
    exact ⟨bs, hbs, encodeInstruction_size hbs⟩
  · rw [hbytes]
    simpa using hread

/-- A body that adds 300 to a local: a line, a `BIPUSH`, short, byte and `WIDE`
    local forms, a label and a `SIPUSH`. -/
def addToLocal : Code :=
  ⟨#[.line 7, .immediate .bipush 5, .slot .istore 1, .label 0, .line 8, .slot .iload 1,
    .immediate .sipush 300, .simple .iadd, .slot .istore 300, .simple .returnVoid], 301⟩

theorem assemble_encodes_layout_addToLocal :
    (∀ i ∈ addToLocal.instructions.toList, i.Encodable) ∧ Pool.Inv {} ∧
      (∃ r, assemble "add" addToLocal {} = .ok r) ∧
      (∀ asm pool', assemble "add" addToLocal {} = .ok (asm, pool') →
        ∃ lay, layout addToLocal.instructions.toList {} {} = .ok (lay, pool') ∧
          Placed 0 (lay.entries addToLocal.instructions.toList) lay.offset ∧
          (∀ e ∈ lay.entries addToLocal.instructions.toList, ∃ bs,
            encodeInstruction "add" lay.labels #[] e.1 e.2.1 e.2.2 = .ok bs ∧ bs.size = e.1.encodedSize e.2.2) ∧
          (∀ l t, lay.labels.get? l = some t → LastLabel (lay.entries addToLocal.instructions.toList) l t) ∧
          readCode asm.bytes.toList 0 = some ((lay.entries addToLocal.instructions.toList).filterMap fun e =>
            (e.1.readBack lay.labels e.2.1 e.2.2).map fun c => (e.2.1, c)) ∧
          LineTable asm.lineNumbers (lay.entries addToLocal.instructions.toList) lay.offset) ∧
      (∀ m d, assemble "add" addToLocal {} = .error (.branchOutOfRange m d) →
        m = "add" ∧ ∃ lay pool', layout addToLocal.instructions.toList {} {} = .ok (lay, pool') ∧
          ∃ op l t offset operand, (.jump op l, offset, operand) ∈ lay.entries addToLocal.instructions.toList ∧
            lay.labels.get? l = some t ∧ LastLabel (lay.entries addToLocal.instructions.toList) l t ∧
            d = (t : Int) - offset ∧ (d < -32768 ∨ 32767 < d)) :=
  ⟨by decide, Pool.Inv.empty, ⟨_, rfl⟩, assemble_encodes_layout (by decide) Pool.Inv.empty⟩

/-- Two bodies the assembler takes, whose output is not what their entries
    say. A line above 65535 is written as 65535. `BIPUSH` given as an opcode
    without operand is written as one byte, so the next instruction's byte is
    read as its operand: the two entries read back as one instruction. -/
theorem assemble_clamps_lines_and_misreads_bare_operands :
    assemble "m" ⟨#[.line 70000, .simple .returnVoid], 1⟩ {} =
        .ok (⟨#[0xb1], 0, 1, #[(0, 65535)]⟩, {}) ∧
      assemble "m" ⟨#[.simple .bipush, .simple .returnVoid], 1⟩ {} =
        .ok (⟨#[0x10, 0xb1], 1, 1, #[]⟩, {}) ∧
      readCode [0x10, 0xb1] 0 = some [(0, .immediate .bipush (-79))] :=
  ⟨rfl, rfl, by decide +kernel⟩

end ClassCompiler
