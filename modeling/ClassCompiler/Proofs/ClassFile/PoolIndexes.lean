import ClassCompiler.ClassFile.Pool
import ClassCompiler.Proofs.Build.Bodies

/-!
# Constant pool indexes

A class file reader numbers the entries of a pool from 1, giving a long or a
double two numbers. The pool hands out exactly those numbers: the `k`-th entry
is recorded at one past the widths of the entries before it, the next free
index is one past the widths of all of them and stays below 65536, and no two
entries share a key (`PoolEntry.key`: the value, with all NaNs one and both
zeros one). Every operation keeps this; adding fails only when the pool is
full, and a text only when it is too long.

* `Pool.entryAt?`: the entry a reader finds at an index;
* `Pool.Inv`: the invariant; `Pool.Inv.empty`, `Pool.Inv.add`: it holds of the
  empty pool and after adding an entry, whose index then names an entry with
  its key;
* `Pool.Inv.constant`: the index given to a constant stands for it
  (`Pool.Denotes`): the same int, long or text, a float or double of the same
  key;
* `Pool.Inv.run`, `Pool.run_indexes`: the invariant after every sequence of
  operations;
* `Pool.constant_negZero`: sharing by key loses the sign of zero: after `0.0f`,
  the constant `-0.0f` is given the index of `0.0f`, whose entry keeps the
  bits of `0.0f`.
-/

namespace ClassCompiler

namespace PoolEntry

/-- The number of indexes an entry takes. -/
def width (e : PoolEntry) : Nat := if e.isWide then 2 else 1

theorem one_le_width (e : PoolEntry) : 1 ≤ e.width := by
  unfold width
  split <;> omega

/-- The key of a float is a float, and that of a double a double. -/
theorem key_float (b : UInt32) : ∃ b', (PoolEntry.float b).key = .float b' := by
  simp only [key]
  split
  · exact ⟨_, rfl⟩
  · split <;> exact ⟨_, rfl⟩

theorem key_double (b : UInt64) : ∃ b', (PoolEntry.double b).key = .double b' := by
  simp only [key]
  split
  · exact ⟨_, rfl⟩
  · split <;> exact ⟨_, rfl⟩

/-- An entry other than a float or a double shares its key with itself alone. -/
theorem eq_of_key_eq {e f : PoolEntry} (hf : ∀ b, e ≠ .float b) (hd : ∀ b, e ≠ .double b)
    (h : f.key = e.key) : f = e := by
  have hk : e.key = e := by
    cases e with
    | float b => exact absurd rfl (hf b)
    | double b => exact absurd rfl (hd b)
    | _ => rfl
  rw [hk] at h
  cases f with
  | float b =>
    obtain ⟨b', hb'⟩ := key_float b
    rw [hb'] at h
    exact absurd h.symm (hf b')
  | double b =>
    obtain ⟨b', hb'⟩ := key_double b
    rw [hb'] at h
    exact absurd h.symm (hd b')
  | _ => exact h

end PoolEntry

namespace Pool

/-- The indexes taken by entries one after the other. -/
def span : List PoolEntry → Nat
  | [] => 0
  | e :: es => e.width + span es

@[simp] theorem span_nil : span [] = 0 := rfl

@[simp] theorem span_cons (e : PoolEntry) (es : List PoolEntry) : span (e :: es) = e.width + span es := rfl

@[simp] theorem span_append (es fs : List PoolEntry) : span (es ++ fs) = span es + span fs := by
  induction es with
  | nil => simp
  | cons e es ih => simp [ih]; omega

/-- The entry found at index `i` among entries numbered from `start`. -/
def entryIn? : List PoolEntry → Nat → Nat → Option PoolEntry
  | [], _, _ => none
  | e :: es, start, i => if i = start then some e else entryIn? es (start + e.width) i

/-- The entry a class file reader finds at index `i` of the written pool. -/
def entryAt? (p : Pool) (i : Nat) : Option PoolEntry := entryIn? p.entries.toList 1 i

/-- The `k`-th entry is found one past the widths of those before it. -/
theorem entryIn?_span (es : List PoolEntry) (start k : Nat) (hk : k < es.length) :
    entryIn? es start (start + span (es.take k)) = some es[k] := by
  induction es generalizing start k with
  | nil => cases hk
  | cons e es ih =>
    cases k with
    | zero => simp [entryIn?]
    | succ k =>
      have hw := e.one_le_width
      have hk' : k < es.length := by simpa using hk
      have hne : start + span ((e :: es).take (k + 1)) ≠ start := by simp; omega
      rw [entryIn?, if_neg hne]
      have hstart : start + span ((e :: es).take (k + 1)) = start + e.width + span (es.take k) := by
        simp; omega
      rw [hstart]
      exact ih (start + e.width) k hk'

/-- What the pool keeps true: no two entries share a key, the index recorded
    for a key is that of the entry with the key, numbered as a reader numbers
    them, and the next free index follows the last entry and fits in two
    bytes. -/
structure Inv (p : Pool) : Prop where
  nodup : (p.entries.toList.map PoolEntry.key).Nodup
  index : ∀ e i, p.index.get? e = some i ↔
    ∃ k, ∃ hk : k < p.entries.size, p.entries[k].key = e ∧ i = 1 + span (p.entries.toList.take k)
  next : p.next = 1 + span p.entries.toList
  bound : p.next ≤ 65535

theorem Inv.empty : Inv {} where
  nodup := by simp
  index e i := by simp
  next := rfl
  bound := by decide

/-- A key the index does not know belongs to no entry. -/
theorem Inv.key_ne {p : Pool} (hp : p.Inv) {e : PoolEntry} (hnone : p.index.get? e = none) :
    ∀ k (hk : k < p.entries.size), p.entries[k].key ≠ e := by
  intro k hk heq
  have := (hp.index e _).2 ⟨k, hk, heq, rfl⟩
  rw [hnone] at this
  cases this

/-- The pool after adding an entry with a new key at the next index. -/
theorem Inv.push {p : Pool} (hp : p.Inv) {e : PoolEntry} (hnone : p.index.get? e.key = none)
    (hfit : p.next + e.width ≤ 65535) :
    Inv { entries := p.entries.push e, index := p.index.insert e.key p.next, next := p.next + e.width } where
  nodup := by
    rw [Array.toList_push, List.map_append, List.nodup_append]
    refine ⟨hp.nodup, by simp, ?_⟩
    intro a ha b hb
    simp only [List.map_singleton, List.mem_singleton] at hb
    obtain ⟨f, hf, rfl⟩ := List.mem_map.1 ha
    obtain ⟨k, hk, rfl⟩ := List.getElem_of_mem hf
    subst hb
    exact hp.key_ne hnone k (by simpa using hk)
  index a i := by
    rw [Std.HashMap.get?_insert]
    by_cases ha : e.key = a
    · subst ha
      simp only [beq_self_eq_true, if_true, Option.some.injEq]
      constructor
      · rintro rfl
        refine ⟨p.entries.size, by simp, by simp, ?_⟩
        rw [hp.next, Array.toList_push, List.take_append_of_le_length (by simp), ← Array.length_toList,
          List.take_length]
      · rintro ⟨k, hk, hkey, rfl⟩
        -- only the new entry has the new key
        rcases Nat.lt_or_ge k p.entries.size with hlt | hge
        · rw [Array.getElem_push_lt hlt] at hkey
          exact absurd hkey (hp.key_ne hnone k hlt)
        · have hk' : k = p.entries.size := by simp at hk; omega
          subst hk'
          rw [hp.next, Array.toList_push, List.take_append_of_le_length (by simp), ← Array.length_toList,
            List.take_length]
    · simp only [beq_iff_eq, ha, if_false, hp.index]
      constructor
      · rintro ⟨k, hk, hkey, rfl⟩
        refine ⟨k, by simp; omega, by rwa [Array.getElem_push_lt hk], ?_⟩
        rw [Array.toList_push, List.take_append_of_le_length (by simp; omega)]
      · rintro ⟨k, hk, hkey, rfl⟩
        rcases Nat.lt_or_ge k p.entries.size with hlt | hge
        · refine ⟨k, hlt, by rwa [Array.getElem_push_lt hlt] at hkey, ?_⟩
          rw [Array.toList_push, List.take_append_of_le_length (by simp; omega)]
        · have hk' : k = p.entries.size := by simp at hk; omega
          subst hk'
          simp at hkey
          exact absurd hkey ha
  next := by simp [hp.next]; omega
  bound := hfit

/-- Adding an entry: the index returned names an entry with its key, the old
    entries stay where they were, and the invariant holds after. -/
theorem Inv.add {p p' : Pool} (hp : p.Inv) {e : PoolEntry} {i : Nat} (h : p.add e = .ok (i, p')) :
    p'.Inv ∧ (∃ f, p'.entryAt? i = some f ∧ f.key = e.key) ∧ p.entries.toList <+: p'.entries.toList := by
  unfold Pool.add at h
  split at h
  · -- the key is known: its entry is found, nothing changes
    rename_i j hj
    cases h
    obtain ⟨k, hk, hkey, rfl⟩ := (hp.index _ _).1 hj
    refine ⟨hp, ⟨p.entries[k], ?_, hkey⟩, List.prefix_refl _⟩
    have := entryIn?_span p.entries.toList 1 k (by simpa using hk)
    rwa [Array.getElem_toList] at this
  · rename_i hnone
    have hw : (if e.isWide = true then 2 else 1) = e.width := rfl
    rw [hw] at h
    dsimp only at h
    split at h
    · cases h
    · cases h
      refine ⟨hp.push hnone (by omega), ⟨e, ?_, rfl⟩, by simp⟩
      have := entryIn?_span (p.entries.push e).toList 1 p.entries.size (by simp)
      simpa [entryAt?, hp.next, List.take_append_of_le_length] using this

/-- An entry the reader finds stays where it is when entries are added after
    it. -/
theorem entryIn?_append {es : List PoolEntry} {start i : Nat} {f : PoolEntry}
    (h : entryIn? es start i = some f) (fs : List PoolEntry) : entryIn? (es ++ fs) start i = some f := by
  induction es generalizing start with
  | nil => cases h
  | cons e es ih =>
    unfold entryIn? at h ⊢
    split at h
    · rename_i hi
      simp only [List.cons_append, if_pos hi]
      exact h
    · rename_i hi
      simp only [List.cons_append, if_neg hi]
      exact ih h

theorem entryAt?_of_prefix {p p' : Pool} (hpre : p.entries.toList <+: p'.entries.toList) {i : Nat}
    {f : PoolEntry} (h : p.entryAt? i = some f) : p'.entryAt? i = some f := by
  obtain ⟨fs, hfs⟩ := hpre
  unfold entryAt?
  rw [← hfs]
  exact entryIn?_append h fs

/-- Adding fails only when the pool is full, and then with that error. -/
theorem add_error {p : Pool} {e : PoolEntry} {err : EmitError} (h : p.add e = .error err) :
    err = .poolOverflow ∧ 65535 < p.next + e.width := by
  unfold Pool.add at h
  split at h
  · cases h
  · have hw : (if e.isWide = true then 2 else 1) = e.width := rfl
    rw [hw] at h
    dsimp only at h
    split at h
    · cases h
      exact ⟨rfl, by omega⟩
    · cases h

/-- Adding an entry that is neither a float nor a double: the index returned
    names that very entry. -/
theorem Inv.add_exact {p p' : Pool} (hp : p.Inv) {e : PoolEntry} {i : Nat} (hf : ∀ b, e ≠ .float b)
    (hd : ∀ b, e ≠ .double b) (h : p.add e = .ok (i, p')) :
    p'.Inv ∧ p'.entryAt? i = some e ∧ p.entries.toList <+: p'.entries.toList := by
  obtain ⟨hp', ⟨f, hfi, hkey⟩, hpre⟩ := hp.add h
  rw [PoolEntry.eq_of_key_eq hf hd hkey] at hfi
  exact ⟨hp', hfi, hpre⟩

/-- Adding a text, once its length is known to fit. -/
theorem Inv.utf8 {p p' : Pool} (hp : p.Inv) {s : String} {i : Nat} (h : p.utf8 s = .ok (i, p')) :
    p'.Inv ∧ p'.entryAt? i = some (.utf8 s) ∧ p.entries.toList <+: p'.entries.toList := by
  unfold Pool.utf8 at h
  dsimp only at h
  split at h
  · cases h
  · exact hp.add_exact (by simp) (by simp) h

/-- A text fails to be added only when it is too long, or when the pool is
    full. -/
theorem utf8_error {p : Pool} {s : String} {err : EmitError} (h : p.utf8 s = .error err) :
    (err = .constantTooLong (Text.modifiedUtf8Length s) ∧ 65535 < Text.modifiedUtf8Length s) ∨
      err = .poolOverflow := by
  unfold Pool.utf8 at h
  dsimp only at h
  split at h
  · cases h
    exact .inl ⟨rfl, ‹_›⟩
  · exact .inr (add_error h).1

theorem Inv.classRef {p p' : Pool} (hp : p.Inv) {name : String} {i : Nat} (h : p.classRef name = .ok (i, p')) :
    p'.Inv ∧ p.entries.toList <+: p'.entries.toList := by
  obtain ⟨⟨n, p₁⟩, h₁, h⟩ := Except.bind_eq_ok.1 h
  obtain ⟨hp₁, -, hpre₁⟩ := hp.utf8 h₁
  obtain ⟨hp', -, hpre⟩ := hp₁.add h
  exact ⟨hp', hpre₁.trans hpre⟩

theorem Inv.nameAndType {p p' : Pool} (hp : p.Inv) {name descriptor : String} {i : Nat}
    (h : p.nameAndType name descriptor = .ok (i, p')) : p'.Inv ∧ p.entries.toList <+: p'.entries.toList := by
  obtain ⟨⟨n, p₁⟩, h₁, h⟩ := Except.bind_eq_ok.1 h
  obtain ⟨⟨d, p₂⟩, h₂, h⟩ := Except.bind_eq_ok.1 h
  obtain ⟨hp₁, -, hpre₁⟩ := hp.utf8 h₁
  obtain ⟨hp₂, -, hpre₂⟩ := hp₁.utf8 h₂
  obtain ⟨hp', -, hpre⟩ := hp₂.add h
  exact ⟨hp', hpre₁.trans (hpre₂.trans hpre)⟩

theorem Inv.fieldRef {p p' : Pool} (hp : p.Inv) {m : MemberRef} {i : Nat} (h : p.fieldRef m = .ok (i, p')) :
    p'.Inv ∧ p.entries.toList <+: p'.entries.toList := by
  obtain ⟨⟨c, p₁⟩, h₁, h⟩ := Except.bind_eq_ok.1 h
  obtain ⟨⟨nt, p₂⟩, h₂, h⟩ := Except.bind_eq_ok.1 h
  obtain ⟨hp₁, hpre₁⟩ := hp.classRef h₁
  obtain ⟨hp₂, hpre₂⟩ := hp₁.nameAndType h₂
  obtain ⟨hp', -, hpre⟩ := hp₂.add h
  exact ⟨hp', hpre₁.trans (hpre₂.trans hpre)⟩

theorem Inv.methodRef {p p' : Pool} (hp : p.Inv) {m : MethodRef} {i : Nat} (h : p.methodRef m = .ok (i, p')) :
    p'.Inv ∧ p.entries.toList <+: p'.entries.toList := by
  obtain ⟨⟨c, p₁⟩, h₁, h⟩ := Except.bind_eq_ok.1 h
  obtain ⟨⟨nt, p₂⟩, h₂, h⟩ := Except.bind_eq_ok.1 h
  obtain ⟨hp₁, hpre₁⟩ := hp.classRef h₁
  obtain ⟨hp₂, hpre₂⟩ := hp₁.nameAndType h₂
  -- an interface method or a class method, added the same way
  have hadd : ∃ e, p₂.add e = .ok (i, p') := by
    dsimp only at h
    split at h
    · exact ⟨_, h⟩
    · exact ⟨_, h⟩
  obtain ⟨e, he⟩ := hadd
  obtain ⟨hp', -, hpre⟩ := hp₂.add he
  exact ⟨hp', hpre₁.trans (hpre₂.trans hpre)⟩

/-- The entry at index `i` stands for the constant `c`: the same int or long,
    a float or double with the same key (the same value, all NaNs one and both
    zeros one), or a string entry pointing at the text of `c`. -/
def Denotes (p : Pool) (i : Nat) : Constant → Prop
  | .int v => p.entryAt? i = some (.integer v)
  | .long v => p.entryAt? i = some (.long v)
  | .float b => ∃ b', p.entryAt? i = some (.float b') ∧ (PoolEntry.float b').key = (PoolEntry.float b).key
  | .double b => ∃ b', p.entryAt? i = some (.double b') ∧ (PoolEntry.double b').key = (PoolEntry.double b).key
  | .string s => ∃ u, p.entryAt? i = some (.string u) ∧ p.entryAt? u = some (.utf8 s)

/-- A float's key is only shared by a float. -/
theorem eq_float_of_key {f : PoolEntry} {b : UInt32} (h : f.key = (PoolEntry.float b).key) :
    ∃ b', f = .float b' := by
  obtain ⟨c, hc⟩ := PoolEntry.key_float b
  rw [hc] at h
  cases f with
  | float b' => exact ⟨b', rfl⟩
  | double b' =>
    obtain ⟨c', hc'⟩ := PoolEntry.key_double b'
    rw [hc'] at h
    cases h
  | _ => cases h

theorem eq_double_of_key {f : PoolEntry} {b : UInt64} (h : f.key = (PoolEntry.double b).key) :
    ∃ b', f = .double b' := by
  obtain ⟨c, hc⟩ := PoolEntry.key_double b
  rw [hc] at h
  cases f with
  | double b' => exact ⟨b', rfl⟩
  | float b' =>
    obtain ⟨c', hc'⟩ := PoolEntry.key_float b'
    rw [hc'] at h
    cases h
  | _ => cases h

/-- Adding a constant: the index returned stands for it. -/
theorem Inv.constant {p p' : Pool} (hp : p.Inv) {c : Constant} {i : Nat} (h : p.constant c = .ok (i, p')) :
    p'.Inv ∧ p'.Denotes i c ∧ p.entries.toList <+: p'.entries.toList := by
  cases c with
  | int v => exact hp.add_exact (by simp) (by simp) h
  | long v => exact hp.add_exact (by simp) (by simp) h
  | float b =>
    obtain ⟨hp', ⟨f, hf, hkey⟩, hpre⟩ := hp.add h
    obtain ⟨b', rfl⟩ := eq_float_of_key hkey
    exact ⟨hp', ⟨b', hf, hkey⟩, hpre⟩
  | double b =>
    obtain ⟨hp', ⟨f, hf, hkey⟩, hpre⟩ := hp.add h
    obtain ⟨b', rfl⟩ := eq_double_of_key hkey
    exact ⟨hp', ⟨b', hf, hkey⟩, hpre⟩
  | string s =>
    obtain ⟨⟨u, p₁⟩, h₁, h⟩ := Except.bind_eq_ok.1 h
    obtain ⟨hp₁, hu, hpre₁⟩ := hp.utf8 h₁
    obtain ⟨hp', hi, hpre⟩ := hp₁.add_exact (by simp) (by simp) h
    exact ⟨hp', ⟨u, hi, entryAt?_of_prefix hpre hu⟩, hpre₁.trans hpre⟩

/-- An operation of the class writer on a pool. -/
inductive Op where
  | utf8 (s : String)
  | classRef (name : String)
  | nameAndType (name descriptor : String)
  | fieldRef (m : MemberRef)
  | methodRef (m : MethodRef)
  | constant (c : Constant)

/-- Perform an operation: the index it gives and the pool after it. -/
def Op.perform (p : Pool) : Op → Except EmitError (Nat × Pool)
  | .utf8 s => p.utf8 s
  | .classRef name => p.classRef name
  | .nameAndType name descriptor => p.nameAndType name descriptor
  | .fieldRef m => p.fieldRef m
  | .methodRef m => p.methodRef m
  | .constant c => p.constant c

/-- Operations one after the other, stopping at the first that fails. -/
def run (p : Pool) : List Op → Except EmitError Pool
  | [] => .ok p
  | op :: ops => do
    let (_, p) ← op.perform p
    run p ops

/-- Every operation keeps the invariant and the entries already there. -/
theorem Inv.perform {p p' : Pool} (hp : p.Inv) {op : Op} {i : Nat} (h : op.perform p = .ok (i, p')) :
    p'.Inv ∧ p.entries.toList <+: p'.entries.toList := by
  cases op with
  | utf8 s => exact ⟨(hp.utf8 h).1, (hp.utf8 h).2.2⟩
  | classRef name => exact hp.classRef h
  | nameAndType name descriptor => exact hp.nameAndType h
  | fieldRef m => exact hp.fieldRef h
  | methodRef m => exact hp.methodRef h
  | constant c => exact ⟨(hp.constant h).1, (hp.constant h).2.2⟩

/-- The invariant after every sequence of operations. -/
theorem Inv.run {p p' : Pool} (hp : p.Inv) : ∀ {ops : List Op}, Pool.run p ops = .ok p' → p'.Inv
  | [], h => by cases h; exact hp
  | op :: ops, h => by
    obtain ⟨⟨i, p₁⟩, h₁, h⟩ := Except.bind_eq_ok.1 h
    exact (hp.perform h₁).1.run h

/-- After every sequence of operations from the empty pool, no two entries are
    equal, the index of the `k`-th entry is one past the widths of those
    before it, the count is one past the widths of all of them and at most
    65535, and a constant added next is given an index that stands for it. -/
theorem run_indexes {ops : List Op} {p : Pool} (h : run {} ops = .ok p) :
    p.entries.toList.Nodup ∧
      (∀ k (hk : k < p.entries.size), p.index.get? p.entries[k].key = some (1 + span (p.entries.toList.take k))) ∧
      p.next = 1 + span p.entries.toList ∧ p.next ≤ 65535 ∧
      ∀ c i p', p.constant c = .ok (i, p') → p'.Denotes i c := by
  have hp := Inv.empty.run h
  refine ⟨List.Pairwise.of_map PoolEntry.key (fun _ _ h e => h (congrArg _ e)) hp.nodup,
    fun k hk => (hp.index _ _).2 ⟨k, hk, rfl, rfl⟩, hp.next, hp.bound, ?_⟩
  intro c i p' hc
  exact (hp.constant hc).2.1

/-- Sharing by key loses the sign of zero: after `0.0f`, the constant `-0.0f`
    is given the index of `0.0f`, whose entry keeps the bits of `0.0f`. -/
theorem constant_negZero :
    ∃ p, ({} : Pool).constant (.float 0) = .ok (1, p) ∧ p.constant (.float 0x80000000) = .ok (1, p) ∧
      p.entryAt? 1 = some (.float 0) := by
  have hkey : (PoolEntry.float 0x80000000).key = (PoolEntry.float 0).key := by decide
  refine ⟨⟨#[.float 0], (∅ : Std.HashMap PoolEntry Nat).insert (PoolEntry.float 0).key 1, 2⟩, ?_, ?_, rfl⟩
  · simp [Pool.constant, Pool.add, PoolEntry.isWide]
  · simp [Pool.constant, Pool.add, hkey]

end Pool

end ClassCompiler
