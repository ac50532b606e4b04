import Mathlib
import ClassCompiler.Codegen.Scope

/-!
# Local slots

The local scope of a method under every sequence of the calls the compiler
makes on it: declaring a named variable (parameters are declared by the same
call), reserving an unnamed temporary, and entering and leaving a block. The
scope is changed in place, so a refused call leaves it as it was; and the
compiler leaves each block it entered, so the calls never leave more blocks
than they entered.

* `Scope.Tracks first log s`: what the scope `s` holds after the calls of
  `log`: the blocks still open, a next slot that follows the slots handed out,
  and exactly the variables whose declarations can still be named;
* `Scope.Tracks.call`, `Scope.Tracks.run`: one call keeps it, so a run does;
* `Scope.run_slots_and_names`: the slot ranges handed out are disjoint and
  increase with the calls, lie below the frame size, which is the first slot
  plus their widths; a name finds the variable of its latest declaration until
  the block of that declaration ends, and nothing after.
-/

namespace ClassCompiler

namespace Scope

/-- A call on the local scope of the method being compiled. A parameter is
    declared like any other variable. -/
inductive Call where
  | declare (name : String) (ty : Ty) (span : Span)
  | reserve (ty : Ty) (span : Span)
  | push
  | pop
  deriving Repr

/-- The answer to a call: the first of the slots it was given, the error it
    was refused with, or nothing for entering and leaving a block. -/
inductive Reply where
  | slot (n : Nat)
  | refused (e : CompilationError)
  | done
  deriving Repr

namespace Call

def isPush : Call → Bool
  | .push => true
  | _ => false

def isPop : Call → Bool
  | .pop => true
  | _ => false

/-- The blocks the calls enter. -/
def pushes (cs : List Call) : Nat := cs.countP isPush

/-- The blocks the calls leave. -/
def pops (cs : List Call) : Nat := cs.countP isPop

/-- The slots a call asks for: at least one, two for a long or a double. -/
def width : Call → Nat
  | .declare _ t _ | .reserve t _ => max t.slotSize 1
  | .push | .pop => 0

/-- After some of the calls more blocks have been left than entered: the calls
    leave the block they start in. -/
def Exits (cs : List Call) : Prop := ∃ p, p <+: cs ∧ pushes p < pops p

@[simp] theorem pushes_nil : pushes [] = 0 := rfl

@[simp] theorem pops_nil : pops [] = 0 := rfl

@[simp] theorem pushes_append (cs cs' : List Call) : pushes (cs ++ cs') = pushes cs + pushes cs' :=
  List.countP_append

@[simp] theorem pops_append (cs cs' : List Call) : pops (cs ++ cs') = pops cs + pops cs' :=
  List.countP_append

@[simp] theorem pushes_cons (c : Call) (cs : List Call) :
    pushes (c :: cs) = pushes cs + if c.isPush then 1 else 0 := by
  simp [pushes, List.countP_cons]

@[simp] theorem pops_cons (c : Call) (cs : List Call) :
    pops (c :: cs) = pops cs + if c.isPop then 1 else 0 := by
  simp [pops, List.countP_cons]

/-- Calls that never leave their first block never left it part of the way. -/
theorem not_exits_of_prefix {cs cs' : List Call} (h : cs <+: cs') (hx : ¬ Exits cs') : ¬ Exits cs := by
  rintro ⟨p, hp, hlt⟩
  exact hx ⟨p, hp.trans h, hlt⟩

/-- Calls that do not leave their first block leave no more blocks than they
    enter. -/
theorem pops_le_pushes {cs : List Call} (hx : ¬ Exits cs) : pops cs ≤ pushes cs :=
  Nat.le_of_not_lt fun hlt => hx ⟨cs, List.prefix_refl cs, hlt⟩

theorem not_exits_nil : ¬ Exits [] := by
  rintro ⟨p, hp, hlt⟩
  simp [List.prefix_nil.1 hp] at hlt

/-- Entering a block counts one block entered, leaving one a block left. -/
theorem pushes_concat_push (cs : List Call) : pushes (cs ++ [push]) = pushes cs + 1 := by
  simp [isPush]

theorem pops_concat_push (cs : List Call) : pops (cs ++ [push]) = pops cs := by
  simp [isPop]

theorem pushes_concat_pop (cs : List Call) : pushes (cs ++ [pop]) = pushes cs := by
  simp [isPush]

theorem pops_concat_pop (cs : List Call) : pops (cs ++ [pop]) = pops cs + 1 := by
  simp [isPop]

/-- One call more leaves the first block if the calls before did, or if with
    it more blocks have been left than entered. -/
theorem exits_concat {cs : List Call} {c : Call} :
    Exits (cs ++ [c]) ↔ Exits cs ∨ pushes (cs ++ [c]) < pops (cs ++ [c]) := by
  constructor
  · rintro ⟨p, hp, hlt⟩
    rcases List.prefix_concat_iff.1 hp with rfl | hp
    · exact .inr hlt
    · exact .inl ⟨p, hp, hlt⟩
  · rintro (⟨p, hp, hlt⟩ | hlt)
    · exact ⟨p, hp.trans (List.prefix_append cs [c]), hlt⟩
    · exact ⟨cs ++ [c], List.prefix_refl _, hlt⟩

end Call

@[simp] theorem enter_vars (s : Scope) : s.enter.vars = s.vars := rfl

@[simp] theorem enter_depth (s : Scope) : s.enter.depth = s.depth + 1 := rfl

@[simp] theorem enter_next (s : Scope) : s.enter.next = s.next := rfl

@[simp] theorem leave_vars (s : Scope) : s.leave.vars = s.vars.filter (·.depth < s.depth) := rfl

@[simp] theorem leave_depth (s : Scope) : s.leave.depth = s.depth - 1 := rfl

@[simp] theorem leave_next (s : Scope) : s.leave.next = s.next := rfl

/-- One call, made on the scope in place: a refused call leaves it as it was. -/
def call (s : Scope) : Call → Reply × Scope
  | .declare name t span =>
    match s.declare name t span with
    | .ok r => (.slot r.1, r.2)
    | .error e => (.refused e, s)
  | .reserve t span =>
    match s.allocate t span with
    | .ok r => (.slot r.1, r.2)
    | .error e => (.refused e, s)
  | .push => (.done, s.enter)
  | .pop => (.done, s.leave)

/-- Calls in order: the log of the calls with their replies, and the scope at
    the end. -/
def run (s : Scope) : List Call → List (Call × Reply) × Scope
  | [] => ([], s)
  | c :: cs =>
    let r := s.call c
    let rest := run r.2 cs
    ((c, r.1) :: rest.1, rest.2)

/-! ### Logs of calls -/

/-- The calls of a log. -/
def calls (log : List (Call × Reply)) : List Call := log.map Prod.fst

/-- The slots a logged call was given: the first one and their number. -/
def grant (x : Call × Reply) : Option (Nat × Nat) :=
  match x.2 with
  | .slot n => some (n, x.1.width)
  | _ => none

/-- The slot ranges handed out in a log, in order. -/
def grants (log : List (Call × Reply)) : List (Nat × Nat) := log.filterMap grant

/-- The log entry of the declaration that made the variable `v`. -/
def declaration (v : LocalVar) : Call × Reply := (.declare v.name v.ty v.span, .slot v.slot)

/-- After the declaration of `v`, the calls of `post` neither leave its block
    nor declare its name again. -/
def Survives (v : LocalVar) (post : List (Call × Reply)) : Prop :=
  ¬ Call.Exits (calls post) ∧ ∀ t sp n, (Call.declare v.name t sp, Reply.slot n) ∉ post

/-- The variable `v` was made by a declaration of the log that can still be
    named at its end: a call declared `v.name` with `v`'s type and span,
    `v.depth` blocks deep, and was given `v.slot`; no later call left its block
    or declared the name again. -/
def Declared (log : List (Call × Reply)) (v : LocalVar) : Prop :=
  ∃ pre post, log = pre ++ declaration v :: post ∧
    v.depth = Call.pushes (calls pre) - Call.pops (calls pre) ∧ Survives v post

@[simp] theorem calls_append (log log' : List (Call × Reply)) :
    calls (log ++ log') = calls log ++ calls log' := List.map_append

@[simp] theorem calls_cons (x : Call × Reply) (log : List (Call × Reply)) :
    calls (x :: log) = x.1 :: calls log := rfl

@[simp] theorem calls_nil : calls [] = [] := rfl

@[simp] theorem grants_append (log log' : List (Call × Reply)) :
    grants (log ++ log') = grants log ++ grants log' := List.filterMap_append

@[simp] theorem grants_nil : grants [] = [] := rfl

theorem grants_singleton_of_slot (c : Call) (n : Nat) : grants [(c, .slot n)] = [(n, c.width)] := rfl

theorem grants_singleton_done (c : Call) : grants [(c, .done)] = [] := rfl

theorem grants_singleton_refused (c : Call) (e : CompilationError) : grants [(c, .refused e)] = [] := rfl

theorem survives_nil (v : LocalVar) : Survives v [] :=
  ⟨Call.not_exits_nil, fun _ _ _ h => List.not_mem_nil h⟩

/-- A log ending in `x` splits around an entry either before `x` or at `x`. -/
theorem concat_eq_append_cons {α : Type} {l pre post : List α} {x d : α} :
    l ++ [x] = pre ++ d :: post ↔
      (l = pre ∧ d = x ∧ post = []) ∨ ∃ post', l = pre ++ d :: post' ∧ post = post' ++ [x] := by
  constructor
  · intro h
    rcases List.append_eq_append_iff.1 h with ⟨as, rfl, has⟩ | ⟨bs, rfl, hbs⟩
    · -- `pre` covers all of `l`: the entry is `x` itself
      rcases as with _ | ⟨a, as⟩
      · simp only [List.nil_append, List.cons.injEq] at has
        obtain ⟨rfl, rfl⟩ := has
        exact .inl ⟨by simp, rfl, rfl⟩
      · simp only [List.cons_append, List.cons.injEq] at has
        exact absurd has.2.symm (by simp)
    · -- the entry lies inside `l`, or `l` ends right before it
      rcases bs with _ | ⟨b, bs⟩
      · simp only [List.nil_append, List.cons.injEq] at hbs
        obtain ⟨rfl, rfl⟩ := hbs
        exact .inl ⟨by simp, rfl, rfl⟩
      · obtain ⟨rfl, rfl⟩ := List.cons.inj hbs
        exact .inr ⟨bs, rfl, rfl⟩
  · rintro (⟨rfl, rfl, rfl⟩ | ⟨post', rfl, rfl⟩) <;> simp

/-- The declarations that survive one more entry `x`: those that survived, if
    `x` neither leaves their block nor declares their name again, and the one
    `x` makes. -/
theorem declared_concat {log : List (Call × Reply)} {x : Call × Reply} {v : LocalVar} :
    Declared (log ++ [x]) v ↔
      (∃ pre post, log = pre ++ declaration v :: post ∧
        v.depth = Call.pushes (calls pre) - Call.pops (calls pre) ∧ Survives v post ∧
        Call.pops (calls post ++ [x.1]) ≤ Call.pushes (calls post ++ [x.1]) ∧
        ∀ t sp n, x ≠ (Call.declare v.name t sp, Reply.slot n)) ∨
      (x = declaration v ∧ v.depth = Call.pushes (calls log) - Call.pops (calls log)) := by
  constructor
  · rintro ⟨pre, post, hsplit, hdepth, hsurv⟩
    rcases concat_eq_append_cons.1 hsplit with ⟨rfl, rfl, -⟩ | ⟨post', rfl, rfl⟩
    · exact .inr ⟨rfl, hdepth⟩
    · obtain ⟨hexit, hdecl⟩ := hsurv
      simp only [calls_append, calls_cons, calls_nil, Call.exits_concat, not_or, not_lt] at hexit
      refine .inl ⟨pre, post', rfl, hdepth, ⟨hexit.1, ?_⟩, ?_, ?_⟩
      · exact fun t sp n hm => hdecl t sp n (List.mem_append_left _ hm)
      · simpa using hexit.2
      · exact fun t sp n hx => hdecl t sp n (by simp [hx])
  · rintro (⟨pre, post, rfl, hdepth, ⟨hexit, hdecl⟩, hcount, hx⟩ | ⟨rfl, hdepth⟩)
    · refine ⟨pre, post ++ [x], by simp, hdepth, ?_, ?_⟩
      · simp only [calls_append, calls_cons, calls_nil, Call.exits_concat, not_or, not_lt]
        exact ⟨hexit, by simpa using hcount⟩
      · intro t sp n hm
        rcases List.mem_append.1 hm with hm | hm
        · exact hdecl t sp n hm
        · exact hx t sp n (List.mem_singleton.1 hm).symm
    · exact ⟨log, [], rfl, hdepth, survives_nil v⟩

/-- Where `v` was declared, the blocks open at the end of the log are those
    open at the declaration and those entered since and not left. -/
theorem depth_of_split {pre post : List (Call × Reply)} {v : LocalVar}
    (hx : ¬ Call.Exits (calls (pre ++ declaration v :: post)))
    (hdepth : v.depth = Call.pushes (calls pre) - Call.pops (calls pre)) (hsurv : Survives v post) :
    Call.pushes (calls (pre ++ declaration v :: post)) - Call.pops (calls (pre ++ declaration v :: post)) =
      v.depth + (Call.pushes (calls post) - Call.pops (calls post)) := by
  have hpre : Call.pops (calls pre) ≤ Call.pushes (calls pre) :=
    Call.pops_le_pushes (Call.not_exits_of_prefix (by simp) hx)
  have hpost := Call.pops_le_pushes hsurv.1
  simp only [calls_append, calls_cons, Call.pushes_append, Call.pops_append, Call.pushes_cons,
    Call.pops_cons, declaration, Call.isPush, Call.isPop] at hpre hpost ⊢
  simp only [Bool.false_eq_true, ↓reduceIte]
  omega


/-- A call that does not leave a block keeps the blocks left at most those
    entered. -/
theorem Call.pops_concat_le {cs : List Call} {c : Call} (hle : Call.pops cs ≤ Call.pushes cs)
    (hc : c.isPop = false) : Call.pops (cs ++ [c]) ≤ Call.pushes (cs ++ [c]) := by
  simp only [Call.pops_append, Call.pushes_append, Call.pops_cons, Call.pushes_cons, hc,
    Call.pops_nil, Call.pushes_nil, Bool.false_eq_true, ↓reduceIte]
  omega

/-- An entry that neither leaves a block nor declares a variable keeps the
    declarations that can be named. -/
theorem declared_concat_of_quiet {log : List (Call × Reply)} {x : Call × Reply} {v : LocalVar}
    (hpop : x.1.isPop = false) (hx : ∀ name t sp n, x ≠ (Call.declare name t sp, Reply.slot n)) :
    Declared (log ++ [x]) v ↔ Declared log v := by
  rw [declared_concat]
  constructor
  · rintro (⟨pre, post, hsplit, hdepth, hsurv, -, -⟩ | ⟨rfl, -⟩)
    · exact ⟨pre, post, hsplit, hdepth, hsurv⟩
    · exact absurd rfl (hx v.name v.ty v.span v.slot)
  · rintro ⟨pre, post, hsplit, hdepth, hsurv⟩
    exact .inl ⟨pre, post, hsplit, hdepth, hsurv,
      Call.pops_concat_le (Call.pops_le_pushes hsurv.1) hpop, fun t sp n => hx v.name t sp n⟩

/-! ### One call at a time -/

/-- What a scope holds after the calls of `log`, made on a scope with no
    variables, no open block and `first` as its first free slot: the calls
    never left more blocks than they entered, the depth counts the blocks
    still open, the slot ranges handed out are disjoint and increasing and
    end at the next free slot, and the variables, of distinct names, are
    exactly the declarations that can still be named. -/
structure Tracks (first : Nat) (log : List (Call × Reply)) (s : Scope) : Prop where
  balanced : ¬ Call.Exits (calls log)
  depth : s.depth = Call.pushes (calls log) - Call.pops (calls log)
  next : s.next = first + ((grants log).map Prod.snd).sum
  ordered : (grants log).Pairwise fun a b => a.1 + a.2 ≤ b.1
  below : ∀ g ∈ grants log, g.1 + g.2 ≤ s.next
  names : (s.vars.map LocalVar.name).Nodup
  vars : ∀ v, v ∈ s.vars ↔ Declared log v

/-- A declaration either takes the next slots for a name not in scope, or is
    refused. -/
theorem call_declare_cases (s : Scope) (name : String) (t : Ty) (sp : Span) :
    (s.lookup? name = none ∧
      s.call (.declare name t sp) =
        (.slot s.next, ⟨⟨name, t, s.next, s.depth, sp⟩ :: s.vars, s.depth, s.next + max t.slotSize 1⟩)) ∨
    ∃ e, s.call (.declare name t sp) = (.refused e, s) := by
  cases hv : s.lookup? name with
  | some v => exact .inr ⟨.variableRedeclaration name v.span sp, by simp only [call, declare, hv]⟩
  | none =>
    by_cases hfit : s.next + max t.slotSize 1 > slotLimit
    · exact .inr ⟨.tooManyLocals sp, by simp only [call, declare, hv, allocate, hfit, ↓reduceIte]; rfl⟩
    · exact .inl ⟨rfl, by simp only [call, declare, hv, allocate, hfit, ↓reduceIte]; rfl⟩

/-- A reservation either takes the next slots or is refused. -/
theorem call_reserve_cases (s : Scope) (t : Ty) (sp : Span) :
    s.call (.reserve t sp) = (.slot s.next, { s with next := s.next + max t.slotSize 1 }) ∨
    ∃ e, s.call (.reserve t sp) = (.refused e, s) := by
  by_cases hfit : s.next + max t.slotSize 1 > slotLimit
  · exact .inr ⟨.tooManyLocals sp, by simp only [call, allocate, hfit, ↓reduceIte]⟩
  · exact .inl (by simp only [call, allocate, hfit, ↓reduceIte])

/-- A refused call leaves the scope as it was. -/
theorem call_refused {s : Scope} {c : Call} {e : CompilationError} (h : (s.call c).1 = .refused e) :
    (s.call c).2 = s := by
  cases c with
  | declare name t sp =>
    rcases call_declare_cases s name t sp with ⟨-, hc⟩ | ⟨e', hc⟩
    · rw [hc] at h
      cases h
    · rw [hc]
  | reserve t sp =>
    rcases call_reserve_cases s t sp with hc | ⟨e', hc⟩
    · rw [hc] at h
      cases h
    · rw [hc]
  | push => cases h
  | pop => cases h

variable {first : Nat} {log : List (Call × Reply)} {s : Scope}

namespace Tracks

theorem init (first : Nat) : Tracks first [] ⟨[], 0, first⟩ where
  balanced := Call.not_exits_nil
  depth := rfl
  next := by simp
  ordered := List.Pairwise.nil
  below := by simp
  names := List.nodup_nil
  vars v := by
    simp only [List.not_mem_nil, false_iff]
    rintro ⟨pre, post, hsplit, -⟩
    simp at hsplit

/-- A call that neither hands out slots, enters or leaves a block, nor declares
    a variable keeps the scope. -/
theorem quiet {x : Call × Reply} (h : Tracks first log s) (hbal : ¬ Call.Exits (calls (log ++ [x])))
    (hg : grants [x] = []) (hpush : x.1.isPush = false) (hpop : x.1.isPop = false)
    (hx : ∀ name t sp n, x ≠ (Call.declare name t sp, Reply.slot n)) :
    Tracks first (log ++ [x]) s where
  balanced := hbal
  depth := by simp [h.depth, hpush, hpop]
  next := by simp [h.next, hg]
  ordered := by simpa [hg] using h.ordered
  below := by simpa [hg] using h.below
  names := h.names
  vars v := by rw [h.vars v, declared_concat_of_quiet hpop hx]

/-- Handing out the next slots keeps the ranges disjoint, increasing and below
    the next free slot. -/
theorem granted (x : Call × Reply) (s' : Scope) (h : Tracks first log s)
    (hg : grants [x] = [(s.next, x.1.width)]) (hnext : s'.next = s.next + x.1.width) :
    s'.next = first + ((grants (log ++ [x])).map Prod.snd).sum ∧
      (grants (log ++ [x])).Pairwise (fun a b => a.1 + a.2 ≤ b.1) ∧
      ∀ g ∈ grants (log ++ [x]), g.1 + g.2 ≤ s'.next := by
  refine ⟨?_, ?_, ?_⟩
  · rw [hnext, h.next, grants_append, hg]
    simp only [List.map_append, List.map_cons, List.map_nil, List.sum_append, List.sum_cons,
      List.sum_nil]
    omega
  · rw [grants_append, hg, List.pairwise_append]
    refine ⟨h.ordered, List.pairwise_singleton _ _, ?_⟩
    intro a ha b hb
    rw [List.mem_singleton.1 hb]
    exact h.below a ha
  · intro g hg'
    rw [grants_append, hg, List.mem_append, List.mem_singleton] at hg'
    rcases hg' with hg' | rfl
    · have := h.below g hg'
      omega
    · exact Nat.le_of_eq hnext.symm

/-- A reservation takes the next slots and names nothing. -/
theorem reserved {t : Ty} {sp : Span} (h : Tracks first log s)
    (hbal : ¬ Call.Exits (calls (log ++ [(Call.reserve t sp, Reply.slot s.next)]))) :
    Tracks first (log ++ [(Call.reserve t sp, Reply.slot s.next)]) { s with next := s.next + max t.slotSize 1 } := by
  obtain ⟨hnext, hord, hbelow⟩ := h.granted (.reserve t sp, .slot s.next)
    { s with next := s.next + max t.slotSize 1 } (grants_singleton_of_slot _ _) rfl
  refine ⟨hbal, by simp [h.depth, Call.isPush, Call.isPop], hnext, hord, hbelow, h.names, ?_⟩
  intro v
  rw [h.vars v, declared_concat_of_quiet rfl (fun _ _ _ _ hx => by cases hx)]

/-- Declaring a name not in scope adds its variable, the only one of that name. -/
theorem declared {name : String} {t : Ty} {sp : Span} (h : Tracks first log s)
    (hbal : ¬ Call.Exits (calls (log ++ [(Call.declare name t sp, Reply.slot s.next)])))
    (hfree : s.lookup? name = none) :
    Tracks first (log ++ [(Call.declare name t sp, Reply.slot s.next)])
      ⟨⟨name, t, s.next, s.depth, sp⟩ :: s.vars, s.depth, s.next + max t.slotSize 1⟩ := by
  -- no variable in scope has the name
  have hother : ∀ w ∈ s.vars, w.name ≠ name := by
    intro w hw hname
    have := List.find?_eq_none.1 hfree w hw
    simp [hname] at this
  obtain ⟨hnext, hord, hbelow⟩ := h.granted (.declare name t sp, .slot s.next)
    ⟨_, s.depth, s.next + max t.slotSize 1⟩ (grants_singleton_of_slot _ _) rfl
  refine ⟨hbal, by simp [h.depth, Call.isPush, Call.isPop], hnext, hord, hbelow, ?_, ?_⟩
  · refine List.nodup_cons.2 ⟨fun hm => ?_, h.names⟩
    obtain ⟨w, hw, hname⟩ := List.mem_map.1 hm
    exact hother w hw hname
  · intro v
    rw [List.mem_cons, h.vars v, declared_concat]
    constructor
    · rintro (rfl | ⟨pre, post, hsplit, hdepth, hsurv⟩)
      · exact .inr ⟨rfl, h.depth⟩
      · -- an older variable has another name, so the declaration keeps it
        have hne := hother v ((h.vars v).2 ⟨pre, post, hsplit, hdepth, hsurv⟩)
        refine .inl ⟨pre, post, hsplit, hdepth, hsurv,
          Call.pops_concat_le (Call.pops_le_pushes hsurv.1) rfl, ?_⟩
        intro t' sp' n' hx
        simp only [Prod.mk.injEq, Call.declare.injEq] at hx
        exact hne hx.1.1.symm
    · rintro (⟨pre, post, hsplit, hdepth, hsurv, -, -⟩ | ⟨hdecl, hdepth⟩)
      · exact .inr ⟨pre, post, hsplit, hdepth, hsurv⟩
      · left
        simp only [declaration, Prod.mk.injEq, Call.declare.injEq, Reply.slot.injEq] at hdecl
        obtain ⟨⟨rfl, rfl, rfl⟩, hslot⟩ := hdecl
        rw [← h.depth] at hdepth
        cases v
        simp_all

/-- Entering a block keeps every variable. -/
theorem push (h : Tracks first log s) (hbal : ¬ Call.Exits (calls (log ++ [(Call.push, Reply.done)]))) :
    Tracks first (log ++ [(Call.push, Reply.done)]) s.enter := by
  have hle := Call.pops_le_pushes h.balanced
  refine ⟨hbal, ?_, by simp [h.next, grants_singleton_done], by simpa [grants_singleton_done] using h.ordered,
    by simpa [grants_singleton_done] using h.below, h.names, ?_⟩
  · simp only [enter_depth, h.depth, calls_append, calls_cons, calls_nil, Call.pushes_concat_push,
      Call.pops_concat_push]
    omega
  · intro v
    rw [enter_vars, h.vars v, declared_concat_of_quiet rfl (fun _ _ _ _ hx => by cases hx)]

/-- Leaving a block drops exactly the variables declared in it. -/
theorem pop (h : Tracks first log s) (hbal : ¬ Call.Exits (calls (log ++ [(Call.pop, Reply.done)]))) :
    Tracks first (log ++ [(Call.pop, Reply.done)]) s.leave := by
  -- the block left is open: more blocks were entered than left
  have hopen : Call.pops (calls log) + 1 ≤ Call.pushes (calls log) := by
    have := Call.pops_le_pushes hbal
    simpa only [calls_append, calls_cons, calls_nil, Call.pushes_concat_pop, Call.pops_concat_pop] using this
  refine ⟨hbal, ?_, by simp [h.next, grants_singleton_done], by simpa [grants_singleton_done] using h.ordered,
    by simpa [grants_singleton_done] using h.below, ?_, ?_⟩
  · simp only [leave_depth, h.depth, calls_append, calls_cons, calls_nil, Call.pushes_concat_pop,
      Call.pops_concat_pop]
    omega
  · exact h.names.sublist (List.filter_sublist.map LocalVar.name)
  · intro v
    simp only [leave_vars, List.mem_filter, decide_eq_true_eq, h.vars v, declared_concat]
    constructor
    · rintro ⟨⟨pre, post, rfl, hdepth, hsurv⟩, hlt⟩
      -- a variable of an outer block: the blocks entered since its declaration
      -- are not all left
      have hd := depth_of_split h.balanced hdepth hsurv
      rw [← h.depth] at hd
      refine .inl ⟨pre, post, rfl, hdepth, hsurv, ?_, fun _ _ _ hx => by cases hx⟩
      rw [Call.pops_concat_pop, Call.pushes_concat_pop]
      omega
    · rintro (⟨pre, post, rfl, hdepth, hsurv, hcount, -⟩ | ⟨hx, -⟩)
      · have hd := depth_of_split h.balanced hdepth hsurv
        rw [← h.depth] at hd
        refine ⟨⟨pre, post, rfl, hdepth, hsurv⟩, ?_⟩
        rw [Call.pops_concat_pop, Call.pushes_concat_pop] at hcount
        omega
      · cases hx

/-- Every call keeps what the scope holds. -/
theorem call {c : Call} (h : Tracks first log s) (hbal : ¬ Call.Exits (calls log ++ [c])) :
    Tracks first (log ++ [(c, (s.call c).1)]) (s.call c).2 := by
  have hbal' : ¬ Call.Exits (calls (log ++ [(c, (s.call c).1)])) := by simpa using hbal
  cases c with
  | declare name t sp =>
    rcases call_declare_cases s name t sp with ⟨hfree, hc⟩ | ⟨e, hc⟩ <;> rw [hc] at hbal' ⊢
    · exact h.declared hbal' hfree
    · exact h.quiet hbal' (grants_singleton_refused _ _) rfl rfl (fun _ _ _ _ hx => by cases hx)
  | reserve t sp =>
    rcases call_reserve_cases s t sp with hc | ⟨e, hc⟩ <;> rw [hc] at hbal' ⊢
    · exact h.reserved hbal'
    · exact h.quiet hbal' (grants_singleton_refused _ _) rfl rfl (fun _ _ _ _ hx => by cases hx)
  | push => exact h.push hbal'
  | pop => exact h.pop hbal'

/-- A run that never leaves more blocks than it entered keeps what the scope
    holds. -/
theorem run (cs : List Call) (h : Tracks first log s) (hbal : ¬ Call.Exits (calls log ++ cs)) :
    Tracks first (log ++ (s.run cs).1) (s.run cs).2 := by
  -- induction on the calls, the log of those made so far growing
  induction cs generalizing log s with
  | nil => simpa [Scope.run] using h
  | cons c cs ih =>
    have hstep := h.call (c := c) (Call.not_exits_of_prefix (by simp) hbal)
    have hrest := ih hstep (by simpa using hbal)
    simpa [Scope.run] using hrest

end Tracks

/-- The calls of a run's log are the calls made. -/
@[simp] theorem calls_run (s : Scope) (cs : List Call) : calls (s.run cs).1 = cs := by
  induction cs generalizing s with
  | nil => rfl
  | cons c cs ih => simp [Scope.run, ih]

/-- With variables of distinct names, a name finds the variable of that name. -/
theorem lookup?_eq_some_iff {s : Scope} (h : (s.vars.map LocalVar.name).Nodup) {name : String}
    {v : LocalVar} : s.lookup? name = some v ↔ v ∈ s.vars ∧ v.name = name := by
  constructor
  · intro hv
    exact ⟨List.mem_of_find?_eq_some hv, by simpa using List.find?_some hv⟩
  · rintro ⟨hv, rfl⟩
    obtain ⟨w, hw⟩ := Option.isSome_iff_exists.1
      (List.find?_isSome.2 ⟨v, hv, by simp⟩ : (s.vars.find? (·.name == v.name)).isSome)
    have hname : w.name = v.name := by simpa using List.find?_some hw
    rw [lookup?, hw, List.inj_on_of_nodup_map h (List.mem_of_find?_eq_some hw) hv hname]

/-- Local slots under every sequence of calls that never leaves more blocks
    than it entered, from a scope whose first free slot is `first`: the slot
    ranges handed out are disjoint and increase with the calls, lie below the
    frame size, which is `first` plus their widths; a name finds the variable of
    its latest declaration until the block of that declaration ends, and nothing
    after; and a refused call leaves the scope as it was. -/
theorem run_slots_and_names (first : Nat) (cs : List Call) (hbal : ¬ Call.Exits cs) :
    let r := (⟨[], 0, first⟩ : Scope).run cs
    (grants r.1).Pairwise (fun a b => a.1 + a.2 ≤ b.1) ∧
    (∀ g ∈ grants r.1, g.1 + g.2 ≤ r.2.maxLocals) ∧
    r.2.maxLocals = first + ((grants r.1).map Prod.snd).sum ∧
    (∀ name v, r.2.lookup? name = some v ↔ v.name = name ∧ Declared r.1 v) ∧
    ∀ (s : Scope) (c : Call) (e : CompilationError), (s.call c).1 = .refused e → (s.call c).2 = s := by
  intro r
  have h : Tracks first r.1 r.2 := by simpa using (Tracks.init first).run cs (by simpa using hbal)
  refine ⟨h.ordered, h.below, h.next, fun name v => ?_, fun _ _ _ => call_refused⟩
  rw [lookup?_eq_some_iff h.names, h.vars v, and_comm]

/-- A long, then a block with a variable and a temporary, then the same name
    again after the block: the name is free again, its old slot is not. -/
theorem run_slots_and_names_blockReuse :
    let cs := [Call.declare "a" .long ⟨1, 1, 1⟩, .push, .declare "tmp" .int ⟨2, 1, 3⟩,
      .reserve Ty.object ⟨2, 5, 1⟩, .pop, .declare "tmp" .int ⟨3, 1, 3⟩]
    ¬ Call.Exits cs ∧
      let r := (⟨[], 0, 0⟩ : Scope).run cs
      (grants r.1).Pairwise (fun a b => a.1 + a.2 ≤ b.1) ∧
      (∀ g ∈ grants r.1, g.1 + g.2 ≤ r.2.maxLocals) ∧
      r.2.maxLocals = 0 + ((grants r.1).map Prod.snd).sum ∧
      (∀ name v, r.2.lookup? name = some v ↔ v.name = name ∧ Declared r.1 v) ∧
      ∀ (s : Scope) (c : Call) (e : CompilationError), (s.call c).1 = .refused e → (s.call c).2 = s := by
  intro cs
  have hbal : ¬ Call.Exits cs := by
    simp only [Call.Exits, ← List.mem_inits]
    decide
  exact ⟨hbal, run_slots_and_names 0 cs hbal⟩

example :
    let r := (⟨[], 0, 0⟩ : Scope).run [.declare "a" .long ⟨1, 1, 1⟩, .push,
      .declare "tmp" .int ⟨2, 1, 3⟩, .reserve Ty.object ⟨2, 5, 1⟩, .pop, .declare "tmp" .int ⟨3, 1, 3⟩]
    grants r.1 = [(0, 2), (2, 1), (3, 1), (4, 1)] ∧ r.2.maxLocals = 5 := by
  decide

end Scope

end ClassCompiler
