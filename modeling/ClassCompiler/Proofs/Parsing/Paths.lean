import ClassCompiler.Proofs.Parsing.Names
import ClassCompiler.Proofs.Jvm.Descriptors

/-!
# Classes are named by paths of identifiers

The parser reads a path `a.b.C` as an identifier followed by `.` and an
identifier as often as they come, so every path it gives has at least one
segment and each segment is spelled as an identifier. A module, a struct and a
trait are named by such a path, and their internal name `a/b/C` is never empty
and holds neither `;` nor `.`: a descriptor `La/b/C;` reads back as that class.

* `Path.Named`: a path of identifiers, at least one;
* `Parse.path_named`: the parser of paths gives such paths;
* `Parse.items_all`, `parse_items_all`: a property every declaration parser
  gives holds of every declaration of a parsed file;
* `parse_classNamed`: every module, struct and trait of a parsed file is named
  by a path of identifiers;
* `Path.Named.declName_readable`: the internal name of such a path can stand in
  a descriptor.
-/

namespace ClassCompiler

open Syntax

/-- A path of at least one segment, each spelled as an identifier. -/
def Syntax.Path.Named (p : Path) : Prop := p.segs ≠ [] ∧ ∀ x ∈ p.segs, isIdentifier x.name = true

/-- The path that names a module, a struct or a trait. -/
def Syntax.Item.classPath? : Item → Option Path
  | .moduleDecl p .. | .structDecl p .. | .traitDecl p .. => some p
  | _ => none

/-- The declaration, if it declares a class, names it by a path of identifiers. -/
def Syntax.Item.ClassNamed (it : Item) : Prop := ∀ p, it.classPath? = some p → p.Named

/-! ### The characters of a name -/

/-- An identifier is not empty, and every character of it continues identifiers. -/
theorem isIdentifier_chars {s : String} (h : isIdentifier s = true) :
    s.toList ≠ [] ∧ ∀ c ∈ s.toList, isIdentContinue c = true := by
  unfold isIdentifier at h
  split at h
  · rename_i c cs hs
    simp only [Bool.and_eq_true, List.all_eq_true] at h
    rw [hs]
    refine ⟨List.cons_ne_nil _ _, fun x hx => ?_⟩
    rcases List.mem_cons.1 hx with rfl | hx
    · exact isIdentContinue_of_isIdentStart h.1
    · exact h.2 x hx
  · cases h

/-- Joining names by dots gives their characters and dots, and is not empty
    when the first name is not. -/
theorem intercalate_dot_chars {P : Char → Prop} :
    ∀ {l : List String}, (∀ s ∈ l, s.toList ≠ [] ∧ ∀ c ∈ s.toList, P c) → l ≠ [] →
      (".".intercalate l).toList ≠ [] ∧ ∀ c ∈ (".".intercalate l).toList, c = '.' ∨ P c
  | [], _, hl => absurd rfl hl
  | [s], h, _ => by
    obtain ⟨hne, hs⟩ := h s (List.mem_singleton_self s)
    exact ⟨by simpa using hne, fun c hc => .inr (hs c (by simpa using hc))⟩
  | s :: t :: l, h, _ => by
    obtain ⟨hne, hs⟩ := h s List.mem_cons_self
    have ih := intercalate_dot_chars (l := t :: l) (fun u hu => h u (List.mem_cons_of_mem _ hu))
      (List.cons_ne_nil _ _)
    rw [String.intercalate_cons_cons]
    refine ⟨by simp [hne], fun c hc => ?_⟩
    simp only [String.toList_append, List.mem_append] at hc
    rcases hc with (hc | hc) | hc
    · exact .inr (hs c hc)
    · exact .inl (by simpa using hc)
    · exact ih.2 c hc

namespace Syntax.Path.Named

variable {p : Path} (hp : p.Named)
include hp

/-- The dotted spelling of a path of identifiers is not empty, and each of its
    characters is a dot or continues identifiers. -/
theorem dotted_chars : p.dotted.toList ≠ [] ∧ ∀ c ∈ p.dotted.toList, c = '.' ∨ isIdentContinue c = true :=
  intercalate_dot_chars (fun s hs => by
    obtain ⟨x, hx, rfl⟩ := List.mem_map.1 hs
    exact isIdentifier_chars (hp.2 x hx)) (by simpa using hp.1)

/-- The internal name of a path of identifiers can stand in a descriptor: it is
    not empty and holds no `;`. -/
theorem declName_readable : (Ty.obj (FilePass.declName p)).Readable := by
  obtain ⟨hne, hchars⟩ := hp.dotted_chars
  refine ⟨fun h => hne ?_, fun hsemi => ?_⟩
  · simpa [FilePass.declName, Ty.toList_slashed] using congrArg String.toList h
  · rw [FilePass.declName, Ty.toList_slashed, List.mem_map] at hsemi
    obtain ⟨c, hc, hrep⟩ := hsemi
    unfold Ty.replaceChar at hrep
    -- a dot becomes a slash, and no character of an identifier is `;`
    split at hrep
    · cases hrep
    · rcases hchars c hc with rfl | hid
      · contradiction
      · subst hrep
        cases hid

end Syntax.Path.Named

/-! ### The parser gives paths of identifiers -/

namespace Syntax.Parse

theorem pathRest_named : ∀ n (segs : Array Ident) span, segs ≠ #[] →
    (∀ x ∈ segs, isIdentifier x.name = true) → Gives Path.Named (pathRest n segs span)
  | 0, _, _, _, _ => Gives.exhausted
  | n + 1, segs, span, hne, hsegs => by
    rw [pathRest]
    refine Gives.after (Moves.check _) fun _ => Gives.after (Moves.peekAt 1) fun _ => ?_
    split
    · -- a dot and an identifier lengthen the path
      refine Gives.after Moves.skip fun _ => Gives.bind Moves.expectIdent Gives.expectIdent fun seg hseg =>
        pathRest_named n _ _ (by simp) fun x hx => ?_
      rcases Array.mem_push.1 hx with hx | rfl
      · exact hsegs x hx
      · exact hseg
    · exact Gives.pure ⟨by simpa using hne, fun x hx => hsegs x (by simpa using hx)⟩

theorem path_named (n : Nat) : Gives Path.Named (path n) :=
  Gives.bind Moves.expectIdent Gives.expectIdent fun _ h =>
    pathRest_named n _ _ (by simp) fun x hx => by
      obtain rfl : x = _ := by simpa using hx
      exact h

/-! #### Declarations -/

theorem importDecl_classNamed (n : Nat) : Gives Item.ClassNamed (importDecl n) := by
  refine Gives.after (Moves.expect _) fun _ => Gives.after (path_moves n) fun _ =>
    Gives.after (Moves.eat _) fun _ => ?_
  dsimp only
  rw [ite_bind_eq]
  exact Gives.after (Moves.ite (Moves.map Moves.expectIdent) (Moves.pure _)) fun _ =>
    Gives.after Moves.expectSemicolon fun _ => Gives.after (Moves.setAliases _) fun _ =>
    Gives.pure (by simp [Item.ClassNamed, Item.classPath?])

theorem moduleDecl_classNamed (n : Nat) : Gives Item.ClassNamed (moduleDecl n) :=
  Gives.after (Moves.expect _) fun _ => Gives.bind (path_moves n) (path_named n) fun _ hp =>
    Gives.after (Moves.expect _) fun _ => Gives.after (moduleBody_moves n _ _) fun r => by
      obtain ⟨fields, methods⟩ := r
      exact Gives.after (Moves.expect _) fun _ => Gives.pure fun q hq => by
        simp only [Item.classPath?, Option.some.injEq] at hq
        exact hq ▸ hp

theorem structDecl_classNamed (n : Nat) : Gives Item.ClassNamed (structDecl n) :=
  Gives.after (Moves.expect _) fun _ => Gives.bind (path_moves n) (path_named n) fun _ hp =>
    Gives.after (Moves.expect _) fun _ =>
    Gives.after (untilClose_moves (field_progress n).moves n _) fun _ =>
    Gives.after (Moves.expect _) fun _ => Gives.pure fun q hq => by
      simp only [Item.classPath?, Option.some.injEq] at hq
      exact hq ▸ hp

theorem traitDecl_classNamed (n : Nat) : Gives Item.ClassNamed (traitDecl n) :=
  Gives.after (Moves.expect _) fun _ => Gives.bind (path_moves n) (path_named n) fun _ hp =>
    Gives.after (Moves.expect _) fun _ =>
    Gives.after (untilClose_moves (traitMember_progress n).moves n _) fun _ =>
    Gives.after (Moves.expect _) fun _ => Gives.pure fun q hq => by
      simp only [Item.classPath?, Option.some.injEq] at hq
      exact hq ▸ hp

theorem implDecl_classNamed (n : Nat) : Gives Item.ClassNamed (implDecl n) :=
  Gives.after (Moves.expect _) fun _ => Gives.after (type_moves n) fun _ =>
    Gives.after (Moves.expect _) fun _ => Gives.after (type_moves n) fun _ =>
    Gives.after (Moves.expect _) fun _ =>
    Gives.after (untilClose_moves (function_progress n).moves n _) fun _ =>
    Gives.after (Moves.expect _) fun _ => Gives.pure (by simp [Item.ClassNamed, Item.classPath?])

theorem item_classNamed (n : Nat) : Gives Item.ClassNamed (item n) := by
  refine Gives.after Moves.peek fun t => ?_
  split
  · exact importDecl_classNamed n
  · exact moduleDecl_classNamed n
  · exact structDecl_classNamed n
  · exact traitDecl_classNamed n
  · exact implDecl_classNamed n
  · exact Gives.after (function_progress n).moves fun _ =>
      Gives.pure (by simp [Item.ClassNamed, Item.classPath?])
  · exact Gives.throw

/-! #### Files -/

section Items

variable {P : Item → Prop} (hp : ∀ n, Gives P (item n))
include hp

/-- The loop over the declarations of a file keeps a property that every
    declaration parsed has; a failed declaration adds nothing. -/
theorem items_all : ∀ n acc, (∀ it ∈ acc, P it) → Gives (fun is : Array Item => ∀ it ∈ is, P it) (items n acc)
  | 0, _, h => Gives.pure h
  | n + 1, acc, h => by
    rw [items]
    refine Gives.after Moves.atEnd fun _ => ?_
    split
    · exact Gives.pure h
    · refine Gives.after Moves.peek fun _ =>
        Gives.attempt_bind (item_progress n).moves (hp n) fun r hr hok => ?_
      split
      · refine items_all n _ fun it hit => ?_
        rcases Array.mem_push.1 hit with hit | rfl
        · exact h it hit
        · exact hok _ rfl
      · refine Gives.after (Moves.record (hr _ rfl)) fun _ => Gives.after Moves.peek fun _ => ?_
        exact Gives.ite
          (Gives.after Moves.skip fun _ => Gives.after (synchronizeItem_moves n) fun _ => items_all n _ h)
          (Gives.after (synchronizeItem_moves n) fun _ => items_all n _ h)

theorem sourceFile_all (n : Nat) : Gives (fun file : SourceFile => ∀ it ∈ file.items, P it) (sourceFile n) :=
  Gives.after Moves.peek fun _ => Gives.bind (items_moves n _) (items_all hp n _ (by simp)) fun _ h =>
    Gives.after Moves.get fun _ => Gives.pure fun it hit => h it (by simpa using hit)

end Items

end Syntax.Parse

/-- A property that every declaration parser gives holds of every declaration
    of a parsed file. -/
theorem parse_items_all {P : Item → Prop} (hp : ∀ n, Parse.Gives P (Parse.item n)) {src : String} {file : SourceFile}
    (h : parse src = .ok file) : ∀ it ∈ file.items, P it := by
  rw [parse_eq_parseTokens] at h
  obtain ⟨c, hrun⟩ := parseTokens_eq_ok h
  exact Parse.sourceFile_all hp _ _ _ _ (Cursor.ofTokens_spelled (tokenize_ident src) (tokenize_back src)) hrun

/-- Every module, struct and trait of a parsed file is named by a path of
    identifiers. -/
theorem parse_classNamed {src : String} {file : SourceFile} (h : parse src = .ok file) :
    ∀ it ∈ file.items, it.ClassNamed :=
  parse_items_all Parse.item_classNamed h

end ClassCompiler
