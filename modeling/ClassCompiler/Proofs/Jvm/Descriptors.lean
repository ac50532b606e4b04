import ClassCompiler.Jvm.Descriptor

/-!
# Descriptors read back

A type is written as its descriptor letter by letter (`Ty.descriptor`) and read
back by `Ty.parsePrefix`, which ends a class name at its first `;`, refuses an
array of `void` and refuses a type reference to a type reference. Writing and
reading are inverse on the types that avoid those shapes (`Ty.Readable`), and
every text that reads as a type is that type's descriptor. A method descriptor
is its parameters' descriptors between parentheses, then the return type's.

* `Ty.parsePrefix_descriptor`: the descriptor of a readable type, followed by
  any text, reads as the type and leaves the text;
* `Ty.descriptor_of_parsePrefix`: what a successful read consumed is the
  descriptor of the type it gives;
* `MethodType.parseParams_descriptors`, `MethodType.descriptor_of_parseParams`:
  the same two laws for the parameter list of a method descriptor;
* `descriptor_round_trip`: both laws for whole type and method descriptors.
-/

namespace ClassCompiler

namespace Ty

/-- A type whose descriptor reads back as itself: its class names are non-empty
    and hold no `;`, none of its arrays is of `void`, and none of its type
    references is to a type reference. -/
def Readable : Ty → Prop
  | .obj n => n ≠ "" ∧ ';' ∉ n.toList
  | .array e => e ≠ .void ∧ e.Readable
  | .typeRef t => t.isTypeRef = false ∧ t.Readable
  | _ => True

/-- The letters `L`, `[` and `T` begin a type with an operand. -/
theorem ofLetter?_eq_none {c : Char} (h : c = 'L' ∨ c = '[' ∨ c = 'T') : ofLetter? c = none := by
  rcases h with rfl | rfl | rfl <;> rfl

/-- A type read from one letter has that letter as its descriptor. -/
theorem descriptor_of_ofLetter? {c : Char} {t : Ty} (h : ofLetter? c = some t) :
    t.descriptor.toList = [c] := by
  unfold ofLetter? at h
  split at h <;> cases h <;> rfl

/-- A class name without `;`, followed by `;`: its first `;` is the one after it. -/
theorem idxOf?_semicolon {n r : List Char} (hn : ';' ∉ n) : (n ++ ';' :: r).idxOf? ';' = some n.length := by
  have hnone : n.findIdx? (· == ';') = none := by
    rw [List.findIdx?_eq_none_iff]
    intro c hc
    simp only [beq_eq_false_iff_ne, ne_eq]
    rintro rfl
    exact hn hc
  simp [List.idxOf?, List.findIdx?_append, hnone, List.findIdx?_cons]

/-- The descriptor of a readable type, followed by any text, reads as the type
    and leaves the text. -/
theorem parsePrefix_descriptor {t : Ty} (ht : t.Readable) (r : List Char) :
    parsePrefix (t.descriptor.toList ++ r) = .ok (t, r) := by
  induction t generalizing r with
  | obj n =>
    obtain ⟨hne, hsemi⟩ := ht
    obtain ⟨k, hk⟩ : ∃ k, n.toList.length = k + 1 :=
      Nat.exists_eq_add_one_of_ne_zero (by simpa using hne)
    have hidx := idxOf?_semicolon (r := r) hsemi
    rw [hk] at hidx
    have hd : (obj n).descriptor.toList ++ r = 'L' :: (n.toList ++ ';' :: r) := by simp [descriptor]
    rw [hd]
    unfold parsePrefix
    simp only [ofLetter?_eq_none (Or.inl rfl), if_true, hidx]
    rw [← hk]
    simp
  | array e ih =>
    obtain ⟨hv, he⟩ := ht
    have hvoid : e.isVoid = false := by cases e <;> simp_all [isVoid]
    simp [descriptor, parsePrefix, ofLetter?_eq_none, ih he, hvoid]
  | typeRef t ih =>
    obtain ⟨hnot, ht⟩ := ht
    have href : t.toTypeRef = .ok (.typeRef t) := by cases t <;> simp_all [toTypeRef, isTypeRef]
    simp [descriptor, parsePrefix, ofLetter?_eq_none, ih ht, href]
  | _ => rfl

/-- A type reference that is made is the reference to the type. -/
theorem toTypeRef_eq_ok {t t' : Ty} (h : t.toTypeRef = .ok t') : t' = .typeRef t := by
  unfold toTypeRef at h
  split at h <;> cases h
  rfl

/-- What a successful read consumed is the descriptor of the type it gives: the
    input is that descriptor followed by the rest. -/
theorem descriptor_of_parsePrefix {s r : List Char} {t : Ty} (h : parsePrefix s = .ok (t, r)) :
    t.descriptor.toList ++ r = s := by
  induction s generalizing t r with
  | nil => cases h
  | cons c rest ih =>
    unfold parsePrefix at h
    dsimp only at h
    split at h
    · -- a letter without operand
      rename_i t' ht'
      cases h
      simp [descriptor_of_ofLetter? ht']
    · split at h
      · -- a class name, up to the first `;`
        subst c
        split at h
        · cases h
        · cases h
        · rename_i n _ hn
          cases h
          obtain ⟨hlt, hsemi, -⟩ := List.idxOf?_eq_some_iff.1 hn
          have hsplit : rest.take n ++ ';' :: rest.drop (n + 1) = rest := by
            rw [← hsemi, List.getElem_cons_drop, List.take_append_drop]
          simpa [descriptor] using hsplit
      · split at h
        · -- an array: its element first
          subst c
          split at h
          · cases h
          · rename_i elem more hp
            split at h
            · cases h
            · cases h
              simp [descriptor, ih hp]
        · split at h
          · -- a type reference: its target first
            subst c
            split at h
            · cases h
            · rename_i inner more hp
              split at h
              · cases h
              · rename_i t' hr
                obtain rfl := toTypeRef_eq_ok hr
                cases h
                simp [descriptor, ih hp]
          · cases h

/-- A whole descriptor read as a readable type's: the type. -/
theorem ofDescriptor_descriptor {t : Ty} (ht : t.Readable) : ofDescriptor t.descriptor = .ok t := by
  have := parsePrefix_descriptor ht []
  simp only [List.append_nil] at this
  simp [ofDescriptor, this]

/-- A text read as a whole type is that type's descriptor. -/
theorem descriptor_of_ofDescriptor {s : String} {t : Ty} (h : ofDescriptor s = .ok t) :
    t.descriptor = s := by
  unfold ofDescriptor at h
  split at h
  · cases h
  · cases h
    rename_i hp
    exact String.toList_inj.1 (by simpa using descriptor_of_parsePrefix hp)
  · cases h

/-- A descriptor is never empty and never begins with `)`. -/
theorem descriptor_head {t : Ty} : ∃ c cs, t.descriptor.toList = c :: cs ∧ c ≠ ')' := by
  cases t <;> simp [descriptor]

end Ty

namespace MethodType

/-- A method type whose descriptor reads back as itself: its parameters are
    readable and none is `void`, and its return type is readable. -/
def Readable (m : MethodType) : Prop :=
  (∀ p ∈ m.params, p.Readable ∧ p ≠ .void) ∧ m.ret.Readable

/-- The descriptors of parameters one after the other. -/
def paramText (ps : List Ty) : List Char := ps.flatMap fun p => p.descriptor.toList

theorem toList_descriptor (m : MethodType) :
    m.descriptor.toList = '(' :: (paramText m.params ++ ')' :: m.ret.descriptor.toList) := by
  simp [descriptor, paramText, String.toList_join, List.flatMap_map]

/-- Each parameter takes at least one character. -/
theorem length_le_paramText (ps : List Ty) : ps.length ≤ (paramText ps).length := by
  induction ps with
  | nil => simp [paramText]
  | cons p ps ih =>
    obtain ⟨c, cs, hc, -⟩ := Ty.descriptor_head (t := p)
    simp only [paramText, List.flatMap_cons, List.length_append, hc] at ih ⊢
    simp only [List.length_cons]
    omega

/-- Readable parameters, then `)` and a readable return type, read as those
    parameters after the ones read so far, whenever the fuel covers them. -/
theorem parseParams_descriptors (whole : String) {ps : List Ty} {ret : Ty}
    (hps : ∀ p ∈ ps, p.Readable ∧ p ≠ .void) (hret : ret.Readable) :
    ∀ (fuel : Nat) (acc : List Ty), ps.length < fuel →
      parseParams whole fuel (paramText ps ++ ')' :: ret.descriptor.toList) acc =
        .ok ⟨acc.reverse ++ ps, ret⟩ := by
  induction ps with
  | nil =>
    intro fuel acc hf
    obtain ⟨fuel, rfl⟩ := Nat.exists_eq_add_of_lt hf
    simp [paramText, parseParams, Ty.ofDescriptor_descriptor hret]
  | cons p ps ih =>
    intro fuel acc hf
    obtain ⟨fuel, rfl⟩ := Nat.exists_eq_add_of_lt (Nat.zero_lt_of_lt hf)
    obtain ⟨hp, hvoid⟩ := hps p (by simp)
    obtain ⟨c, cs, hc, hne⟩ := Ty.descriptor_head (t := p)
    have hread := Ty.parsePrefix_descriptor hp (paramText ps ++ ')' :: ret.descriptor.toList)
    simp only [hc, paramText, List.cons_append] at hread
    have hnv : p.isVoid = false := by cases p <;> simp_all [Ty.isVoid]
    have hrest := ih (fun q hq => hps q (by simp [hq])) fuel (p :: acc) (by simp at hf; omega)
    simp only [paramText, List.flatMap_cons, hc, List.cons_append, List.append_assoc] at hrest ⊢
    simp [parseParams, hne, hread, hnv, hrest]

/-- What a successful read of parameters consumed: the descriptors of the
    parameters it added, then `)` and the return type's descriptor. -/
theorem descriptor_of_parseParams {whole : String} :
    ∀ {fuel : Nat} {cs : List Char} {acc : List Ty} {m : MethodType},
      parseParams whole fuel cs acc = .ok m →
        ∃ ps, m.params = acc.reverse ++ ps ∧ cs = paramText ps ++ ')' :: m.ret.descriptor.toList
  | 0, _, _, _, h => by cases h
  | _ + 1, [], _, _, h => by cases h
  | fuel + 1, c :: rest, acc, m, h => by
    unfold parseParams at h
    split at h
    · -- `)`: the return type follows
      subst c
      split at h
      · cases h
      · rename_i ret hret
        cases h
        refine ⟨[], by simp, ?_⟩
        have := Ty.descriptor_of_ofDescriptor hret
        simp [paramText, this]
    · split at h
      · cases h
      · rename_i t more hp
        split at h
        · cases h
        · obtain ⟨ps, hps, hmore⟩ := descriptor_of_parseParams h
          refine ⟨t :: ps, by simp [hps], ?_⟩
          rw [← Ty.descriptor_of_parsePrefix hp, hmore]
          simp [paramText]

/-- A readable method type's descriptor reads as the method type. -/
theorem ofDescriptor_descriptor {m : MethodType} (hm : m.Readable) :
    ofDescriptor m.descriptor = .ok m := by
  have hlen := length_le_paramText m.params
  have := parseParams_descriptors m.descriptor hm.1 hm.2
    ((paramText m.params ++ ')' :: m.ret.descriptor.toList).length + 1) [] (by simp; omega)
  simp only [ofDescriptor, toList_descriptor]
  simpa using this

/-- A text read as a method type is that method type's descriptor. -/
theorem descriptor_of_ofDescriptor {s : String} {m : MethodType} (h : ofDescriptor s = .ok m) :
    m.descriptor = s := by
  unfold ofDescriptor at h
  split at h
  · rename_i rest hs
    obtain ⟨ps, hps, hrest⟩ := descriptor_of_parseParams h
    apply String.toList_inj.1
    simp only [List.reverse_nil, List.nil_append] at hps
    rw [toList_descriptor, hs, hrest, hps]
  · cases h

end MethodType

/-- Descriptors and types correspond: a readable type's descriptor, followed by
    any text, reads as the type and leaves the text, so the whole descriptor reads
    as the type; every text read as a type is its descriptor; and the same holds
    of method descriptors whose parameters are readable and not `void`. -/
theorem descriptor_round_trip :
    (∀ t : Ty, t.Readable →
      Ty.ofDescriptor t.descriptor = .ok t ∧ ∀ r, Ty.parsePrefix (t.descriptor.toList ++ r) = .ok (t, r)) ∧
    (∀ (s : String) (t : Ty), Ty.ofDescriptor s = .ok t → t.descriptor = s) ∧
    (∀ m : MethodType, m.Readable → MethodType.ofDescriptor m.descriptor = .ok m) ∧
    (∀ (s : String) (m : MethodType), MethodType.ofDescriptor s = .ok m → m.descriptor = s) :=
  ⟨fun _ ht => ⟨Ty.ofDescriptor_descriptor ht, Ty.parsePrefix_descriptor ht⟩,
    fun _ _ => Ty.descriptor_of_ofDescriptor,
    fun _ hm => MethodType.ofDescriptor_descriptor hm,
    fun _ _ => MethodType.descriptor_of_ofDescriptor⟩

/-- An array of points reads back from its descriptor, and so does a method
    taking one and a long and returning a reference to `int`. -/
theorem descriptor_round_trip_points :
    Ty.Readable (.array (.obj "geo/Point")) ∧
      Ty.ofDescriptor "[Lgeo/Point;" = .ok (.array (.obj "geo/Point")) ∧
      MethodType.Readable ⟨[.array (.obj "geo/Point"), .long], .typeRef .int⟩ ∧
      MethodType.ofDescriptor "([Lgeo/Point;J)TI" =
        .ok ⟨[.array (.obj "geo/Point"), .long], .typeRef .int⟩ := by
  have ht : Ty.Readable (.array (.obj "geo/Point")) := by simp [Ty.Readable]
  have hm : MethodType.Readable ⟨[.array (.obj "geo/Point"), .long], .typeRef .int⟩ := by
    simp [MethodType.Readable, Ty.Readable, Ty.isTypeRef]
  exact ⟨ht, (descriptor_round_trip.1 _ ht).1, hm, descriptor_round_trip.2.2.1 _ hm⟩

end ClassCompiler
