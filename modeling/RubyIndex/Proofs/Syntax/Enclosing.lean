import RubyIndex.Proofs.Syntax.Preorder
import RubyIndex.Syntax.Naming

/-!
# Namespaces around a node

The namespaces around a node are those around its parent, with the parent in front when it opens
one.  The name of a class or module stands outside of it, so the constant that is written there is
named as the declaration itself.

* `Tree.enclosing_of_parent`, one step upward;
* `Tree.constantName?_eq`, the name of a declared constant;
* `Tree.constantName?_of_constantPath?`, a declaration and the constant written as its name;
* `Tree.head?_candidates`, what a reference is looked up as first.
-/

namespace RubyIndex
namespace Syntax
namespace Tree

variable {t : Tree} {i p c : Nat}

/-! ## Upward -/

theorem enclosing_of_parent (h : t.parent? i = some p) :
    t.enclosing i =
      (if (t.kind p).isNamespace && !t.inHeader p i then [p] else []) ++ t.enclosing p := by
  have hzip : (i :: p :: t.ancestors p).zip (p :: t.ancestors p) =
      (i, p) :: (p :: t.ancestors p).zip (t.ancestors p) := rfl
  simp only [enclosing, ancestors_of_parent h, hzip, List.filterMap_cons]
  cases (t.kind p).isNamespace && !t.inHeader p i with
  | true => rfl
  | false => rfl

/-- What stands in the header of a declaration has the same namespaces around it. -/
theorem enclosing_of_inHeader (h : t.parent? i = some p) (hheader : t.inHeader p i = true) :
    t.enclosing i = t.enclosing p := by
  rw [enclosing_of_parent h, hheader]
  simp

/-! ## Names -/

/-- The name of a declared constant, with the namespaces around it looked through once. -/
theorem constantName?_eq (t : Tree) (i : Nat) :
    t.constantName? i =
      (t.path? i).map fun path =>
        if t.rooted i then path else Name.join (t.lexicalPrefix i) path := by
  have hscope : (t.enclosing i).attach.findSome? (fun s => t.constantName? s.1) =
      (t.enclosing i).findSome? t.constantName? := by
    conv_rhs => rw [← List.attach_map_subtype_val (t.enclosing i), List.findSome?_map]
    rfl
  rw [constantName?]
  simp only [hscope, lexicalPrefix]

/-- The innermost name around a node is the first of its nesting. -/
theorem head?_moduleNesting (t : Tree) (i : Nat) :
    (t.moduleNesting i).head?.getD "" = t.lexicalPrefix i := by
  unfold moduleNesting lexicalPrefix
  rw [List.head?_filterMap]

/-! ## Written names -/

theorem childNode?_of_constantPath? (h : t.constantPath? i = some c) :
    (t.kind i = .classDecl ∨ t.kind i = .moduleDecl) ∧ t.childNode? i 0 = some c := by
  unfold constantPath? at h
  split at h
  · rename_i hspace
    have hkind : t.kind i = .classDecl ∨ t.kind i = .moduleDecl := by
      cases hkind : t.kind i <;> simp [hkind, Kind.isNamespace] at hspace ⊢
    exact ⟨hkind, h⟩
  · cases h

/-- A choice on an option that is known to hold something. -/
theorem match_some {β : Type} (f : Nat → β) (d : β) {o : Option Nat} :
    o = some c →
      (match _h : o with
        | some a => f a
        | none => d) = f c := by
  rintro rfl
  rfl

/-- A class or module has the path that is written as its name. -/
theorem path?_of_constantPath? (h : t.constantPath? i = some c) : t.path? i = t.path? c := by
  rcases childNode?_of_constantPath? h with ⟨hkind, hchild⟩
  conv_lhs => rw [path?]
  rcases hkind with hkind | hkind
  · simp only [hkind]
    exact match_some t.path? none hchild
  · simp only [hkind]
    exact match_some t.path? none hchild

theorem rooted_of_constantPath? (h : t.constantPath? i = some c) : t.rooted i = t.rooted c := by
  rcases childNode?_of_constantPath? h with ⟨hkind, hchild⟩
  conv_lhs => rw [rooted]
  rcases hkind with hkind | hkind
  · simp only [hkind]
    exact match_some t.rooted false hchild
  · simp only [hkind]
    exact match_some t.rooted false hchild

/-- A class or module has a name only if one is written. -/
theorem exists_constantPath? (hspace : (t.kind i).isNamespace = true) {name : String}
    (h : t.constantName? i = some name) : ∃ c, t.constantPath? i = some c := by
  cases hpath : t.constantPath? i with
  | some c => exact ⟨c, rfl⟩
  | none =>
      have hchild : t.childNode? i 0 = none := by
        simpa [constantPath?, hspace] using hpath
      have hunnamed : t.path? i = none := by
        rw [path?]
        cases hkind : t.kind i <;> simp [hkind, Kind.isNamespace] at hspace
        all_goals
          simp only
          split
          · rename_i hconstant
            cases hchild.symm.trans hconstant
          · rfl
      rw [constantName?_eq, hunnamed] at h
      cases h

/-- The written name is in the header. -/
theorem inHeader_of_constantPath? (h : t.constantPath? i = some c) : t.inHeader i c = true := by
  rcases childNode?_of_constantPath? h with ⟨hkind, hchild⟩
  rcases Option.bind_eq_some_iff.1 hchild with ⟨child, hslot, hnode⟩
  have hslot' : t.child? i 0 = some (.node c) := by
    cases child with
    | leaf l => cases hnode
    | node d =>
        cases hnode
        exact hslot
  unfold inHeader
  rcases hkind with hkind | hkind
  · simp [hkind, hslot']
  · simp [hkind, hslot']

theorem parent?_of_constantPath? (ht : t.Linked) (h : t.constantPath? i = some c) :
    t.parent? c = some i := by
  rcases childNode?_of_constantPath? h with ⟨-, hchild⟩
  rcases Option.bind_eq_some_iff.1 hchild with ⟨child, hslot, hnode⟩
  have hmem : c ∈ t.childNodes i :=
    List.mem_filterMap.2 ⟨child, List.mem_of_getElem? hslot, hnode⟩
  exact ht.mem_childNodes_iff.1 hmem

/-- The constant that is written as the name of a class or module, taken as a declaration where it
stands, would declare the same name. -/
theorem constantName?_of_constantPath? (ht : t.Linked) (h : t.constantPath? i = some c) :
    t.constantName? i = t.constantName? c := by
  have hscopes : t.enclosing c = t.enclosing i :=
    enclosing_of_inHeader (parent?_of_constantPath? ht h) (inHeader_of_constantPath? h)
  rw [constantName?_eq, constantName?_eq, path?_of_constantPath? h, rooted_of_constantPath? h]
  unfold lexicalPrefix
  rw [hscopes]

/-! ## Qualified names -/

/-- A class, a module and an assigned constant have the name of what they declare. -/
theorem qualifiedName?_eq_constantName?
    (h : t.kind i ∈ [Kind.classDecl, .moduleDecl, .constAssign]) :
    t.qualifiedName? i = t.constantName? i := by
  simp only [List.mem_cons, List.not_mem_nil, or_false] at h
  unfold qualifiedName?
  rcases h with h | h | h <;> rw [h]

theorem qualifiedName?_of_isNamespace (hspace : (t.kind i).isNamespace = true) :
    t.qualifiedName? i = t.constantName? i := by
  refine qualifiedName?_eq_constantName? ?_
  cases hkind : t.kind i <;> simp [hkind, Kind.isNamespace] at hspace ⊢

/-- Only nodes have qualified names. -/
theorem lt_size_of_qualifiedName? {name : String} (h : t.qualifiedName? i = some name) :
    i < t.size := by
  by_contra hbeyond
  have hkind : t.kind i = .other := by
    unfold kind node?
    rw [Array.getElem?_eq_none (Nat.not_lt.1 hbeyond)]
    rfl
  unfold qualifiedName? at h
  rw [hkind] at h
  cases h

/-! ## References -/

/-- A reference is looked up first under the name that a declaration written in its place would
have. -/
theorem head?_candidates {r : Reference} (h : t.reference? i = some r) :
    r.candidates.head? = t.constantName? i := by
  unfold reference? at h
  split at h
  · rcases Option.map_eq_some_iff.1 h with ⟨path, hpath, rfl⟩
    rw [constantName?_eq, hpath, ← head?_moduleNesting]
    by_cases hrooted : t.rooted i = true
    · simp [Reference.candidates, hrooted]
    · cases hnesting : t.moduleNesting i with
      | nil => simp [Reference.candidates, hrooted, Name.join]
      | cons scope rest => simp [Reference.candidates, hrooted]
  · cases h

end Tree
end Syntax
end RubyIndex
