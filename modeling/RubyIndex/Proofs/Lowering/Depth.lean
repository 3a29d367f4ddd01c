import RubyIndex.Proofs.Lowering.Refinement
import RubyIndex.Proofs.Lowering.Shape

/-!
# How deep the tree of a text is

Constructs are lowered to a depth of `maxDepth` only, and each of them is three levels high at most.
So the ways down the tree of a text are bounded, but for destructured parameters: each of those
within another one makes a way one node longer, and nothing counts them.

* `Concrete.Node.nestedProgram`, texts whose trees are as deep as one likes;
* `Parsed.branch_length_le`, the bound, which counts the destructured parameters.
-/

namespace RubyIndex

open Lowering (Lower Yields maxDepth lowerParameter lowerNode lowerWithin lowerProgram)
open Concrete (Source)
open Syntax (Child Term)

/-! ## Nested parameters -/

namespace Concrete.Node

/-- A bracket, or another token of one character. -/
def bracket (id start : Nat) : Node :=
  ⟨id, .other, false, start, start + 1, none, []⟩

/-- A parameter `a` in so many brackets. -/
def nestedParameter (id start : Nat) : Nat → Node
  | 0 => ⟨id, .identifier, true, start, start + 1, none, []⟩
  | depth + 1 =>
      ⟨id, .destructuredParameter, true, start, start + 2 * depth + 3, none,
        [ bracket (id + 1) start, nestedParameter (id + 2) (start + 1) depth,
          bracket (id + 3 * depth + 3) (start + 2 * depth + 2) ]⟩

/-- The parameter list of a method with that parameter. -/
def nestedList (depth : Nat) : Node :=
  ⟨4, .other, true, 5, 2 * depth + 8, some .parameters,
    [bracket 5 5, nestedParameter 6 6 depth, bracket (3 * depth + 7) (2 * depth + 7)]⟩

/-- A method with that parameter list and no body. -/
def nestedMethod (depth : Nat) : Node :=
  ⟨1, .method, true, 0, 2 * depth + 12, none,
    [ ⟨2, .other, false, 0, 3, none, []⟩, ⟨3, .identifier, true, 4, 5, some .name, []⟩,
      nestedList depth, ⟨3 * depth + 8, .other, false, 2 * depth + 9, 2 * depth + 12, none, []⟩ ]⟩

/-- What the text `nestedText` of the method is read as. -/
def nestedProgram (depth : Nat) : Node :=
  ⟨0, .other, true, 0, 2 * depth + 13, none, [nestedMethod depth]⟩

def nestedText (depth : Nat) : Source :=
  "def f(".toList ++ List.replicate depth '(' ++ ['a'] ++ List.replicate depth ')' ++
    ")\nend\n".toList

end Concrete.Node

open Concrete.Node (nestedParameter nestedList nestedMethod nestedProgram nestedText)

namespace Lowering

variable {s : Source} {lower : Lower Lowering Term}

/-- Of the brackets around a parameter nothing is left. -/
theorem yields_bracketed {n : Concrete.Node} (hnamed : n.named = true)
    (hextra : n.isExtra = false) {height : Nat}
    (h : Yields (lowerParameter s lower n) fun term => ∃ t, term = some t ∧ t.height = height)
    (id start id' start' : Nat) :
    Yields (lowerParameterList s lower [.bracket id start, n, .bracket id' start']) fun terms =>
      ∃ t, terms = [t] ∧ t.height = height := by
  have hlist : lowerParameterList s lower [.bracket id start, n, .bracket id' start'] =
      lowerParameter s lower n >>= fun term => pure term.toList := by
    simp [lowerParameterList, Concrete.Node.bracket, hnamed, hextra]
  rw [hlist]
  refine h.bind ?_
  rintro _ ⟨t, rfl, hheight⟩
  exact .pure ⟨t, rfl, hheight⟩

theorem yields_nestedParameter (depth : Nat) : ∀ id start : Nat,
    Yields (lowerParameter s lower (nestedParameter id start depth)) fun term =>
      ∃ t, term = some t ∧ t.height = depth + 1 := by
  induction depth with
  | zero =>
      intro id start
      refine .skip fun _ => .pure ⟨_, rfl, ?_⟩
      simp [symbol, Term.height, Term.heightOf]
  | succ depth ih =>
      intro id start
      unfold nestedParameter lowerParameter
      refine (yields_bracketed (by cases depth <;> rfl) (by cases depth <;> rfl)
        (ih _ _) _ _ _ _).bind ?_
      rintro _ ⟨t, rfl, hheight⟩
      refine .pure ⟨_, rfl, ?_⟩
      simp [Term.height, Term.heightOf, hheight]

theorem yields_nestedList (depth : Nat) :
    Yields (lowerParameters s lower (some (nestedList depth))) fun term =>
      term.height = depth + 2 := by
  refine (yields_bracketed (by cases depth <;> rfl) (by cases depth <;> rfl)
    (yields_nestedParameter depth 6 6) _ _ _ _).bind ?_
  rintro _ ⟨t, rfl, hheight⟩
  refine .pure ?_
  simp [Term.height, Term.heightOf, hheight]

theorem yields_nestedMethod (depth : Nat) :
    Yields (lowerMethod s lower (nestedMethod depth)) fun term => term.height = depth + 3 := by
  have hcallable : Yields (lowerCallable s lower false (nestedMethod depth)
      [(nestedMethod depth).field? .name, (nestedMethod depth).field? .parameters]) fun parts =>
        parts.1.height = depth + 2 ∧ parts.2 = none := by
    refine Yields.within ?_ false
    refine (yields_nestedList depth).bind ?_
    intro parameters hparameters
    -- no statement is left for the body
    exact .pure ⟨hparameters, rfl⟩
  refine hcallable.bind ?_
  rintro ⟨parameters, _⟩ ⟨hparameters, rfl⟩
  refine .pure ?_
  simp [symbol, Child.ofOption, Term.height, Term.heightOf, hparameters]

/-- The root and the method stand above the parameter list, the list above the parameter. -/
theorem height_nestedProgram (s : Source) (depth : Nat) :
    (lowerProgram s (nestedProgram depth)).height = depth + 4 := by
  have hmethod : Yields (lowerWithin s maxDepth (nestedMethod depth))
      fun term => ∃ t, term = some t ∧ t.height = depth + 3 :=
    (yields_nestedMethod depth).bind fun t ht => .pure ⟨t, rfl, ht⟩
  have hterms : Yields (lowerAll (lowerWithin s maxDepth) (nestedProgram depth).namedChildren)
      fun terms => ∃ t, terms = [t] ∧ t.height = depth + 3 := by
    refine hmethod.bind ?_
    rintro _ ⟨t, rfl, ht⟩
    exact .pure ⟨t, rfl, ht⟩
  obtain ⟨t, hterms, hheight⟩ := hterms .initial
  have hchildren : (lowerProgram s (nestedProgram depth)).children = [.node t] :=
    congrArg (List.map Child.node) hterms
  rw [Term.height_eq, hchildren]
  simp [Term.heightOf, hheight]

end Lowering

namespace Parsed

/-! ## The bound -/

/-- A way down from the root is no longer than the constructs on it may be high, and a node longer
for each destructured parameter. -/
theorem branch_length_le {s : Source} {root : Concrete.Node} {path : List Nat}
    (h : (ofSource s root).tree.Branch (ofSource s root).tree.root path) :
    path.length ≤ 3 * maxDepth + 2 + root.destructuring := by
  rw [tree_ofSource] at h
  have hheight := h.length_le (lowerProgram s root).shows_root
  exact Nat.le_trans hheight (Lowering.formed_lowerProgram s root).height_le

/-- The way down to the parameter of `def f((a))`. -/
theorem nestedProgram_branch_length :
    let t := (ofSource (nestedText 1) (nestedProgram 1)).tree
    t.Branch t.root [4, 3, 2, 1, 0] ∧
      [4, 3, 2, 1, 0].length ≤ 3 * maxDepth + 2 + (nestedProgram 1).destructuring := by
  intro t
  have hroot : t.root = 4 := by decide +kernel
  have hbranch : t.Branch t.root [4, 3, 2, 1, 0] := by
    rw [hroot]
    exact .step (c := 3) (by decide +kernel) (.step (c := 2) (by decide +kernel)
      (.step (c := 1) (by decide +kernel) (.step (c := 0) (by decide +kernel)
        (.leaf (by decide +kernel)))))
  exact ⟨hbranch, branch_length_le hbranch⟩

/-- There is no bound for all texts. -/
theorem exists_branch_nestedProgram (depth : Nat) :
    let t := (ofSource (nestedText depth) (nestedProgram depth)).tree
    ∃ path, t.Branch t.root path ∧ path.length = depth + 4 := by
  rw [tree_ofSource]
  obtain ⟨path, hpath, hlength⟩ :=
    (lowerProgram (nestedText depth) (nestedProgram depth)).shows_root.exists_branch
  exact ⟨path, hpath, hlength.trans (Lowering.height_nestedProgram _ depth)⟩

/-- With 450 destructured parameters there is a way of 454 nodes. -/
theorem not_branch_length_le :
    ¬ ∀ (s : Source) (root : Concrete.Node) (path : List Nat),
      (ofSource s root).tree.Branch (ofSource s root).tree.root path →
        path.length ≤ 3 * maxDepth + 2 := by
  intro h
  obtain ⟨path, hpath, hlength⟩ := exists_branch_nestedProgram 450
  have hle := h _ _ path hpath
  rw [hlength] at hle
  exact absurd hle (by decide)

end Parsed
end RubyIndex
