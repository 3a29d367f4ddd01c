import Mathlib.Data.List.Nodup
import Mathlib.Order.Bounds.Basic
import RubyIndex.Proofs.Lowering.Refinement

/-!
# The longest run of comment lines

The rows above a declaration are read upward until one of them holds no whole-line comment.  What
has been read by then is the longest run of comment lines that ends right above the declaration, and
it becomes the comment of the declaration.

* `RunOf`, so many rows right above a row hold comment lines;
* `isGreatest_linesUpward`, `getElem_runAbove`, no longer run ends there, and its lines are in the
  order of their rows;
* `associate_longest_run`, the comments of any distinct nodes;
* `Syntax.Term.nodup_documented` and `Parsed.comment?_ofSource`, the nodes of a text that can be
  documented are distinct, and so they have these comments.
-/

namespace RubyIndex
namespace Concrete

variable {lineAt : Nat → Option String} {row k : Nat}

/-! ## Runs -/

/-- The `k` rows right above a row exist and hold comment lines. -/
def RunOf (lineAt : Nat → Option String) (row k : Nat) : Prop :=
  k ≤ row ∧ ∀ i, i < k → (lineAt (row - k + i)).isSome = true

instance (lineAt : Nat → Option String) (row k : Nat) : Decidable (RunOf lineAt row k) :=
  inferInstanceAs (Decidable (_ ∧ _))

theorem runOf_zero (lineAt : Nat → Option String) (row : Nat) : RunOf lineAt row 0 :=
  ⟨Nat.zero_le row, fun _ hi => absurd hi (Nat.not_lt_zero _)⟩

/-- The last row of a run is the one right above. -/
theorem runOf_succ_iff :
    RunOf lineAt (row + 1) (k + 1) ↔ (lineAt row).isSome = true ∧ RunOf lineAt row k := by
  unfold RunOf
  rw [Nat.add_sub_add_right, Nat.add_le_add_iff_right]
  constructor
  · rintro ⟨hle, hrows⟩
    have hlast := hrows k (Nat.lt_succ_self k)
    rw [Nat.sub_add_cancel hle] at hlast
    exact ⟨hlast, hle, fun i hi => hrows i (Nat.lt_succ_of_lt hi)⟩
  · rintro ⟨hlast, hle, hrows⟩
    refine ⟨hle, fun i hi => ?_⟩
    rcases Nat.lt_succ_iff_lt_or_eq.1 hi with hlt | rfl
    · exact hrows i hlt
    · rw [Nat.sub_add_cancel hle]
      exact hlast

/-- Reading upward stops at the first row and at the first gap, and no sooner. -/
theorem isGreatest_linesUpward (lineAt : Nat → Option String) (row : Nat) :
    IsGreatest {k | RunOf lineAt row k} (linesUpward lineAt row).length := by
  induction row with
  | zero => exact ⟨runOf_zero lineAt 0, fun k hk => hk.1⟩
  | succ row ih =>
      rw [linesUpward]
      cases hline : lineAt row with
      | none =>
          -- a run that is not empty would hold the gap
          refine ⟨runOf_zero lineAt _, fun k hk => ?_⟩
          cases k with
          | zero => exact Nat.le_refl 0
          | succ k =>
              have hlast := (runOf_succ_iff.1 hk).1
              rw [hline] at hlast
              cases hlast
      | some line =>
          have hsome : (lineAt row).isSome = true := by rw [hline, Option.isSome_some]
          refine ⟨runOf_succ_iff.2 ⟨hsome, ih.1⟩, fun k hk => ?_⟩
          cases k with
          | zero => exact Nat.zero_le _
          | succ k => exact Nat.succ_le_succ (ih.2 (runOf_succ_iff.1 hk).2)

theorem getElem_linesUpward {i : Nat} (hi : i < (linesUpward lineAt row).length) :
    lineAt (row - 1 - i) = some (linesUpward lineAt row)[i] := by
  induction row generalizing i with
  | zero => exact absurd hi (Nat.not_lt_zero i)
  | succ row ih =>
      cases hline : lineAt row with
      | none => simp [linesUpward, hline] at hi
      | some line =>
          simp only [linesUpward, hline, List.length_cons] at hi ⊢
          cases i with
          | zero => simpa using hline
          | succ i =>
              have habove : row + 1 - 1 - (i + 1) = row - 1 - i := by omega
              rw [habove, List.getElem_cons_succ]
              exact ih (Nat.lt_of_succ_lt_succ hi)

@[simp] theorem length_runAbove (lineAt : Nat → Option String) (row : Nat) :
    (runAbove lineAt row).length = (linesUpward lineAt row).length :=
  List.length_reverse

/-- The lines of a run stand in the order of their rows. -/
theorem getElem_runAbove {i : Nat} (hi : i < (runAbove lineAt row).length) :
    lineAt (row - (runAbove lineAt row).length + i) = some (runAbove lineAt row)[i] := by
  have hlength := length_runAbove lineAt row
  have hle : (linesUpward lineAt row).length ≤ row := (isGreatest_linesUpward lineAt row).1.1
  -- the line `i` rows below the top of the run was read that many lines before the last one
  have hmirror : (linesUpward lineAt row).length - 1 - i < (linesUpward lineAt row).length := by
    omega
  have hrow : row - (runAbove lineAt row).length + i =
      row - 1 - ((linesUpward lineAt row).length - 1 - i) := by
    omega
  rw [hrow, getElem_linesUpward hmirror]
  simp only [runAbove, List.getElem_reverse]

/-! ## Comments of nodes -/

theorem associate_eq (lineAt : Nat → Option String) (documented : List (Nat × Nat)) :
    associate lineAt documented = documented.filterMap fun entry =>
      if runAbove lineAt entry.2 = [] then none
      else some (entry.1, "\n".intercalate (runAbove lineAt entry.2)) := by
  unfold associate
  congr 1
  funext ⟨node, row⟩
  cases hrun : runAbove lineAt row with
  | nil => simp [hrun]
  | cons line rest => simp [hrun]

theorem mem_associate_iff {documented : List (Nat × Nat)} {node : Nat} {text : String} :
    (node, text) ∈ associate lineAt documented ↔
      ∃ row, (node, row) ∈ documented ∧ runAbove lineAt row ≠ [] ∧
        text = "\n".intercalate (runAbove lineAt row) := by
  rw [associate_eq, List.mem_filterMap]
  constructor
  · rintro ⟨⟨node', row⟩, hmem, hentry⟩
    split at hentry
    · cases hentry
    · rename_i hrun
      cases hentry
      exact ⟨row, hmem, hrun, rfl⟩
  · rintro ⟨row, hmem, hrun, rfl⟩
    exact ⟨(node, row), hmem, if_neg hrun⟩

/-- A node gets at most one comment for each time it is documented. -/
theorem keys_associate_sublist (lineAt : Nat → Option String) (documented : List (Nat × Nat)) :
    ((associate lineAt documented).map Prod.fst).Sublist (documented.map Prod.fst) := by
  rw [associate_eq]
  induction documented with
  | nil => exact List.Sublist.refl _
  | cons entry rest ih =>
      rw [List.filterMap_cons]
      split
      · exact ih.cons _
      · rename_i hentry
        split at hentry
        · cases hentry
        · cases hentry
          exact ih.cons_cons _

end Concrete

/-! ## Documented nodes -/

namespace Syntax
namespace Term

namespace Placement

variable {f : Forest}

/-- The documented nodes are new ones, in the order in which they were added. -/
structure Increasing (p : Placement f) : Prop where
  added : ∀ node ∈ p.documented.map Prod.fst, f.size ≤ node ∧ node < p.forest.size
  sorted : (p.documented.map Prod.fst).Pairwise (· < ·)

theorem increasing_none (f : Forest) : (none f).Increasing where
  added := fun _ hnode => absurd hnode List.not_mem_nil
  sorted := List.Pairwise.nil

theorem Increasing.consLeaf {p : Placement f} (hp : p.Increasing) (l : Leaf) :
    (p.consLeaf l).Increasing :=
  ⟨hp.added, hp.sorted⟩

theorem Increasing.append {p : Placement f} {q : Placement p.forest} (hp : p.Increasing)
    (hq : q.Increasing) : (p.append q).Increasing where
  added := by
    intro node hnode
    have hgrows := p.grows
    have hgrows' := q.grows
    show f.size ≤ node ∧ node < q.forest.size
    rw [Placement.append, List.map_append, List.mem_append] at hnode
    rcases hnode with hnode | hnode
    · have hadded := hp.added node hnode
      omega
    · have hadded := hq.added node hnode
      omega
  sorted := by
    rw [Placement.append, List.map_append, List.pairwise_append]
    refine ⟨hp.sorted, hq.sorted, ?_⟩
    intro node hnode node' hnode'
    exact Nat.lt_of_lt_of_le (hp.added node hnode).2 (hq.added node' hnode').1

/-- The node above the placed children is the last one added. -/
theorem Increasing.close {p : Placement f} (hp : p.Increasing) (kind : Kind)
    (range : Option Range) (documentedOn : Option Nat) :
    (p.close kind range documentedOn).Increasing := by
  have hgrows := p.grows
  have hroot : ∀ node, node ∈ (documentedOn.map fun row => (p.forest.size, row)).toList.map
      Prod.fst → node = p.forest.size := by
    cases documentedOn <;> simp
  constructor
  · intro node hnode
    show f.size ≤ node ∧ node < (p.forest.add kind p.children range p.children_lt).size
    rw [Forest.size_add]
    rw [Placement.close, List.map_append, List.mem_append] at hnode
    rcases hnode with hnode | hnode
    · have hadded := hp.added node hnode
      omega
    · have heq := hroot node hnode
      omega
  · rw [Placement.close, List.map_append, List.pairwise_append]
    refine ⟨hp.sorted, ?_, ?_⟩
    · cases documentedOn <;> simp
    · intro node hnode node' hnode'
      rw [hroot node' hnode']
      exact (hp.added node hnode).2

end Placement

mutual

theorem increasing_place (f : Forest) : ∀ t : Term, (place f t).Increasing
  | ⟨kind, children, range, documentedOn⟩ =>
      (increasing_placeAll f children).close kind range documentedOn

theorem increasing_placeAll (f : Forest) :
    ∀ children : List (Child Term), (placeAll f children).Increasing
  | [] => Placement.increasing_none f
  | .leaf l :: rest => (increasing_placeAll f rest).consLeaf l
  | .node t :: rest =>
      (increasing_place f t).append (increasing_placeAll (place f t).forest rest)

end

/-- No node of a tree is documented twice. -/
theorem nodup_documented (t : Term) : (t.documented.map Prod.fst).Nodup :=
  (increasing_place .empty t).sorted.imp Nat.ne_of_lt

end Term
end Syntax

namespace Parsed

open Concrete (RunOf associate mem_associate_iff keys_associate_sublist lineOn commentLines
  runAbove)

/-- With one comment for each node, the order of the comments does not matter. -/
theorem comment?_eq_some_iff {p : Parsed} (hdistinct : (p.comments.map Prod.fst).Nodup) {i : Nat}
    {text : String} : p.comment? i = some text ↔ (i, text) ∈ p.comments := by
  unfold comment?
  rw [Option.map_eq_some_iff]
  constructor
  · rintro ⟨⟨j, text'⟩, hfind, rfl⟩
    have hkey : j = i := by simpa using List.find?_some hfind
    exact hkey ▸ List.mem_reverse.1 (List.mem_of_find?_eq_some hfind)
  · intro hmem
    have hfound : (p.comments.reverse.find? fun entry => entry.1 == i).isSome = true := by
      rw [List.find?_isSome]
      exact ⟨(i, text), List.mem_reverse.2 hmem, by simp⟩
    rcases Option.isSome_iff_exists.1 hfound with ⟨entry, hentry⟩
    have hkey : entry.1 = i := by simpa using List.find?_some hentry
    -- the comment that is found is the only one of the node
    have hsame : entry = (i, text) :=
      List.inj_on_of_nodup_map hdistinct
        (List.mem_reverse.1 (List.mem_of_find?_eq_some hentry)) hmem hkey
    exact ⟨entry, hentry, by rw [hsame]⟩

variable {lineAt : Nat → Option String} {documented : List (Nat × Nat)}

/-- A documented node has the run above its row for its comment. -/
theorem comment?_associate (hdistinct : (documented.map Prod.fst).Nodup) {node row : Nat}
    (hmem : (node, row) ∈ documented) (t : Syntax.Tree) :
    comment? ⟨t, associate lineAt documented⟩ node =
      if runAbove lineAt row = [] then none else some ("\n".intercalate (runAbove lineAt row)) := by
  have hkeys := (keys_associate_sublist lineAt documented).nodup hdistinct
  refine Option.ext fun text => ?_
  rw [comment?_eq_some_iff hkeys, mem_associate_iff]
  -- the node stands on one row only
  have hrow : ∀ row', (node, row') ∈ documented → row' = row := by
    intro row' hmem'
    exact congrArg Prod.snd (List.inj_on_of_nodup_map hdistinct hmem' hmem rfl)
  constructor
  · rintro ⟨row', hmem', hrun, rfl⟩
    rw [hrow row' hmem'] at hrun ⊢
    rw [if_neg hrun]
  · intro htext
    split at htext
    · cases htext
    · rename_i hrun
      cases htext
      exact ⟨row, hmem, hrun, rfl⟩

/-- A node that is not documented has no comment. -/
theorem comment?_associate_eq_none {node : Nat} (h : node ∉ documented.map Prod.fst)
    (t : Syntax.Tree) : comment? ⟨t, associate lineAt documented⟩ node = none := by
  unfold comment?
  rw [Option.map_eq_none_iff, List.find?_eq_none]
  intro entry hentry hkey
  have hmem : entry.1 ∈ (associate lineAt documented).map Prod.fst :=
    List.mem_map_of_mem (List.mem_reverse.1 hentry)
  rw [beq_iff_eq.1 hkey] at hmem
  exact h ((keys_associate_sublist lineAt documented).subset hmem)

/-- What a documented node has for its comment are the lines of the longest run of comment rows that
ends right above it, in the order of their rows; without such a row it has none, and neither has any
other node. -/
theorem associate_longest_run (lineAt : Nat → Option String) (documented : List (Nat × Nat))
    (hdistinct : (documented.map Prod.fst).Nodup) (t : Syntax.Tree) :
    ((associate lineAt documented).map Prod.fst).Nodup ∧
    (∀ node row, (node, row) ∈ documented →
      ∃ lines : List String, IsGreatest {k | RunOf lineAt row k} lines.length ∧
        (∀ i (hi : i < lines.length), lineAt (row - lines.length + i) = some lines[i]) ∧
        comment? ⟨t, associate lineAt documented⟩ node =
          if lines.length = 0 then none else some ("\n".intercalate lines)) ∧
    ∀ node, node ∉ documented.map Prod.fst →
      comment? ⟨t, associate lineAt documented⟩ node = none := by
  refine ⟨(keys_associate_sublist lineAt documented).nodup hdistinct, ?_,
    fun node hnode => comment?_associate_eq_none hnode t⟩
  intro node row hmem
  refine ⟨runAbove lineAt row, ?_, fun i hi => Concrete.getElem_runAbove hi, ?_⟩
  · rw [Concrete.length_runAbove]
    exact Concrete.isGreatest_linesUpward lineAt row
  · rw [comment?_associate hdistinct hmem t]
    simp only [List.length_eq_zero_iff]

/-- Comment lines at the top of a text and, behind a gap, above a declaration. -/
def commentedRows : List (Nat × String) :=
  [(0, "top"), (2, "first"), (3, "second")]

/-- The gap on row 1 ends the run above row 4, and above row 9 there is none. -/
theorem commentedRows_longest_run :
    let documented := [(7, 4), (8, 9), (10, 4)]
    let p : Parsed :=
      ⟨Syntax.Term.toTree ⟨.sequence, [], none, none⟩, associate (lineOn commentedRows) documented⟩
    (documented.map Prod.fst).Nodup ∧ p.comment? 7 = some "first\nsecond" ∧
      p.comment? 8 = none ∧ p.comment? 9 = none := by
  intro documented p
  have hdistinct : (documented.map Prod.fst).Nodup := by decide
  obtain ⟨-, hdocumented, hother⟩ :=
    associate_longest_run (lineOn commentedRows) documented hdistinct p.tree
  refine ⟨hdistinct, ?_, ?_, hother 9 (by decide)⟩
  · rcases hdocumented 7 4 (by decide) with ⟨lines, hgreatest, hlines, hcomment⟩
    have hlength : lines.length = 2 :=
      hgreatest.unique (Concrete.isGreatest_linesUpward (lineOn commentedRows) 4)
    rcases List.length_eq_two.1 hlength with ⟨first, second, rfl⟩
    have hfirst : "first" = first := Option.some.inj (hlines 0 Nat.zero_lt_two)
    have hsecond : "second" = second := Option.some.inj (hlines 1 Nat.one_lt_two)
    rw [hcomment, ← hfirst, ← hsecond]
    decide
  · rcases hdocumented 8 9 (by decide) with ⟨lines, hgreatest, -, hcomment⟩
    have hlength : lines.length = 0 :=
      hgreatest.unique (Concrete.isGreatest_linesUpward (lineOn commentedRows) 9)
    rw [hcomment, if_pos hlength]

/-! ## Comments of texts -/

/-- A node of a text that can be documented has the run of whole-line comments above it for its
comment. -/
theorem comment?_ofSource (s : Concrete.Source) (root : Concrete.Node) {t : Syntax.Tree}
    {documented : List (Nat × Nat)} (h : Lowering.treeOf? s root = some (t, documented))
    {node row : Nat} (hmem : (node, row) ∈ documented) :
    let run := runAbove (lineOn (commentLines s root)) row
    (ofSource s root).comment? node = if run = [] then none else some ("\n".intercalate run) := by
  rw [Lowering.treeOf?_eq] at h
  cases h
  have hparsed : ofSource s root =
      ⟨(ofSource s root).tree, associate (lineOn (commentLines s root))
        (Lowering.lowerProgram s root).documented⟩ := by
    rw [← comments_ofSource]
  rw [hparsed]
  exact comment?_associate (Syntax.Term.nodup_documented _) hmem _

end Parsed
end RubyIndex
