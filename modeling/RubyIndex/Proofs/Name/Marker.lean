import RubyIndex.Name

/-!
# Markers in names

The name of a method is set off from its owner by a marker, `#` or `.`, and may hold markers itself.
As long as the owner holds none, the first marker of a qualified name is the one that was put there.

* `Name.Plain`, the names without a marker;
* `MethodKind.qualify_inj`, a qualified name tells the kind, the owner and the name of its method;
* `MethodKind.not_plain_qualify`, and is not plain itself.
-/

namespace RubyIndex
namespace Name

/-- Neither of the characters that set off the name of a method occurs. -/
def Plain (name : String) : Prop :=
  '#' ∉ name.toList ∧ '.' ∉ name.toList

instance (name : String) : Decidable (Plain name) :=
  inferInstanceAs (Decidable (_ ∧ _))

theorem Plain.marker_notMem {name : String} (h : Plain name) (kind : MethodKind) :
    kind.marker ∉ name.toList := by
  cases kind with
  | instanceMethod => exact h.1
  | singletonMethod => exact h.2

end Name

namespace MethodKind

theorem marker_inj {kind kind' : MethodKind} (h : kind.marker = kind'.marker) : kind = kind' := by
  cases kind <;> cases kind' <;> simp_all [marker]

theorem toList_qualify (kind : MethodKind) (owner name : String) :
    (kind.qualify owner name).toList = owner.toList ++ kind.marker :: name.toList := by
  simp [qualify]

/-- A list can be cut in one way only at a mark that does not occur before. -/
theorem cut_inj {α : Type} {mark mark' : α} {before before' after after' : List α}
    (h : mark' ∉ before) (h' : mark ∉ before')
    (heq : before ++ mark :: after = before' ++ mark' :: after') :
    before = before' ∧ mark = mark' ∧ after = after' := by
  induction before generalizing before' with
  | nil =>
      cases before' with
      | nil => simpa using heq
      | cons x rest' =>
          have hx : mark = x := (List.cons.inj heq).1
          exact absurd (hx ▸ List.mem_cons_self) h'
  | cons x rest ih =>
      cases before' with
      | nil =>
          have hx : x = mark' := (List.cons.inj heq).1
          exact absurd (hx ▸ List.mem_cons_self) h
      | cons x' rest' =>
          rcases List.cons.inj heq with ⟨hx, hrest⟩
          have hcut := ih (List.not_mem_of_not_mem_cons h) (List.not_mem_of_not_mem_cons h') hrest
          exact ⟨by rw [hx, hcut.1], hcut.2⟩

/-- Behind plain owners, a qualified name tells the kind, the owner and the name of the method. -/
theorem qualify_inj {kind kind' : MethodKind} {owner owner' name name' : String}
    (howner : Name.Plain owner) (howner' : Name.Plain owner')
    (h : kind.qualify owner name = kind'.qualify owner' name') :
    kind = kind' ∧ owner = owner' ∧ name = name' := by
  have hlist := congrArg String.toList h
  rw [toList_qualify, toList_qualify] at hlist
  rcases cut_inj (howner.marker_notMem kind') (howner'.marker_notMem kind) hlist with
    ⟨howners, hmarkers, hnames⟩
  exact ⟨marker_inj hmarkers, String.toList_inj.1 howners, String.toList_inj.1 hnames⟩

/-- No constant has the name of a method. -/
theorem not_plain_qualify (kind : MethodKind) (owner name : String) :
    ¬ Name.Plain (kind.qualify owner name) := by
  intro hplain
  refine hplain.marker_notMem kind ?_
  rw [toList_qualify]
  exact List.mem_append_right _ List.mem_cons_self

end MethodKind

end RubyIndex
