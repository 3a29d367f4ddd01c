import RubyIndex.Proofs.Name.Marker
import RubyIndex.Proofs.Store.Consistency

/-!
# Names as keys

A store keeps one definition under each qualified name, so whatever two definitions declare, the
later one takes the place of the earlier one if their names are equal.  As long as no marker stands
in the name of a constant or of the owner of a method, this happens only between definitions of one
entity: the same constant, or the same method of the same owner.

* `Entity`, what a definition declares, apart from all that it says about it;
* `Entity.qualifiedName_inj`, entities with plain names have distinct qualified names;
* `Store.find?_eq_of_undeclared`, what the definitions of other entities leave alone;
* `Store.overwrites_same_entity`, names and lookups together.
-/

namespace RubyIndex

/-! ## Entities -/

/-- A constant, module or class by its name, or a method by its kind, its owner and its name. -/
inductive Entity
  | ofConstant (name : String)
  | ofMethod (kind : MethodKind) (owner name : String)
  deriving DecidableEq, Repr

namespace Entity

def qualifiedName : Entity → String
  | ofConstant name => name
  | ofMethod kind owner name => kind.qualify owner name

/-- No marker stands in the name of a constant or of the owner of a method. -/
def Plain : Entity → Prop
  | ofConstant name => Name.Plain name
  | ofMethod _ owner _ => Name.Plain owner

instance : (entity : Entity) → Decidable entity.Plain
  | ofConstant name => inferInstanceAs (Decidable (Name.Plain name))
  | ofMethod _ owner _ => inferInstanceAs (Decidable (Name.Plain owner))

theorem qualifiedName_inj {a b : Entity} (ha : a.Plain) (hb : b.Plain)
    (h : a.qualifiedName = b.qualifiedName) : a = b := by
  cases a with
  | ofConstant name =>
      cases b with
      | ofConstant name' => exact congrArg ofConstant h
      | ofMethod kind owner name' =>
          -- the marker of the method would stand in the name of the constant
          have hname : name = kind.qualify owner name' := h
          exact absurd (hname ▸ ha) (kind.not_plain_qualify owner name')
  | ofMethod kind owner name =>
      cases b with
      | ofConstant name' =>
          have hname : name' = kind.qualify owner name := h.symm
          exact absurd (hname ▸ hb) (kind.not_plain_qualify owner name)
      | ofMethod kind' owner' name' =>
          rcases MethodKind.qualify_inj ha hb h with ⟨rfl, rfl, rfl⟩
          rfl

end Entity

namespace Definition

/-- What a definition declares. -/
def entity : Definition → Entity
  | ofConstant c => .ofConstant c.qualifiedName
  | ofModule m => .ofConstant m.constant.qualifiedName
  | ofClass c => .ofConstant c.base.constant.qualifiedName
  | ofMethod m => .ofMethod m.kind m.owner m.name

@[simp] theorem qualifiedName_entity (d : Definition) :
    d.entity.qualifiedName = d.qualifiedName := by
  cases d <;> rfl

/-- Two definitions with plain names have one key exactly if they declare one entity. -/
theorem qualifiedName_eq_iff {d e : Definition} (hd : d.entity.Plain) (he : e.entity.Plain) :
    d.qualifiedName = e.qualifiedName ↔ d.entity = e.entity := by
  rw [← qualifiedName_entity, ← qualifiedName_entity e]
  exact ⟨Entity.qualifiedName_inj hd he, congrArg Entity.qualifiedName⟩

end Definition

/-! ## Lookups -/

namespace Store

variable {d : Definition} {definitions : List Definition}

theorem find?_insert_entity (s : Store) {e : Definition} (hd : d.entity.Plain)
    (he : e.entity.Plain) :
    (s.insert e).find? d.qualifiedName =
      if e.entity = d.entity then some e else s.find? d.qualifiedName := by
  rw [find?_insert]
  simp only [Definition.qualifiedName_eq_iff hd he, eq_comm (a := d.entity)]

/-- Definitions of other entities do not bear the name of an entity. -/
theorem not_declared_of_other_entities (hd : d.entity.Plain)
    (hplain : ∀ e ∈ definitions, e.entity.Plain) (hother : ∀ e ∈ definitions, e.entity ≠ d.entity) :
    d.qualifiedName ∉ definitions.map Definition.qualifiedName := by
  intro hmem
  rcases List.mem_map.1 hmem with ⟨e, he, hname⟩
  exact hother e he ((Definition.qualifiedName_eq_iff (hplain e he) hd).1 hname)

/-- What is found under a plain name declares the entity of that name. -/
theorem entity_of_find? {s : Store} (hs : s.Consistent)
    (hplain : ∀ e ∈ s.definitions, e.entity.Plain) (hd : d.entity.Plain) {e : Definition}
    (h : s.find? d.qualifiedName = some e) : e.entity = d.entity := by
  have hstored : e ∈ s.definitions := mem_definitions_of_find? h
  exact (Definition.qualifiedName_eq_iff (hplain e hstored) hd).1 (hs.name_eq h)

/-- As long as no marker stands in the owner, a qualified name tells the owner, the name and the
kind of its method, and no method at all has a name without a marker, as constants have.  So a
definition that is added to a store takes the place of another one exactly if both declare the same
entity, definitions of other entities leave it where it is, and in every store that can arise a name
leads to the entity it stands for. -/
theorem overwrites_same_entity :
    (∀ (kind kind' : MethodKind) (owner owner' name name' : String),
      Name.Plain owner → Name.Plain owner' →
      kind.qualify owner name = kind'.qualify owner' name' →
        owner = owner' ∧ name = name' ∧ kind = kind') ∧
    (∀ (m : Method) (c : Definition), Name.Plain c.qualifiedName →
      m.qualifiedName ≠ c.qualifiedName) ∧
    (∀ (s : Store) (d e : Definition), d.entity.Plain → e.entity.Plain →
      (s.insert e).find? d.qualifiedName =
        if e.entity = d.entity then some e else s.find? d.qualifiedName) ∧
    (∀ (s : Store) (d : Definition) (definitions : List Definition), d.entity.Plain →
      (∀ e ∈ definitions, e.entity.Plain ∧ e.entity ≠ d.entity) →
        (s.addAll definitions).find? d.qualifiedName = s.find? d.qualifiedName ∧
        ∀ uri, (s.update uri definitions).find? d.qualifiedName =
          (s.removeUri uri).1.find? d.qualifiedName) ∧
    ∀ s : Store, s.Reachable → (∀ e ∈ s.definitions, e.entity.Plain) →
      ∀ d : Definition, d.entity.Plain → ∀ e, s.find? d.qualifiedName = some e →
        e.entity = d.entity := by
  refine ⟨?_, ?_, ?_, ?_, ?_⟩
  · intro kind kind' owner owner' name name' howner howner' h
    rcases MethodKind.qualify_inj howner howner' h with ⟨hkind, howners, hname⟩
    exact ⟨howners, hname, hkind⟩
  · intro m c hplain hname
    rw [← hname] at hplain
    exact m.kind.not_plain_qualify m.owner m.name hplain
  · intro s d e hd he
    exact s.find?_insert_entity hd he
  · intro s d definitions hd hother
    have hname : d.qualifiedName ∉ definitions.map Definition.qualifiedName :=
      not_declared_of_other_entities hd (fun e he => (hother e he).1) fun e he => (hother e he).2
    exact ⟨find?_addAll_of_not_declared hname s, find?_update_of_not_declared hname s⟩
  · intro s hs hplain d hd e he
    exact entity_of_find? hs.consistent hplain hd he

/-- Two methods of `A` whose own names hold the other one's marker, and the class itself. -/
def markedMethods : List Definition :=
  [.ofMethod ⟨.instanceMethod, "b.c", "A", [], [], none, none⟩,
    .ofMethod ⟨.singletonMethod, "b#c", "A", [], [], none, none⟩,
    .ofClass ⟨⟨⟨"A", none, none⟩, [], [], [], []⟩, none, none⟩]

/-- The methods do not take each other's place, and neither does the class. -/
theorem markedMethods_overwrite :
    let s : Store := addAll {} markedMethods
    let redefined : Definition := .ofMethod ⟨.singletonMethod, "b#c", "A", [], [], some "new", none⟩
    s.Reachable ∧ (∀ e ∈ s.definitions, e.entity.Plain) ∧ redefined.entity.Plain ∧
      MethodKind.qualify .instanceMethod "A" "b.c" ≠ MethodKind.qualify .singletonMethod "A" "b#c" ∧
      (∀ d ∈ markedMethods, (s.insert redefined).find? d.qualifiedName =
        if redefined.entity = d.entity then some redefined else s.find? d.qualifiedName) ∧
      (s.update "file:///a.rb" [redefined]).find? "A" =
        (s.removeUri "file:///a.rb").1.find? "A" ∧
      ∀ d ∈ markedMethods, ∀ e, s.find? d.qualifiedName = some e → e.entity = d.entity := by
  intro s redefined
  have hreachable : s.Reachable := .addAll .empty (by decide)
  have hplain : ∀ e ∈ s.definitions, e.entity.Plain := by decide
  have hredefined : redefined.entity.Plain := by decide
  have hmarked : ∀ d ∈ markedMethods, d.entity.Plain := by decide
  obtain ⟨hnames, -, hinsert, hother, hfound⟩ := overwrites_same_entity
  refine ⟨hreachable, hplain, hredefined, ?_, ?_, ?_, ?_⟩
  · intro hname
    have hkind := (hnames _ _ _ _ _ _ (by decide) (by decide) hname).2.2
    cases hkind
  · intro d hd
    exact hinsert s d redefined (hmarked d hd) hredefined
  · exact (hother s (.ofConstant ⟨"A", none, none⟩) [redefined] (by decide) (by decide)).2 _
  · intro d hd
    exact hfound s hreachable hplain d (hmarked d hd)

end Store
end RubyIndex
