import RubyIndex.Proofs.Datum.Restated

/-!
# Shapes of data

What a reader looks for in data, whichever way they are given.  What does not count for readers of
a shape may be said in several manners: data may be restated, or a JSON value may be edited.  That a
record is read alike then follows for each of these manners from its shape.

* `Shape`, a scalar, a list, the fields of a record by name, or the sorts of a variant;
* `Idiom`, which data say the same for each shape, when this is told from their parts;
* `Idiom.respects_scalar`, `Idiom.respects_naturalBelow?`, `Idiom.respects_listOf?` and
  `Idiom.respects_record`, readers that do not tell such data apart;
* `Idiom.restated`, the idiom of restated data.
-/

namespace RubyIndex
namespace Datum

inductive Shape
  | scalar
  /-- A natural number, which may be given with or without a sign. -/
  | natural
  | listOf (item : Shape)
  /-- Fields in order, each with its name. -/
  | record (fields : List (String × Presence × Shape))
  /-- What stands in the only entry of a map, by the name of the entry. -/
  | variant (sorts : List (String × Shape))

/-- Fields, with what says the same in each of them. -/
def Shape.toFields (restating : Shape → Restating) (fields : List (String × Presence × Shape)) :
    List Field :=
  fields.map fun f => ⟨f.1, f.2.1, restating f.2.2⟩

/-! ## Idioms -/

/-- Data that say the same, for every shape.  The laws tell it from the parts of the data, so that a
reader that is put together as the shape is cannot tell these apart. -/
structure Idiom where
  restating : Shape → Restating
  eq_of_scalar : ∀ {d d' : Datum}, (restating .scalar).Holds d d' → d = d'
  sameNumber : ∀ {d d' : Datum}, (restating .natural).Holds d d' → SameNumber d d'
  sameItems : ∀ {item : Shape} {d d' : Datum}, (restating (.listOf item)).Holds d d' →
    SameItems (restating item) d d'
  sameFound : ∀ {fields : List (String × Presence × Shape)} {d d' : Datum},
    (fields.map Prod.fst).Nodup → (restating (.record fields)).Holds d d' →
    SameFound (Shape.toFields restating fields) d d'
  sameVariant : ∀ {sorts : List (String × Shape)} {d d' : Datum},
    (restating (.variant sorts)).Holds d d' →
    SameVariant (sorts.map fun s => (s.1, restating s.2)) d d'

namespace Idiom

variable (I : Idiom) {α : Type}

theorem respects_scalar (read : Datum → Option α) : Respects (I.restating .scalar) read := by
  intro d d' h
  rw [I.eq_of_scalar h]

theorem respects_naturalBelow? (bound : Nat) :
    Respects (I.restating .natural) (naturalBelow? bound) := by
  intro d d' h
  exact Datum.respects_naturalBelow? bound (I.sameNumber h)

theorem respects_listOf? {item : Shape} {read : Datum → Option α}
    (h : Respects (I.restating item) read) :
    Respects (I.restating (.listOf item)) (listOf? read) := by
  intro d d' hd
  exact Datum.respects_listOf? h (I.sameItems hd)

theorem respects_record {fields : List (String × Presence × Shape)} {names : List String}
    {body : Slots → Option α} (hfields : fields.map Prod.fst = names) (hnames : names.Nodup)
    (hbody : ∀ s s', SameSlots (Shape.toFields I.restating fields) s s' → body s' = body s) :
    Respects (I.restating (.record fields)) fun d => slots? names d >>= body := by
  intro d d' h
  refine (I.sameFound (hfields ▸ hnames) h).bind_slots? ?_ hbody
  rw [Shape.toFields, List.map_map]
  exact hfields

end Idiom

/-! ## Restated data -/

namespace Shape

mutual

/-- Data of this shape that say the same. -/
def restating : Shape → Restating
  | scalar => .same
  | natural => .natural
  | listOf item => .listOf item.restating
  | record fields => .record (restatingFields fields)
  | variant sorts => .variant (restatingSorts sorts)

def restatingFields : List (String × Presence × Shape) → List Field
  | [] => []
  | (name, presence, shape) :: fields =>
      ⟨name, presence, shape.restating⟩ :: restatingFields fields

def restatingSorts : List (String × Shape) → List (String × Restating)
  | [] => []
  | (name, shape) :: sorts => (name, shape.restating) :: restatingSorts sorts

end

theorem restatingFields_eq_toFields (fields : List (String × Presence × Shape)) :
    restatingFields fields = toFields restating fields := by
  induction fields with
  | nil => rfl
  | cons field fields ih => exact congrArg (_ :: ·) ih

theorem restatingSorts_eq_map (sorts : List (String × Shape)) :
    restatingSorts sorts = sorts.map fun s => (s.1, s.2.restating) := by
  induction sorts with
  | nil => rfl
  | cons sort sorts ih => simp [restatingSorts, ih]

end Shape

def Idiom.restated : Idiom where
  restating := Shape.restating
  eq_of_scalar h := h
  sameNumber h := h
  sameItems h := h
  sameFound := by
    intro fields d d' hnames h
    rw [← Shape.restatingFields_eq_toFields]
    refine slots?_restated h ?_
    simpa [Shape.restatingFields_eq_toFields, Shape.toFields, Function.comp_def] using hnames
  sameVariant := by
    intro sorts d d' h
    rw [← Shape.restatingSorts_eq_map]
    exact h

end Datum
end RubyIndex
