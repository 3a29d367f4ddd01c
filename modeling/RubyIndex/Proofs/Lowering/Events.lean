import RubyIndex.Lowering.Basic
import RubyIndex.Syntax.Term

/-!
# Events that concern local variables

Of all that happens while a text is lowered, the local variables notice four things: a name is
declared, a frame is opened or closed, and a name on its own is looked up.  This file is about
sequences of such events, wherever they come from.

* `Event`, `replay`, what events do to the frames, one after the other;
* `Shift`, `shift`, which frames a sequence of events has closed and opened on balance;
* `Declared`, `Known`, when a name was declared before and is still in sight;
* `isLocal_replay_iff`, the frames answer a look-up in exactly that way;
* `Balanced.frames_replay`, `Balanced.mem_locals_replay`, what balanced events do to the frames.
-/

namespace RubyIndex
namespace Lowering

/-- Something that the frames of local variables take part in. -/
inductive Event
  | declare (name : String)
  | enter (seesOuter : Bool)
  | leave
  /-- A name on its own, with its place in the text. -/
  | mention (name : String) (range : Range)
  deriving DecidableEq, Repr

/-- What an event does to the frames. -/
def Event.apply (scopes : Scopes) : Event → Scopes
  | .declare name => scopes.declare name
  | .enter seesOuter => scopes.push seesOuter
  | .leave => scopes.pop
  | .mention _ _ => scopes

/-- The frames after some events. -/
def replay (events : List Event) (scopes : Scopes) : Scopes :=
  events.foldl Event.apply scopes

section Run

variable (events rest : List Event) (scopes : Scopes)

@[simp] theorem replay_nil : replay [] scopes = scopes := rfl

@[simp] theorem replay_cons (e : Event) :
    replay (e :: rest) scopes = replay rest (e.apply scopes) := rfl

@[simp] theorem replay_append :
    replay (events ++ rest) scopes = replay rest (replay events scopes) :=
  List.foldl_append

end Run

/-! ## Shifts -/

/-- What events do to the number of frames: how many of those before them are closed, and which
have been opened and are still open, from the inside out, by whether they see the next one. -/
structure Shift where
  closed : Nat
  opened : List Bool
  deriving DecidableEq, Repr

namespace Shift

/-- The frames are those that they were. -/
def stay : Shift :=
  ⟨0, []⟩

/-- One shift after another: the second closes frames that the first has opened before any other. -/
def andThen (a b : Shift) : Shift :=
  ⟨a.closed + (b.closed - a.opened.length), b.opened ++ a.opened.drop b.closed⟩

@[simp] theorem stay_andThen (a : Shift) : stay.andThen a = a := by
  simp [stay, andThen]

@[simp] theorem andThen_stay (a : Shift) : a.andThen stay = a := by
  simp [stay, andThen]

theorem andThen_assoc (a b c : Shift) : (a.andThen b).andThen c = a.andThen (b.andThen c) := by
  simp only [andThen, List.length_append, List.length_drop, List.drop_append, List.drop_drop,
    List.append_assoc, mk.injEq, and_true]
  omega

end Shift

/-- The shift of one event. -/
def Event.shift : Event → Shift
  | .enter seesOuter => ⟨0, [seesOuter]⟩
  | .leave => ⟨1, []⟩
  | .declare _ | .mention _ _ => .stay

@[simp] theorem Event.shift_declare (name : String) : (Event.declare name).shift = .stay := rfl

@[simp] theorem Event.shift_mention (name : String) (range : Range) :
    (Event.mention name range).shift = .stay := rfl

/-- The shift of some events. -/
def shift (events : List Event) : Shift :=
  events.foldr (fun e later => e.shift.andThen later) .stay

@[simp] theorem shift_nil : shift [] = .stay := rfl

@[simp] theorem shift_cons (e : Event) (rest : List Event) :
    shift (e :: rest) = e.shift.andThen (shift rest) := rfl

@[simp] theorem shift_append (events rest : List Event) :
    shift (events ++ rest) = (shift events).andThen (shift rest) := by
  induction events with
  | nil => simp
  | cons e events ih => simp [ih, Shift.andThen_assoc]

/-- Events that end with the frames they began with. -/
def Balanced (events : List Event) : Prop :=
  shift events = .stay

namespace Balanced

variable {events rest : List Event}

theorem nil : Balanced [] := rfl

theorem append (hevents : Balanced events) (hrest : Balanced rest) : Balanced (events ++ rest) := by
  unfold Balanced at *
  simp [hevents, hrest]

/-- Events in a frame of their own. -/
theorem framed (h : Balanced events) (seesOuter : Bool) :
    Balanced (.enter seesOuter :: events ++ [.leave]) := by
  unfold Balanced at *
  simp [h, Event.shift, Shift.andThen, Shift.stay]

/-- At no time is a frame closed that was open from the start. -/
theorem closed_before (h : Balanced (events ++ rest)) : (shift events).closed = 0 := by
  have hsum : (shift events).closed + ((shift rest).closed - (shift events).opened.length) = 0 :=
    congrArg Shift.closed ((shift_append events rest).symm.trans h)
  omega

theorem closed_before_lt (h : Balanced (events ++ rest)) (scopes : Scopes) :
    (shift events).closed < scopes.frames.length := by
  simp [h.closed_before, Scopes.frames]

theorem closed_lt (h : Balanced events) (scopes : Scopes) :
    (shift events).closed < scopes.frames.length := by
  simp [show shift events = .stay from h, Shift.stay, Scopes.frames]

/-- When a frame is closed, one was opened before. -/
theorem opened_ne_nil (h : Balanced (events ++ .leave :: rest)) : (shift events).opened ≠ [] := by
  intro hnil
  have hleave : Balanced ((events ++ [.leave]) ++ rest) := by simpa using h
  have hclosed := hleave.closed_before
  simp [Event.shift, Shift.andThen, hnil] at hclosed

/-- Between two parts of balanced events, the first is balanced if the second is. -/
theorem left_iff_right (h : Balanced (events ++ rest)) : Balanced events ↔ Balanced rest := by
  have hsum : (shift events).andThen (shift rest) = .stay := (shift_append events rest).symm.trans h
  unfold Balanced
  constructor
  · intro hevents
    simpa [hevents] using hsum
  · intro hrest
    simpa [hrest] using hsum

end Balanced

/-! ## Names in frames -/

/-- Whether a name stands in the first frame, or in one that is reached by looking through the
frames before it; `through` tells which frames those may be, by whether they see outward. -/
def Sees (through : Bool → Bool) (name : String) (frames : List Frame) : Prop :=
  ∃ near frame far, frames = near ++ frame :: far ∧ name ∈ frame.locals ∧
    ∀ f ∈ near, through f.seesOuter = true

section Sees

variable {through : Bool → Bool} {name other : String} {scopes : Scopes}

@[simp] theorem not_sees_nil : ¬ Sees through name [] := by
  rintro ⟨near, frame, far, h, -⟩
  simp at h

theorem sees_cons {frame : Frame} {rest : List Frame} :
    Sees through name (frame :: rest) ↔
      name ∈ frame.locals ∨ (through frame.seesOuter = true ∧ Sees through name rest) := by
  constructor
  · rintro ⟨near, found, far, h, hname, hnear⟩
    cases near with
    | nil =>
        obtain ⟨rfl, -⟩ := List.cons.inj h
        exact Or.inl hname
    | cons first near =>
        obtain ⟨rfl, hrest⟩ := List.cons.inj h
        have hinner : ∀ f ∈ near, through f.seesOuter = true := fun f hf => hnear f (.tail _ hf)
        exact Or.inr ⟨hnear _ (.head _), near, found, far, hrest, hname, hinner⟩
  · rintro (hname | ⟨houter, near, found, far, rfl, hname, hnear⟩)
    · exact ⟨[], frame, rest, rfl, hname, by simp⟩
    · exact ⟨frame :: near, found, far, rfl, hname, by simpa using ⟨houter, hnear⟩⟩

/-- A look-up goes through the frames that see outward. -/
theorem visible_iff (frames : List Frame) :
    Scopes.visible name frames = true ↔ Sees id name frames := by
  induction frames with
  | nil => simp [Scopes.visible]
  | cons frame rest ih => simp [Scopes.visible, sees_cons, ih]

/-- With no frame to look through, only the innermost one counts. -/
theorem sees_none_iff : Sees (fun _ => false) name scopes.frames ↔ name ∈ scopes.inner.locals := by
  simp [Scopes.frames, sees_cons]

instance (frames : List Frame) : Decidable (Sees id name frames) :=
  decidable_of_iff _ (visible_iff frames)

@[simp] theorem seesOuter_declare :
    (scopes.declare other).inner.seesOuter = scopes.inner.seesOuter := by
  unfold Scopes.declare
  split <;> rfl

theorem sees_declare :
    Sees through name (scopes.declare other).frames ↔
      other = name ∨ Sees through name scopes.frames := by
  simp only [Scopes.frames, sees_cons, Scopes.mem_locals_declare, Scopes.outer_declare,
    seesOuter_declare, or_assoc, eq_comm]

theorem sees_push {seesOuter : Bool} :
    Sees through name (scopes.push seesOuter).frames ↔
      through seesOuter = true ∧ Sees through name scopes.frames := by
  simp [Scopes.push, Scopes.frames, sees_cons]

theorem frames_pop (h : 1 < scopes.frames.length) : scopes.pop.frames = scopes.frames.tail := by
  unfold Scopes.pop
  split
  · rename_i houter
    simp [Scopes.frames, houter] at h
  · rename_i frame rest houter
    simp [Scopes.frames, houter]

end Sees

/-! ## Names in sight -/

namespace Shift

/-- Whether the frame from before is open still, with none but certain frames opened since. -/
def Inward (through : Bool → Bool) (a : Shift) : Prop :=
  a.closed = 0 ∧ ∀ b ∈ a.opened, through b = true

/-- Whether a name is seen in frames from before, through those that were opened since. -/
def Sees (through : Bool → Bool) (a : Shift) (name : String) (frames : List Frame) : Prop :=
  (∀ b ∈ a.opened, through b = true) ∧ Lowering.Sees through name (frames.drop a.closed)

/-- With none opened since, the frame from before is the innermost one. -/
theorem inward_none_iff {a : Shift} : a.Inward (fun _ => false) ↔ a = stay := by
  obtain ⟨closed, opened⟩ := a
  simp [Inward, stay, List.eq_nil_iff_forall_not_mem]

instance (through : Bool → Bool) (a : Shift) : Decidable (a.Inward through) :=
  inferInstanceAs (Decidable (_ ∧ _))

instance (a : Shift) (name : String) (frames : List Frame) : Decidable (a.Sees id name frames) :=
  inferInstanceAs (Decidable (_ ∧ _))

end Shift

/-- Whether some event has declared a name in a frame that is open still and in sight. -/
def Declared (through : Bool → Bool) (name : String) (past : List Event) : Prop :=
  ∃ since, .declare name :: since <:+ past ∧ (shift since).Inward through

/-- Whether a name is known after some events, either from them or from before. -/
def Known (scopes : Scopes) (past : List Event) (name : String) : Prop :=
  Declared id name past ∨ (shift past).Sees id name scopes.frames

section Known

variable {through : Bool → Bool} {name : String} {scopes : Scopes} {events : List Event}

@[simp] theorem not_declared_nil : ¬ Declared through name [] := by
  rintro ⟨since, h, -⟩
  simp at h

theorem declared_cons {e : Event} :
    Declared through name (e :: events) ↔
      (e = .declare name ∧ (shift events).Inward through) ∨ Declared through name events := by
  simp only [Declared, List.suffix_cons_iff, List.cons.injEq]
  constructor
  · rintro ⟨since, ⟨rfl, rfl⟩ | hsuffix, hinward⟩
    · exact Or.inl ⟨rfl, hinward⟩
    · exact Or.inr ⟨since, hsuffix, hinward⟩
  · rintro (⟨rfl, hinward⟩ | ⟨since, hsuffix, hinward⟩)
    · exact ⟨events, Or.inl ⟨rfl, rfl⟩, hinward⟩
    · exact ⟨since, Or.inr hsuffix, hinward⟩

instance decidableDeclared (name : String) : ∀ past, Decidable (Declared id name past)
  | [] => isFalse not_declared_nil
  | _ :: past =>
      have := decidableDeclared name past
      decidable_of_iff _ declared_cons.symm

instance (scopes : Scopes) (past : List Event) (name : String) :
    Decidable (Known scopes past name) :=
  inferInstanceAs (Decidable (_ ∨ _))

/-- As long as events leave one of the frames before them, so do those after the first. -/
theorem closed_lt_apply {e : Event} {later : Shift}
    (hclosed : (e.shift.andThen later).closed < scopes.frames.length) :
    later.closed < (e.apply scopes).frames.length := by
  cases e with
  | mention other range => simpa [Event.shift, Event.apply] using hclosed
  | declare other => simpa [Event.shift, Event.apply, Scopes.frames] using hclosed
  | enter seesOuter =>
      simp only [Event.shift, Shift.andThen, List.length_singleton] at hclosed
      simp only [Event.apply, Scopes.push, Scopes.frames, List.length_cons] at hclosed ⊢
      omega
  | leave =>
      simp only [Event.shift, Shift.andThen, List.length_nil] at hclosed
      have hframes : 1 < scopes.frames.length := by omega
      simp only [Event.apply, frames_pop hframes, List.length_tail]
      omega

/-- One event before others: what they see is what it has declared, or what was there before. -/
theorem sees_apply {e : Event} {later : Shift}
    (hclosed : (e.shift.andThen later).closed < scopes.frames.length) :
    later.Sees through name (e.apply scopes).frames ↔
      (e = .declare name ∧ later.Inward through) ∨
        (e.shift.andThen later).Sees through name scopes.frames := by
  obtain ⟨closed, opened⟩ := later
  cases e with
  | mention other range =>
      simp [Event.apply, Event.shift]
  | declare other =>
      cases closed with
      | zero =>
          simp only [Shift.Sees, Shift.Inward, Event.apply, Event.shift, Shift.stay_andThen,
            List.drop_zero, sees_declare, Event.declare.injEq]
          grind
      | succ k =>
          -- the frame that the name was declared in is closed later
          simp [Shift.Sees, Shift.Inward, Event.apply, Event.shift, Scopes.frames]
  | enter seesOuter =>
      cases closed with
      | zero =>
          simp [Shift.Sees, Event.apply, Event.shift, Shift.andThen, sees_push, or_imp,
            forall_and, and_assoc]
      | succ k =>
          simp [Shift.Sees, Event.apply, Event.shift, Shift.andThen, Scopes.push, Scopes.frames]
  | leave =>
      have hframes : 1 < scopes.frames.length := by
        simp only [Event.shift, Shift.andThen] at hclosed
        omega
      simp [Shift.Sees, Event.apply, Event.shift, Shift.andThen, frames_pop hframes,
        Nat.add_comm]

/-- What is seen after some events. -/
theorem sees_replay (hclosed : (shift events).closed < scopes.frames.length) :
    Sees through name (replay events scopes).frames ↔
      Declared through name events ∨ (shift events).Sees through name scopes.frames := by
  -- along the events, each with the frames that those before it have left
  induction events generalizing scopes with
  | nil => simp [Shift.Sees, Shift.stay]
  | cons e events ih =>
      rw [shift_cons] at hclosed
      rw [replay_cons, ih (closed_lt_apply hclosed), sees_apply hclosed, declared_cons, shift_cons,
        or_left_comm, or_assoc]

/-- A look-up after some events. -/
theorem isLocal_replay_iff (hclosed : (shift events).closed < scopes.frames.length) :
    (replay events scopes).isLocal name = true ↔ Known scopes events name :=
  (visible_iff _).trans (sees_replay hclosed)

-- a block sees the name outside it, a method does not, and nothing comes out of either
example : Known .initial [.declare "x", .enter true] "x" ∧
    ¬ Known .initial [.declare "x", .enter false] "x" ∧
    ¬ Known .initial [.enter true, .declare "x", .leave] "x" := by decide

end Known

/-! ## Frames that are left -/

/-- Of some frames, those that a shift leaves have not changed, but for the names in the first. -/
def Shift.Leaves (a : Shift) (frames frames' : List Frame) : Prop :=
  ∃ new frame rest names, frames' = new ++ ⟨names, frame.seesOuter⟩ :: rest ∧
    new.length = a.opened.length ∧ frames.drop a.closed = frame :: rest

section Leaves

variable {scopes : Scopes} {events : List Event}

theorem leaves_apply {e : Event} {later : Shift} {frames : List Frame}
    (hclosed : (e.shift.andThen later).closed < scopes.frames.length)
    (h : later.Leaves (e.apply scopes).frames frames) :
    (e.shift.andThen later).Leaves scopes.frames frames := by
  obtain ⟨closed, opened⟩ := later
  obtain ⟨new, frame, rest, names, rfl, hnew, hrest⟩ := h
  cases e with
  | mention other range =>
      exact ⟨new, frame, rest, names, rfl, by simpa [Event.shift] using ⟨hnew, hrest⟩⟩
  | declare other =>
      cases closed with
      | zero =>
          obtain ⟨rfl, rfl⟩ := List.cons.inj hrest
          refine ⟨new, scopes.inner, scopes.outer, names, ?_, by simpa [Event.shift] using hnew,
            rfl⟩
          simp [Event.apply]
      | succ k =>
          have houter : scopes.frames.drop (k + 1) = frame :: rest := by
            simpa [Event.apply, Scopes.frames] using hrest
          exact ⟨new, frame, rest, names, rfl, by simpa [Event.shift] using ⟨hnew, houter⟩⟩
  | enter seesOuter =>
      cases closed with
      | zero =>
          -- the new frame is the last of those that were opened
          obtain ⟨rfl, rfl⟩ := List.cons.inj hrest
          refine ⟨new ++ [⟨names, seesOuter⟩], scopes.inner, scopes.outer, scopes.inner.locals,
            ?_, ?_, rfl⟩
          · simp [Event.apply, Scopes.push, Scopes.frames]
          · simpa [Event.shift, Shift.andThen] using hnew
      | succ k =>
          have hframes : scopes.frames.drop k = frame :: rest := hrest
          exact ⟨new, frame, rest, names, rfl,
            by simpa [Event.shift, Shift.andThen] using ⟨hnew, hframes⟩⟩
  | leave =>
      have hframes : 1 < scopes.frames.length := by
        simp only [Event.shift, Shift.andThen] at hclosed
        omega
      have htail : scopes.frames.drop (1 + closed) = frame :: rest := by
        simpa [Event.apply, frames_pop hframes, Nat.add_comm] using hrest
      exact ⟨new, frame, rest, names, rfl,
        by simpa [Event.shift, Shift.andThen] using ⟨hnew, htail⟩⟩

theorem leaves_replay (hclosed : (shift events).closed < scopes.frames.length) :
    (shift events).Leaves scopes.frames (replay events scopes).frames := by
  induction events generalizing scopes with
  | nil => exact ⟨[], scopes.inner, scopes.outer, scopes.inner.locals, rfl, rfl, rfl⟩
  | cons e events ih =>
      rw [shift_cons] at hclosed
      exact leaves_apply hclosed (ih (closed_lt_apply hclosed))

end Leaves

namespace Balanced

variable {events rest : List Event}

/-- Balanced events change nothing but the names in the innermost frame. -/
theorem frames_replay (h : Balanced events) (scopes : Scopes) :
    ∃ names, (replay events scopes).frames = ⟨names, scopes.inner.seesOuter⟩ :: scopes.outer := by
  have hclosed := h.closed_lt scopes
  obtain ⟨new, frame, rest, names, hreplay, hnew, hrest⟩ := leaves_replay hclosed
  rw [h] at hnew hrest
  obtain rfl : new = [] := List.eq_nil_of_length_eq_zero hnew
  obtain ⟨rfl, rfl⟩ := List.cons.inj hrest
  exact ⟨names, hreplay⟩

/-- The innermost frame gains the names that are declared while it is the innermost one. -/
theorem mem_locals_replay (h : Balanced events) (scopes : Scopes) (name : String) :
    name ∈ (replay events scopes).inner.locals ↔
      name ∈ scopes.inner.locals ∨
        ∃ before, before ++ [.declare name] <+: events ∧ Balanced before := by
  have hclosed := h.closed_lt scopes
  -- only what is declared with balanced events since is in the innermost frame at the end
  rw [← sees_none_iff, sees_replay hclosed, h, or_comm]
  refine or_congr ?_ ?_
  · simp [Shift.Sees, Shift.stay, sees_none_iff]
  · constructor
    · rintro ⟨since, ⟨before, rfl⟩, hinward⟩
      have hsince : Balanced (.declare name :: since) := by
        simpa [Balanced] using Shift.inward_none_iff.1 hinward
      exact ⟨before, ⟨since, by simp⟩, h.left_iff_right.2 hsince⟩
    · rintro ⟨before, ⟨since, rfl⟩, hbefore⟩
      rw [List.append_assoc] at h
      have hsince : shift since = .stay := by
        simpa [Balanced] using h.left_iff_right.1 hbefore
      exact ⟨since, ⟨before, by simp⟩, Shift.inward_none_iff.2 hsince⟩

/-- A frame is closed only when there is another. -/
theorem outer_replay_ne_nil (h : Balanced (events ++ .leave :: rest)) (scopes : Scopes) :
    (replay events scopes).outer ≠ [] := by
  obtain ⟨new, frame, far, names, hreplay, hnew, -⟩ :=
    leaves_replay (h.closed_before_lt scopes)
  have hopened := List.length_pos_iff.2 h.opened_ne_nil
  intro houter
  have hlength := congrArg List.length hreplay
  simp [Scopes.frames, houter] at hlength
  omega

end Balanced

/-! ## Look-ups -/

/-- A name on its own, with what has happened before. -/
structure Mention where
  past : List Event
  name : String
  range : Range

/-- The names on their own among events that follow others. -/
def mentionsAfter (past : List Event) : List Event → List Mention
  | [] => []
  | .mention name range :: rest =>
      ⟨past, name, range⟩ :: mentionsAfter (past ++ [.mention name range]) rest
  | e :: rest => mentionsAfter (past ++ [e]) rest

/-- The names on their own among some events. -/
def mentions (events : List Event) : List Mention :=
  mentionsAfter [] events

/-- A name on its own is mentioned with what comes before it. -/
theorem mem_mentionsAfter (name : String) (range : Range) (later : List Event) :
    ∀ past events, ⟨past ++ events, name, range⟩ ∈
      mentionsAfter past (events ++ .mention name range :: later)
  | past, [] => by simp [mentionsAfter]
  | past, e :: events => by
      have hrest := mem_mentionsAfter name range later (past ++ [e]) events
      rw [List.append_assoc, List.singleton_append] at hrest
      rw [List.cons_append]
      cases e with
      | mention => exact List.mem_cons_of_mem _ hrest
      | declare | enter | leave => exact hrest

/-- The term of a local variable. -/
def localVar (name : String) (range : Range) : Syntax.Term :=
  ⟨.localVar, [symbol name], some range, none⟩

/-- The local variable that an event comes to, if it is a look-up that finds one. -/
def Event.found (scopes : Scopes) : Event → List Syntax.Term
  | .mention name range => if scopes.isLocal name then [localVar name range] else []
  | _ => []

/-- The local variables that the look-ups among some events find. -/
def found : List Event → Scopes → List Syntax.Term
  | [], _ => []
  | e :: rest, scopes => e.found scopes ++ found rest (e.apply scopes)

section Found

variable (events rest : List Event) (scopes : Scopes)

@[simp] theorem found_nil : found [] scopes = [] := rfl

@[simp] theorem found_append :
    found (events ++ rest) scopes = found events scopes ++ found rest (replay events scopes) := by
  induction events generalizing scopes with
  | nil => rfl
  | cons e events ih => simp [found, ih]

/-- The look-ups that find a local variable are those of known names. -/
theorem found_replay_eq (past : List Event) (h : Balanced (past ++ events)) :
    found events (replay past scopes) =
      ((mentionsAfter past events).filter fun m => Known scopes m.past m.name).map
        fun m => localVar m.name m.range := by
  -- along the events, each of which becomes part of the past
  induction events generalizing past with
  | nil => rfl
  | cons e events ih =>
      have hnext : Balanced ((past ++ [e]) ++ events) := by simpa using h
      have hlater := ih (past ++ [e]) hnext
      rw [replay_append, replay_cons, replay_nil] at hlater
      rw [found, hlater]
      cases e with
      | declare name => simp [Event.found, mentionsAfter]
      | enter seesOuter => simp [Event.found, mentionsAfter]
      | leave => simp [Event.found, mentionsAfter]
      | mention name range =>
          have hlocal : (replay past scopes).isLocal name = true ↔ Known scopes past name :=
            isLocal_replay_iff (h.closed_before_lt scopes)
          by_cases hknown : Known scopes past name
          · simp [Event.found, mentionsAfter, hlocal.2 hknown, hknown]
          · have hfalse : (replay past scopes).isLocal name ≠ true := fun h => hknown (hlocal.1 h)
            simp [Event.found, mentionsAfter, hfalse, hknown]

end Found

end Lowering
end RubyIndex
