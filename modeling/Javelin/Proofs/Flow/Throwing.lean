import Javelin.Flow.Exceptions
import Javelin.Proofs.Flow.Frames

/-!
# Exceptions and the frames around them

`Exceptions` is what a program says about exceptions: how their classes are ordered, what methods
declare, and which variables are parameters of catch clauses. An exception is accounted for in
frames (`Exceptions.Accounted`) if the clause that catches it knows of it, or the body that it
leaves declares it. What happens to frames later keeps it so (`Accounted.gain`).
-/

namespace Javelin.Flow

/-! ## Classes of exceptions -/

/-- What a program says about exceptions. -/
structure Exceptions where
  /-- The classes that exist and were found. -/
  isKnown : TypeId → Prop
  isSub : TypeId → TypeId → Bool
  exception : TypeId
  runtimeException : TypeId
  error : TypeId
  /-- The exceptions that a method declares. -/
  throws : MethodId → List TypeId
  /-- The types whose values can be closed. -/
  isResource : TypeId → Prop
  /-- The exceptions that closing a value of a type declares. -/
  closing : TypeId → List TypeId
  localType : LocalId → TypeId
  /-- Whether a local variable never changes. -/
  isFixed : LocalId → Bool
  /-- The variables that catch clauses declare. -/
  isParam : LocalId → Prop

namespace Exceptions

/-- The classes are ordered, and the superclasses of a class lie in a chain. What is declared is
known. -/
structure Lawful (X : Exceptions) : Prop where
  trans : ∀ s t u, X.isSub s t → X.isSub t u → X.isSub s u
  chain : ∀ s t u, X.isSub s t → X.isSub s u → X.isSub t u ∨ X.isSub u t
  isSome : ∀ t, X.isKnown t → t.isSome
  resource : ∀ t, X.isResource t → t.isSome
  exception : X.isKnown X.exception
  runtimeException : X.isKnown X.runtimeException
  error : X.isKnown X.error
  throws : ∀ m, ∀ t ∈ X.throws m, X.isKnown t
  closing : ∀ t, ∀ u ∈ X.closing t, X.isKnown u

variable (X : Exceptions)

/-- Whether an exception must be caught or declared. -/
def isChecked (e : TypeId) : Bool := !X.isSub e X.runtimeException && !X.isSub e X.error

/-- Whether an exception is one of some types. -/
def isOneOf (e : TypeId) (ts : List TypeId) : Bool := ts.any (X.isSub e)

variable {X} {e s t u : TypeId} {ts us : List TypeId}

theorem isOneOf_iff : X.isOneOf e ts ↔ ∃ t ∈ ts, X.isSub e t := by simp [isOneOf]

theorem isOneOf_mono (h : X.isOneOf e ts) (hts : ∀ t ∈ ts, t ∈ us) : X.isOneOf e us := by
  obtain ⟨t, ht, he⟩ := isOneOf_iff.1 h
  exact isOneOf_iff.2 ⟨t, hts t ht, he⟩

theorem isOneOf_trans (hX : X.Lawful) (he : X.isSub e t) (ht : X.isOneOf t ts) : X.isOneOf e ts := by
  obtain ⟨u, hu, htu⟩ := isOneOf_iff.1 ht
  exact isOneOf_iff.2 ⟨u, hu, hX.trans e t u he htu⟩

/-- A superclass of a checked exception is checked. -/
theorem isChecked_of_sub (hX : X.Lawful) (hc : X.isChecked e) (he : X.isSub e t) :
    X.isChecked t := by
  simp only [isChecked, Bool.and_eq_true, Bool.not_eq_true'] at hc ⊢
  constructor
  · by_contra h
    simp [hX.trans e t _ he (by simpa using h)] at hc
  · by_contra h
    simp [hX.trans e t _ he (by simpa using h)] at hc

end Exceptions

/-! ## Handlers -/

/-- The types that a clause names. -/
def Handler.types (h : Handler) : List TypeId := h.alternatives.map Alternative.type

/-- The handlers of a frame. -/
def Frame.clauses : Frame → List Handler
  | .handlers hs => hs
  | _ => []

/-- What may happen to a handler: it is seen to catch more. -/
structure Handler.Gains (h h' : Handler) : Prop where
  types : h'.types = h.types
  caught : ∀ t ∈ h.caught, t ∈ h'.caught

/-- What may happen to a frame while the walk is inside it, its handlers included. -/
structure Frame.Gains (f g : Frame) : Prop where
  weakens : f.Weakens g
  clauses : List.Forall₂ Handler.Gains f.clauses g.clauses

theorem Handler.Gains.refl (h : Handler) : h.Gains h := ⟨rfl, fun _ ht => ht⟩

theorem Handler.Gains.trans {h h' h'' : Handler} (hg : h.Gains h') (hg' : h'.Gains h'') :
    h.Gains h'' :=
  ⟨hg'.types.trans hg.types, fun t ht => hg'.caught t (hg.caught t ht)⟩

theorem Frame.Gains.refl (f : Frame) : f.Gains f :=
  ⟨.refl f, List.forall₂_same.2 fun h _ => .refl h⟩

theorem forall₂_trans {α : Type} {R : α → α → Prop} (hR : ∀ x y z, R x y → R y z → R x z)
    {xs ys zs : List α} (h : List.Forall₂ R xs ys) (h' : List.Forall₂ R ys zs) :
    List.Forall₂ R xs zs := by
  induction h generalizing zs with
  | nil => exact h'
  | cons hf _ ih =>
    cases h' with
    | cons hg hgs => exact .cons (hR _ _ _ hf hg) (ih hgs)

theorem Frame.Gains.trans {f g h : Frame} (hf : f.Gains g) (hg : g.Gains h) : f.Gains h :=
  ⟨hf.weakens.trans hg.weakens, forall₂_trans (R := Handler.Gains) (fun _ _ _ => .trans) hf.clauses hg.clauses⟩

/-- What may happen to all frames around a point, their handlers included. -/
abbrev FramesGain : List Frame → List Frame → Prop := List.Forall₂ Frame.Gains

theorem FramesGain.refl (fs : List Frame) : FramesGain fs fs :=
  List.forall₂_same.2 fun f _ => .refl f

theorem FramesGain.trans {fs gs hs : List Frame} (h : FramesGain fs gs) (h' : FramesGain gs hs) :
    FramesGain fs hs :=
  forall₂_trans (R := Frame.Gains) (fun _ _ _ => .trans) h h'

theorem FramesGain.weaken {fs gs : List Frame} (h : FramesGain fs gs) : FramesWeaken fs gs :=
  h.imp fun _ _ hg => hg.weakens

/-! ## Accounting -/

namespace Exceptions

variable (X : Exceptions)

/-- The handler that catches an exception, the first that names one of its classes. -/
def handlerFor (hs : List Handler) (e : TypeId) : Option Handler :=
  hs.find? fun h => X.isOneOf e h.types

/-- Whether frames know of an exception that is thrown inside them. A final block that cannot
complete ends it. -/
def Accounted (e : TypeId) : List Frame → Prop
  | [] => True
  | .body throws any _ :: _ => any ∨ X.isOneOf e throws
  | .handlers hs :: rest =>
    match X.handlerFor hs e with
    | some h => X.isOneOf e h.caught
    | none => Accounted e rest
  | .finally _ completes _ :: rest => completes → Accounted e rest
  | _ :: rest => Accounted e rest

variable {X} {e : TypeId}

theorem handlerFor_cons_pos {h : Handler} {hs : List Handler} (he : X.isOneOf e h.types) :
    X.handlerFor (h :: hs) e = some h := by
  simp [handlerFor, he]

theorem handlerFor_cons_neg {h : Handler} {hs : List Handler} (he : ¬ X.isOneOf e h.types) :
    X.handlerFor (h :: hs) e = X.handlerFor hs e := by
  simp [handlerFor, he]

/-- The same handler catches an exception later. -/
theorem handlerFor_gain {hs hs' : List Handler} (h : List.Forall₂ Handler.Gains hs hs') :
    Option.Rel Handler.Gains (X.handlerFor hs e) (X.handlerFor hs' e) := by
  induction h with
  | nil => exact .none
  | @cons x y _ _ hxy _ ih =>
    by_cases he : X.isOneOf e x.types
    · rw [handlerFor_cons_pos he, handlerFor_cons_pos (hxy.types ▸ he)]
      exact .some hxy
    · rw [handlerFor_cons_neg he, handlerFor_cons_neg (hxy.types ▸ he)]
      exact ih

theorem Accounted.gain {fs gs : List Frame} (h : X.Accounted e fs) (hg : FramesGain fs gs) :
    X.Accounted e gs := by
  induction hg with
  | nil => exact h
  | @cons f g _ _ hf _ ih =>
    obtain ⟨hw, hc⟩ := hf
    cases hw with
    | body => exact h
    | @handlers hs hs' =>
      simp only [Accounted] at h ⊢
      have same : Option.Rel _ (X.handlerFor hs e) (X.handlerFor hs' e) := handlerFor_gain hc
      generalize X.handlerFor hs e = x at same h
      generalize X.handlerFor hs' e = y at same
      cases same with
      | none => exact ih h
      | some hxy => exact isOneOf_mono h hxy.caught
    | «finally» => exact fun hc => ih (h hc)
    | loop | switch | labeled => exact ih h

/-! ## Known frames -/

/-- A handler that speaks of known classes only. -/
structure KnownHandler (X : Exceptions) (h : Handler) : Prop where
  types : ∀ t ∈ h.types, X.isKnown t
  caught : ∀ t ∈ h.caught, X.isKnown t

/-- A frame that speaks of known classes only. -/
def KnownFrame (X : Exceptions) : Frame → Prop
  | .body throws _ _ => ∀ t ∈ throws, X.isKnown t
  | .handlers hs => ∀ h ∈ hs, X.KnownHandler h
  | _ => True

/-- A frame in which other states were recorded is as known as before. -/
theorem KnownFrame.weaken {f g : Frame} (h : X.KnownFrame f) (hw : f.Weakens g)
    (hc : g.clauses = f.clauses) : X.KnownFrame g := by
  cases hw with
  | handlers =>
    simp only [Frame.clauses] at hc
    subst hc
    exact h
  | _ => exact h

end Exceptions

/-! ## Jumps -/

/-- A jump leaves handlers alone. -/
theorem clauses_of_land {j : Jump} {s : Inits} {fs : List Frame} {l : Landing}
    (h : j.land s fs = some l) : List.Forall₂ (fun f g => g.clauses = f.clauses) fs l.frames := by
  have same : ∀ fs : List Frame, List.Forall₂ (fun f g => g.clauses = f.clauses) fs fs :=
    fun fs => List.forall₂_same.2 fun _ _ => rfl
  fun_induction Jump.land j s fs generalizing l
  all_goals
    subst_vars
    first
    | obtain rfl := Option.some.inj h
      exact .cons rfl (same _)
    | rename_i ih
      obtain ⟨l', hl', rfl⟩ := Option.map_eq_some_iff.1 h
      exact .cons rfl (ih hl')
    | cases h

end Javelin.Flow
