import Javelin.Flow.Inits
import Javelin.Types.Basic

/-!
# What surrounds a statement

The bodies and statements around a point, from the inside outward. A jump walks outward to the
statement that it leaves or continues and leaves its state there; a thrown exception walks outward
to a handler.
-/

namespace Javelin.Flow

/-- The kinds of bodies. -/
inductive BodyKind where
  | method
  | constructor
  | instanceInit
  | staticInit
  | lambda
deriving DecidableEq, Inhabited, Repr

/-- One type of exception that a catch clause names, and whether something thrown in the body can
reach it. -/
structure Alternative where
  node : Info
  type : TypeId
  isUsed : Bool := false
deriving Inhabited

/-- A catch clause with the exceptions that it was seen to catch. -/
structure Handler where
  alternatives : List Alternative
  caught : List TypeId := []
deriving Inhabited

/-- One level of what surrounds a statement. -/
inductive Frame where
  /-- A body, with the exceptions that it may throw and the state at its returns. -/
  | body (throws : List TypeId) (throwsAny : Bool) (returns : Inits)
  /-- A loop with the labels directly before it. -/
  | loop (labels : List Text) (breaks continues : Inits)
  | switch (isExpression : Bool) (breaks yields : Inits)
  | labeled (label : Text) (breaks : Inits)
  | handlers (clauses : List Handler)
  /-- The parts of a try statement that its final block follows. A block that cannot complete
  absorbs what passes through it. -/
  | finally (block : Info) (completes : Bool) (stop : Inits)
deriving Inhabited

/-- What a jump looks for. -/
inductive Jump where
  | break (label : Option Text)
  | continue (label : Option Text)
  | yield
  | return
deriving DecidableEq, Inhabited

/-- Where a jump ends: the final blocks that it runs through, the innermost first, and the frames
with its state recorded at the target. -/
structure Landing where
  subroutines : List Info
  frames : List Frame
deriving Inhabited

namespace Landing

/-- The landing seen from one frame further in. -/
def under (f : Frame) (l : Landing) : Landing := { l with frames := f :: l.frames }

end Landing

/-- The landing of a jump from a state; nothing if there is no target. -/
def Jump.land (j : Jump) (s : Inits) : List Frame → Option Landing
  | [] => none
  | f :: rest =>
    match f, j with
    | .finally block completes stop, _ =>
      if completes then
        (j.land (s.andThen stop) rest).map fun l =>
          { (l.under f) with subroutines := block :: l.subroutines }
      else some ⟨[], f :: rest⟩
    | .body throws any returns, .return => some ⟨[], .body throws any (returns.merge s) :: rest⟩
    | .body .., _ => none
    | .loop labels breaks continues, .break none =>
      some ⟨[], .loop labels (breaks.merge s) continues :: rest⟩
    | .loop labels breaks continues, .continue label =>
      if label.all labels.contains then
        some ⟨[], .loop labels breaks (continues.merge s) :: rest⟩
      else (j.land s rest).map (.under f)
    | .switch true breaks yields, .yield => some ⟨[], .switch true breaks (yields.merge s) :: rest⟩
    | .switch true .., .break _ => none
    | .switch true .., .continue _ => none
    | .switch false breaks yields, .break none =>
      some ⟨[], .switch false (breaks.merge s) yields :: rest⟩
    | .labeled name breaks, .break (some label) =>
      if name == label then some ⟨[], .labeled name (breaks.merge s) :: rest⟩
      else (j.land s rest).map (.under f)
    | _, _ => (j.land s rest).map (.under f)

/-- Whether a label stands before a statement around this point, within the body. -/
def hasLabel (label : Text) : List Frame → Bool
  | [] => false
  | .body .. :: _ => false
  | .labeled name _ :: rest => name == label || hasLabel label rest
  | _ :: rest => hasLabel label rest

end Javelin.Flow
