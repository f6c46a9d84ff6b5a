import Javelin.Flow.Analyze
import Javelin.Proofs.Flow.Walks

/-!
# Classes inside bodies

A class that is declared in a body is walked apart from it. What is found inside does not depend on
the variables of the body (`class_ignores_body`): for a variable that the class captures, nobody
checks that it has a value where the class is declared. Nor does anybody check it where the class
reads the variable: inside, it is not tracked, and its reads report nothing
(`captured_read_silent`), while a read of a tracked variable without a value is reported
(`blank_read_reported`).
-/

namespace Javelin.Flow

/-- The analysis at another point of a body: other variables are tracked, and other statements are
around it. -/
def Analysis.elsewhere (a : Analysis) (slots : Std.HashMap Symbol Nat) (nextSlot : Nat)
    (frames : List Frame) : Analysis :=
  { a with slots, nextSlot, frames }

/-- The analysis before the members of a type are walked. -/
def Analysis.entering (a : Analysis) (t : TypeId) : Analysis :=
  { a with type := t, frames := [], slots := {}, nextSlot := 0 }

/-- The analysis after the members of a type are walked. -/
def Analysis.leaving (a inside : Analysis) : Analysis :=
  { a with reported := inside.reported, notes := inside.notes, rethrown := inside.rethrown }

theorem entering_slots (a : Analysis) (t : TypeId) (v : Symbol) :
    (a.entering t).slots[v]? = none :=
  Std.HashMap.getElem?_empty

theorem run_bind_ok {α β : Type} {m : Analyzer α} {f : α → Analyzer β} {a a' : Analysis}
    {w w' : World} {x : α} (h : m.run a w = .ok (x, a') w') :
    (m >>= f).run a w = (f x).run a' w' := by
  rw [StateT.run_bind]
  change EStateM.bind _ _ w = _
  unfold EStateM.bind
  rw [h]

section

variable [Answers] [Visitor]

/-- What the walk of a declaration does: its members are walked with no variables and no statements
around them. -/
theorem run_typeDeclRule (d : TypeDecl) (a : Analysis) (w : World) :
    (typeDeclRule d).run a w =
      if w.findings.aborted.contains d.info.id then .ok ((), a) w else
      let t := (w.typeOfDecl[d.info.id]?).getD (a.program.findings.localTypes.getD d.info.id .none)
      if t.isNone then .ok ((), a) w else
      match (memberBodies d).run (a.entering t) w with
      | .ok (_, a') w' => .ok ((), a.leaving a') w'
      | .error e w' => .error e w' := by
  have aborted : (isAborted d.info).run a w =
    .ok (w.findings.aborted.contains d.info.id, a) w := rfl
  have localType : (known (·.localTypes.getD d.info.id .none)).run a w =
    .ok (a.program.findings.localTypes.getD d.info.id .none, a) w := rfl
  have world : (getThe World : Analyzer World).run a w = .ok (w, a) w := rfl
  -- What is left once the type is known.
  have members : ∀ t : TypeId, (do
      let saved ← get
      set { saved with type := t, frames := [], slots := {}, nextSlot := 0 }
      memberBodies d
      modify fun a =>
        { saved with reported := a.reported, notes := a.notes, rethrown := a.rethrown } :
      Analyzer Unit).run a w =
        match (memberBodies d).run (a.entering t) w with
        | .ok (_, a') w' => .ok ((), a.leaving a') w'
        | .error e w' => .error e w' := by
    intro t
    change EStateM.bind ((memberBodies d).run (a.entering t)) _ w = _
    unfold EStateM.bind
    split
    · rename_i h'
      rw [h']
      rfl
    · rename_i h'
      rw [h']
  unfold typeDeclRule
  rw [run_bind_ok aborted]
  split
  · rfl
  · simp only [pure_bind]
    rw [run_bind_ok world]
    cases w.typeOfDecl[d.info.id]? with
    | some t =>
      simp only [Option.getD_some]
      split
      · rfl
      · exact members t
    | none =>
      simp only [Option.getD_none]
      rw [run_bind_ok localType]
      split
      · rfl
      · exact members _

end

/-- A class inside a body is walked the same wherever it stands: what is reported and found out
inside does not depend on the variables that are tracked in the body around it. -/
theorem class_ignores_body (n : Nat) (d : TypeDecl) (a : Analysis) (slots : Std.HashMap Symbol Nat)
    (nextSlot : Nat) (frames : List Frame) (w : World) :
    ((visitor n).typeDecl d).run (a.elsewhere slots nextSlot frames) w =
      match ((visitor n).typeDecl d).run a w with
      | .ok (_, a') w' => .ok ((), a'.elsewhere slots nextSlot frames) w'
      | .error e w' => .error e w' := by
  cases n with
  | zero => rfl
  | succ n =>
    let _ := visitor n
    change (typeDeclRule d).run _ w = match (typeDeclRule d).run a w with
      | .ok (_, a') w' => .ok ((), a'.elsewhere slots nextSlot frames) w'
      | .error e w' => .error e w'
    rw [run_typeDeclRule, run_typeDeclRule]
    have same : ∀ t, (a.elsewhere slots nextSlot frames).entering t = a.entering t := fun _ => rfl
    have program : (a.elsewhere slots nextSlot frames).program = a.program := rfl
    simp only [same, program]
    cases w.findings.aborted.contains d.info.id with
    | true => rfl
    | false =>
      simp only [Bool.false_eq_true, if_false]
      split
      · rfl
      · split <;> rfl

section

variable {a a' : Analysis} {name : Ident} {l : LocalId} {n : Nat} {s : Inits}

/-- Inside a class, a variable that the class does not declare itself is not tracked: wherever it is
read there and whatever has a value by then, the read is not checked. -/
theorem captured_read_silent {c : Concern} {D : List Symbol} {t : TypeId}
    (hg : Grows c D (a.entering t) a') (hl : Symbol.var l ∉ D)
    (hu : a'.program.findings.uses[name.info.id]? = some (.var l)) (s : Inits) (w : World) :
    Ran (read name s) a' w () a' w :=
  have untracked := hg.untracked (entering_slots a t (.var l)) hl
  Ran.knownBind hu (Ran.slotBind untracked (Ran.pure _ _ w))

/-- A read of a tracked variable that need not have a value is reported. -/
theorem blank_read_reported (hn : a.slots[Symbol.var l]? = some n) (hs : s.isAssigned n = false)
    (hu : a.program.findings.uses[name.info.id]? = some (.var l)) {u : Unit}
    (hw : Walks (read name s) a u a') :
    a' = { a with reported := .uninitializedLocal :: a.reported } := by
  have hw := walks_knownBind hw
  rw [hu] at hw
  have hw := walks_slotBind hw
  rw [hn] at hw
  simp only [hs] at hw
  exact walks_report hw

end

end Javelin.Flow
