import Javelin.Flow.Statements
import Javelin.Resolve.Declarations

/-!
# Bodies

Checks the bodies of all members of a type: fields and initializers in the order of the text, then
methods and constructors. A blank final field must have a value at the end of the initializers or of
every constructor.
-/

namespace Javelin.Flow

/-- Analyzes one member from a state. A member that was given up before is left out; one that is
given up now is marked, and the work around it goes on. -/
def guard (member : Info) (s : Inits) (work : Inits → Analyzer Inits) : Analyzer Inits := do
  if ← isAborted member then
    return s
  let a ← get
  fun _ w =>
    match (work s).run a w with
    | .ok r w => .ok r w
    | .error e w =>
      if e.level.rank ≤ AbortLevel.method.rank then
        let f := w.findings
        let f := { f with
          erroneous := f.erroneous.insert member.id, aborted := f.aborted.insert member.id }
        .ok (s, { a with member := none, frames := [] }) { w with findings := f }
      else .error e w

/-- Walks the body of a member in its own frame. -/
def inBody (member : Info) (kind : BodyKind) (throws : List TypeId) (throwsAny : Bool)
    (work : Analyzer Inits) : Analyzer (Inits × Inits) := do
  modify fun a => { a with member := some member.id, kind, frames := [] }
  let (stop, left) ← inFrame (.body throws throwsAny .dead) work
  let returns := match left with
    | .body _ _ returns => returns
    | _ => .dead
  return (stop, returns)

/-- Leaves the current member. -/
def leaveMember : Analyzer Unit := modify fun a => { a with member := none, frames := [] }

/-- Whether a body starts by calling another constructor. -/
def startsWithConstructorCall (b : Block) : Bool :=
  match b.stmts with
  | .constructorCall .. :: _ => true
  | _ => false

variable [Answers] [Visitor]

/-- The exceptions that every constructor of a class declares; initializers may throw them. -/
def constructorThrows (d : TypeDecl) : Analyzer (List TypeId) := do
  let mut common : Option (List TypeId) := none
  for m in d.members.filterMap Member.method? do
    if m.isConstructor then
      if let some id := (← getThe World).methodOfDecl[m.info.id]? then
        let throws := (← Lookup.methodEntry id).throws
        match common with
        | none => common := some throws
        | some ts => common := some (← ts.filterM (isCovered · throws))
  return common.getD []

/-- The state after the field initializers and initializer blocks of a class. -/
def initializers (d : TypeDecl) (isStatic : Bool) : Analyzer Inits := do
  let kind : BodyKind := if isStatic then .staticInit else .instanceInit
  let throws ← if isStatic || d.isAnonymous then pure [] else constructorThrows d
  let throwsAny := d.isAnonymous && !isStatic
  let mut s := Inits.start
  for m in d.members do
    match m with
    | .field f =>
      if hasModifier f.modifiers .static == isStatic || d.isInterface then
        for v in f.vars do
          if let some x := v.init then
            s ← guard v.info s fun s => do
              return (← inBody v.info kind throws throwsAny (Visitor.expr x s)).1
    | .initializer i static body =>
      if static == isStatic then
        s ← guard i s fun s => do return (← inBody i kind throws throwsAny (block body s)).1
    | _ => pure ()
  leaveMember
  return s

/-- Walks the arguments and the body of an enum constant. -/
def enumConstant (c : EnumConstant) : Analyzer Unit := do
  let _ ← guard c.info .start fun s => do
    let (stop, _) ← inBody c.info .staticInit [] false do
      let s ← exprs c.args s
      thrownByCall c.info c.info
      return s
    return stop
  leaveMember
  c.body.toList.forM Visitor.typeDecl

/-- Walks the body of a method or constructor; the state at its exits. -/
def methodBody (m : MethodDecl) (s : Inits) : Analyzer Inits := do
  match (← getThe World).methodOfDecl[m.info.id]?, m.body with
  | some id, some body =>
    let e ← Lookup.methodEntry id
    let kind : BodyKind := if e.isConstructor then .constructor else .method
    let owner := (← Lookup.shape (← get).type).declaredD.decl?
    let params := match m.isCompact, owner with
      | true, some d => d.components
      | _, _ => m.params
    let (stop, returns) ← inBody m.info kind e.throws false do
      let s ← params.foldlM (fun s p => bind p.name s) s
      if e.isConstructor && !startsWithConstructorCall body then
        thrownByCall m.info m.name.info
      let stop ← block body s
      if stop.isReachable && !e.isConstructor then
        unless ← isVoidResult e.result do
          report .missingReturn m.name.info [← Lookup.typeName e.result]
      return stop
    leaveMember
    return stop.merge returns
  | _, _ => return s

/-- Reports the blank finals without a value, at a constructor or else at the field. -/
def checkBlankFinals (stop : Inits) (fields : List (VarDeclarator × FieldId))
    (at_ : Option MethodDecl) : Analyzer Unit := do
  for (v, f) in fields do
    if let some n ← slot? (.field f) then
      unless stop.isAssigned n do
        match at_ with
        | some m =>
          modify fun a => { a with member := some m.info.id }
          report .uninitializedBlankFinal m.name.info [v.name.name]
          modify fun a => { a with member := none }
        | none => report .uninitializedBlankFinal v.name.info [v.name.name]

/-- The final fields of a class without initializers. -/
def blankFinalsOf (d : TypeDecl) : Analyzer (List (VarDeclarator × FieldId)) := do
  if d.isInterface then
    return []
  let vars := (d.members.filterMap Member.field?).flatMap fun f => f.vars
  vars.filterMapM fun v => do
    match v.init, (← getThe World).fieldOfDecl[v.info.id]? with
    | none, some f => return if (← Lookup.fieldEntry f).isFinal then some (v, f) else none
    | _, _ => return none

/-- Walks the members of a type. -/
def memberBodies (d : TypeDecl) : Analyzer Unit := do
  let blank ← blankFinalsOf d
  modify fun a => { a with blankFinals := blank.map Prod.snd }
  for (_, f) in blank do
    let _ ← track (.field f)
  let (statics, instances) ← blank.partitionM fun (_, f) =>
    return (← Lookup.fieldEntry f).isStatic
  d.constants.forM enumConstant
  checkBlankFinals (← initializers d true) statics none
  let start ← initializers d false
  let methods := d.members.filterMap Member.method?
  for m in methods do
    if m.isConstructor && m.body.isSome then
      let stop ← guard m.info start (methodBody m)
      unless d.isAnonymous do
        unless ← isAborted m.info do
          checkBlankFinals stop instances (some m)
    else
      let _ ← guard m.info .start (methodBody m)
  let hasConstructor := methods.any fun m => m.isConstructor && m.body.isSome
  unless hasConstructor || d.kind == .record do
    checkBlankFinals start instances none
  (d.members.filterMap Member.type?).forM Visitor.typeDecl

/-- Walks a type declaration. The variables of the body around it are not tracked inside, because
those that it captures never change. -/
def typeDeclRule (d : TypeDecl) : Analyzer Unit := do
  if ← isAborted d.info then
    return
  let t ← match (← getThe World).typeOfDecl[d.info.id]? with
    | some t => pure t
    | none => known (·.localTypes.getD d.info.id .none)
  if t.isNone then
    return
  let saved ← get
  set { saved with type := t, frames := [], slots := {}, nextSlot := 0 }
  memberBodies d
  modify fun a =>
    { saved with reported := a.reported, notes := a.notes, rethrown := a.rethrown }

end Flow

/-- The walk for trees of at most the given depth. -/
@[reducible]
def Flow.visitor : Nat → Flow.Visitor
  | 0 => ⟨fun _ s => return s, fun _ s => return s, fun _ _ s => return s, fun _ => return⟩
  | n + 1 =>
    letI := visitor n
    ⟨Flow.exprRule, Flow.conditionRule, Flow.stmtRule, Flow.typeDeclRule⟩

/-- Checks the bodies of a source file: what was found out about its nodes, and how many errors were
reported. -/
def Lookup.analyze (u : UnitId) : Lookup (Notes × Nat) := do
  let e ← unitEntry u
  let w ← get
  let visitor := Flow.visitor (w.nextNode + 1)
  let program := { findings := w.findings, fields := w.fields, locals := w.locals }
  let (_, a) ← (e.unit.types.forM visitor.typeDecl).run { unit := u, program }
  return (a.notes, a.errors)

end Javelin
