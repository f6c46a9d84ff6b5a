import Javelin.Flow.Basic
import Javelin.Types.Overload

/-!
# Exceptions

An exception that is thrown walks outward to the first handler that catches every exception of its
type. A checked exception must be caught or declared.
-/

namespace Javelin.Flow

variable [Answers]

/-- Whether a type of exception must be caught or declared. -/
def isChecked (t : TypeId) : Analyzer Bool := do
  let s ← Lookup.shape t
  if s.isAbsent || s.isMissing then
    return false
  if ← Lookup.isSubtype t (← Lookup.wellKnown "java.lang.RuntimeException") then
    return false
  return !(← Lookup.isSubtype t (← Lookup.wellKnown "java.lang.Error"))

/-- Whether a type is a subtype of one of the declared types. -/
def isCovered (t : TypeId) (declared : List TypeId) : Analyzer Bool :=
  Lookup.anyM (Lookup.isSubtype t) declared

/-- Adds a type that is not there yet. -/
def insertType (t : TypeId) (ts : List TypeId) : List TypeId :=
  if ts.contains t then ts else ts ++ [t]

/-- Offers an exception to the alternatives of a clause; whether one catches all of its type. -/
def offerAlternatives (t : TypeId) (caught : List TypeId) :
    List Alternative → Analyzer (List Alternative × List TypeId × Bool)
  | [] => return ([], caught, false)
  | a :: rest => do
    if ← Lookup.isSubtype t a.type then
      return ({ a with isUsed := true } :: rest, insertType t caught, true)
    let (a, caught) ←
      if ← Lookup.isSubtype a.type t then
        pure ({ a with isUsed := true }, insertType a.type caught)
      else pure (a, caught)
    let (rest, caught, done) ← offerAlternatives t caught rest
    return (a :: rest, caught, done)

/-- Offers an exception to clauses in order; whether one catches all of its type. -/
def offer (t : TypeId) : List Handler → Analyzer (List Handler × Bool)
  | [] => return ([], false)
  | h :: rest => do
    let (as, caught, done) ← offerAlternatives t h.caught h.alternatives
    let h := { h with alternatives := as, caught := caught }
    if done then
      return (h :: rest, true)
    let (rest, done) ← offer t rest
    return (h :: rest, done)

/-- Walks outward with an exception; whether it leaves the body without being declared. -/
def escape (t : TypeId) : List Frame → Analyzer (List Frame × Bool)
  | [] => return ([], false)
  | f :: rest => do
    match f with
    | .handlers clauses =>
      let (clauses, done) ← offer t clauses
      if done then
        return (.handlers clauses :: rest, false)
      let (rest, unhandled) ← escape t rest
      return (.handlers clauses :: rest, unhandled)
    | .finally _ false _ => return (f :: rest, false)
    | .body throws any _ =>
      if any then
        return (f :: rest, false)
      if !(← isChecked t) then
        return (f :: rest, false)
      return (f :: rest, !(← isCovered t throws))
    | _ =>
      let (rest, unhandled) ← escape t rest
      return (f :: rest, unhandled)

/-- Notes that an exception is thrown at a node. -/
def thrown (at_ : Info) (t : TypeId) : Analyzer Unit := do
  if t.isNone then
    return
  let (frames, unhandled) ← escape t (← get).frames
  modify fun s => { s with frames }
  if unhandled then
    report .unhandledException at_ [← Lookup.typeName t]

/-- Notes the exceptions that a method declares. -/
def thrownBy (at_ : Info) (m : MethodId) : Analyzer Unit := do
  (← Lookup.methodEntry m).throws.forM (thrown at_)

/-- Notes the exceptions of the method that is called at a node. -/
def thrownByCall (key at_ : Info) : Analyzer Unit := do
  if let some m ← known (·.methods[key.id]?) then
    thrownBy at_ m

/-- The exceptions that a throw statement throws. A catch parameter that never changes stands for
what its clause catches. -/
def thrownTypes (x : Expr) : Analyzer (List TypeId) := do
  if let .name _ n := x.withoutParens then
    if let some (.var l) ← known (·.uses[n.info.id]?) then
      if let some caught := (← get).rethrown[l]? then
        let e ← Lookup.localEntry l
        if e.isEffectivelyFinal || e.isFinal then
          return caught
  let t ← known (·.typeOf x.info)
  return if t.isSome then [t] else []

/-- The alternatives of a catch clause. -/
def handlerOf (c : CatchClause) : Analyzer Handler := do
  let nodes := match c.param.type with
    | some (.union _ alternatives) => alternatives
    | some n => [n]
    | none => []
  let alternatives ← nodes.filterMapM fun n => do
    let t ← known (·.typeRefs.getD n.info.id .none)
    return if t.isSome then some { node := n.info, type := t : Alternative } else none
  return { alternatives }

/-- Reports the checked exceptions that a clause names and the try block cannot throw. A clause for
all exceptions is always allowed. -/
def checkHandler (h : Handler) : Analyzer Unit := do
  let exception ← Lookup.wellKnown "java.lang.Exception"
  for a in h.alternatives do
    unless a.isUsed do
      if ← isChecked a.type then
        unless ← Lookup.isSubtype exception a.type do
          report .unreachableCatch a.node [← Lookup.typeName a.type]

/-- Notes the exceptions of the method that closes a resource. -/
def thrownByClose (at_ : Info) (t : TypeId) : Analyzer Unit := do
  if t.isNone then
    return
  for m in ← Lookup.methods t "close" do
    if (← Lookup.methodEntry m).params.isEmpty then
      return ← thrownBy at_ m

end Javelin.Flow
