import Javelin.Text.Utf8

/-!
# Source levels

A source level is the feature release of the language that a file is written in.
-/

namespace Javelin

/-- The number of a feature release; any number is accepted where a level is given directly. -/
structure Level where
  release : Int
deriving DecidableEq, Inhabited, Repr

namespace Level

def latest : Level := ⟨21⟩

/-- Whether this level has what release `n` introduced. -/
def atLeast (l : Level) (n : Int) : Bool := n ≤ l.release

/-- Releases before 5 are written with a leading `1.`. -/
def name (l : Level) : Text :=
  if l.release < 5 then "1." ++ Text.ofInt l.release else Text.ofInt l.release

/-- The value of an optional sign and decimal digits. -/
def integer? (t : Text) : Option Int :=
  let (negative, digits) :=
    if t.at0 0 == '-' then (true, t.drop 1)
    else if t.at0 0 == '+' then (false, t.drop 1)
    else (false, t)
  if digits.isEmpty || !digits.all Text.isDigit then none
  else
    let n : Nat := digits.bytes.foldl (fun acc b => acc * 10 + (b.toNat - 48)) 0
    some (if negative then -(n : Int) else n)

/-- Reads `8` as well as `1.8`; refuses what lies outside the supported releases. -/
def parse (t : Text) : Except Text Level :=
  match integer? (t.trimSpace.dropStart "1.") with
  | some n =>
    if 3 ≤ n && n ≤ latest.release then .ok ⟨n⟩ else .error (refusal t)
  | none => .error (refusal t)
where
  /-- The message for a level that is not supported. -/
  refusal (t : Text) : Text := "parse source level " ++ t.quote ++ ": unsupported"

end Level

end Javelin
