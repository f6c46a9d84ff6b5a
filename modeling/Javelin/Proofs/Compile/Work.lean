import Mathlib.Data.List.Basic
import Mathlib.Logic.Relation
import Javelin.Compile.Run

/-!
# The work of a turn

A turn is one phase for one file. It works on the world that all files share, so it may report
problems of any file; apart from that it leaves the other files alone.

1. What the work of a turn changes, as a relation of the states before and after (`Run.Goes`).
2. Each piece of the work is of this kind (`Works`).
3. The work without checks of the limit of errors: a check only ends it early (`Checked`).
-/

namespace Javelin

/-- An abort names the file whose work it ended. -/
def Abort.within (a : Abort) (file : Text) : Abort :=
  if a.file.isEmpty then { a with file } else a

namespace Compile

variable {α β : Type}

/-! ## States before and after -/

/-- The problems of a file and whether it has as many errors as it may. -/
def UnitRun.noted (u : UnitRun) : Problem.Collector × Bool := (u.found, u.isFull)

/-- One problem of a file that is not full. -/
def Noting (limit : Nat) (name : Text) (c d : Problem.Collector × Bool) : Prop :=
  ∃ p : Problem, p.file = name ∧ c.2 = false ∧
    d = (c.1.report p, limit > 0 && p.isError && (c.1.report p).errorCount ≥ limit)

theorem noting_full {limit : Nat} {name : Text} {c d : Problem.Collector × Bool}
    (h : Relation.ReflTransGen (Noting limit name) c d) (hc : c.2 = true) : d.2 = true := by
  induction h with
  | refl => exact hc
  | tail _ hstep ih =>
    obtain ⟨_, -, hopen, -⟩ := hstep
    simp [ih] at hopen

/-- What any work may do to a file: report problems of it, and add to its result. -/
structure UnitRun.Goes (limit : Nat) (u v : UnitRun) : Prop where
  source : v.source = u.source
  isDone : v.isDone = u.isDone
  file : v.result.file = u.result.file
  problems : v.result.problems = u.result.problems
  outcome : v.result.outcome = u.result.outcome
  abort : v.result.abort = u.result.abort
  noted : Relation.ReflTransGen (Noting limit u.source.name) u.noted v.noted

namespace UnitRun.Goes

variable {limit : Nat} {u v w : UnitRun}

theorem refl (limit : Nat) (u : UnitRun) : u.Goes limit u := ⟨rfl, rfl, rfl, rfl, rfl, rfl, .refl⟩

theorem trans (h : u.Goes limit v) (h' : v.Goes limit w) : u.Goes limit w where
  source := h'.source.trans h.source
  isDone := h'.isDone.trans h.isDone
  file := h'.file.trans h.file
  problems := h'.problems.trans h.problems
  outcome := h'.outcome.trans h.outcome
  abort := h'.abort.trans h.abort
  noted := h.noted.trans (h.source ▸ h'.noted)

end UnitRun.Goes

namespace Run

/-- The work on the file at a place. -/
def unitAt (r : Run) (i : Nat) : UnitRun := r.units.getD i default

variable {r s t : Run} {i j : Nat}

theorem unitAt_eq (h : s.units = r.units) (j : Nat) : s.unitAt j = r.unitAt j := by
  rw [unitAt, unitAt, h]

theorem unitAt_modify (r : Run) (i j : Nat) (g : UnitRun → UnitRun) :
    { r with units := r.units.modify i g }.unitAt j =
      if i = j ∧ j < r.units.size then g (r.unitAt j) else r.unitAt j := by
  simp only [unitAt, Array.getD_eq_getD_getElem?, Array.getElem?_modify]
  by_cases hij : i = j
  · by_cases hj : j < r.units.size
    · simp [hij, hj]
    · simp [hij, hj]
  · simp [hij]

/-- What the work of a turn of the file at place `i` does. Only the last phase stores classes. -/
structure Goes (i : Nat) (stores : Bool) (r s : Run) : Prop where
  options : s.options = r.options
  size : s.units.size = r.units.size
  units : ∀ j, (r.unitAt j).Goes r.options.maxErrors (s.unitAt j)
  others : ∀ j ≠ i,
    (s.unitAt j).unit = (r.unitAt j).unit ∧ (s.unitAt j).result = (r.unitAt j).result
  store : stores = false → s.store = r.store

variable {stores : Bool}

namespace Goes

theorem refl (r : Run) : Goes i stores r r :=
  ⟨rfl, rfl, fun _ => .refl _ _, fun _ _ => ⟨rfl, rfl⟩, fun _ => rfl⟩

theorem trans (h : Goes i stores r s) (h' : Goes i stores s t) : Goes i stores r t where
  options := h'.options.trans h.options
  size := h'.size.trans h.size
  units j := (h.units j).trans (h.options ▸ h'.units j)
  others j hj :=
    ⟨(h'.others j hj).1.trans (h.others j hj).1, (h'.others j hj).2.trans (h.others j hj).2⟩
  store hs := (h'.store hs).trans (h.store hs)

theorem of_units (ho : s.options = r.options) (hu : s.units = r.units)
    (hs : stores = false → s.store = r.store) : Goes i stores r s where
  options := ho
  size := congrArg Array.size hu
  units j := unitAt_eq hu j ▸ .refl _ _
  others j _ := by simp [unitAt_eq hu j]
  store := hs

theorem modify {g : UnitRun → UnitRun} (r : Run)
    (hg : ∀ u : UnitRun, u.Goes r.options.maxErrors (g u)) :
    Goes i stores r { r with units := r.units.modify i g } where
  options := rfl
  size := Array.size_modify ..
  units j := by
    rw [unitAt_modify]
    split
    · exact hg _
    · exact .refl _ _
  others j hj := by
    rw [unitAt_modify, if_neg fun h => hj h.1.symm]
    exact ⟨rfl, rfl⟩
  store _ := rfl

/-- A problem goes to the file that it names. -/
theorem report (r : Run) (p : Problem) : Goes i stores r (r.report p) := by
  unfold Run.report
  cases hk : r.indexOf? p.file with
  | none => exact of_units rfl rfl fun _ => rfl
  | some k =>
    have hname : (r.unitAt k).source.name = p.file := by
      have := List.find?_some (p := fun i => (r.units.getD i default).source.name == p.file) hk
      exact beq_iff_eq.mp this
    dsimp only
    split
    · exact refl r
    next hopen =>
    rw [← unitAt] at hopen ⊢
    have hunit (j : Nat) (v : UnitRun) :
        { r with units := r.units.setIfInBounds k v }.unitAt j =
          if k = j ∧ j < r.units.size then v else r.unitAt j := by
      simp only [unitAt, Array.getD_eq_getD_getElem?, Array.getElem?_setIfInBounds]
      by_cases hkj : k = j
      · by_cases hj : j < r.units.size
        · simp [hkj, hj]
        · simp [hkj, hj]
      · simp [hkj]
    refine ⟨rfl, Array.size_setIfInBounds .., fun j => ?_, fun j _ => ?_, fun _ => rfl⟩
    · refine (hunit j _).symm ▸ ?_
      split
      next h =>
        obtain ⟨rfl, -⟩ := h
        have hopen : (r.unitAt k).isFull = false := by simpa using hopen
        exact ⟨rfl, rfl, rfl, rfl, rfl, rfl, .single ⟨p, hname.symm, hopen, rfl⟩⟩
      next => exact .refl _ _
    · refine (hunit j _).symm ▸ ?_
      split
      next h =>
        obtain ⟨rfl, -⟩ := h
        exact ⟨rfl, rfl⟩
      next => exact ⟨rfl, rfl⟩

theorem reportAll (r : Run) (ps : List Problem) : Goes i stores r (ps.foldl Run.report r) := by
  induction ps generalizing r with
  | nil => exact refl r
  | cons p ps ih => exact (report r p).trans (ih _)

end Goes

end Run

/-! ## The work of a turn -/

/-- The state at the end of work, whether it was given up or not. -/
def stateAfter : EStateM.Result Abort Run α → Run
  | .ok _ r => r
  | .error _ r => r

/-- A piece of the work of a turn of the file at place `i`. -/
def Works (i : Nat) (stores : Bool) (m : Compiling α) : Prop :=
  ∀ r : Run, r.Goes i stores (stateAfter (m r))

namespace Works

variable {i : Nat} {stores : Bool}

theorem pure (a : α) : Works i stores (Pure.pure a) := fun r => .refl r

theorem throw (e : Abort) : Works i stores (throw e : Compiling α) := fun r => .refl r

theorem bind {m : Compiling α} {f : α → Compiling β} (hm : Works i stores m)
    (hf : ∀ a, Works i stores (f a)) : Works i stores (m >>= f) := by
  intro r
  have h := hm r
  change r.Goes i stores (stateAfter (EStateM.bind m f r))
  unfold EStateM.bind
  cases hr : m r with
  | ok a s =>
    rw [hr] at h
    exact h.trans (hf a s)
  | error e s =>
    rw [hr] at h
    exact h

theorem get : Works i stores (get : Compiling Run) := fun r => .refl r

theorem unitRun (j : Nat) : Works i stores (unitRun j) := get.bind fun _ => pure _

theorem modify {g : Run → Run} (hg : ∀ r : Run, r.Goes i stores (g r)) :
    Works i stores (modify g : Compiling Unit) := fun r => hg r

theorem modifyResult {g : UnitResult → UnitResult}
    (hg : ∀ x, (g x).file = x.file ∧ (g x).problems = x.problems ∧ (g x).outcome = x.outcome ∧
      (g x).abort = x.abort) : Works i stores (modifyResult i g) :=
  fun r => .modify r fun u =>
    have ⟨hfile, hproblems, houtcome, habort⟩ := hg u.result
    ⟨rfl, rfl, hfile, hproblems, houtcome, habort, .refl⟩

theorem ofLookup (q : Lookup α) : Works i stores (ofLookup q) := by
  intro r
  have settled (w : World) : r.Goes i stores (w.reports.foldl Run.report
      { r with world := { w with reports := #[] } }) := by
    have hworld : r.Goes i stores { r with world := { w with reports := #[] } } :=
      .of_units rfl rfl fun _ => rfl
    rw [← Array.foldl_toList]
    exact hworld.trans (.reportAll _ _)
  unfold Compile.ofLookup
  dsimp only
  split <;> exact settled _

theorem checkLimit (j : Nat) : Works i stores (checkLimit j) := by
  refine (unitRun j).bind fun u => ?_
  split
  · exact get.bind fun _ => throw _
  · exact pure _

/-! ### The phases -/

theorem parse (i : Nat) : Works i stores (parse i) := by
  refine (unitRun i).bind fun _ => get.bind fun _ => ?_
  refine bind (modify fun r => .of_units rfl rfl fun _ => rfl) fun _ => ?_
  refine bind (modifyResult (by exact fun _ => ⟨rfl, rfl, rfl, rfl⟩)) fun _ => modify fun r => ?_
  exact .reportAll r _

theorem declare (i : Nat) : Works i stores (declare i) := by
  refine (unitRun i).bind fun u => ?_
  split
  · refine (ofLookup _).bind fun _ r => .modify r fun u => ?_
    exact ⟨rfl, rfl, rfl, rfl, rfl, rfl, .refl⟩
  · exact pure _

theorem complete (i : Nat) : Works i stores (complete i) := (unitRun i).bind fun _ => ofLookup _

theorem storeClasses (i : Nat) (os : List Emit.Output) : Works i true (storeClasses i os) := by
  induction os with
  | nil => exact pure _
  | cons o os ih =>
    refine get.bind fun r => ?_
    split
    · exact bind (modify fun _ => .of_units rfl rfl nofun) fun _ => ih
    · exact modifyResult (by exact fun _ => ⟨rfl, rfl, rfl, rfl⟩)

theorem generate (i : Nat) : Works i true (generate i) := by
  refine (unitRun i).bind fun _ => (ofLookup _).bind fun (classes, fault) => ?_
  dsimp only
  refine (modifyResult (by exact fun _ => ⟨rfl, rfl, rfl, rfl⟩)).bind fun _ => ?_
  refine (unitRun i).bind fun _ => get.bind fun _ => ?_
  split
  · exact storeClasses i _
  · exact pure _

theorem finish (i : Nat) : Works i true (finish i) := by
  refine (unitRun i).bind fun _ => (ofLookup _).bind fun _ => (checkLimit i).bind fun _ => ?_
  refine (ofLookup _).bind fun (notes, _) => ?_
  dsimp only
  refine (modifyResult (by exact fun _ => ⟨rfl, rfl, rfl, rfl⟩)).bind fun _ => ?_
  refine (checkLimit i).bind fun _ => get.bind fun _ => ?_
  split
  · exact pure _
  · exact generate i

end Works

/-! ## Work without checks of the limit -/

/-- Resolves and checks a file. -/
def examine (i : Nat) : Compiling Unit := do
  let unit := (← unitRun i).unit
  ofLookup (Lookup.resolveUnit unit)
  let (notes, _) ← ofLookup (Lookup.analyze unit)
  modifyResult i fun x => { x with notes }

/-- The last phase without the checks between its parts. -/
def finishFreely (i : Nat) : Compiling Unit := do
  examine i
  unless (← get).options.checksOnly do
    generate i

/-- The phases without any check of the limit. -/
def freePhases : List (Nat → Compiling Unit) := [parse, declare, complete, finishFreely]

/-- How a file is given up that has as many errors as it may. -/
def Run.limitAbort (r : Run) (i : Nat) : Abort :=
  ⟨.compilation, (r.unitAt i).source.name,
    "too many errors (" ++ Text.ofNat r.options.maxErrors ++ ")"⟩

/-- The state after the work of a turn: a file that was given up is closed. -/
def settle (i : Nat) (file : Text) : EStateM.Result Abort Run Unit → Run
  | .ok _ r => r
  | .error a r => r.close i .aborted (some (a.within file))

/-- The work ended because the file has as many errors as it may. -/
def Limited (i : Nat) (stores : Bool) (r : Run) (x : EStateM.Result Abort Run α) : Prop :=
  ∃ s, r.Goes i stores s ∧ (s.unitAt i).isFull = true ∧ x = .error (s.limitAbort i) s

theorem unitRun_apply (i : Nat) (r : Run) : unitRun i r = .ok (r.unitAt i) r := rfl

theorem checkLimit_of_full {i : Nat} {r : Run} (h : (r.unitAt i).isFull = true) :
    checkLimit i r = .error (r.limitAbort i) r := by
  unfold checkLimit
  simp only [Bind.bind, EStateM.bind, unitRun_apply, h, if_true]
  rfl

theorem checkLimit_of_open {i : Nat} {r : Run} (h : (r.unitAt i).isFull = false) :
    checkLimit i r = .ok () r := by
  unfold checkLimit
  simp only [Bind.bind, EStateM.bind, unitRun_apply, h]
  rfl

/-- Work with checks of the limit ends as it does without them, or by the limit. -/
def Checked (i : Nat) (stores : Bool) (m free : Compiling α) : Prop :=
  ∀ r, m r = free r ∨ Limited i stores r (m r)

namespace Checked

variable {i : Nat} {stores : Bool}

theorem refl (m : Compiling α) : Checked i stores m m := fun _ => .inl rfl

theorem bind {m : Compiling α} {f g : α → Compiling β} (hm : Works i stores m)
    (hf : ∀ a, Checked i stores (f a) (g a)) : Checked i stores (m >>= f) (m >>= g) := by
  intro r
  have h := hm r
  change EStateM.bind m f r = EStateM.bind m g r ∨ Limited i stores r (EStateM.bind m f r)
  unfold EStateM.bind
  cases hr : m r with
  | error e s => exact .inl rfl
  | ok a s =>
    rw [hr] at h
    obtain heq | ⟨t, hgoes, hfull, heq⟩ := hf a s
    · exact .inl heq
    · exact .inr ⟨t, h.trans hgoes, hfull, heq⟩

theorem check {m free : Compiling α} (h : Checked i stores m free) :
    Checked i stores (do checkLimit i; m) free := by
  intro r
  change EStateM.bind (checkLimit i) (fun _ => m) r = _ ∨ Limited i stores r (EStateM.bind _ _ r)
  unfold EStateM.bind
  by_cases hfull : (r.unitAt i).isFull = true
  · rw [checkLimit_of_full hfull]
    exact .inr ⟨r, .refl r, hfull, rfl⟩
  · rw [checkLimit_of_open (by simpa using hfull)]
    exact h r

theorem finish (i : Nat) : Checked i true (finish i) (finishFreely i) := by
  unfold Compile.finish finishFreely examine
  simp only [bind_assoc]
  refine bind (.unitRun i) fun u => bind (.ofLookup _) fun _ => check ?_
  refine bind (.ofLookup _) fun (notes, _) => ?_
  refine bind (.modifyResult (by exact fun _ => ⟨rfl, rfl, rfl, rfl⟩)) fun _ => check ?_
  exact refl _

end Checked

end Compile

end Javelin
