import Javelin.Emit.Classes
import Javelin.Proofs.Bytecode.ProtectedRanges
import Javelin.Proofs.Types.Questions

/-!
# The code of jumps

A jump runs on its way what the statements that it leaves ask for. This code and the jump itself are
cut out of the regions of all these statements, and stay in the regions of all others.

1. `Straight`, steps that write code and neither enter nor leave statements.
2. The two loops of `leave`.
3. What the handlers of a region protect after a jump.
-/

namespace Javelin.Emit

open Bytecode Run

/-! ## Straight code -/

/-- Only code was added: statements and regions are as before. -/
structure Added (s s' : Emission) : Prop where
  scopes : s'.body.scopes = s.body.scopes
  regions : s'.body.regions = s.body.regions
  pc : s.body.code.pc ≤ s'.body.code.pc

theorem Added.refl (s : Emission) : Added s s := ⟨rfl, rfl, Nat.le_refl _⟩

theorem Added.trans {s t u : Emission} (h : Added s t) (h' : Added t u) : Added s u :=
  ⟨h'.scopes.trans h.scopes, h'.regions.trans h.regions, Nat.le_trans h.pc h'.pc⟩

/-- A step that only adds code. -/
def Straight {α : Type} (m : Emitting α) : Prop := ∀ s a s', m s = .ok a s' → Added s s'

section

variable {α β : Type}

theorem straight_pure (a : α) : Straight (pure a) := by
  rintro s _ _ ⟨⟩
  exact .refl s

theorem straight_get : Straight get := by
  rintro s _ _ ⟨⟩
  exact .refl s

theorem Straight.bind {m : Emitting α} {f : α → Emitting β} (hm : Straight m)
    (hf : ∀ a, Straight (f a)) : Straight (m >>= f) := by
  intro s b s' h
  obtain ⟨a, t, hma, hfb⟩ := bind_ok h
  exact (hm s a t hma).trans (hf a t b s' hfb)

theorem straight_modifyCode {f : Assembly → Assembly} (hf : ∀ c : Assembly, c.pc ≤ (f c).pc) :
    Straight (modifyCode f) := by
  rintro s _ _ ⟨⟩
  exact ⟨rfl, rfl, hf s.body.code⟩

theorem straight_build (b : ClassFile.Build α) : Straight (build b) := by
  refine straight_get.bind fun _ => ?_
  rintro s _ _ ⟨⟩
  exact ⟨rfl, rfl, Nat.le_refl _⟩

end

theorem straight_op (o : Opcode) (delta : Int) : Straight (op o delta) :=
  straight_modifyCode fun c => c.pc_le_op o delta []

theorem straight_opWith (o : Opcode) (delta : Int) (operands : List UInt8) :
    Straight (opWith o delta operands) :=
  straight_modifyCode fun c => c.pc_le_op o delta operands

theorem straight_load (k : ValueKind) (slot : Nat) : Straight (load k slot) :=
  straight_modifyCode fun c => c.pc_le_varOp _ _ _ _

theorem straight_jump (o : Opcode) (l : LabelId) : Straight (jump o l) :=
  straight_modifyCode fun c => c.pc_le_jump o l

theorem straight_place (l : LabelId) : Straight (place l) :=
  straight_modifyCode fun c => Nat.le_of_eq (c.pc_place l).symm

theorem straight_newLabel : Straight newLabel := by
  refine straight_get.bind fun _ => ?_
  have hcode : Straight (modifyCode fun c => c.newLabel.2) :=
    straight_modifyCode fun c => Nat.le_refl c.pc
  exact hcode.bind fun _ => straight_pure _

theorem straight_invokeClose (slot : Nat) (owner : Text) (isInterface : Bool) :
    Straight (invokeClose slot owner isInterface) := by
  refine (straight_load .ref slot).bind fun _ => ?_
  cases isInterface with
  | true => exact (straight_build _).bind fun _ => straight_opWith _ _ _
  | false => exact (straight_build _).bind fun _ => straight_opWith _ _ _

section

variable [Generator]

/-- What a statement asks for is straight code, if its final block is. -/
theorem straight_cleanUp {c : Cleanup} (h : ∀ b, c = .block b → Straight (blockCode b)) :
    Straight (cleanUp c) := by
  cases c with
  | block b => exact h b rfl
  | unlock slot => exact (straight_load .ref slot).bind fun _ => straight_op _ _
  | close slot owner isInterface =>
    exact straight_newLabel.bind fun skip => (straight_load .ref slot).bind fun _ =>
      (straight_jump .ifnull skip).bind fun _ =>
        (straight_invokeClose slot owner isInterface).bind fun _ => straight_place skip

/-! ## Leaving statements -/

/-- The loop over what the statements ask for, each as if it stood outside of its statement. -/
theorem cleanups_run {left : List Nat} {row height : Nat} {s s' : Emission} {u : PUnit}
    (hrow : s.body.scopes.row = row) (hheight : s.body.scopes.height = height)
    (hleft : ∀ i ∈ left, ∀ c, (s.body.scopes.get? i).bind (·.cleanup) = some c →
      Straight (cleanUp c))
    (h : (forIn left PUnit.unit fun i _ => do
      match ((← get).body.scopes.get? i).bind (·.cleanup) with
      | some c =>
        modifyBody fun b => { b with scopes := { b.scopes with height := i } }
        cleanUp c
        modifyBody fun b => { b with scopes := { b.scopes with row, height } }
        pure (ForInStep.yield PUnit.unit)
      | _ => pure (ForInStep.yield PUnit.unit) : Emitting PUnit) s = .ok u s') :
    Added s s' := by
  induction left generalizing s with
  | nil =>
    cases h
    exact .refl _
  | cons i left ih =>
    rw [List.forIn_cons] at h
    obtain ⟨r, t, hbody, h⟩ := bind_ok h
    obtain ⟨hr, hadded⟩ : r = .yield PUnit.unit ∧ Added s t := by
      replace hbody := bind_rest (get_run s) hbody
      cases hc : (s.body.scopes.get? i).bind (·.cleanup) with
      | none =>
        rw [hc] at hbody
        cases hbody
        exact ⟨rfl, .refl s⟩
      | some c =>
        rw [hc] at hbody
        obtain ⟨_, t₁, hcut, hbody⟩ := bind_ok hbody
        cases hcut
        obtain ⟨_, t₂, hclean, hbody⟩ := bind_ok hbody
        have hadded := hleft i List.mem_cons_self c hc _ _ _ hclean
        cases hbody
        refine ⟨rfl, ?_, hadded.regions, hadded.pc⟩
        change { t₂.body.scopes with row, height } = _
        rw [hadded.scopes, ← hrow, ← hheight]
    subst hr
    exact hadded.trans (ih (hadded.scopes ▸ hrow) (hadded.scopes ▸ hheight)
      (fun j hj => hadded.scopes ▸ hleft j (.tail _ hj)) h)

end

/-- The regions of the statements above the lowest `keep`. -/
def leftRegions (b : Body) (keep : Nat) : List RegionId :=
  (b.scopes.above keep).filterMap fun i => (b.scopes.get? i).bind (·.region)

/-- The loop over the regions that are left. -/
theorem cuts_run {left : List Nat} {start stop : Nat} {s s' : Emission} {u : PUnit}
    (h : (forIn left PUnit.unit fun i _ => do
      match ((← get).body.scopes.get? i).bind (·.region) with
      | some r =>
        modifyRegion r (·.cut start stop)
        pure (ForInStep.yield PUnit.unit)
      | _ => pure (ForInStep.yield PUnit.unit) : Emitting PUnit) s = .ok u s') :
    s'.body.code = s.body.code ∧
      s'.body.regions = (left.filterMap fun i => (s.body.scopes.get? i).bind (·.region)).foldl
        (fun rs r => rs.modify r (·.cut start stop)) s.body.regions := by
  induction left generalizing s with
  | nil =>
    cases h
    exact ⟨rfl, rfl⟩
  | cons i left ih =>
    rw [List.forIn_cons] at h
    obtain ⟨r, t, hbody, h⟩ := bind_ok h
    replace hbody := bind_rest (get_run s) hbody
    cases hr : (s.body.scopes.get? i).bind (·.region) with
    | none =>
      rw [hr] at hbody
      cases hbody
      rw [List.filterMap_cons, hr]
      exact ih h
    | some r =>
      rw [hr] at hbody
      cases hbody
      rw [List.filterMap_cons, hr]
      exact ih h

/-- Cutting some of the regions, each once. -/
theorem modify_regions {f : Region → Region} {rs : List RegionId} (hnodup : rs.Nodup)
    (regions : Array Region) (r : RegionId) :
    (rs.foldl (fun regions r => regions.modify r f) regions)[r]? =
      if r ∈ rs then regions[r]?.map f else regions[r]? := by
  induction rs generalizing regions with
  | nil => simp
  | cons r' rs ih =>
    obtain ⟨hnot, hrs⟩ := List.nodup_cons.1 hnodup
    rw [List.foldl_cons, ih hrs, Array.getElem?_modify]
    by_cases hr : r' = r
    · subst hr
      simp [hnot]
    · simp [hr, Ne.symm hr]

section

variable [Generator]

/-- A jump adds code and cuts it out of the regions of the statements that it leaves. -/
theorem leave_run {keep : Nat} {exit : Emitting Unit} {s s' : Emission}
    (hblocks : ∀ i ∈ s.body.scopes.above keep, ∀ b,
      (s.body.scopes.get? i).bind (·.cleanup) = some (.block b) → Straight (blockCode b))
    (hexit : Straight exit) (h : leave keep exit s = .ok () s') :
    s.body.code.pc ≤ s'.body.code.pc ∧
      s'.body.regions = (leftRegions s.body keep).foldl
        (fun rs r => rs.modify r (·.cut s.body.code.pc s'.body.code.pc)) s.body.regions := by
  unfold leave at h
  have hpc : pc s = .ok s.body.code.pc s := rfl
  replace h := bind_rest hpc h
  replace h := bind_rest (get_run s) h
  obtain ⟨u, s₁, hloop, h⟩ := bind_ok h
  have hcleaned := cleanups_run rfl rfl (fun i hi c hc =>
    straight_cleanUp fun b hb => hblocks i hi b (hb ▸ hc)) hloop
  obtain ⟨u', s₂, hrun, h⟩ := bind_ok h
  have hadded := hcleaned.trans (hexit _ _ _ hrun)
  have hpc' : pc s₂ = .ok s₂.body.code.pc s₂ := rfl
  replace h := bind_rest hpc' h
  obtain ⟨u'', s₃, hcuts, h⟩ := bind_ok h
  cases h
  obtain ⟨hcode, hregions⟩ := cuts_run hcuts
  rw [hcode, hregions, hadded.scopes, hadded.regions]
  exact ⟨hadded.pc, rfl⟩

/-- After a jump the handlers of a region protect what they protected before, less the code of the
jump if it left the statement of the region. -/
theorem jump_protected_iff {keep : Nat} {exit : Emitting Unit} {s s' : Emission} {r : RegionId}
    {x : Region}
    (hblocks : ∀ i ∈ s.body.scopes.above keep, ∀ b,
      (s.body.scopes.get? i).bind (·.cleanup) = some (.block b) → Straight (blockCode b))
    (hexit : Straight exit) (hnodup : (leftRegions s.body keep).Nodup)
    (h : leave keep exit s = .ok () s') (hx : s.body.regions[r]? = some x)
    (horder : Region.InOrder x.start x.gaps s.body.code.pc) :
    ∃ x', s'.body.regions[r]? = some x' ∧
      Region.InOrder x'.start x'.gaps s'.body.code.pc ∧
      ∀ (c : Assembly) (stop target : Nat) (type : UInt16) (p : Nat),
        s'.body.code.pc ≤ stop → stop < 65536 →
        (Assembly.NewlyCovered c (c.protect { x' with stop } target type) p ↔
          Assembly.NewlyCovered c (c.protect { x with stop } target type) p ∧
            ¬ (r ∈ leftRegions s.body keep ∧ s.body.code.pc ≤ p ∧ p < s'.body.code.pc)) := by
  obtain ⟨hpc, hregions⟩ := leave_run hblocks hexit h
  have hx' := modify_regions (f := (·.cut s.body.code.pc s'.body.code.pc)) hnodup s.body.regions r
  rw [← hregions, hx] at hx'
  by_cases hr : r ∈ leftRegions s.body keep
  · rw [if_pos hr] at hx'
    have hcut := Region.inOrder_cut horder hpc
    refine ⟨_, hx', hcut, fun c stop target type p hstop hlimit => ?_⟩
    rw [Assembly.newlyCovered_protect (hcut.mono hstop) hlimit,
      Assembly.newlyCovered_protect (horder.mono (Nat.le_trans hpc hstop)) hlimit,
      Region.covers_cut horder hpc hstop, and_iff_right hr]
  · rw [if_neg hr] at hx'
    refine ⟨x, hx', horder.mono hpc, fun c stop target type p _ _ => ?_⟩
    rw [and_iff_left fun hleft => hr hleft.1]

end

/-- A place inside a lock, which stands inside a statement with a handler. -/
def lockedPlace : Emission where
  world := default
  unit := default
  notes := default
  problems := []
  body :=
    { scopes := (ScopeStack.push {} { kind := .cleanup, region := some 0 }).push
        { kind := .cleanup, cleanup := some (.unlock 1), region := some 1 }
      regions := #[{ start := 0 }, { start := 0 }] }

theorem lockedPlace_run : ∃ s', @leave (generator 1) 0 (op .returnVoid 0) lockedPlace = .ok () s' ∧
    s'.body.code.pc = 3 :=
  ⟨_, rfl, rfl⟩

/-- A return from inside the lock is not under the protection of the outer statement either. -/
theorem jump_protected_iff_lock : ∃ s' x',
    @leave (generator 1) 0 (op .returnVoid 0) lockedPlace = .ok () s' ∧
      s'.body.regions[0]? = some x' ∧ ∀ (c : Assembly) (stop target : Nat) (type : UInt16) (p : Nat),
        3 ≤ stop → stop < 65536 → p < 3 →
          ¬ Assembly.NewlyCovered c (c.protect { x' with stop } target type) p := by
  obtain ⟨s', hrun, hpc⟩ := lockedPlace_run
  have hblocks : ∀ i ∈ lockedPlace.body.scopes.above 0, ∀ b,
      (lockedPlace.body.scopes.get? i).bind (·.cleanup) = some (.block b) →
        Straight (@blockCode (generator 1) b) := by
    have hleft : lockedPlace.body.scopes.above 0 = [1, 0] := rfl
    intro i hi b hb
    rw [hleft] at hi
    rcases List.mem_cons.1 hi with rfl | hi
    · cases hb
    · cases List.mem_singleton.1 hi
      cases hb
  have hregions : leftRegions lockedPlace.body 0 = [1, 0] := rfl
  obtain ⟨x', hx', -, hcovers⟩ := @jump_protected_iff (generator 1) 0 _ _ _ 0 _ hblocks
    (straight_op _ _) (by rw [hregions]; decide) hrun rfl (Nat.le_refl 0)
  refine ⟨s', x', hrun, hx', fun c stop target type p hstop hlimit hp hcovered => ?_⟩
  have hkept := (hcovers c stop target type p (hpc ▸ hstop) hlimit).1 hcovered
  exact hkept.2 ⟨by rw [hregions]; decide, Nat.zero_le p, hpc ▸ hp⟩

end Javelin.Emit
