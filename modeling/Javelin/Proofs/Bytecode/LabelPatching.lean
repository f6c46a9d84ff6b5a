import Mathlib.Data.List.Induction
import Javelin.Proofs.Bytecode.SwitchTables

/-!
# Every operand leads to its label

Code is written by calls that add instructions, jumps and switches and that place labels, in any
order. An operand for a label that is placed is filled in at once, one for a label that is not waits
in the list of that label. `emitted` are the operands that calls have written, by the shape of the
instructions alone. After each call they are `Patched`, and so, if each of their labels is placed
once, all of them lead to their labels in the end (`labels_patched`).

1. Calls, and the operands that they write.
2. `Patched`, what is known of the operands so far.
3. One more operand, each of the calls, and a whole run.
-/

namespace Javelin.Bytecode

/-! ## Calls -/

/-- The calls that write code and place labels. -/
inductive Call where
  | newLabel
  | op (o : Opcode) (delta : Int) (operands : List UInt8)
  | jump (o : Opcode) (l : LabelId)
  | switchOn (keys : List (Int32 × LabelId)) (other : LabelId)
  | place (l : LabelId)
  | placeHandler (l : LabelId)

namespace Call

def run (c : Assembly) : Call → Assembly
  | newLabel => c.newLabel.2
  | op o delta operands => c.op o delta operands
  | jump o l => c.jump o l
  | switchOn keys other => c.switchOn keys other
  | place l => c.place l
  | placeHandler l => c.placeHandler l

/-- The labels that a call is given. -/
def labels : Call → List LabelId
  | newLabel | op .. => []
  | jump _ l | place l | placeHandler l => [l]
  | switchOn keys other => other :: keys.map Prod.snd

/-- The call writes code. -/
def writes : Call → Bool
  | op .. | jump .. | switchOn .. => true
  | newLabel | place _ | placeHandler _ => false

/-- The call places the label. -/
def places (l : LabelId) : Call → Bool
  | place l' | placeHandler l' => l' == l
  | _ => false

end Call

/-- The operands for some labels, from a place on and at equal distances. -/
def wideRefs (base start step : Nat) (ls : List LabelId) : List (LabelId × LabelRef) :=
  ls.mapIdx fun j l => (l, ⟨base, start + step * j, true⟩)

/-- The operands of a switch with the labels they are for. The first is for the default. A table
goes on with its bounds and the operands, a list with its length and pairs of key and operand. -/
def switchRefs (base : Nat) (keys : List (Int32 × LabelId)) (other : LabelId) :
    List (LabelId × LabelRef) :=
  let pairs := wideRefs base (operands base + 12) 8 (keys.map Prod.snd)
  (other, ⟨base, operands base, true⟩) :: match keys.head?, keys.getLast? with
    | some lo, some hi =>
      let span := (hi.1.toInt - lo.1.toInt).toNat
      if span < 2 * keys.length + 4 then
        wideRefs base (operands base + 12) 4 (Assembly.tableTargets other (span + 1) lo.1.toInt keys)
      else pairs
    | _, _ => pairs

/-- The operands that a call writes for labels. A call that is dropped writes none. -/
def Call.references (c : Assembly) : Call → List (LabelId × LabelRef)
  | jump _ l => if c.isReachable then [(l, ⟨c.pc, c.pc + 1, false⟩)] else []
  | switchOn keys other => if c.isReachable then switchRefs c.pc keys other else []
  | newLabel | op .. | place _ | placeHandler _ => []

/-- The distance does not fit into two bytes. -/
def LabelRef.IsFar (r : LabelRef) (target : Nat) : Prop :=
  (target : Int) - r.base < -32768 ∨ 32767 < (target : Int) - r.base

namespace Assembly

variable {c c' d : Assembly} {l l' : LabelId} {r : LabelRef} {log : List (LabelId × LabelRef)}

/-! ## What is known of the operands -/

/-- The operands that were written so far: those of labels that are placed lead there, the others
wait for their labels. -/
structure Patched (c : Assembly) (log : List (LabelId × LabelRef)) : Prop where
  waits : ∀ l r, r ∈ (c.label l).refs ↔ (l, r) ∈ log ∧ (c.label l).pc = none
  leads : ∀ l r p, (l, r) ∈ log → (c.label l).pc = some p → r.LeadsTo c.bytes p
  inside : ∀ x ∈ log, x.2.base ≤ x.2.place ∧ x.2.stop ≤ c.pc
  apart : ∀ x ∈ log, ∀ y ∈ log, ∀ i, x.2.Covers i → y.2.Covers i → x = y
  placed : ∀ l p, (c.label l).pc = some p → p ≤ c.pc
  overflow : c.hasOverflow = true ↔ ∃ l r p, (l, r) ∈ log ∧ (c.label l).pc = some p ∧
    r.isWide = false ∧ r.IsFar p
  depth : ∀ l, (c.label l).pc = none → ((c.label l).depth.isSome ↔ ∃ r, (l, r) ∈ log)

theorem patched_empty : Patched {} [] := by
  have hlabel : ∀ l, ({} : Assembly).label l = {} := fun l => by simp [label]
  refine ⟨fun l r => ?_, fun _ _ _ hr => absurd hr List.not_mem_nil, List.forall_mem_nil _,
    List.forall_mem_nil _, fun l p hp => ?_, ?_, fun l _ => ?_⟩
  · rw [hlabel]
    simp
  · rw [hlabel] at hp
    cases hp
  · simp
  · rw [hlabel]
    simp

/-- Code was added, and labels and overflow are as before. -/
theorem Patched.extend (h : Patched c log) (hpc : c.pc ≤ c'.pc)
    (hbytes : ∀ i < c.pc, c'.bytes[i]? = c.bytes[i]?) (hlabel : ∀ l, c'.label l = c.label l)
    (hoverflow : c'.hasOverflow = c.hasOverflow) : Patched c' log where
  waits l r := by
    rw [hlabel]
    exact h.waits l r
  leads l r p hr hp := by
    rw [hlabel] at hp
    refine (leadsTo_congr fun i hi => hbytes i ?_).2 (h.leads l r p hr hp)
    exact Nat.lt_of_lt_of_le hi.2 (h.inside _ hr).2
  inside x hx := ⟨(h.inside x hx).1, Nat.le_trans (h.inside x hx).2 hpc⟩
  apart := h.apart
  placed l p hp := by
    rw [hlabel] at hp
    exact Nat.le_trans (h.placed l p hp) hpc
  overflow := by
    rw [hoverflow, h.overflow]
    simp only [hlabel]
  depth l := by
    rw [hlabel]
    exact h.depth l

theorem Patched.append (h : Patched c log) (bs : List UInt8) : Patched (c.append bs) log :=
  h.extend (extends_append c bs).pc_le (extends_append c bs).bytes (fun _ => rfl) rfl

/-- What the steps between leave as it is. -/
theorem Patched.of_eq (h : Patched c log) (hbytes : c'.bytes = c.bytes)
    (hlabel : ∀ l, c'.label l = c.label l) (hoverflow : c'.hasOverflow = c.hasOverflow) :
    Patched c' log :=
  h.extend (Nat.le_of_eq (by unfold pc; rw [hbytes])) (fun _ _ => by rw [hbytes]) hlabel hoverflow

theorem hasOverflow_overwrite (c : Assembly) (place : Nat) (bs : List UInt8) :
    (c.overwrite place bs).hasOverflow = c.hasOverflow := rfl

theorem hasOverflow_patch (c : Assembly) (r : LabelRef) (target : Nat) :
    (c.patch r target).hasOverflow = true ↔
      c.hasOverflow = true ∨ r.isWide = false ∧ r.IsFar target := by
  unfold patch LabelRef.IsFar
  dsimp only
  cases hwide : r.isWide with
  | true => simp [hasOverflow_overwrite]
  | false =>
    rw [if_neg Bool.false_ne_true, hasOverflow_overwrite]
    split
    next hfar => simpa using Or.inr (by simpa using hfar)
    next hnear =>
      have hnot : ¬ ((target : Int) - r.base < -32768 ∨ 32767 < (target : Int) - r.base) := by
        simpa using hnear
      rw [and_iff_right rfl, or_iff_left hnot]

theorem hasOverflow_patches (rs : List LabelRef) (c : Assembly) (target : Nat) :
    (rs.foldl (fun c r => c.patch r target) c).hasOverflow = true ↔
      c.hasOverflow = true ∨ ∃ r ∈ rs, r.isWide = false ∧ r.IsFar target := by
  induction rs generalizing c with
  | nil => simp
  | cons r rs ih =>
    rw [List.foldl_cons, ih, hasOverflow_patch, List.exists_mem_cons_iff, or_assoc]

/-! ## One more operand -/

/-- An operand was filled in, or it waits for its label. -/
structure Refers (c d : Assembly) (l : LabelId) (r : LabelRef) : Prop where
  pc : d.pc = c.pc
  bytes : ∀ i, ¬ r.Covers i → d.bytes[i]? = c.bytes[i]?
  leads : ∀ p, (c.label l).pc = some p → r.LeadsTo d.bytes p
  placed : ∀ l', (d.label l').pc = (c.label l').pc
  refs : ∀ l' r', r' ∈ (d.label l').refs ↔
    r' ∈ (c.label l').refs ∨ (l', r') = (l, r) ∧ (c.label l).pc = none
  depth : ∀ l', (d.label l').depth.isSome ↔ (c.label l').depth.isSome ∨ l' = l
  overflow : d.hasOverflow = true ↔
    c.hasOverflow = true ∨ ∃ p, (c.label l).pc = some p ∧ r.isWide = false ∧ r.IsFar p

theorem label_noteDepth (hl : l < c.labels.size) (l' : LabelId) :
    ((c.noteDepth l).label l').pc = (c.label l').pc ∧
      ((c.noteDepth l).label l').refs = (c.label l').refs ∧
      (((c.noteDepth l).label l').depth.isSome ↔ (c.label l').depth.isSome ∨ l' = l) := by
  rw [noteDepth, label_modifyLabel]
  split
  next h => exact h.1 ▸ ⟨rfl, rfl, by simp⟩
  next h => exact ⟨rfl, rfl, by rw [or_iff_left fun heq => h ⟨heq.symm, hl⟩]⟩

theorem refers (hl : l < c.labels.size) (hr : r.stop ≤ c.pc) :
    Refers c ((c.noteDepth l).reference l r) l r := by
  have hnoted := label_noteDepth hl
  have hbytes : (c.noteDepth l).bytes = c.bytes := rfl
  unfold reference
  rw [(hnoted l).1]
  cases hpc : (c.label l).pc with
  | some p =>
    have hlabel : ∀ l', ((c.noteDepth l).patch r p).label l' = (c.noteDepth l).label l' := by
      intro l'
      unfold label
      rw [labels_patch]
    refine ⟨pc_patch _ r p, fun i hi => bytes_patch _ r p i hi, fun p' hp' => ?_, fun l' => ?_,
      fun l' r' => ?_, fun l' => ?_, ?_⟩
    · rw [hpc, Option.some.injEq] at hp'
      exact hp' ▸ leadsTo_patch p hr
    · rw [hlabel, (hnoted l').1]
    · rw [hlabel, (hnoted l').2.1]
      simp [hpc]
    · rw [hlabel]
      exact (hnoted l').2.2
    · rw [hasOverflow_patch]
      simp [hpc, noteDepth, modifyLabel]
  | none =>
    have hsize : l < (c.noteDepth l).labels.size := by
      unfold noteDepth modifyLabel
      rwa [Array.size_modify]
    have hlabel : ∀ l', ((c.noteDepth l).modifyLabel l fun x => { x with refs := x.refs ++ [r] }).label l' =
        if l = l' then { (c.noteDepth l).label l with refs := (c.label l).refs ++ [r] }
        else (c.noteDepth l).label l' := by
      intro l'
      rw [label_modifyLabel, ← (hnoted l).2.1]
      simp only [hsize, and_true]
    refine ⟨rfl, fun i _ => rfl, fun p hp => ?_, fun l' => ?_, fun l' r' => ?_, fun l' => ?_, ?_⟩
    · rw [hpc] at hp
      cases hp
    · rw [hlabel]
      split
      next heq => exact heq ▸ (hnoted l).1
      next => exact (hnoted l').1
    · rw [hlabel]
      by_cases heq : l = l'
      · subst heq
        simp [hpc]
      · rw [if_neg heq, (hnoted l').2.1]
        simp [Ne.symm heq]
    · rw [hlabel]
      split
      next heq => exact heq ▸ (hnoted l).2.2
      next => exact (hnoted l').2.2
    · simp [hpc, noteDepth, modifyLabel]

/-- An operand behind all others. -/
theorem Patched.refer (h : Patched c log) (hl : l < c.labels.size)
    (hr : r.base ≤ r.place ∧ r.stop ≤ c.pc) (hbehind : ∀ x ∈ log, x.2.stop ≤ r.place) :
    Patched ((c.noteDepth l).reference l r) (log ++ [(l, r)]) := by
  have hd := refers hl hr.2
  have hfree : ∀ x ∈ log, ∀ i, x.2.Covers i → ¬ r.Covers i := fun x hx i hi hi' =>
    absurd (Nat.lt_of_lt_of_le hi.2 (hbehind x hx)) (Nat.not_lt.2 hi'.1)
  refine ⟨fun l' r' => ?_, fun l' r' p hr' hp => ?_, ?_, ?_, fun l' p hp => ?_, ?_, fun l' hnone => ?_⟩
  · rw [hd.refs, hd.placed, h.waits, List.mem_append, List.mem_singleton, or_and_right]
    refine or_congr_right (and_congr_right fun heq => ?_)
    rw [(Prod.mk.inj heq).1]
  · rw [hd.placed] at hp
    rcases List.mem_append.1 hr' with hr' | hr'
    · exact (leadsTo_congr fun i hi => hd.bytes i (hfree _ hr' i hi)).2 (h.leads l' r' p hr' hp)
    · cases List.mem_singleton.1 hr'
      exact hd.leads p hp
  · rw [List.forall_mem_append, List.forall_mem_singleton, hd.pc]
    exact ⟨h.inside, hr⟩
  · intro x hx y hy i hi hi'
    rcases List.mem_append.1 hx with hx | hx <;> rcases List.mem_append.1 hy with hy | hy
    · exact h.apart x hx y hy i hi hi'
    · cases List.mem_singleton.1 hy
      exact absurd hi' (hfree x hx i hi)
    · cases List.mem_singleton.1 hx
      exact absurd hi (hfree y hy i hi')
    · rw [List.mem_singleton.1 hx, List.mem_singleton.1 hy]
  · rw [hd.placed] at hp
    exact hd.pc ▸ h.placed l' p hp
  · rw [hd.overflow, h.overflow]
    constructor
    · rintro (⟨l', r', p, hr', hp, hfar⟩ | ⟨p, hp, hfar⟩)
      · exact ⟨l', r', p, List.mem_append_left _ hr', by rwa [hd.placed], hfar⟩
      · exact ⟨l, r, p, List.mem_append_right _ List.mem_cons_self, by rwa [hd.placed], hfar⟩
    · rintro ⟨l', r', p, hr', hp, hfar⟩
      rw [hd.placed] at hp
      rcases List.mem_append.1 hr' with hr' | hr'
      · exact .inl ⟨l', r', p, hr', hp, hfar⟩
      · cases List.mem_singleton.1 hr'
        exact .inr ⟨p, hp, hfar⟩
  · rw [hd.placed] at hnone
    rw [hd.depth, h.depth l' hnone]
    simp only [List.mem_append, List.mem_singleton, Prod.mk.injEq, exists_or, exists_and_left,
      exists_eq, and_true]

/-! ## Each call -/

theorem Patched.op (h : Patched c log) (o : Opcode) (delta : Int) (operands : List UInt8) :
    Patched (c.op o delta operands) log := by
  unfold Assembly.op
  split
  · exact h
  · have hcode := (h.append [o]).append operands
    dsimp only
    split <;> exact hcode.of_eq rfl (fun _ => rfl) rfl

theorem labels_op (c : Assembly) (o : Opcode) (delta : Int) (operands : List UInt8) :
    (c.op o delta operands).labels = c.labels := by
  unfold Assembly.op
  split
  · rfl
  · dsimp only
    split <;> rfl

theorem Patched.jump (h : Patched c log) (hreach : c.isReachable = true) (o : Opcode)
    (hl : l < c.labels.size) :
    Patched (c.jump o l) (log ++ [(l, ⟨c.pc, c.pc + 1, false⟩)]) := by
  unfold Assembly.jump
  rw [hreach, if_neg (by decide)]
  refine (h.op o _ [0, 0]).refer (by rwa [labels_op]) ⟨Nat.le_succ _, ?_⟩ fun x hx => ?_
  · rw [pc_op hreach]
    exact Nat.le_refl _
  · exact Nat.le_succ_of_le (h.inside x hx).2

theorem Patched.wideReference (h : Patched c log) (hl : l < c.labels.size) {base : Nat}
    (hbase : base ≤ c.pc) :
    Patched (c.wideReference l base) (log ++ [(l, ⟨base, c.pc, true⟩)]) := by
  refine (h.append [0, 0, 0, 0]).refer hl ⟨hbase, ?_⟩ fun x hx => (h.inside x hx).2
  rw [pc_append]
  exact Nat.le_refl _

theorem wideRefs_cons (base start step : Nat) (l : LabelId) (ls : List LabelId) :
    wideRefs base start step (l :: ls) =
      (l, ⟨base, start, true⟩) :: wideRefs base (start + step) step ls := by
  have hshift : ∀ j, start + step + step * j = start + step * (j + 1) := fun j => by
    rw [Nat.mul_succ, Nat.add_assoc, Nat.add_comm step]
  simp only [wideRefs, List.mapIdx_cons, Nat.mul_zero, Nat.add_zero, hshift]

/-- Operands are written one after another at equal distances. -/
theorem Patched.foldl {α : Type} (f : Assembly → α → Assembly) (target : α → LabelId)
    {base before step : Nat} (hf : ∀ {c log x}, Patched c log → base ≤ c.pc →
      target x < c.labels.size →
        Patched (f c x) (log ++ [(target x, ⟨base, c.pc + before, true⟩)]) ∧
          (f c x).pc = c.pc + step ∧ c.labels.size ≤ (f c x).labels.size)
    {xs : List α} : ∀ {c : Assembly} {log : List (LabelId × LabelRef)}, Patched c log →
      base ≤ c.pc → (∀ x ∈ xs, target x < c.labels.size) →
        Patched (xs.foldl f c) (log ++ wideRefs base (c.pc + before) step (xs.map target)) := by
  induction xs with
  | nil => exact fun h _ _ => by simpa [wideRefs] using h
  | cons x xs ih =>
    intro c log h hbase hlt
    obtain ⟨hstep, hpc, hsize⟩ := hf h hbase (hlt x List.mem_cons_self)
    have hrest := ih hstep (by omega) fun x' hx' =>
      Nat.lt_of_lt_of_le (hlt x' (List.mem_cons_of_mem x hx')) hsize
    rw [List.map_cons, wideRefs_cons, List.append_cons, Nat.add_right_comm, ← hpc]
    exact hrest

theorem Patched.switchStart (h : Patched c log) (o : Opcode) {other : LabelId}
    (hl : other < c.labels.size) :
    Patched (c.switchStart o other) (log ++ [(other, ⟨c.pc, Bytecode.operands c.pc, true⟩)]) := by
  have hcode : Patched (((c.append [o]).append (List.replicate (3 - c.pc % 4) 0)).adjust (-1)) log :=
    ((h.append [o]).append (List.replicate (3 - c.pc % 4) 0)).of_eq rfl (fun _ => rfl) rfl
  have hpc : (((c.append [o]).append (List.replicate (3 - c.pc % 4) 0)).adjust (-1)).pc =
      Bytecode.operands c.pc := by
    have hstart := pc_switchStart c o other
    unfold Assembly.switchStart at hstart
    rw [pc_wideReference] at hstart
    omega
  have hbase : c.pc ≤ Bytecode.operands c.pc := by
    unfold Bytecode.operands
    omega
  have hall := hcode.wideReference hl (hpc ▸ hbase)
  rwa [hpc] at hall

theorem Patched.pair (h : Patched c log) (k : Int32) (hl : l < c.labels.size) {base : Nat}
    (hbase : base ≤ c.pc) :
    Patched ((c.append (bytes4 k.toUInt32)).wideReference l base)
      (log ++ [(l, ⟨base, c.pc + 4, true⟩)]) := by
  have hpc : (c.append (bytes4 k.toUInt32)).pc = c.pc + 4 := pc_append c _
  have hall := (h.append (bytes4 k.toUInt32)).wideReference hl (show base ≤ _ by omega)
  rwa [hpc] at hall

theorem pc_pair (c : Assembly) (k : Int32) (l : LabelId) (base : Nat) :
    ((c.append (bytes4 k.toUInt32)).wideReference l base).pc = c.pc + 8 := by
  have hpc : (c.append (bytes4 k.toUInt32)).pc = c.pc + 4 := pc_append c _
  rw [pc_wideReference, hpc]

theorem Patched.switchPairs (h : Patched c log) {keys : List (Int32 × LabelId)} {other : LabelId}
    (hlt : ∀ l ∈ other :: keys.map Prod.snd, l < c.labels.size) :
    Patched (c.switchPairs keys other) (log ++ (other, ⟨c.pc, Bytecode.operands c.pc, true⟩) ::
      wideRefs c.pc (Bytecode.operands c.pc + 12) 8 (keys.map Prod.snd)) := by
  have hstart := (h.switchStart .lookupswitch (hlt other List.mem_cons_self)).append
    (bytes4 (Int32.ofNat keys.length).toUInt32)
  have hpc : ((c.switchStart .lookupswitch other).append
      (bytes4 (Int32.ofNat keys.length).toUInt32)).pc = Bytecode.operands c.pc + 8 := by
    rw [pc_append, pc_switchStart]
    rfl
  have hsize : ∀ x ∈ keys, x.2 < ((c.switchStart .lookupswitch other).append
      (bytes4 (Int32.ofNat keys.length).toUInt32)).labels.size := fun x hx =>
    Nat.lt_of_lt_of_le (hlt x.2 (List.mem_cons_of_mem other (List.mem_map_of_mem hx)))
      ((extends_switchStart c .lookupswitch other).trans (extends_append _ _)).labels_le
  have hbase : c.pc ≤ Bytecode.operands c.pc + 8 := by
    unfold Bytecode.operands
    omega
  have hstep : ∀ {d : Assembly} {log : List (LabelId × LabelRef)} {x : Int32 × LabelId},
      Patched d log → c.pc ≤ d.pc → x.2 < d.labels.size →
        Patched ((d.append (bytes4 x.1.toUInt32)).wideReference x.2 c.pc)
          (log ++ [(x.2, ⟨c.pc, d.pc + 4, true⟩)]) ∧
        ((d.append (bytes4 x.1.toUInt32)).wideReference x.2 c.pc).pc = d.pc + 8 ∧
        d.labels.size ≤ ((d.append (bytes4 x.1.toUInt32)).wideReference x.2 c.pc).labels.size :=
    fun {d log x} hd hbase hl => ⟨hd.pair x.1 hl hbase, pc_pair d x.1 x.2 c.pc,
      (extends_wideReference (d.append (bytes4 x.1.toUInt32)) x.2 c.pc).labels_le⟩
  have hpairs := hstart.foldl _ Prod.snd hstep (by rw [hpc]; exact hbase) hsize
  rw [hpc, List.append_assoc] at hpairs
  exact hpairs

theorem Patched.switchTable (h : Patched c log) {lo hi : Int32} {targets : List LabelId}
    {other : LabelId} (hlt : ∀ l ∈ other :: targets, l < c.labels.size) :
    Patched (c.switchTable lo hi targets other)
      (log ++ (other, ⟨c.pc, Bytecode.operands c.pc, true⟩) ::
        wideRefs c.pc (Bytecode.operands c.pc + 12) 4 targets) := by
  have hstart := ((h.switchStart .tableswitch (hlt other List.mem_cons_self)).append
    (bytes4 lo.toUInt32)).append (bytes4 hi.toUInt32)
  have hpc : (((c.switchStart .tableswitch other).append (bytes4 lo.toUInt32)).append
      (bytes4 hi.toUInt32)).pc = Bytecode.operands c.pc + 12 := by
    rw [pc_append, pc_append, pc_switchStart]
    rfl
  have hsize : ∀ l ∈ targets, l < (((c.switchStart .tableswitch other).append
      (bytes4 lo.toUInt32)).append (bytes4 hi.toUInt32)).labels.size := fun l hl =>
    Nat.lt_of_lt_of_le (hlt l (List.mem_cons_of_mem other hl))
      (((extends_switchStart c .tableswitch other).trans (extends_append _ _)).trans
        (extends_append _ _)).labels_le
  have hbase : c.pc ≤ Bytecode.operands c.pc + 12 := by
    unfold Bytecode.operands
    omega
  have hstep : ∀ {d : Assembly} {log : List (LabelId × LabelRef)} {l : LabelId},
      Patched d log → c.pc ≤ d.pc → id l < d.labels.size →
        Patched (d.wideReference l c.pc) (log ++ [(id l, ⟨c.pc, d.pc + 0, true⟩)]) ∧
        (d.wideReference l c.pc).pc = d.pc + 4 ∧
        d.labels.size ≤ (d.wideReference l c.pc).labels.size :=
    fun {d log l} hd hbase hl => ⟨hd.wideReference hl hbase, pc_wideReference d l c.pc,
      (extends_wideReference d l c.pc).labels_le⟩
  have htable := hstart.foldl _ id hstep (by rw [hpc]; exact hbase) hsize
  rw [hpc, List.append_assoc, List.map_id] at htable
  exact htable

theorem Patched.switchOn (h : Patched c log) (hreach : c.isReachable = true)
    {keys : List (Int32 × LabelId)} {other : LabelId}
    (hlt : ∀ l ∈ other :: keys.map Prod.snd, l < c.labels.size) :
    Patched (c.switchOn keys other) (log ++ switchRefs c.pc keys other) := by
  have hstop : ∀ {d : Assembly} {log}, Patched d log → Patched d.stop log := fun hd =>
    hd.of_eq rfl (fun _ => rfl) rfl
  have hpairs := hstop (h.switchPairs hlt)
  have htable : ∀ lo hi : Int32 × LabelId, ∀ n, Patched
      (c.switchTable lo.1 hi.1 (tableTargets other n lo.1.toInt keys) other).stop _ := fun lo hi n =>
    hstop (h.switchTable fun l hl => (List.mem_cons.1 hl).elim
      (fun heq => heq ▸ hlt _ List.mem_cons_self) fun hl => hlt l (mem_tableTargets hl))
  unfold Assembly.switchOn switchRefs
  rw [hreach, if_neg (by decide)]
  dsimp only
  cases hlo : keys.head? with
  | none => exact hpairs
  | some lo =>
    cases hhi : keys.getLast? with
    | none => exact hpairs
    | some hi =>
      dsimp only
      split
      · exact htable lo hi _
      · exact hpairs

/-! ### Placing a label -/

theorem isReachable_patches (rs : List LabelRef) (c : Assembly) (target : Nat) :
    (rs.foldl (fun c r => c.patch r target) c).isReachable = c.isReachable := by
  induction rs generalizing c with
  | nil => rfl
  | cons r rs ih =>
    have hover : ∀ (d : Assembly) place bs, (d.overwrite place bs).isReachable = d.isReachable :=
      fun _ _ _ => rfl
    rw [List.foldl_cons, ih]
    unfold patch
    dsimp only
    split
    · rw [hover]
    · split <;> rw [hover]

theorem hasOverflow_place (c : Assembly) (l : LabelId) : (c.place l).hasOverflow = true ↔
    c.hasOverflow = true ∨ ∃ r ∈ (c.label l).refs, r.isWide = false ∧ r.IsFar c.pc := by
  unfold place
  dsimp only [modifyLabel]
  rw [hasOverflow_patches]
  split
  · exact Iff.rfl
  · split <;> exact Iff.rfl

/-- Code is reached at a label if it was reached before or a jump to the label was noted. -/
theorem isReachable_place (c : Assembly) (l : LabelId) : (c.place l).isReachable = true ↔
    c.isReachable = true ∨ (c.label l).refs ≠ [] ∨ (c.label l).depth.isSome := by
  unfold place
  dsimp only [modifyLabel]
  rw [isReachable_patches]
  cases hreach : c.isReachable with
  | true => simp [hreach]
  | false => by_cases hnoted : !(c.label l).refs.isEmpty || (c.label l).depth.isSome <;> simp_all

theorem Patched.place (h : Patched c log) (hl : l < c.labels.size)
    (honce : ∀ r, (l, r) ∈ log → (c.label l).pc = none) : Patched (c.place l) log := by
  have hplaced := (label_place c l l).1 ⟨rfl, hl⟩
  have hother : ∀ {l'}, l' ≠ l → (c.place l).label l' = c.label l' := fun hne =>
    (label_place c l _).2 fun h => hne h.1.symm
  have hwaits : ∀ r, (l, r) ∈ log → r ∈ (c.label l).refs := fun r hr =>
    (h.waits l r).2 ⟨hr, honce r hr⟩
  refine ⟨fun l' r => ?_, fun l' r p hr hp => ?_, fun x hx => ?_, h.apart, fun l' p hp => ?_, ?_,
    fun l' hnone => ?_⟩
  · by_cases heq : l' = l
    · subst heq
      rw [hplaced.1, hplaced.2]
      simp
    · rw [hother heq]
      exact h.waits l' r
  · by_cases heq : l' = l
    · subst heq
      rw [hplaced.1, Option.some.injEq] at hp
      subst hp
      obtain ⟨c₁, depth, hbytes, -, heq⟩ := place_eq c l'
      rw [heq]
      refine leadsTo_patches c.pc ?_ (hwaits r hr) fun r' hr' i hi hi' => ?_
      · unfold pc
        rw [hbytes]
        exact (h.inside _ hr).2
      · exact (Prod.mk.inj (h.apart _ ((h.waits l' r').1 hr').1 _ hr i hi' hi)).2
    · rw [hother heq] at hp
      refine (leadsTo_congr fun i hi => bytes_place fun r' hr' hi' => heq ?_).2
        (h.leads l' r p hr hp)
      exact (Prod.mk.inj (h.apart _ hr _ ((h.waits l r').1 hr').1 i hi hi')).1
  · rw [pc_place]
    exact h.inside x hx
  · rw [pc_place]
    by_cases heq : l' = l
    · subst heq
      rw [hplaced.1, Option.some.injEq] at hp
      exact Nat.le_of_eq hp.symm
    · rw [hother heq] at hp
      exact h.placed l' p hp
  · rw [hasOverflow_place, h.overflow]
    constructor
    · rintro (⟨l', r, p, hr, hp, hfar⟩ | ⟨r, hr, hfar⟩)
      · have hne : l' ≠ l := fun heq => by
          rw [heq] at hr hp
          rw [honce r hr] at hp
          cases hp
        exact ⟨l', r, p, hr, by rwa [hother hne], hfar⟩
      · exact ⟨l, r, c.pc, ((h.waits l r).1 hr).1, hplaced.1, hfar⟩
    · rintro ⟨l', r, p, hr, hp, hfar⟩
      by_cases heq : l' = l
      · subst heq
        rw [hplaced.1, Option.some.injEq] at hp
        exact .inr ⟨r, hwaits r hr, hp ▸ hfar⟩
      · rw [hother heq] at hp
        exact .inl ⟨l', r, p, hr, hp, hfar⟩
  · have hne : l' ≠ l := fun heq => by
      rw [heq, hplaced.1] at hnone
      cases hnone
    rw [hother hne] at hnone ⊢
    exact h.depth l' hnone

theorem Patched.placeHandler (h : Patched c log) (hl : l < c.labels.size)
    (honce : ∀ r, (l, r) ∈ log → (c.label l).pc = none) : Patched (c.placeHandler l) log := by
  have hstart : Patched { c with isReachable := true, depth := 0 } log :=
    h.of_eq rfl (fun _ => rfl) rfl
  have hplaced := hstart.place hl honce
  unfold Assembly.placeHandler
  exact hplaced.of_eq rfl (fun _ => rfl) rfl

/-! ### The step -/

theorem run_unreachable (h : c.isReachable = false) (call : Call) :
    (call.run c).pc = c.pc ∧ call.references c = [] ∧ (call.writes = true → call.run c = c) := by
  cases call with
  | newLabel => exact ⟨rfl, rfl, nofun⟩
  | op o delta operands =>
    have heq : c.op o delta operands = c := by
      unfold Assembly.op
      rw [h, if_pos (by decide)]
    exact ⟨congrArg pc heq, rfl, fun _ => heq⟩
  | jump o l =>
    have heq : c.jump o l = c := by
      unfold Assembly.jump
      rw [h, if_pos (by decide)]
    exact ⟨congrArg pc heq, by simp [Call.references, h], fun _ => heq⟩
  | switchOn keys other =>
    have heq : c.switchOn keys other = c := by
      unfold Assembly.switchOn
      rw [h, if_pos (by decide)]
    exact ⟨congrArg pc heq, by simp [Call.references, h], fun _ => heq⟩
  | place l => exact ⟨pc_place c l, rfl, nofun⟩
  | placeHandler l => exact ⟨pc_place { c with isReachable := true, depth := 0 } l, rfl, nofun⟩

/-- A call adds its operands to those that were written. -/
theorem Patched.run (h : Patched c log) {call : Call}
    (hmade : ∀ l ∈ call.labels, l < c.labels.size)
    (honce : ∀ l r, call.places l = true → (l, r) ∈ log → (c.label l).pc = none) :
    Patched (call.run c) (log ++ call.references c) := by
  have hunreachable : c.isReachable = false → call.writes = true →
      Patched (call.run c) (log ++ call.references c) := fun hreach hwrites => by
    obtain ⟨-, hnone, hsame⟩ := run_unreachable hreach call
    rw [hnone, List.append_nil, hsame hwrites]
    exact h
  cases call with
  | newLabel =>
    rw [Call.references, List.append_nil]
    exact h.of_eq rfl (label_newLabel c) rfl
  | op o delta operands =>
    rw [Call.references, List.append_nil]
    exact h.op o delta operands
  | jump o l =>
    cases hreach : c.isReachable with
    | false => exact hunreachable hreach rfl
    | true =>
      rw [Call.references, hreach, if_pos rfl]
      exact h.jump hreach o (hmade l List.mem_cons_self)
  | switchOn keys other =>
    cases hreach : c.isReachable with
    | false => exact hunreachable hreach rfl
    | true =>
      rw [Call.references, hreach, if_pos rfl]
      exact h.switchOn hreach hmade
  | place l =>
    rw [Call.references, List.append_nil]
    exact h.place (hmade l List.mem_cons_self) fun r => honce l r (beq_self_eq_true l)
  | placeHandler l =>
    rw [Call.references, List.append_nil]
    exact h.placeHandler (hmade l List.mem_cons_self) fun r => honce l r (beq_self_eq_true l)

/-- A label is placed once a call places it. -/
theorem unplaced_run {call : Call} (hmade : ∀ l ∈ call.labels, l < c.labels.size) (l : LabelId) :
    ((call.run c).label l).pc = none ↔ (c.label l).pc = none ∧ call.places l = false := by
  have hkept : Extends c (call.run c) → call.places l = false →
      (((call.run c).label l).pc = none ↔ (c.label l).pc = none ∧ call.places l = false) :=
    fun hext hno => by rw [hext.placed, and_iff_left hno]
  have hplace : ∀ (d : Assembly) (l' : LabelId), l' < d.labels.size →
      (((d.place l').label l).pc = none ↔ (d.label l).pc = none ∧ (l' == l) = false) := by
    intro d l' hlt
    by_cases heq : l' = l
    · subst heq
      rw [((label_place d l' l').1 ⟨rfl, hlt⟩).1]
      simp
    · rw [(label_place d l' l).2 fun h => heq h.1]
      simp [heq]
  cases call with
  | newLabel => exact hkept (extends_newLabel c) rfl
  | op o delta operands => exact hkept (extends_op c o delta operands) rfl
  | jump o l' => exact hkept (extends_jump c o l') rfl
  | switchOn keys other => exact hkept (extends_switchOn c keys other) rfl
  | place l' => exact hplace c l' (hmade l' List.mem_cons_self)
  | placeHandler l' => exact hplace _ l' (hmade l' List.mem_cons_self)

/-! ## Runs -/

/-- The code that calls have written. -/
def written (calls : List Call) : Assembly := calls.foldl Call.run {}

def emittedFrom (c : Assembly) : List Call → List (LabelId × LabelRef)
  | [] => []
  | call :: calls => call.references c ++ emittedFrom (call.run c) calls

/-- The operands for labels that calls have written, in the order of the code. -/
def emitted (calls : List Call) : List (LabelId × LabelRef) := emittedFrom {} calls

/-- Labels are made before they are given to a call. -/
def Made (c : Assembly) : List Call → Prop
  | [] => True
  | call :: calls => (∀ l ∈ call.labels, l < c.labels.size) ∧ Made (call.run c) calls

/-- Calls with labels that were made, of which each that an operand was written for is placed
exactly once. -/
structure Admissible (calls : List Call) : Prop where
  made : Made {} calls
  once : ∀ x ∈ emitted calls, calls.countP (Call.places x.1) = 1

variable {calls pre post : List Call} {call : Call}

theorem written_append (pre : List Call) (call : Call) :
    written (pre ++ [call]) = call.run (written pre) := by
  simp [written]

theorem emittedFrom_append (c : Assembly) (pre post : List Call) :
    emittedFrom c (pre ++ post) = emittedFrom c pre ++ emittedFrom (pre.foldl Call.run c) post := by
  induction pre generalizing c with
  | nil => rfl
  | cons call pre ih => rw [List.cons_append, emittedFrom, emittedFrom, ih, List.append_assoc]; rfl

theorem emitted_append (pre : List Call) (call : Call) :
    emitted (pre ++ [call]) = emitted pre ++ call.references (written pre) := by
  rw [emitted, emittedFrom_append, emittedFrom, emittedFrom, List.append_nil]
  rfl

theorem made_append (c : Assembly) (pre post : List Call) :
    Made c (pre ++ post) ↔ Made c pre ∧ Made (pre.foldl Call.run c) post := by
  induction pre generalizing c with
  | nil => exact (and_iff_right trivial).symm
  | cons call pre ih => rw [List.cons_append, Made, Made, ih, and_assoc]; rfl

/-- After each of the calls, the operands that were written are patched, and the labels that were
placed are known. -/
theorem Admissible.patched (h : Admissible calls) (hcalls : calls = pre ++ post) :
    Patched (written pre) (emitted pre) ∧
      ∀ l, ((written pre).label l).pc = none ↔ ∀ call ∈ pre, call.places l = false := by
  induction pre using List.reverseRecOn generalizing post with
  | nil => exact ⟨patched_empty, fun l => by simp [written, label]⟩
  | append_singleton pre call ih =>
    rw [List.append_assoc, List.singleton_append] at hcalls
    obtain ⟨hpatched, hplaced⟩ := ih hcalls
    have hmade : ∀ l ∈ call.labels, l < (written pre).labels.size := by
      have := h.made
      rw [hcalls, made_append, Made] at this
      exact this.2.1
    rw [written_append, emitted_append]
    refine ⟨hpatched.run hmade fun l r hcall hr => (hplaced l).2 fun call' hcall' => ?_, fun l => ?_⟩
    · -- A second place would be one too many.
      have hmem : (l, r) ∈ emitted calls := by
        rw [hcalls, emitted, emittedFrom_append]
        exact List.mem_append_left _ hr
      have hone : calls.countP (Call.places l) = 1 := h.once _ hmem
      rw [hcalls, List.countP_append, List.countP_cons_of_pos hcall] at hone
      exact Bool.eq_false_iff.2 fun hplaces =>
        absurd (List.countP_pos_iff.2 ⟨call', hcall', hplaces⟩) (by omega)
    · rw [unplaced_run hmade, hplaced, List.forall_mem_append, List.forall_mem_singleton]

/-- Whatever is written, with jumps forward and back in any mixture:

* each operand leads to its label, from the place of its own instruction. Those of two bytes do if
  no jump is too far, those of four bytes up to the wrap of 32-bit numbers, which code of less than
  2 GiB never reaches;
* overflow is noted exactly if some operand of two bytes has to hold a distance that does not fit;
* calls write nothing while the code cannot be reached;
* a label that is placed for the first time is reached from the code before it, or if an operand was
  written for it, and not otherwise. -/
theorem labels_patched (h : Admissible calls) :
    let d := written calls
    (∀ l r, (l, r) ∈ emitted calls → ∃ p, (d.label l).pc = some p ∧
      (r.isWide = false → d.hasOverflow = false →
        (halfWord d.bytes r.place).toInt = (p : Int) - r.base) ∧
      (r.isWide = true → word d.bytes r.place = Int32.ofInt ((p : Int) - r.base) ∧
        (d.pc < 2 ^ 31 → (word d.bytes r.place).toInt = (p : Int) - r.base))) ∧
    (d.hasOverflow = true ↔ ∃ l r p, (l, r) ∈ emitted calls ∧ (d.label l).pc = some p ∧
      r.isWide = false ∧ ((p : Int) - r.base < -32768 ∨ 32767 < (p : Int) - r.base)) ∧
    (∀ pre call post, calls = pre ++ call :: post → (written pre).isReachable = false →
      (written (pre ++ [call])).pc = (written pre).pc ∧
        (call.writes = true → written (pre ++ [call]) = written pre)) ∧
    (∀ pre l post, calls = pre ++ .place l :: post → (∀ call ∈ pre, call.places l = false) →
      ((written (pre ++ [.place l])).isReachable = true ↔
        (written pre).isReachable = true ∨ ∃ r, (l, r) ∈ emitted pre)) := by
  intro d
  obtain ⟨hpatched, hplaced⟩ := h.patched (List.append_nil calls).symm
  refine ⟨fun l r hr => ?_, hpatched.overflow, fun pre call post _ hreach => ?_,
    fun pre l post hcalls hfirst => ?_⟩
  · obtain ⟨p, hp⟩ : ∃ p, (d.label l).pc = some p := by
      refine Option.ne_none_iff_exists'.1 fun hnone => ?_
      have hnever := (hplaced l).1 hnone
      have hone := h.once _ hr
      rw [List.countP_eq_zero.2 fun call hcall => by simp [hnever call hcall]] at hone
      cases hone
    have hleads := hpatched.leads l r p hr hp
    have hle : p ≤ d.pc := hpatched.placed l p hp
    have hinside : r.base ≤ r.place ∧ r.stop ≤ d.pc := hpatched.inside _ hr
    refine ⟨p, hp, fun hnarrow hfits => ?_, fun hwide => ?_⟩
    · have hnear : ¬ r.IsFar p := fun hfar => by
        rw [hpatched.overflow.2 ⟨l, r, p, hr, hp, hnarrow, hfar⟩] at hfits
        cases hfits
      unfold LabelRef.IsFar at hnear
      rw [(LabelRef.leadsTo_narrow hnarrow).1 hleads]
      exact Int16.toInt_ofInt_of_le (by omega) (by omega)
    · rw [LabelRef.leadsTo_wide hwide] at hleads
      refine ⟨hleads, fun hsize => ?_⟩
      unfold LabelRef.stop at hinside
      rw [hleads]
      exact Int32.toInt_ofInt_of_le (by omega) (by omega)
  · rw [written_append]
    have := run_unreachable hreach call
    exact ⟨this.1, this.2.2⟩
  · obtain ⟨hpre, hplacedPre⟩ := h.patched hcalls
    have hnone := (hplacedPre l).2 hfirst
    rw [written_append]
    refine (isReachable_place _ l).trans (or_congr_right ?_)
    rw [hpre.depth l hnone, or_iff_right_of_imp]
    intro hrefs
    obtain ⟨r, hr⟩ := List.exists_mem_of_ne_nil _ hrefs
    exact ⟨r, ((hpre.waits l r).1 hr).1⟩

/-- A loop that ends with a switch back to its start. -/
def loop : List Call :=
  [.newLabel, .newLabel, .place 0, .op .iload0 1 [], .jump .ifeq 1, .jump .goto 0, .place 1,
    .op .iload0 1 [], .switchOn [(5, 0)] 1]

theorem labels_patched_loop : Admissible loop ∧ (halfWord (written loop).bytes 2).toInt = 7 - 1 ∧
    (halfWord (written loop).bytes 5).toInt = 0 - 4 ∧
    (word (written loop).bytes 24).toInt = 0 - 8 := by
  have hloop : Admissible loop :=
    ⟨⟨by decide, by decide, by decide, by decide, by decide, by decide, by decide, by decide,
      by decide, trivial⟩, by decide⟩
  obtain ⟨hoperands, -⟩ := labels_patched hloop
  have hstart : ((written loop).label 0).pc = some 0 := by decide
  have hend : ((written loop).label 1).pc = some 7 := by decide
  have hfits : (written loop).hasOverflow = false := by decide
  obtain ⟨p, hp, hforward, -⟩ := hoperands 1 ⟨1, 2, false⟩ (by decide)
  obtain ⟨q, hq, hback, -⟩ := hoperands 0 ⟨4, 5, false⟩ (by decide)
  obtain ⟨s, hs, -, hcase⟩ := hoperands 0 ⟨8, 24, true⟩ (by decide)
  cases hend.symm.trans hp
  cases hstart.symm.trans hq
  cases hstart.symm.trans hs
  exact ⟨hloop, hforward rfl hfits, hback rfl hfits, (hcase rfl).2 (by decide)⟩

end Assembly

end Javelin.Bytecode
