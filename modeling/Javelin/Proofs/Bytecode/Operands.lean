import Mathlib.Algebra.Ring.Nat
import Mathlib.Data.List.Basic
import Mathlib.Logic.Relation
import Javelin.Proofs.Bytecode.ProtectedRanges

/-!
# Operands that wait for a label

The operand of a jump is filled in when its label is placed, among those of all other jumps. In
between the code grows. An operand of four bytes that lies apart from the others holds the distance
to its label once that is placed, and bytes that no operand covers stay as they are.

1. Numbers in the code.
2. Operands that wait, and what the steps that write code keep.
3. Steps that add code, and placing a label.
4. The code of a switch.
5. `Assembly.Steps`, and where a filled operand leads.
-/

namespace Javelin.Bytecode

/-! ## Numbers in the code -/

/-- The number in four bytes, the highest first. -/
def word (bytes : Array UInt8) (i : Nat) : Int32 :=
  let byte (k : Nat) : Nat := (bytes.getD (i + k) 0).toNat
  Int32.ofNat (byte 0 * 2 ^ 24 + byte 1 * 2 ^ 16 + byte 2 * 2 ^ 8 + byte 3)

/-- The place that an operand of an instruction leads to. -/
def operandTarget (bytes : Array UInt8) (base place : Nat) : Nat :=
  (base + (word bytes place).toInt).toNat

theorem ofNat_toNat (v : UInt32) : Int32.ofNat v.toNat = v.toInt32 := by
  simp [Int32.ofNat, UInt32.toInt32]

theorem word_eq {bytes : Array UInt8} {i : Nat} {v : Int32}
    (h : ∀ k < 4, bytes[i + k]? = (Assembly.bytes4 v.toUInt32)[k]?) : word bytes i = v := by
  have hbyte : ∀ k < 4, bytes.getD (i + k) 0 = (Assembly.bytes4 v.toUInt32).getD k 0 := by
    intro k hk
    rw [Array.getD_eq_getD_getElem?, h k hk, List.getD_eq_getElem?_getD]
  have hv := v.toUInt32.toNat_lt
  unfold word
  dsimp only
  rw [hbyte 0 (by omega), hbyte 1 (by omega), hbyte 2 (by omega), hbyte 3 (by omega)]
  have hsum : ((Assembly.bytes4 v.toUInt32).getD 0 0).toNat * 2 ^ 24 +
      ((Assembly.bytes4 v.toUInt32).getD 1 0).toNat * 2 ^ 16 +
      ((Assembly.bytes4 v.toUInt32).getD 2 0).toNat * 2 ^ 8 +
      ((Assembly.bytes4 v.toUInt32).getD 3 0).toNat = v.toUInt32.toNat := by
    simp [Assembly.bytes4, Nat.shiftRight_eq_div_pow]
    omega
  rw [hsum]
  exact ofNat_toNat _

/-- The number in two bytes, the higher one first. -/
def halfWord (bytes : Array UInt8) (i : Nat) : Int16 :=
  Int16.ofNat ((bytes.getD i 0).toNat * 2 ^ 8 + (bytes.getD (i + 1) 0).toNat)

theorem halfWord_eq {bytes : Array UInt8} {i : Nat} {v : Int16}
    (h : ∀ k < 2, bytes[i + k]? = (Assembly.bytes2 v.toUInt16)[k]?) : halfWord bytes i = v := by
  have hbyte : ∀ k < 2, bytes.getD (i + k) 0 = (Assembly.bytes2 v.toUInt16).getD k 0 := by
    intro k hk
    rw [Array.getD_eq_getD_getElem?, h k hk, List.getD_eq_getElem?_getD]
  have hv := v.toUInt16.toNat_lt
  unfold halfWord
  rw [← Nat.add_zero i, hbyte 0 (by omega), Nat.add_assoc, hbyte 1 (by omega)]
  have hsum : ((Assembly.bytes2 v.toUInt16).getD 0 0).toNat * 2 ^ 8 +
      ((Assembly.bytes2 v.toUInt16).getD 1 0).toNat = v.toUInt16.toNat := by
    simp [Assembly.bytes2, Nat.shiftRight_eq_div_pow]
    omega
  rw [hsum]
  simp [Int16.ofNat]

/-! ## Operands that wait -/

namespace LabelRef

variable {r : LabelRef} {i target : Nat} {bytes : Array UInt8}

/-- The place behind an operand. -/
def stop (r : LabelRef) : Nat := r.place + if r.isWide then 4 else 2

/-- The operand takes up the byte at a place. -/
def Covers (r : LabelRef) (i : Nat) : Prop :=
  r.place ≤ i ∧ i < r.place + if r.isWide then 4 else 2

theorem covers_wide (h : r.isWide = true) : r.Covers i ↔ r.place ≤ i ∧ i < r.place + 4 := by
  rw [Covers, if_pos h]

theorem covers_narrow (h : r.isWide = false) : r.Covers i ↔ r.place ≤ i ∧ i < r.place + 2 := by
  rw [Covers, h, if_neg Bool.false_ne_true]

/-- The operand holds the distance from its instruction to a place. -/
def LeadsTo (r : LabelRef) (bytes : Array UInt8) (target : Nat) : Prop :=
  if r.isWide then word bytes r.place = Int32.ofInt (target - r.base)
  else halfWord bytes r.place = Int16.ofInt (target - r.base)

theorem leadsTo_wide (h : r.isWide = true) :
    r.LeadsTo bytes target ↔ word bytes r.place = Int32.ofInt (target - r.base) := by
  rw [LeadsTo, if_pos h]

theorem leadsTo_narrow (h : r.isWide = false) :
    r.LeadsTo bytes target ↔ halfWord bytes r.place = Int16.ofInt (target - r.base) := by
  rw [LeadsTo, h, if_neg Bool.false_ne_true]

end LabelRef

namespace Assembly

variable {c c' d : Assembly} {l l' : LabelId} {r r' : LabelRef} {i : Nat}

/-- The operands that wait lie in the code, and so do the labels that are placed. -/
structure Sound (c : Assembly) : Prop where
  refs : ∀ {l r i}, r ∈ (c.label l).refs → r.Covers i → i < c.pc
  placed : ∀ {l p}, (c.label l).pc = some p → p ≤ c.pc

/-- A byte that no operand that waits for its label covers. -/
structure Settled (c : Assembly) (i : Nat) : Prop where
  lt : i < c.pc
  free : ∀ {l r}, r ∈ (c.label l).refs → ¬ r.Covers i

/-- An operand of four bytes that waits for its label, apart from all others. -/
structure Pending (c : Assembly) (l : LabelId) (r : LabelRef) : Prop where
  isWide : r.isWide = true
  unplaced : (c.label l).pc = none
  waits : r ∈ (c.label l).refs
  lt : r.place + 4 ≤ c.pc
  alone : ∀ {l' r' i}, r' ∈ (c.label l').refs → r.Covers i → r'.Covers i → l' = l ∧ r' = r

/-- An operand that was filled in for its label. -/
def Filled (c : Assembly) (l : LabelId) (r : LabelRef) : Prop :=
  r.isWide = true ∧ ∃ p, (c.label l).pc = some p ∧ word c.bytes r.place = Int32.ofInt (p - r.base) ∧
    ∀ i, r.Covers i → c.Settled i

/-- What steps that write code keep. -/
structure Follows (c c' : Assembly) : Prop where
  sound : c.Sound → c'.Sound
  placed : ∀ {l p}, (c.label l).pc = some p → (c'.label l).pc = some p
  settled : ∀ {i}, c.Settled i → c'.Settled i ∧ c'.bytes[i]? = c.bytes[i]?
  pending : ∀ {l r}, c.Pending l r → c'.Pending l r ∨ c'.Filled l r

theorem Follows.refl (c : Assembly) : Follows c c :=
  ⟨id, id, fun h => ⟨h, rfl⟩, .inl⟩

theorem word_congr {bytes bytes' : Array UInt8} (h : ∀ k < 4, bytes'[i + k]? = bytes[i + k]?) :
    word bytes' i = word bytes i := by
  unfold word
  simp only [Array.getD_eq_getD_getElem?]
  rw [h 0 (by omega), h 1 (by omega), h 2 (by omega), h 3 (by omega)]

theorem Follows.filled (h : Follows c c') (hfilled : c.Filled l r) : c'.Filled l r := by
  obtain ⟨hr, p, hp, hword, hsettled⟩ := hfilled
  refine ⟨hr, p, h.placed hp, ?_, fun i hi => (h.settled (hsettled i hi)).1⟩
  rw [← hword]
  refine word_congr fun k hk => (h.settled (hsettled _ ?_)).2
  rw [LabelRef.covers_wide hr]
  omega

theorem Follows.trans (h : Follows c c') (h' : Follows c' d) : Follows c d where
  sound := h'.sound ∘ h.sound
  placed := h'.placed ∘ h.placed
  settled hi := by
    obtain ⟨hi', hbyte⟩ := h.settled hi
    obtain ⟨hi'', hbyte'⟩ := h'.settled hi'
    exact ⟨hi'', hbyte'.trans hbyte⟩
  pending hr := by
    obtain hr' | hfilled := h.pending hr
    · exact h'.pending hr'
    · exact .inr (h'.filled hfilled)

/-! ### Added code -/

/-- Code and operands were added and no label was placed. -/
structure Extends (c c' : Assembly) : Prop where
  pc_le : c.pc ≤ c'.pc
  labels_le : c.labels.size ≤ c'.labels.size
  bytes : ∀ i < c.pc, c'.bytes[i]? = c.bytes[i]?
  placed : ∀ l, (c'.label l).pc = (c.label l).pc
  kept : ∀ {l r}, r ∈ (c.label l).refs → r ∈ (c'.label l).refs
  fresh : ∀ {l r}, r ∈ (c'.label l).refs →
    r ∈ (c.label l).refs ∨ ∀ i, r.Covers i → c.pc ≤ i ∧ i < c'.pc

/-- Nothing about the code and the labels was changed. -/
theorem Extends.of_eq (hbytes : c'.bytes = c.bytes) (hsize : c.labels.size ≤ c'.labels.size)
    (hlabels : ∀ l, (c'.label l).pc = (c.label l).pc ∧ (c'.label l).refs = (c.label l).refs) :
    Extends c c' where
  pc_le := Nat.le_of_eq (by unfold pc; rw [hbytes])
  labels_le := hsize
  bytes _ _ := by rw [hbytes]
  placed l := (hlabels l).1
  kept {l r} h := by
    rw [(hlabels l).2]
    exact h
  fresh {l r} h := by
    rw [(hlabels l).2] at h
    exact .inl h

theorem Extends.refl (c : Assembly) : Extends c c :=
  .of_eq rfl (Nat.le_refl _) fun _ => ⟨rfl, rfl⟩

theorem Extends.trans (h : Extends c c') (h' : Extends c' d) : Extends c d where
  pc_le := Nat.le_trans h.pc_le h'.pc_le
  labels_le := Nat.le_trans h.labels_le h'.labels_le
  bytes i hi := (h'.bytes i (Nat.lt_of_lt_of_le hi h.pc_le)).trans (h.bytes i hi)
  placed l := (h'.placed l).trans (h.placed l)
  kept := h'.kept ∘ h.kept
  fresh hr := by
    obtain hr | hr := h'.fresh hr
    · obtain hr | hr := h.fresh hr
      · exact .inl hr
      · exact .inr fun i hi => ⟨(hr i hi).1, Nat.lt_of_lt_of_le (hr i hi).2 h'.pc_le⟩
    · exact .inr fun i hi => ⟨Nat.le_trans h.pc_le (hr i hi).1, (hr i hi).2⟩

theorem Extends.settled (h : Extends c c') (hi : c.Settled i) : c'.Settled i where
  lt := Nat.lt_of_lt_of_le hi.lt h.pc_le
  free hr hcovers := by
    obtain hr | hr := h.fresh hr
    · exact hi.free hr hcovers
    · exact Nat.not_le_of_lt hi.lt (hr i hcovers).1

theorem Extends.pending (h : Extends c c') (hr : c.Pending l r) : c'.Pending l r where
  isWide := hr.isWide
  unplaced := (h.placed l).trans hr.unplaced
  waits := h.kept hr.waits
  lt := Nat.le_trans hr.lt h.pc_le
  alone {l' r' i} hr' hi hi' := by
    obtain hr' | hr' := h.fresh hr'
    · exact hr.alone hr' hi hi'
    · have hlt := hr.lt
      have hle := (hr' i hi').1
      rw [LabelRef.covers_wide hr.isWide] at hi
      omega

theorem Extends.sound (h : Extends c c') (hc : c.Sound) : c'.Sound where
  refs hr hi := by
    obtain hr | hr := h.fresh hr
    · exact Nat.lt_of_lt_of_le (hc.refs hr hi) h.pc_le
    · exact (hr _ hi).2
  placed {l _} hp := Nat.le_trans (hc.placed (h.placed l ▸ hp)) h.pc_le

theorem Extends.follows (h : Extends c c') : Follows c c' where
  sound := h.sound
  placed {l _} hp := (h.placed l).trans hp
  settled hi := ⟨h.settled hi, h.bytes _ hi.lt⟩
  pending hr := .inl (h.pending hr)

/-! ### Steps that add code -/

theorem bytes_append (c : Assembly) (bs : List UInt8) :
    (c.append bs).bytes = c.bytes ++ bs.toArray := by
  unfold append
  generalize c.bytes = bytes
  induction bs generalizing bytes with
  | nil => simp
  | cons b bs ih =>
    rw [List.foldl_cons]
    dsimp only at ih ⊢
    rw [ih, ← Array.toList_inj]
    simp

theorem extends_append (c : Assembly) (bs : List UInt8) : Extends c (c.append bs) where
  pc_le := by
    rw [pc_append]
    omega
  labels_le := Nat.le_refl _
  bytes i hi := by rw [bytes_append, Array.getElem?_append_left hi]
  placed _ := rfl
  kept := id
  fresh := .inl

theorem label_modifyLabel (c : Assembly) (l l' : LabelId) (f : Label → Label) :
    (c.modifyLabel l f).label l' =
      if l = l' ∧ l < c.labels.size then f (c.label l) else c.label l' := by
  unfold modifyLabel label
  rw [Array.getD_eq_getD_getElem?, Array.getElem?_modify, Array.getD_eq_getD_getElem?,
    Array.getD_eq_getD_getElem?]
  by_cases hl : l = l'
  · subst hl
    by_cases hlt : l < c.labels.size
    · rw [if_pos rfl, if_pos ⟨rfl, hlt⟩, Array.getElem?_eq_getElem hlt]
      rfl
    · rw [if_pos rfl, if_neg fun h => hlt h.2, Array.getElem?_eq_none (Nat.not_lt.1 hlt)]
      rfl
  · rw [if_neg hl, if_neg fun h => hl h.1]

theorem extends_noteDepth (c : Assembly) (l : LabelId) : Extends c (c.noteDepth l) := by
  refine .of_eq rfl (Nat.le_of_eq Array.size_modify.symm) fun l' => ?_
  rw [noteDepth, label_modifyLabel]
  split
  next h => exact h.1 ▸ ⟨rfl, rfl⟩
  next => exact ⟨rfl, rfl⟩

theorem label_newLabel (c : Assembly) (l : LabelId) : c.newLabel.2.label l = c.label l := by
  unfold newLabel label
  rw [Array.getD_eq_getD_getElem?, Array.getElem?_push, Array.getD_eq_getD_getElem?]
  split
  next h => rw [h, Array.getElem?_eq_none (Nat.le_refl _)]; rfl
  next => rfl

theorem extends_newLabel (c : Assembly) : Extends c c.newLabel.2 :=
  .of_eq rfl (by simp [newLabel]) fun l => by
    rw [label_newLabel]
    exact ⟨rfl, rfl⟩

theorem extends_adjust (c : Assembly) (delta : Int) : Extends c (c.adjust delta) :=
  .of_eq rfl (Nat.le_refl _) fun _ => ⟨rfl, rfl⟩

theorem extends_op (c : Assembly) (o : Opcode) (delta : Int) (operands : List UInt8) :
    Extends c (c.op o delta operands) := by
  unfold op
  split
  · exact .refl c
  · have h : Extends c (((c.append [o]).append operands).adjust delta) :=
      ((extends_append c _).trans (extends_append _ _)).trans (extends_adjust _ _)
    dsimp only
    split
    · exact h.trans (.of_eq rfl (Nat.le_refl _) fun _ => ⟨rfl, rfl⟩)
    · exact h

theorem extends_varOp (c : Assembly) (long short : Opcode) (slot : Nat) (delta : Int) :
    Extends c (c.varOp long short slot delta) := by
  unfold varOp
  split
  · exact extends_op c _ _ _
  split
  · exact extends_op c _ _ _
  · exact (extends_op c _ _ _).trans (extends_op _ _ _ _)

theorem extends_increment (c : Assembly) (slot : Nat) (isUp : Bool) :
    Extends c (c.increment slot isUp) := by
  unfold increment
  split
  · exact extends_op c _ _ _
  · exact (extends_op c _ _ _).trans (extends_op _ _ _ _)

theorem extends_line (c : Assembly) (n : Nat) : Extends c (c.line n) := by
  unfold line
  split
  · exact .refl c
  · exact .of_eq rfl (Nat.le_refl _) fun _ => ⟨rfl, rfl⟩

theorem extends_alloc (c : Assembly) (size : Nat) : Extends c (c.alloc size).2 :=
  .of_eq rfl (Nat.le_refl _) fun _ => ⟨rfl, rfl⟩

theorem extends_addHandler (c : Assembly) (range : Nat × Nat) (target : Nat) (type : UInt16) :
    Extends c (c.addHandler range target type) :=
  .of_eq rfl (Nat.le_refl _) fun _ => ⟨rfl, rfl⟩

theorem extends_protect (c : Assembly) (r : Region) (target : Nat) (type : UInt16) :
    Extends c (c.protect r target type) := by
  unfold protect
  induction r.ranges generalizing c with
  | nil => exact .refl c
  | cons range ranges ih =>
    rw [List.foldl_cons]
    exact (extends_addHandler c range target type).trans (ih _)

/-! ### Operands -/

theorem bytes_overwrite (c : Assembly) (place : Nat) (bs : List UInt8) (i : Nat) :
    (c.overwrite place bs).bytes[i]? =
      if place ≤ i ∧ i < place + bs.length ∧ i < c.pc then bs[i - place]? else c.bytes[i]? := by
  induction bs generalizing c place with
  | nil =>
    rw [if_neg (by simp only [List.length_nil]; omega)]
    rfl
  | cons b bs ih =>
    have hrest := ih { c with bytes := c.bytes.setIfInBounds place b } (place + 1)
    have hpc : pc { c with bytes := c.bytes.setIfInBounds place b } = c.pc :=
      Array.size_setIfInBounds
    rw [hpc] at hrest
    refine hrest.trans ?_
    rw [List.length_cons]
    dsimp only
    rw [Array.getElem?_setIfInBounds]
    by_cases hi : place = i
    · subst hi
      rw [if_neg (by omega), if_pos rfl]
      by_cases hlt : place < c.bytes.size
      · rw [if_pos hlt, if_pos ⟨Nat.le_refl _, by omega, hlt⟩, Nat.sub_self]
        rfl
      · rw [if_neg hlt, if_neg fun h => hlt h.2.2, Array.getElem?_eq_none (Nat.not_lt.1 hlt)]
    · by_cases hin : place ≤ i ∧ i < place + (bs.length + 1) ∧ i < c.pc
      · rw [if_pos (by omega), if_pos hin, show i - place = (i - (place + 1)) + 1 by omega]
        rfl
      · rw [if_neg (by omega), if_neg hi, if_neg hin]

/-- Filling in an operand changes the bytes that it covers. -/
theorem bytes_patch (c : Assembly) (r : LabelRef) (target i : Nat) (h : ¬ r.Covers i) :
    (c.patch r target).bytes[i]? = c.bytes[i]? := by
  have hlen : ∀ v, (bytes2 v).length = 2 := fun _ => rfl
  have hlen' : ∀ v, (bytes4 v).length = 4 := fun _ => rfl
  unfold LabelRef.Covers at h
  unfold patch
  dsimp only
  split
  next hwide =>
    rw [if_pos hwide] at h
    rw [bytes_overwrite, hlen', if_neg (by omega)]
  next hnarrow =>
    rw [if_neg hnarrow] at h
    split
    · rw [bytes_overwrite, hlen, if_neg (by omega)]
    · rw [bytes_overwrite, hlen, if_neg (by omega)]

theorem word_patch {c : Assembly} {r : LabelRef} (target : Nat) (hwide : r.isWide = true)
    (hlt : r.place + 4 ≤ c.pc) :
    word (c.patch r target).bytes r.place = Int32.ofInt (target - r.base) := by
  refine word_eq fun k hk => ?_
  have hlen : ∀ v, (bytes4 v).length = 4 := fun _ => rfl
  unfold patch
  dsimp only
  rw [if_pos hwide, bytes_overwrite, hlen, if_pos (by omega), Nat.add_sub_cancel_left]

theorem leadsTo_congr {bytes bytes' : Array UInt8} {target : Nat}
    (h : ∀ i, r.Covers i → bytes'[i]? = bytes[i]?) :
    r.LeadsTo bytes' target ↔ r.LeadsTo bytes target := by
  cases hwide : r.isWide with
  | true =>
    rw [LabelRef.leadsTo_wide hwide, LabelRef.leadsTo_wide hwide, word_congr fun k hk =>
      h (r.place + k) ((LabelRef.covers_wide hwide).2 ⟨by omega, by omega⟩)]
  | false =>
    rw [LabelRef.leadsTo_narrow hwide, LabelRef.leadsTo_narrow hwide]
    have h0 := h r.place ((LabelRef.covers_narrow hwide).2 ⟨by omega, by omega⟩)
    have h1 := h (r.place + 1) ((LabelRef.covers_narrow hwide).2 ⟨by omega, by omega⟩)
    simp only [halfWord, Array.getD_eq_getD_getElem?, h0, h1]

theorem leadsTo_patch {c : Assembly} {r : LabelRef} (target : Nat) (hlt : r.stop ≤ c.pc) :
    r.LeadsTo (c.patch r target).bytes target := by
  have hlen : ∀ v, (bytes2 v).length = 2 := fun _ => rfl
  unfold LabelRef.stop at hlt
  cases hwide : r.isWide with
  | true =>
    rw [hwide, if_pos rfl] at hlt
    exact (LabelRef.leadsTo_wide hwide).2 (word_patch target hwide hlt)
  | false =>
    rw [hwide, if_neg Bool.false_ne_true] at hlt
    rw [LabelRef.leadsTo_narrow hwide]
    refine halfWord_eq fun k hk => ?_
    unfold patch
    dsimp only
    rw [hwide, if_neg Bool.false_ne_true]
    split <;>
    · rw [bytes_overwrite, hlen, if_pos ⟨by omega, by omega, Nat.lt_of_lt_of_le (by omega) hlt⟩,
        Nat.add_sub_cancel_left]

theorem labels_patch (c : Assembly) (r : LabelRef) (target : Nat) :
    (c.patch r target).labels = c.labels := by
  unfold patch
  dsimp only
  split
  · rfl
  split <;> rfl

/-- An operand for code that was added since. -/
theorem Extends.reference (h : Extends c c') (hr : ∀ i, r.Covers i → c.pc ≤ i ∧ i < c'.pc) :
    Extends c (c'.reference l r) := by
  unfold Assembly.reference
  split
  next target _ =>
    have hlabel : ∀ l, (c'.patch r target).label l = c'.label l := fun l => by
      unfold label
      rw [labels_patch]
    refine ⟨?_, ?_, fun i hi => ?_, fun l => ?_, fun {l r'} hr' => ?_, fun {l r'} hr' => ?_⟩
    · rw [pc_patch]
      exact h.pc_le
    · rw [labels_patch]
      exact h.labels_le
    · rw [bytes_patch _ _ _ _ fun hcovers => Nat.not_le_of_lt hi (hr i hcovers).1, h.bytes i hi]
    · rw [hlabel, h.placed]
    · rw [hlabel]
      exact h.kept hr'
    · rw [hlabel] at hr'
      rw [pc_patch]
      exact h.fresh hr'
  next =>
    have hlabel : ∀ l', ((c'.modifyLabel l fun x => { x with refs := x.refs ++ [r] }).label l').pc =
        (c'.label l').pc ∧ ∀ r', r' ∈ (c'.label l').refs →
          r' ∈ ((c'.modifyLabel l fun x => { x with refs := x.refs ++ [r] }).label l').refs := by
      intro l'
      rw [label_modifyLabel]
      split
      next heq =>
        rw [heq.1]
        exact ⟨rfl, fun r' hr' => List.mem_append_left _ hr'⟩
      next => exact ⟨rfl, fun _ hr' => hr'⟩
    have hsize : c.labels.size ≤
        (c'.modifyLabel l fun x => { x with refs := x.refs ++ [r] }).labels.size :=
      Nat.le_trans h.labels_le (Nat.le_of_eq Array.size_modify.symm)
    refine ⟨h.pc_le, hsize, h.bytes, fun l' => ?_, fun {l' r'} hr' => ?_, fun {l' r'} hr' => ?_⟩
    · rw [(hlabel l').1, h.placed]
    · exact (hlabel l').2 r' (h.kept hr')
    · rw [label_modifyLabel] at hr'
      split at hr'
      next heq =>
        obtain hr' | hr' := List.mem_append.1 hr'
        · exact h.fresh (heq.1 ▸ hr')
        · exact .inr (List.mem_singleton.1 hr' ▸ hr)
      next => exact h.fresh hr'

theorem pc_op {c : Assembly} (h : c.isReachable = true) (o : Opcode) (delta : Int)
    (operands : List UInt8) : (c.op o delta operands).pc = c.pc + 1 + operands.length := by
  have hpc : ((c.append [o]).append operands).pc = c.pc + 1 + operands.length := by
    rw [pc_append, pc_append]
    rfl
  unfold op
  rw [h]
  dsimp only
  split
  next hfalse => cases hfalse
  next => split <;> exact hpc

theorem extends_jump (c : Assembly) (o : Opcode) (l : LabelId) : Extends c (c.jump o l) := by
  unfold jump
  split
  · exact .refl c
  next hreach =>
    refine ((extends_op c _ _ _).trans (extends_noteDepth _ _)).reference fun i hi => ?_
    have hpc : ((c.op o (-(o.branchPops : Int)) [0, 0]).noteDepth l).pc = c.pc + 1 + 2 :=
      pc_op (by simpa using hreach) _ _ _
    rw [hpc]
    change c.pc + 1 ≤ i ∧ i < c.pc + 1 + 2 at hi
    omega

theorem pc_wideReference (c : Assembly) (l : LabelId) (base : Nat) :
    (c.wideReference l base).pc = c.pc + 4 := by
  unfold wideReference
  rw [pc_reference]
  exact pc_append c _

theorem extends_wideReference (c : Assembly) (l : LabelId) (base : Nat) :
    Extends c (c.wideReference l base) := by
  refine ((extends_append c _).trans (extends_noteDepth _ _)).reference fun i hi => ?_
  have hpc : ((c.append [0, 0, 0, 0]).noteDepth l).pc = c.pc + 4 := pc_append c _
  rw [hpc]
  change c.pc ≤ i ∧ i < c.pc + 4 at hi
  exact hi

theorem refs_wideReference {base : Nat} (hl : l < c.labels.size)
    (hnone : (c.label l).pc = none) (l' : LabelId) :
    ((c.wideReference l base).label l').refs =
      (c.label l').refs ++ if l = l' then [⟨base, c.pc, true⟩] else [] := by
  have hsize : l < ((c.append [0, 0, 0, 0]).noteDepth l).labels.size := by
    unfold noteDepth modifyLabel
    dsimp only
    rw [Array.size_modify]
    exact hl
  have hnoted : ∀ l', (((c.append [0, 0, 0, 0]).noteDepth l).label l').pc = (c.label l').pc ∧
      (((c.append [0, 0, 0, 0]).noteDepth l).label l').refs = (c.label l').refs := by
    intro l'
    rw [noteDepth, label_modifyLabel]
    split
    next h => exact h.1 ▸ ⟨rfl, rfl⟩
    next => exact ⟨rfl, rfl⟩
  unfold wideReference Assembly.reference
  dsimp only
  rw [(hnoted l).1, hnone]
  dsimp only
  rw [label_modifyLabel]
  by_cases heq : l = l'
  · subst heq
    rw [if_pos ⟨rfl, hsize⟩, if_pos rfl]
    dsimp only
    rw [(hnoted l).2]
  · rw [if_neg fun h => heq h.1, if_neg heq, (hnoted l').2, List.append_nil]

/-- An operand for a label that is not placed yet. -/
theorem pending_wideReference {base : Nat} (hc : c.Sound) (hl : l < c.labels.size)
    (hnone : (c.label l).pc = none) :
    (c.wideReference l base).Pending l ⟨base, c.pc, true⟩ where
  isWide := rfl
  unplaced := ((extends_wideReference c l base).placed l).trans hnone
  waits := by
    rw [refs_wideReference hl hnone, if_pos rfl]
    exact List.mem_append_right _ List.mem_cons_self
  lt := Nat.le_of_eq (pc_wideReference c l base).symm
  alone {l' r' i} hr' hi hi' := by
    rw [refs_wideReference hl hnone] at hr'
    obtain hr' | hr' := List.mem_append.1 hr'
    · have hlt := hc.refs hr' hi'
      change c.pc ≤ i ∧ i < c.pc + 4 at hi
      omega
    · split at hr'
      next heq => exact ⟨heq.symm, List.mem_singleton.1 hr'⟩
      next => cases hr'

/-! ### Placing a label -/

theorem labels_patches (rs : List LabelRef) (c : Assembly) (target : Nat) :
    (rs.foldl (fun c r => c.patch r target) c).labels = c.labels := by
  induction rs generalizing c with
  | nil => rfl
  | cons r rs ih => rw [List.foldl_cons, ih, labels_patch]

theorem bytes_patches (rs : List LabelRef) (c : Assembly) (target : Nat)
    (h : ∀ r ∈ rs, ¬ r.Covers i) :
    (rs.foldl (fun c r => c.patch r target) c).bytes[i]? = c.bytes[i]? := by
  induction rs generalizing c with
  | nil => rfl
  | cons r rs ih =>
    rw [List.foldl_cons, ih _ fun r' hr' => h r' (List.mem_cons_of_mem r hr'),
      bytes_patch _ _ _ _ (h r List.mem_cons_self)]

/-- An operand that lies apart from all others is filled in with them. -/
theorem leadsTo_patches {rs : List LabelRef} {c : Assembly} (target : Nat)
    (hlt : r.stop ≤ c.pc) (hr : r ∈ rs)
    (halone : ∀ r' ∈ rs, ∀ i, r.Covers i → r'.Covers i → r' = r) :
    r.LeadsTo (rs.foldl (fun c r => c.patch r target) c).bytes target := by
  induction rs generalizing c with
  | nil => cases hr
  | cons r' rs ih =>
    rw [List.foldl_cons]
    by_cases hmem : r ∈ rs
    · refine ih ?_ hmem fun r' hr' => halone r' (List.mem_cons_of_mem _ hr')
      rw [pc_patch]
      exact hlt
    · obtain rfl | hmem' := List.mem_cons.1 hr
      · -- No operand after the last occurrence touches it.
        refine (leadsTo_congr fun i hi => ?_).2 (leadsTo_patch target hlt)
        refine bytes_patches rs _ _ fun r' hr' hcovers => ?_
        obtain rfl := halone r' (List.mem_cons_of_mem r hr') _ hi hcovers
        exact hmem hr'
      · exact absurd hmem' hmem

/-- Placing a label fills in its operands. -/
theorem place_eq (c : Assembly) (l : LabelId) : ∃ (c₁ : Assembly) (depth : Option Nat),
    c₁.bytes = c.bytes ∧ c₁.labels = c.labels ∧
      c.place l = ((c.label l).refs.foldl (fun d r => d.patch r c.pc) c₁).modifyLabel l
        fun _ => { pc := some c.pc, depth } := by
  unfold place
  dsimp only
  split
  · exact ⟨c, _, rfl, rfl, rfl⟩
  split
  · exact ⟨{ c with isReachable := true, depth := (c.label l).depth.getD 0 }, _, rfl, rfl, rfl⟩
  · exact ⟨c, _, rfl, rfl, rfl⟩

/-- What a label is after another one or itself was placed. -/
theorem label_place (c : Assembly) (l l' : LabelId) :
    (l = l' ∧ l < c.labels.size → ((c.place l).label l').pc = some c.pc ∧
      ((c.place l).label l').refs = []) ∧
    (¬ (l = l' ∧ l < c.labels.size) → (c.place l).label l' = c.label l') := by
  obtain ⟨c₁, depth, -, hlabels, heq⟩ := place_eq c l
  have hpatched := (labels_patches (c.label l).refs c₁ c.pc).trans hlabels
  rw [heq, label_modifyLabel, hpatched]
  constructor
  · intro h
    rw [if_pos h]
    exact ⟨rfl, rfl⟩
  · intro h
    rw [if_neg h]
    exact congrArg (fun labels : Array Label => labels.getD l' {}) hpatched

theorem refs_place {r : LabelRef} (h : r ∈ ((c.place l).label l').refs) :
    r ∈ (c.label l').refs ∧ (l < c.labels.size → l ≠ l') := by
  by_cases heq : l = l' ∧ l < c.labels.size
  · rw [((label_place c l l').1 heq).2] at h
    cases h
  · rw [(label_place c l l').2 heq] at h
    exact ⟨h, fun hlt hl => heq ⟨hl, hlt⟩⟩

theorem refs_lt (h : r ∈ (c.label l).refs) : l < c.labels.size := by
  by_contra hlt
  unfold label at h
  rw [Array.getD_eq_getD_getElem?, Array.getElem?_eq_none (Nat.not_lt.1 hlt)] at h
  cases h

theorem bytes_place (h : ∀ r ∈ (c.label l).refs, ¬ r.Covers i) :
    (c.place l).bytes[i]? = c.bytes[i]? := by
  obtain ⟨c₁, depth, hbytes, -, heq⟩ := place_eq c l
  rw [heq]
  exact (bytes_patches _ c₁ c.pc h).trans (by rw [hbytes])

/-- The operands of a label are filled in when it is placed, and no others. -/
theorem follows_place (hnone : (c.label l).pc = none) : Follows c (c.place l) where
  sound hc := {
    refs hr hi := by
      rw [pc_place]
      exact hc.refs (refs_place hr).1 hi
    placed {l' p} hp := by
      rw [pc_place]
      by_cases heq : l = l' ∧ l < c.labels.size
      · rw [((label_place c l l').1 heq).1] at hp
        exact Nat.le_of_eq (Option.some.inj hp).symm
      · rw [(label_place c l l').2 heq] at hp
        exact hc.placed hp }
  placed {l' p} hp := by
    rw [(label_place c l l').2]
    · exact hp
    · rintro ⟨rfl, -⟩
      rw [hnone] at hp
      cases hp
  settled {i} hi := by
    refine ⟨⟨?_, fun hr => hi.free (refs_place hr).1⟩, bytes_place fun r => hi.free⟩
    rw [pc_place]
    exact hi.lt
  pending {l' r} hr := by
    by_cases hl : l = l'
    · subst hl
      refine .inr ⟨hr.isWide, c.pc, ((label_place c l l).1 ⟨rfl, refs_lt hr.waits⟩).1, ?_, ?_⟩
      · obtain ⟨c₁, depth, hbytes, -, heq⟩ := place_eq c l
        rw [heq]
        refine (LabelRef.leadsTo_wide hr.isWide).1 (leadsTo_patches c.pc ?_ hr.waits
          fun r' hr' i hi hi' => (hr.alone hr' hi hi').2)
        unfold LabelRef.stop pc
        rw [hbytes, if_pos hr.isWide]
        exact hr.lt
      · intro i hi
        refine ⟨?_, fun hr' hi' => ?_⟩
        · rw [pc_place]
          have := hr.lt
          have := (LabelRef.covers_wide hr.isWide).1 hi
          omega
        · obtain ⟨hr', hne⟩ := refs_place hr'
          exact hne (refs_lt hr.waits) (hr.alone hr' hi hi').1.symm
    · left
      have hsame := (label_place c l l').2 fun h => hl h.1
      refine ⟨hr.isWide, hsame ▸ hr.unplaced, hsame ▸ hr.waits, ?_, fun hr' => ?_⟩
      · rw [pc_place]
        exact hr.lt
      · exact hr.alone (refs_place hr').1

theorem follows_placeHandler (hnone : (c.label l).pc = none) : Follows c (c.placeHandler l) := by
  have hstart : Extends c { c with isReachable := true, depth := 0 } :=
    .of_eq rfl (Nat.le_refl _) fun _ => ⟨rfl, rfl⟩
  unfold placeHandler
  exact (hstart.follows.trans (follows_place hnone)).trans (extends_adjust _ 1).follows

/-- A number in the code that no operand covers. -/
def Holds (c : Assembly) (i : Nat) (v : Int32) : Prop :=
  word c.bytes i = v ∧ ∀ k < 4, c.Settled (i + k)

theorem Follows.holds {v : Int32} (h : Follows c c') (hv : c.Holds i v) : c'.Holds i v := by
  obtain ⟨hword, hsettled⟩ := hv
  exact ⟨(word_congr fun k hk => (h.settled (hsettled k hk)).2).trans hword,
    fun k hk => (h.settled (hsettled k hk)).1⟩

/-- Bytes that were added are covered by no operand yet. -/
theorem settled_append (hc : c.Sound) (bs : List UInt8) (hi : c.pc ≤ i)
    (hlt : i < c.pc + bs.length) : (c.append bs).Settled i where
  lt := by
    rw [pc_append]
    exact hlt
  free hr hcovers := Nat.not_le_of_lt (hc.refs (c := c) hr hcovers) hi

theorem holds_append (hc : c.Sound) (v : Int32) :
    (c.append (bytes4 v.toUInt32)).Holds c.pc v := by
  refine ⟨word_eq fun k hk => ?_, fun k hk => settled_append hc _ (by omega) ?_⟩
  · unfold pc
    rw [bytes_append, Array.getElem?_append_right (Nat.le_add_right c.bytes.size k)]
    simp
  · change c.pc + k < c.pc + 4
    omega

/-- The labels exist and none of them is placed. -/
def Open (c : Assembly) (ls : List LabelId) : Prop :=
  ∀ l ∈ ls, l < c.labels.size ∧ (c.label l).pc = none

theorem Extends.keepsOpen {ls : List LabelId} (h : Extends c c') (hopen : c.Open ls) :
    c'.Open ls := by
  intro l hl
  obtain ⟨hlt, hnone⟩ := hopen l hl
  exact ⟨Nat.lt_of_lt_of_le hlt h.labels_le, (h.placed l).trans hnone⟩

/-! ## The code of a switch -/

theorem extends_foldl {α : Type} {f : Assembly → α → Assembly} (h : ∀ c x, Extends c (f c x))
    (xs : List α) (c : Assembly) : Extends c (xs.foldl f c) := by
  induction xs generalizing c with
  | nil => exact .refl c
  | cons x xs ih => exact (h c x).trans (ih _)

/-- The start of a switch: the opcode, bytes up to a multiple of four and the default. -/
def switchStart (c : Assembly) (o : Opcode) (other : LabelId) : Assembly :=
  (((c.append [o]).append (List.replicate (3 - c.pc % 4) 0)).adjust (-1)).wideReference other c.pc

theorem extends_switchStart (c : Assembly) (o : Opcode) (other : LabelId) :
    Extends c (c.switchStart o other) :=
  (((extends_append c _).trans (extends_append _ _)).trans (extends_adjust _ _)).trans
    (extends_wideReference _ _ _)

/-- A switch with one operand for each number from the lowest to the highest. -/
def switchTable (c : Assembly) (lo hi : Int32) (targets : List LabelId) (other : LabelId) :
    Assembly :=
  targets.foldl (wideReference · · c.pc)
    (((c.switchStart .tableswitch other).append (bytes4 lo.toUInt32)).append (bytes4 hi.toUInt32))

/-- A switch with pairs of a number and an operand. -/
def switchPairs (c : Assembly) (keys : List (Int32 × LabelId)) (other : LabelId) : Assembly :=
  keys.foldl (fun d (k, l) => (d.append (bytes4 k.toUInt32)).wideReference l c.pc)
    ((c.switchStart .lookupswitch other).append (bytes4 (Int32.ofNat keys.length).toUInt32))

/-- No instruction follows. -/
def stop (c : Assembly) : Assembly := { c with isReachable := false }

theorem extends_stop (c : Assembly) : Extends c c.stop := .of_eq rfl (Nat.le_refl _) fun _ => ⟨rfl, rfl⟩

theorem extends_switchTable (c : Assembly) (lo hi : Int32) (targets : List LabelId)
    (other : LabelId) : Extends c (c.switchTable lo hi targets other) :=
  (((extends_switchStart c _ other).trans (extends_append _ _)).trans (extends_append _ _)).trans
    (extends_foldl (fun d l => extends_wideReference d l c.pc) targets _)

theorem extends_switchPairs (c : Assembly) (keys : List (Int32 × LabelId)) (other : LabelId) :
    Extends c (c.switchPairs keys other) :=
  ((extends_switchStart c _ other).trans (extends_append _ _)).trans
    (extends_foldl (fun d (k, l) =>
      (extends_append d (bytes4 k.toUInt32)).trans (extends_wideReference _ l c.pc)) keys _)

/-- What a switch is written as. -/
theorem switchOn_eq (h : c.isReachable = true) (keys : List (Int32 × LabelId)) (other : LabelId) :
    (∃ lo hi, keys.head? = some lo ∧ keys.getLast? = some hi ∧
      c.switchOn keys other = (c.switchTable lo.1 hi.1
        (tableTargets other ((hi.1.toInt - lo.1.toInt).toNat + 1) lo.1.toInt keys) other).stop) ∨
    c.switchOn keys other = (c.switchPairs keys other).stop := by
  unfold switchOn
  rw [h]
  dsimp only
  rw [if_neg (by decide)]
  split
  next lo _ hi _ hlo hhi =>
    split
    · exact .inl ⟨_, _, hlo, hhi, rfl⟩
    · exact .inr rfl
  next => exact .inr rfl

theorem extends_switchOn (c : Assembly) (keys : List (Int32 × LabelId)) (other : LabelId) :
    Extends c (c.switchOn keys other) := by
  cases hreach : c.isReachable with
  | false =>
    unfold switchOn
    rw [hreach]
    exact .refl c
  | true =>
    obtain ⟨lo, hi, -, -, heq⟩ | heq := switchOn_eq hreach keys other
    · rw [heq]
      exact (extends_switchTable c _ _ _ other).trans (extends_stop _)
    · rw [heq]
      exact (extends_switchPairs c keys other).trans (extends_stop _)

/-! ## Steps -/

/-- The steps by which the code of a method is written. A label is placed once. -/
inductive Step (c : Assembly) : Assembly → Prop
  | op (o : Opcode) (delta : Int) (operands : List UInt8) : Step c (c.op o delta operands)
  | varOp (long short : Opcode) (slot : Nat) (delta : Int) : Step c (c.varOp long short slot delta)
  | increment (slot : Nat) (isUp : Bool) : Step c (c.increment slot isUp)
  | alloc (size : Nat) : Step c (c.alloc size).2
  | newLabel : Step c c.newLabel.2
  | jump (o : Opcode) (l : LabelId) : Step c (c.jump o l)
  | place (l : LabelId) : (c.label l).pc = none → Step c (c.place l)
  | placeHandler (l : LabelId) : (c.label l).pc = none → Step c (c.placeHandler l)
  | switchOn (keys : List (Int32 × LabelId)) (other : LabelId) : Step c (c.switchOn keys other)
  | line (n : Nat) : Step c (c.line n)
  | protect (r : Region) (target : Nat) (type : UInt16) : Step c (c.protect r target type)
  | addHandler (range : Nat × Nat) (target : Nat) (type : UInt16) :
    Step c (c.addHandler range target type)

/-- The code that was written so far, and code that was written later. -/
def Steps : Assembly → Assembly → Prop := Relation.ReflTransGen Step

theorem Step.follows (h : Step c c') : Follows c c' := by
  cases h with
  | op o delta operands => exact (extends_op c o delta operands).follows
  | varOp long short slot delta => exact (extends_varOp c long short slot delta).follows
  | increment slot isUp => exact (extends_increment c slot isUp).follows
  | alloc size => exact (extends_alloc c size).follows
  | newLabel => exact (extends_newLabel c).follows
  | jump o l => exact (extends_jump c o l).follows
  | place l hnone => exact follows_place hnone
  | placeHandler l hnone => exact follows_placeHandler hnone
  | switchOn keys other => exact (extends_switchOn c keys other).follows
  | line n => exact (extends_line c n).follows
  | protect r target type => exact (extends_protect c r target type).follows
  | addHandler range target type => exact (extends_addHandler c range target type).follows

theorem Steps.follows (h : Steps c d) : Follows c d := by
  induction h with
  | refl => exact .refl c
  | tail _ hstep ih => exact ih.trans hstep.follows

theorem Steps.sound (h : Steps {} c) : c.Sound := by
  refine h.follows.sound ⟨fun {l r i} hr => ?_, fun {l p} hp => ?_⟩
  · have hnone : (({} : Assembly).label l).refs = [] := by
      simp [label]
    rw [hnone] at hr
    cases hr
  · have hnone : (({} : Assembly).label l).pc = none := by
      simp [label]
    rw [hnone] at hp
    cases hp

/-- An operand leads to its label once that is placed. -/
theorem target_of_pending {base place : Nat} (hr : c.Pending l ⟨base, place, true⟩)
    (h : Follows c d) (hd : d.Sound) (hplaced : (d.label l).pc ≠ none) (hsize : d.pc < 2 ^ 31)
    (hbase : base ≤ d.pc) : (d.label l).pc = some (operandTarget d.bytes base place) := by
  obtain hr | ⟨-, p, hp, hword, -⟩ := h.pending hr
  · exact absurd hr.unplaced hplaced
  · have hle := hd.placed hp
    rw [hp, operandTarget, hword]
    dsimp only
    rw [Int32.toInt_ofInt_of_le (by omega) (by omega)]
    congr 1
    omega

end Assembly

end Javelin.Bytecode
