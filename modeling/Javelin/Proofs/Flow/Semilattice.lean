import Mathlib.Logic.Relation
import Javelin.Flow.Cells
import Javelin.Proofs.Flow.Frames

/-!
# The semilattice of states

Where two paths join, their states are merged. Merging is commutative, associative and idempotent up
to agreement, the dead state is its identity, and a merged state answers each question from the two
answers (`Cells.states_semilattice`). The laws are proved for states as values and carried over to
states in cells, where parts are shared and marks are made in place.

1. What tells states apart, and the laws of `Inits.merge`.
2. Cells that are sound: sides lie before, and what is certain may be.
3. Operations that add cells and leave the others as they are.
4. Changes in place.
5. Any sequence of operations.
-/

namespace Javelin.Flow

/-! ## What tells states apart -/

namespace Slots

variable {s t : Slots}

theorem eq_of_contains (h : ∀ n, s.contains n = t.contains n) : s = t := by
  cases s
  cases t
  exact congrArg Slots.mk (Nat.eq_of_testBit_eq h)

/-- No set holds all slots. -/
theorem exists_not_mem (s : Slots) : ∃ n, s.contains n = false :=
  ⟨s.bits, Nat.testBit_lt_two_pow Nat.lt_two_pow_self⟩

end Slots

namespace Inits

variable {s t u : Inits} {n : Nat}

theorem mayBeAssigned_join (hs : s.isFlat) (ht : t.isFlat) :
    (s.join t).mayBeAssigned n = (s.mayBeAssigned n || t.mayBeAssigned n) := by
  cases s <;> cases t <;> simp_all [join, isFlat, mayBeAssigned]

@[simp]
theorem mayBeAssigned_unconditional (s : Inits) :
    s.unconditional.mayBeAssigned n = s.mayBeAssigned n := by
  induction s with
  | split a b iha ihb =>
    rw [unconditional, mayBeAssigned_join (isFlat_unconditional a) (isFlat_unconditional b), iha,
      ihb]
    rfl
  | _ => rfl

@[simp]
theorem mayBeAssigned_merge (s t : Inits) :
    (s.merge t).mayBeAssigned n = (s.mayBeAssigned n || t.mayBeAssigned n) := by
  rw [merge, mayBeAssigned_join (isFlat_unconditional s) (isFlat_unconditional t)]
  simp

theorem isReachable_join (hs : s.isFlat) (ht : t.isFlat) :
    (s.join t).isReachable = (s.isReachable || t.isReachable) := by
  cases s <;> cases t <;> simp_all [join, isFlat, isReachable]

@[simp]
theorem isReachable_unconditional (s : Inits) : s.unconditional.isReachable = s.isReachable := by
  induction s with
  | split a b iha ihb =>
    rw [unconditional, isReachable_join (isFlat_unconditional a) (isFlat_unconditional b), iha, ihb]
    rfl
  | _ => rfl

@[simp]
theorem isReachable_merge (s t : Inits) :
    (s.merge t).isReachable = (s.isReachable || t.isReachable) := by
  rw [merge, isReachable_join (isFlat_unconditional s) (isFlat_unconditional t)]
  simp

/-- No question about a slot or about reachability tells the states apart. -/
structure Alike (s t : Inits) : Prop where
  reachable : s.isReachable = t.isReachable
  assigned : ∀ n, s.isAssigned n = t.isAssigned n
  maybe : ∀ n, s.mayBeAssigned n = t.mayBeAssigned n

theorem Alike.eq_of_isFlat (h : s.Alike t) (hs : s.isFlat) (ht : t.isFlat) : s = t := by
  obtain ⟨hreach, hassigned, hmaybe⟩ := h
  -- A set of slots is finite, so a live state differs from a branch that never runs.
  have finite (a p : Slots) (h : ∀ n, (live a p).isAssigned n = true) : False := by
    obtain ⟨n, hn⟩ := a.exists_not_mem
    exact Bool.false_ne_true (hn.symm.trans (h n))
  cases s with
  | split => cases hs
  | dead =>
    cases t with
    | dead => rfl
    | split => cases ht
    | _ => cases hreach
  | vacuous =>
    cases t with
    | vacuous => rfl
    | live a p => exact (finite a p fun n => (hassigned n).symm).elim
    | split => cases ht
    | dead => cases hreach
  | live a p =>
    cases t with
    | live b q =>
      rw [Slots.eq_of_contains hassigned, Slots.eq_of_contains hmaybe]
    | vacuous => exact (finite a p hassigned).elim
    | split => cases ht
    | dead => cases hreach

/-- States agree exactly if nothing tells them apart. -/
theorem agree_iff : s.agree t = true ↔ s.Alike t := by
  rw [agree, beq_iff_eq]
  constructor
  · intro h
    refine ⟨?_, fun n => ?_, fun n => ?_⟩
    · rw [← isReachable_unconditional s, h, isReachable_unconditional]
    · rw [← isAssigned_unconditional s, h, isAssigned_unconditional]
    · rw [← mayBeAssigned_unconditional s, h, mayBeAssigned_unconditional]
  · intro h
    refine Alike.eq_of_isFlat ⟨?_, fun n => ?_, fun n => ?_⟩ (isFlat_unconditional s)
      (isFlat_unconditional t)
    · simp [h.reachable]
    · simp [h.assigned]
    · simp [h.maybe]

/-! ## The laws -/

theorem merge_comm (s t : Inits) : (s.merge t).agree (t.merge s) = true :=
  agree_iff.mpr ⟨by simp [Bool.or_comm], fun n => by simp [Bool.and_comm],
    fun n => by simp [Bool.or_comm]⟩

theorem merge_assoc (s t u : Inits) : ((s.merge t).merge u).agree (s.merge (t.merge u)) = true :=
  agree_iff.mpr ⟨by simp [Bool.or_assoc], fun n => by simp [Bool.and_assoc],
    fun n => by simp [Bool.or_assoc]⟩

theorem merge_self (s : Inits) : (s.merge s).agree s = true :=
  agree_iff.mpr ⟨by simp, fun n => by simp, fun n => by simp⟩

theorem dead_merge (s : Inits) : (dead.merge s).agree s = true :=
  agree_iff.mpr ⟨by simp [isReachable], fun n => by simp [isAssigned],
    fun n => by simp [mayBeAssigned]⟩

theorem merge_dead (s : Inits) : (s.merge dead).agree s = true :=
  agree_iff.mpr ⟨by simp [isReachable], fun n => by simp [isAssigned],
    fun n => by simp [mayBeAssigned]⟩

end Inits

/-! ## States in cells -/

namespace Cells

open Relation

variable {c d e : Cells} {i j k n : Nat} {s t : Inits} {a p : Slots} {x : Cell}

/-- The sides of a split state lie before it, and what is certainly assigned may be. -/
structure Sound (c : Cells) : Prop where
  pos : 0 < c.cells.size
  first : c.cell deadEnd = .dead
  earlier : ∀ ⦃i t f : Nat⦄, c.cell i = .split t f → t < i ∧ f < i
  within : ∀ ⦃i : Nat⦄ ⦃a p : Slots⦄, c.cell i = .live a p → ∀ n, a.contains n → p.contains n

/-- No cell is lost or changed. -/
structure Grows (c d : Cells) : Prop where
  size : c.cells.size ≤ d.cells.size
  cell : ∀ i < c.cells.size, d.cell i = c.cell i

theorem Grows.refl (c : Cells) : c.Grows c := ⟨Nat.le_refl _, fun _ _ => rfl⟩

theorem Grows.trans (h : c.Grows d) (h' : d.Grows e) : c.Grows e where
  size := Nat.le_trans h.size h'.size
  cell i hi := (h'.cell i (Nat.lt_of_lt_of_le hi h.size)).trans (h.cell i hi)

/-! ### Reading -/

theorem cell_outside (h : c.cells.size ≤ i) : c.cell i = .dead := by
  unfold cell
  rw [Array.getD_eq_getD_getElem?, Array.getElem?_eq_none h]
  rfl

theorem lt_size_of_split {t f : Nat} (h : c.cell i = .split t f) : i < c.cells.size := by
  by_contra hi
  rw [cell_outside (Nat.not_lt.mp hi)] at h
  cases h

/-- Sides lie before, so a state is read whole as soon as there are more steps than cells before
it. -/
theorem Sound.readIn_eq (h : c.Sound) : ∀ (n m i : Nat), i < n → i < m →
    c.readIn n i = c.readIn m i := by
  intro n
  induction n with
  | zero => exact fun _ _ hn => absurd hn (Nat.not_lt_zero _)
  | succ n ih =>
    intro m i hn hm
    obtain ⟨m, rfl⟩ := Nat.exists_eq_add_one_of_ne_zero (show m ≠ 0 by omega)
    unfold readIn
    cases hcell : c.cell i with
    | split t f =>
      obtain ⟨ht, hf⟩ := h.earlier hcell
      show Inits.split _ _ = Inits.split _ _
      rw [ih m t (by omega) (by omega), ih m f (by omega) (by omega)]
    | _ => rfl

theorem read_dead (h : c.cell i = .dead) : c.read i = .dead := by
  unfold read readIn
  rw [h]

theorem read_vacuous (h : c.cell i = .vacuous) : c.read i = .vacuous := by
  unfold read readIn
  rw [h]

theorem read_live (h : c.cell i = .live a p) : c.read i = .live a p := by
  unfold read readIn
  rw [h]

theorem Sound.read_split (h : c.Sound) {t f : Nat} (hcell : c.cell i = .split t f) :
    c.read i = .split (c.read t) (c.read f) := by
  have hi := lt_size_of_split hcell
  obtain ⟨ht, hf⟩ := h.earlier hcell
  unfold read
  rw [readIn, hcell]
  show Inits.split _ _ = Inits.split _ _
  rw [h.readIn_eq _ (c.cells.size + 1) t (by omega) (by omega),
    h.readIn_eq _ (c.cells.size + 1) f (by omega) (by omega)]

/-- The states of cells that existed before are what they were. -/
theorem Grows.read (hg : c.Grows d) (hc : c.Sound) (hd : d.Sound) : ∀ i < c.cells.size,
    d.read i = c.read i := by
  intro i
  induction i using Nat.strongRecOn with
  | ind i ih =>
    intro hi
    have heq := hg.cell i hi
    cases hcell : c.cell i with
    | dead => rw [read_dead hcell, read_dead (heq.trans hcell)]
    | vacuous => rw [read_vacuous hcell, read_vacuous (heq.trans hcell)]
    | live a p => rw [read_live hcell, read_live (heq.trans hcell)]
    | split t f =>
      obtain ⟨ht, hf⟩ := hc.earlier hcell
      rw [hc.read_split hcell, hd.read_split (heq.trans hcell), ih t ht (by omega),
        ih f hf (by omega)]

/-- In every part of a state, what is certainly assigned may be. -/
def Within : Inits → Prop
  | .live a p => ∀ n, a.contains n → p.contains n
  | .split s t => Within s ∧ Within t
  | _ => True

theorem Sound.within_read (h : c.Sound) (i : Nat) : Within (c.read i) := by
  induction i using Nat.strongRecOn with
  | ind i ih =>
    cases hcell : c.cell i with
    | dead => rw [read_dead hcell]; trivial
    | vacuous => rw [read_vacuous hcell]; trivial
    | live a p => rw [read_live hcell]; exact h.within hcell
    | split t f =>
      obtain ⟨ht, hf⟩ := h.earlier hcell
      rw [h.read_split hcell]
      exact ⟨ih t ht, ih f hf⟩

theorem within_join (hs : Within s) (ht : Within t) : Within (s.join t) := by
  unfold Inits.join
  split
  · exact ht
  · exact hs
  · exact ht
  · exact hs
  · intro n hn
    rw [Slots.contains_inter, Bool.and_eq_true] at hn
    rw [Slots.contains_union, hs n hn.1, Bool.true_or]
  · exact hs

/-! ### Writing -/

/-- A state is that of a cell. -/
structure Holds (c : Cells) (i : CellId) (s : Inits) : Prop where
  inside : i < c.cells.size
  read : c.read i = s

/-- An operation adds cells to sound ones, and the one that it returns holds the given state. -/
structure Gives (c : Cells) (r : CellId × Cells) (s : Inits) : Prop where
  sound : r.2.Sound
  grows : c.Grows r.2
  holds : r.2.Holds r.1 s

theorem Gives.keeps {r : CellId × Cells} (h : c.Gives r s) (hc : c.Sound) (hi : c.Holds i t) :
    r.2.Holds i t where
  inside := Nat.lt_of_lt_of_le hi.inside h.grows.size
  read := (h.grows.read hc h.sound i hi.inside).trans hi.read

theorem Gives.trans {r q : CellId × Cells} (h : c.Gives r s) (h' : r.2.Gives q t) :
    c.Gives q t where
  sound := h'.sound
  grows := h.grows.trans h'.grows
  holds := h'.holds

theorem cell_push_of_lt (h : i < c.cells.size) : (c.push x).2.cell i = c.cell i := by
  show (c.cells.push x).getD i .dead = c.cells.getD i .dead
  rw [Array.getD_eq_getD_getElem?, Array.getElem?_push_lt h, Array.getD_eq_getD_getElem?,
    Array.getElem?_eq_getElem h]

theorem cell_push_self : (c.push x).2.cell c.cells.size = x := by
  show (c.cells.push x).getD c.cells.size .dead = x
  rw [Array.getD_eq_getD_getElem?, Array.getElem?_push_size]
  rfl

theorem size_push : (c.push x).2.cells.size = c.cells.size + 1 := Array.size_push x

theorem grows_push : c.Grows (c.push x).2 where
  size := by
    rw [size_push]
    omega
  cell i hi := cell_push_of_lt hi

theorem Sound.push (h : c.Sound)
    (hsplit : ∀ t f, x = .split t f → t < c.cells.size ∧ f < c.cells.size)
    (hlive : ∀ a p, x = .live a p → ∀ n, a.contains n → p.contains n) :
    (c.push x).2.Sound := by
  -- every cell is an old one, the new one or none
  have cases_at (i : Nat) : (c.push x).2.cell i = c.cell i ∨
      i = c.cells.size ∧ (c.push x).2.cell i = x := by
    rcases Nat.lt_trichotomy i c.cells.size with hi | rfl | hi
    · exact .inl (cell_push_of_lt hi)
    · exact .inr ⟨rfl, cell_push_self⟩
    · have hnone : (c.push x).2.cells.size ≤ i := by
        rw [size_push]
        omega
      exact .inl ((cell_outside hnone).trans (cell_outside (Nat.le_of_lt hi)).symm)
  refine ⟨Nat.lt_of_lt_of_le h.pos grows_push.size,
    (cell_push_of_lt h.pos).trans h.first, fun i t f hi => ?_, fun i a p hi => ?_⟩
  · rcases cases_at i with heq | ⟨rfl, heq⟩
    · exact h.earlier (heq.symm.trans hi)
    · exact hsplit t f (heq.symm.trans hi)
  · rcases cases_at i with heq | ⟨rfl, heq⟩
    · exact h.within (heq.symm.trans hi)
    · exact hlive a p (heq.symm.trans hi)

theorem lt_size_push : (c.push x).1 < (c.push x).2.cells.size := by
  rw [size_push]
  exact Nat.lt_succ_self _

theorem Sound.gives_vacuous (h : c.Sound) : c.Gives (c.push .vacuous) .vacuous where
  sound := h.push nofun nofun
  grows := grows_push
  holds := ⟨lt_size_push, read_vacuous cell_push_self⟩

theorem Sound.gives_live (h : c.Sound) (hw : ∀ n, a.contains n → p.contains n) :
    c.Gives (c.push (.live a p)) (.live a p) where
  sound := h.push nofun fun a' p' heq => by
    obtain ⟨rfl, rfl⟩ := Cell.live.inj heq
    exact hw
  grows := grows_push
  holds := ⟨lt_size_push, read_live cell_push_self⟩

theorem Sound.gives_split (h : c.Sound) (hi : c.Holds i s) (hj : c.Holds j t) :
    c.Gives (c.split i j) (.split s t) := by
  have hsound : (c.split i j).2.Sound := by
    refine h.push (fun t f heq => ?_) nofun
    obtain ⟨rfl, rfl⟩ := Cell.split.inj heq
    exact ⟨hi.inside, hj.inside⟩
  have hgrows : c.Grows (c.split i j).2 := grows_push
  have hcell : (c.split i j).2.cell (c.split i j).1 = .split i j := cell_push_self
  refine ⟨hsound, hgrows, lt_size_push, ?_⟩
  rw [hsound.read_split hcell, hgrows.read h hsound i hi.inside, hgrows.read h hsound j hj.inside,
    hi.read, hj.read]

/-- A state in which what is certain may be has cells of its own once it is written. -/
theorem Sound.gives_write (h : c.Sound) (hs : Within s) : c.Gives (c.write s) s := by
  induction s generalizing c with
  | dead => exact ⟨h, .refl c, h.pos, read_dead h.first⟩
  | vacuous => exact h.gives_vacuous
  | live a p => exact h.gives_live hs
  | split s t ihs iht =>
    have hfirst := ihs h hs.1
    have hsecond := iht hfirst.sound hs.2
    have hsplit := hsecond.sound.gives_split (hsecond.keeps hfirst.sound hfirst.holds) hsecond.holds
    exact (hfirst.trans hsecond).trans hsplit

theorem Holds.within (hi : c.Holds i s) (h : c.Sound) : Within s := hi.read ▸ h.within_read i

theorem Sound.gives_copy (h : c.Sound) (hi : c.Holds i s) : c.Gives (c.copy i) s := by
  unfold copy
  rw [hi.read]
  exact h.gives_write (hi.within h)

/-! ### Joining -/

theorem setIfInBounds_push {α : Type} (xs : Array α) (a b : α) :
    (xs.push a).setIfInBounds xs.size b = xs.push b := by
  rw [Array.setIfInBounds, dif_pos (by simp), Array.set_push, dif_neg (Nat.lt_irrefl _)]

theorem not_isFlat_of_split {t f : Nat} (h : c.cell i = .split t f) : ¬(c.read i).isFlat := by
  unfold read readIn
  rw [h]
  nofun

/-- To join in a copy is to write what the two states are joined to. -/
theorem join_eq (hi : (c.read i).isFlat) (hj : (c.read j).isFlat) :
    c.join i j = c.write ((c.read i).join (c.read j)) := by
  unfold join copy
  cases hci : c.cell i with
  | dead => rw [read_dead hci]; rfl
  | split => exact absurd hi (not_isFlat_of_split hci)
  | vacuous =>
    rw [read_vacuous hci]
    cases hcj : c.cell j with
    | dead => rw [read_dead hcj]; rfl
    | vacuous => rw [read_vacuous hcj]; rfl
    | live b q => rw [read_live hcj]; rfl
    | split => exact absurd hj (not_isFlat_of_split hcj)
  | live a p =>
    rw [read_live hci]
    cases hcj : c.cell j with
    | dead => rw [read_dead hcj]; rfl
    | vacuous => rw [read_vacuous hcj]; rfl
    | split => exact absurd hj (not_isFlat_of_split hcj)
    | live b q =>
      rw [read_live hcj]
      -- the copy of a live state is one new cell, which is then changed
      have hcell : (c.push (.live a p)).2.cell c.cells.size = .live a p := cell_push_self
      show (c.cells.size, (c.push (.live a p)).2.update c.cells.size _) =
        (c.cells.size, (⟨c.cells.push (.live (a.inter b) (p.union q))⟩ : Cells))
      unfold update updateIn
      rw [hcell]
      exact congrArg (fun cells => (c.cells.size, (⟨cells⟩ : Cells))) (setIfInBounds_push _ _ _)

theorem Sound.gives_join (h : c.Sound) (hi : c.Holds i s) (hj : c.Holds j t) (hs : s.isFlat)
    (ht : t.isFlat) : c.Gives (c.join i j) (s.join t) := by
  rw [join_eq (hi.read.symm ▸ hs) (hj.read.symm ▸ ht), hi.read, hj.read]
  exact h.gives_write (within_join (hi.within h) (hj.within h))

/-- Merging two states, given what it is for each of them not to depend on a condition. -/
theorem Gives.merge {q r : CellId × Cells} (hq : c.Gives q s.unconditional)
    (hr : q.2.Gives r t.unconditional) : c.Gives (r.2.join q.1 r.1) (s.merge t) :=
  (hq.trans hr).trans <| hr.sound.gives_join (hr.keeps hq.sound hq.holds) hr.holds
    (Inits.isFlat_unconditional s) (Inits.isFlat_unconditional t)

theorem Sound.gives_unconditionalIn (h : c.Sound) (hn : i < n) (hi : c.Holds i s) :
    c.Gives (unconditionalIn n i c) s.unconditional := by
  induction n generalizing c i s with
  | zero => exact absurd hn (Nat.not_lt_zero _)
  | succ n ih =>
    obtain ⟨hi, rfl⟩ := hi
    unfold unconditionalIn
    cases hcell : c.cell i with
    | dead => exact ⟨h, .refl c, hi, by rw [read_dead hcell]; rfl⟩
    | vacuous => exact ⟨h, .refl c, hi, by rw [read_vacuous hcell]; rfl⟩
    | live a p => exact ⟨h, .refl c, hi, by rw [read_live hcell]; rfl⟩
    | split t f =>
      obtain ⟨ht, hf⟩ := h.earlier hcell
      have hle : i ≤ n := Nat.le_of_lt_succ hn
      have hno : c.Holds f (c.read f) := ⟨Nat.lt_trans hf hi, rfl⟩
      have hyes := ih h (Nat.lt_of_lt_of_le ht hle) ⟨Nat.lt_trans ht hi, rfl⟩
      have hboth := ih hyes.sound (Nat.lt_of_lt_of_le hf hle) (hyes.keeps h hno)
      rw [h.read_split hcell]
      exact hyes.merge hboth

theorem Sound.gives_unconditional (h : c.Sound) (hi : c.Holds i s) :
    c.Gives (c.unconditional i) s.unconditional :=
  h.gives_unconditionalIn (Nat.lt_succ_of_lt hi.inside) hi

/-- Merging adds cells that hold the merged state, and leaves the others as they are. -/
theorem Sound.gives_merge (h : c.Sound) (hi : c.Holds i s) (hj : c.Holds j t) :
    c.Gives (c.merge i j) (s.merge t) := by
  have hleft := h.gives_unconditional hi
  have hright := hleft.sound.gives_unconditional (hleft.keeps h hj)
  exact hleft.merge hright

/-! ### Changing in place -/

/-- A change under which what is certain stays among what may be. -/
def Widening (f : Slots → Slots → Slots × Slots) : Prop :=
  ∀ a p, (∀ n, a.contains n → p.contains n) → ∀ n, (f a p).1.contains n → (f a p).2.contains n

theorem cell_set : (⟨c.cells.setIfInBounds i x⟩ : Cells).cell j =
    if i = j ∧ i < c.cells.size then x else c.cell j := by
  unfold cell
  rw [Array.getD_eq_getD_getElem?, Array.getElem?_setIfInBounds, Array.getD_eq_getD_getElem?]
  by_cases hij : i = j
  · subst hij
    by_cases hi : i < c.cells.size
    · rw [if_pos rfl, if_pos hi, if_pos ⟨rfl, hi⟩]
      rfl
    · rw [if_pos rfl, if_neg hi, if_neg (fun h => hi h.2), Array.getElem?_eq_none (by omega)]
  · rw [if_neg hij, if_neg (fun h => hij h.1)]

/-- The same cells, with a different state in one that holds a live one. -/
theorem Sound.set (h : c.Sound) (hcell : c.cell i = .live a p)
    {b q : Slots} (hw : ∀ n, b.contains n → q.contains n) :
    Sound ⟨c.cells.setIfInBounds i (.live b q)⟩ := by
  refine ⟨?_, ?_, fun j t f hj => ?_, fun j b' q' hj => ?_⟩
  · rw [Array.size_setIfInBounds]
    exact h.pos
  · rw [cell_set, if_neg]
    · exact h.first
    · rintro ⟨rfl, -⟩
      rw [h.first] at hcell
      cases hcell
  · rw [cell_set] at hj
    split at hj
    · cases hj
    · exact h.earlier hj
  · rw [cell_set] at hj
    split at hj
    · obtain ⟨rfl, rfl⟩ := Cell.live.inj hj
      exact hw
    · exact h.within hj

theorem Sound.updateIn {f : Slots → Slots → Slots × Slots} (hf : Widening f) (h : c.Sound) :
    (updateIn f n i c).Sound ∧ (Cells.updateIn f n i c).cells.size = c.cells.size := by
  induction n generalizing c i with
  | zero => exact ⟨h, rfl⟩
  | succ n ih =>
    unfold Cells.updateIn
    cases hcell : c.cell i with
    | live a p => exact ⟨h.set hcell (hf a p (h.within hcell)), Array.size_setIfInBounds⟩
    | split t e =>
      obtain ⟨hyes, hsize⟩ := ih (i := t) h
      obtain ⟨hno, hsize'⟩ := ih (i := e) hyes
      exact ⟨hno, hsize'.trans hsize⟩
    | dead => exact ⟨h, rfl⟩
    | vacuous => exact ⟨h, rfl⟩

theorem Sound.update {f : Slots → Slots → Slots × Slots} (hf : Widening f) (h : c.Sound) :
    (c.update i f).Sound :=
  (h.updateIn hf).1

theorem widening_insert (m : Nat) : Widening fun a p => (a.insert m, p.insert m) := by
  intro a p h n hn
  simp only [Slots.contains_insert, Bool.or_eq_true] at hn ⊢
  exact hn.imp_left (h n)

theorem widening_allow (ms : List Nat) : Widening fun a p => (a, ms.foldl Slots.insert p) := by
  intro a p h n hn
  show (ms.foldl Slots.insert p).contains n = true
  rw [Slots.contains_insertAll, h n hn, Bool.true_or]

theorem widening_erase (m : Nat) : Widening fun a p => (a.erase m, p.erase m) := by
  intro a p h n hn
  simp only [Slots.contains_erase, Bool.and_eq_true] at hn ⊢
  exact hn.imp_left (h n)

theorem widening_union {b q : Slots} (hw : ∀ n, b.contains n → q.contains n) :
    Widening fun a p => (a.union b, p.union q) := by
  intro a p h n hn
  simp only [Slots.contains_union, Bool.or_eq_true] at hn ⊢
  exact hn.imp (h n) (hw n)

theorem widening_unionPotential (q : Slots) : Widening fun a p => (a, p.union q) := by
  intro a p h n hn
  show (p.union q).contains n = true
  rw [Slots.contains_union, h n hn, Bool.true_or]

theorem Sound.andThen (h : c.Sound) (hj : j < c.cells.size) : (c.andThen i j).Sound := by
  have hgives := h.gives_unconditional ⟨hj, rfl⟩
  unfold Cells.andThen
  dsimp only
  split
  next _ b q _ hblock => exact hgives.sound.update (widening_union (hgives.sound.within hblock))
  next => exact hgives.sound

theorem Sound.allowFrom (h : c.Sound) (hj : j < c.cells.size) : (c.allowFrom i j).Sound := by
  have hgives := h.gives_unconditional ⟨hj, rfl⟩
  unfold Cells.allowFrom
  dsimp only
  split
  next => exact hgives.sound.update (widening_unionPotential _)
  next => exact hgives.sound

/-! ### Any sequence of operations -/

/-- One operation on states that exist. -/
inductive Step : Cells → Cells → Prop where
  | start (c : Cells) : Step c (c.write .start).2
  | vacuous (c : Cells) : Step c (c.write .vacuous).2
  | split {c : Cells} {i j : CellId} : i < c.cells.size → j < c.cells.size → Step c (c.split i j).2
  | assign {c : Cells} {i : CellId} (n : Nat) : i < c.cells.size → Step c (c.assign i n)
  | allow {c : Cells} {i : CellId} (ns : List Nat) : i < c.cells.size → Step c (c.allow i ns)
  | forget {c : Cells} {i : CellId} (n : Nat) : i < c.cells.size → Step c (c.forget i n)
  | copy {c : Cells} {i : CellId} : i < c.cells.size → Step c (c.copy i).2
  | merge {c : Cells} {i j : CellId} : i < c.cells.size → j < c.cells.size → Step c (c.merge i j).2
  | unconditional {c : Cells} {i : CellId} : i < c.cells.size → Step c (c.unconditional i).2
  | andThen {c : Cells} {i j : CellId} : i < c.cells.size → j < c.cells.size →
    Step c (c.andThen i j)
  | allowFrom {c : Cells} {i j : CellId} : i < c.cells.size → j < c.cells.size →
    Step c (c.allowFrom i j)

theorem Step.sound (h : Step c d) (hc : c.Sound) : d.Sound := by
  cases h with
  | start =>
    have hw : Within .start := fun _ hn => hn
    exact (hc.gives_write hw).sound
  | vacuous => exact hc.gives_vacuous.sound
  | split hi hj => exact (hc.gives_split ⟨hi, rfl⟩ ⟨hj, rfl⟩).sound
  | assign m => exact hc.update (widening_insert m)
  | allow ms => exact hc.update (widening_allow ms)
  | forget m => exact hc.update (widening_erase m)
  | copy hi => exact (hc.gives_copy ⟨hi, rfl⟩).sound
  | merge hi hj => exact (hc.gives_merge ⟨hi, rfl⟩ ⟨hj, rfl⟩).sound
  | unconditional hi => exact (hc.gives_unconditional ⟨hi, rfl⟩).sound
  | andThen _ hj => exact hc.andThen hj
  | allowFrom _ hj => exact hc.allowFrom hj

theorem sound_empty : Sound {} := by
  have hdead (i : Nat) : cell {} i = .dead := by
    cases i with
    | zero => rfl
    | succ i => exact cell_outside (Nat.le_add_left 1 i)
  refine ⟨Nat.one_pos, hdead 0, fun i t f h => ?_, fun i a p h => ?_⟩
  · rw [hdead] at h
    cases h
  · rw [hdead] at h
    cases h

theorem sound_of_steps (h : ReflTransGen Step {} c) : c.Sound := by
  induction h with
  | refl => exact sound_empty
  | tail _ hstep ih => exact hstep.sound ih

theorem Holds.agree (hi : c.Holds i s) (hj : c.Holds j t) : c.agree i j = s.agree t := by
  rw [Cells.agree, hi.read, hj.read]

/-- States form a semilattice, however they were built. What is certainly assigned in a live one may
be. A merged state answers from both that were merged, which stay as they are, and up to agreement
the order of merging, repetition and dead ends are of no account. -/
theorem states_semilattice (h : ReflTransGen Step {} c) {i j k : CellId} (hi : i < c.cells.size)
    (hj : j < c.cells.size) (hk : k < c.cells.size) :
    (∀ (l : CellId) a p, c.cell l = .live a p → ∀ n, a.contains n → p.contains n) ∧
    (c.agree i j = true ↔ (c.read i).Alike (c.read j)) ∧
    (let ij := c.merge i j
     (∀ l < c.cells.size, ij.2.cell l = c.cell l ∧ ij.2.read l = c.read l) ∧
     (∀ n, (ij.2.read ij.1).isAssigned n = ((c.read i).isAssigned n && (c.read j).isAssigned n)) ∧
     (∀ n, (ij.2.read ij.1).mayBeAssigned n =
       ((c.read i).mayBeAssigned n || (c.read j).mayBeAssigned n)) ∧
     (ij.2.read ij.1).isReachable = ((c.read i).isReachable || (c.read j).isReachable)) ∧
    (let ij := c.merge i j
     let ji := ij.2.merge j i
     ji.2.agree ij.1 ji.1 = true) ∧
    (let ij := c.merge i j
     let left := ij.2.merge ij.1 k
     let jk := left.2.merge j k
     let right := jk.2.merge i jk.1
     right.2.agree left.1 right.1 = true) ∧
    (let ii := c.merge i i
     ii.2.agree ii.1 i = true) ∧
    (let before := c.merge deadEnd i
     let after := before.2.merge i deadEnd
     after.2.agree before.1 i = true ∧ after.2.agree after.1 i = true) := by
  have hc := sound_of_steps h
  have hi : c.Holds i (c.read i) := ⟨hi, rfl⟩
  have hj : c.Holds j (c.read j) := ⟨hj, rfl⟩
  have hk : c.Holds k (c.read k) := ⟨hk, rfl⟩
  have hdead : c.Holds deadEnd .dead := ⟨hc.pos, read_dead hc.first⟩
  have hij := hc.gives_merge hi hj
  refine ⟨fun l a p hl => hc.within hl, Inits.agree_iff, ?_, ?_, ?_, ?_, ?_⟩
  · intro ij
    refine ⟨fun l hl => ⟨hij.grows.cell l hl, (hij.keeps hc ⟨hl, rfl⟩).read⟩, fun n => ?_,
      fun n => ?_, ?_⟩
    · rw [hij.holds.read, Inits.isAssigned_merge]
    · rw [hij.holds.read, Inits.mayBeAssigned_merge]
    · rw [hij.holds.read, Inits.isReachable_merge]
  · intro ij ji
    have hji := hij.sound.gives_merge (hij.keeps hc hj) (hij.keeps hc hi)
    rw [(hji.keeps hij.sound hij.holds).agree hji.holds]
    exact Inits.merge_comm _ _
  · intro ij left jk right
    have hleft := hij.sound.gives_merge hij.holds (hij.keeps hc hk)
    have hboth := hij.trans hleft
    have hjk := hboth.sound.gives_merge (hboth.keeps hc hj) (hboth.keeps hc hk)
    have hall := hboth.trans hjk
    have hright := hall.sound.gives_merge (hall.keeps hc hi) hall.holds
    rw [(hright.keeps hall.sound (hjk.keeps hboth.sound hboth.holds)).agree hright.holds]
    exact Inits.merge_assoc _ _ _
  · intro ii
    have hii := hc.gives_merge hi hi
    rw [hii.holds.agree (hii.keeps hc hi)]
    exact Inits.merge_self _
  · intro before after
    have hbefore := hc.gives_merge hdead hi
    have hafter := hbefore.sound.gives_merge (hbefore.keeps hc hi) (hbefore.keeps hc hdead)
    have hi := (hbefore.trans hafter).keeps hc hi
    constructor
    · rw [(hafter.keeps hbefore.sound hbefore.holds).agree hi]
      exact Inits.dead_merge _
    · rw [hafter.holds.agree hi]
      exact Inits.merge_dead _

/-- A live state with one slot assigned, a branch that never runs, and the state that depends on
which of them it is. -/
def sampleCells : Cells :=
  let (i, c) := ({} : Cells).write .start
  let (j, c) := (c.assign i 0).write .vacuous
  (c.split i j).2

theorem sampleCells_built : ReflTransGen Step {} sampleCells :=
  .tail (.tail (.tail (.tail .refl (.start _)) (.assign 0 (i := 1) (by decide))) (.vacuous _))
    (.split (i := 1) (j := 2) (by decide) (by decide))

theorem states_semilattice_sample : ReflTransGen Step {} sampleCells ∧
    (let r := sampleCells.merge 3 1
     r.2.read r.1 = .live ⟨1⟩ ⟨1⟩ ∧ ∀ l < 4, r.2.cell l = sampleCells.cell l) := by
  obtain ⟨-, -, ⟨hkept, -⟩, -⟩ := states_semilattice sampleCells_built (i := 3) (j := 1) (k := 2)
    (by decide) (by decide) (by decide)
  exact ⟨sampleCells_built, by decide +kernel, fun l hl => (hkept l hl).1⟩

end Cells

end Javelin.Flow
