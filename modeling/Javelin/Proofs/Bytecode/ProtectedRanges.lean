import Mathlib.Data.List.Basic
import Javelin.Bytecode.Assembly

/-!
# The code that a handler protects

A region is cut where a jump leaves it, and `Assembly.protect` goes once through its gaps. Whether a
place is protected is decided by the first gap that ends behind it (`Region.covers_iff_find?`). So
if the gaps stand in the order of their starts, as after cuts that were made one after another, the
entries in the table of handlers are for exactly the code between them, and a gap that encloses an
earlier one is cut out in part only (`Assembly.protect_ranges`).

1. `Region.InOrder`, gaps that follow each other, and what a region covers.
2. The entries of the table.
3. Instructions only add code.
-/

namespace Javelin.Bytecode

namespace Region

/-- The region protects a place. -/
def Covers (r : Region) (p : Nat) : Prop := ∃ range ∈ r.ranges, range.1 ≤ p ∧ p < range.2

/-- Gaps that follow each other between two places. -/
def InOrder : Nat → List (Nat × Nat) → Nat → Prop
  | start, [], stop => start ≤ stop
  | start, (a, b) :: gaps, stop => start ≤ a ∧ a < b ∧ InOrder b gaps stop

variable {start stop here a b p : Nat} {gaps : List (Nat × Nat)}

theorem InOrder.le (h : InOrder start gaps stop) : start ≤ stop := by
  induction gaps generalizing start with
  | nil => exact h
  | cons g gaps ih =>
    obtain ⟨hstart, hgap, hrest⟩ := h
    have := ih hrest
    omega

/-- A gap lies behind the start. -/
theorem InOrder.start_le (h : InOrder start gaps stop) : ∀ g ∈ gaps, start ≤ g.1 := by
  induction gaps generalizing start with
  | nil => nofun
  | cons g gaps ih =>
    obtain ⟨hstart, hgap, hrest⟩ := h
    intro g' hg'
    rcases List.mem_cons.1 hg' with rfl | hg'
    · exact hstart
    · have := ih hrest g' hg'
      omega

theorem InOrder.mono (h : InOrder start gaps here) (hle : here ≤ stop) :
    InOrder start gaps stop := by
  induction gaps generalizing start with
  | nil => exact Nat.le_trans h hle
  | cons g gaps ih => exact ⟨h.1, h.2.1, ih h.2.2⟩

/-- A cut behind all gaps. -/
theorem InOrder.append (h : InOrder start gaps here) (ha : here ≤ a) (hab : a < b) :
    InOrder start (gaps ++ [(a, b)]) b := by
  induction gaps generalizing start with
  | nil => exact ⟨Nat.le_trans h ha, hab, Nat.le_refl b⟩
  | cons g gaps ih => exact ⟨h.1, h.2.1, ih h.2.2⟩

/-- A place is covered exactly if the first gap that ends behind it also starts behind it. -/
theorem rangesFrom_covers (h : ∀ g ∈ gaps, g.1 < g.2) :
    (∃ range ∈ rangesFrom stop start gaps, range.1 ≤ p ∧ p < range.2) ↔
      start ≤ p ∧ (∀ g, gaps.find? (p < ·.2) = some g → p < g.1) ∧
        (gaps.find? (p < ·.2) = none → p < stop) := by
  induction gaps generalizing start with
  | nil =>
    unfold rangesFrom
    split
    · simp
    next hle =>
      simp only [List.not_mem_nil, false_and, exists_false, List.find?_nil, true_imp_iff]
      refine iff_of_false nofun fun hp => ?_
      omega
  | cons g gaps ih =>
    obtain ⟨hgap, hrest⟩ := List.forall_mem_cons.1 h
    unfold rangesFrom
    by_cases hp : p < g.2
    · -- This gap decides, and what the others leave lies behind it.
      rw [List.find?_cons_of_pos (by simpa using hp)]
      have hbehind : ¬ ∃ range ∈ rangesFrom stop (max start g.2) gaps,
          range.1 ≤ p ∧ p < range.2 := by
        rw [ih hrest]
        omega
      have hg : (∀ g', some g = some g' → p < g'.1) ↔ p < g.1 := by simp
      rw [hg]
      split
      · rw [List.exists_mem_cons_iff, or_iff_left hbehind]
        simp
      · refine iff_of_false hbehind fun hp' => ?_
        omega
    · rw [List.find?_cons_of_neg (by simpa using hp)]
      have hmax : max start g.2 ≤ p ↔ start ≤ p := by omega
      split
      · rw [List.exists_mem_cons_iff, ih hrest, hmax]
        exact or_iff_right fun hin => by omega
      · rw [ih hrest, hmax]

/-- Places that are covered lie in the region, and places of the region in no gap are covered. -/
theorem covers_iff_find? {r : Region} (h : ∀ g ∈ r.gaps, g.1 < g.2 ∧ g.2 ≤ r.stop) :
    r.Covers p ↔ r.start ≤ p ∧ p < r.stop ∧ ∀ g, r.gaps.find? (p < ·.2) = some g → p < g.1 := by
  refine (rangesFrom_covers fun g hg => (h g hg).1).trans (and_congr_right fun _ => ?_)
  cases hfind : r.gaps.find? (p < ·.2) with
  | none => simp
  | some g =>
    have hg := h g (List.mem_of_find?_eq_some hfind)
    have hp : p < g.2 := by simpa using List.find?_some hfind
    simp only [Option.some.injEq, forall_eq', reduceCtorEq, false_imp_iff, and_true]
    exact ⟨fun hlt => ⟨by omega, hlt⟩, And.right⟩

/-- A region covers what lies in it and in none of its gaps, exactly if the first gap that ends
behind a place of some gap holds that place. -/
theorem covers_exactly_iff {r : Region} (h : ∀ g ∈ r.gaps, g.1 < g.2 ∧ g.2 ≤ r.stop) :
    (∀ p, r.Covers p ↔ r.start ≤ p ∧ p < r.stop ∧ ∀ g ∈ r.gaps, ¬ (g.1 ≤ p ∧ p < g.2)) ↔
      ∀ p g g', r.start ≤ p → r.gaps.find? (p < ·.2) = some g → g' ∈ r.gaps →
        g'.1 ≤ p ∧ p < g'.2 → g.1 ≤ p := by
  constructor
  · intro hexact p g g' hstart hfind hg' hin
    by_contra hlt
    have hcovers : r.Covers p := (covers_iff_find? h).2 ⟨hstart, by have := h g' hg'; omega,
      fun g'' hg'' => by rw [hfind] at hg''; cases hg''; omega⟩
    exact ((hexact p).1 hcovers).2.2 g' hg' hin
  · intro hfirst p
    rw [covers_iff_find? h]
    refine and_congr_right fun hstart => and_congr_right fun _ => ?_
    constructor
    · intro hcovers g' hg' hin
      have hsome : (r.gaps.find? (p < ·.2)).isSome :=
        List.find?_isSome.2 ⟨g', hg', by simpa using hin.2⟩
      obtain ⟨g, hfind⟩ := Option.isSome_iff_exists.1 hsome
      have := hcovers g hfind
      have := hfirst p g g' hstart hfind hg' hin
      omega
    · intro hnone g hfind
      have hp : p < g.2 := by simpa using List.find?_some hfind
      have := hnone g (List.mem_of_find?_eq_some hfind)
      omega

/-- Gaps in the order of their starts are all cut out. -/
theorem covers_of_sorted {r : Region} (h : ∀ g ∈ r.gaps, g.1 < g.2 ∧ g.2 ≤ r.stop)
    (hsorted : r.gaps.Pairwise (·.1 ≤ ·.1)) :
    r.Covers p ↔ r.start ≤ p ∧ p < r.stop ∧ ∀ g ∈ r.gaps, ¬ (g.1 ≤ p ∧ p < g.2) := by
  refine (covers_exactly_iff h).2 (fun p g g' _ hfind hg' hin => ?_) p
  obtain ⟨-, front, back, hgaps, hfront⟩ := List.find?_eq_some_iff_append.1 hfind
  rw [hgaps] at hsorted hg'
  rcases List.mem_append.1 hg' with hg' | hg'
  · exact absurd hin.2 (by simpa using hfront g' hg')
  · rcases List.mem_cons.1 hg' with rfl | hg'
    · exact hin.1
    · have := (List.pairwise_cons.1 (List.pairwise_append.1 hsorted).2.1).1 g' hg'
      omega

/-- The ranges are not empty, and each one starts behind those before it. -/
theorem rangesFrom_inOrder (h : ∀ g ∈ gaps, g.1 < g.2) :
    (∀ range ∈ rangesFrom stop start gaps, start ≤ range.1 ∧ range.1 < range.2) ∧
      (rangesFrom stop start gaps).Pairwise (·.2 ≤ ·.1) := by
  induction gaps generalizing start with
  | nil =>
    unfold rangesFrom
    split
    next hlt =>
      exact ⟨List.forall_mem_singleton.2 ⟨Nat.le_refl start, hlt⟩, List.pairwise_singleton _ _⟩
    next => exact ⟨nofun, .nil⟩
  | cons g gaps ih =>
    obtain ⟨hgap, hrest⟩ := List.forall_mem_cons.1 h
    obtain ⟨hbehind, hordered⟩ := @ih (max start g.2) hrest
    have hstart : ∀ range ∈ rangesFrom stop (max start g.2) gaps,
        start ≤ range.1 ∧ range.1 < range.2 := fun range hrange => by
      have := hbehind range hrange
      omega
    unfold rangesFrom
    split
    next hlt =>
      refine ⟨List.forall_mem_cons.2 ⟨⟨Nat.le_refl start, hlt⟩, hstart⟩,
        List.pairwise_cons.2 ⟨fun range hrange => ?_, hordered⟩⟩
      have := hbehind range hrange
      dsimp only
      omega
    next => exact ⟨hstart, hordered⟩

theorem InOrder.sorted (h : InOrder start gaps stop) :
    (∀ g ∈ gaps, g.1 < g.2 ∧ g.2 ≤ stop) ∧ gaps.Pairwise (·.1 ≤ ·.1) := by
  induction gaps generalizing start with
  | nil => exact ⟨nofun, .nil⟩
  | cons g gaps ih =>
    obtain ⟨hstart, hgap, hrest⟩ := h
    obtain ⟨hin, hsorted⟩ := ih hrest
    refine ⟨List.forall_mem_cons.2 ⟨⟨hgap, hrest.le⟩, hin⟩, List.pairwise_cons.2 ⟨fun g' hg' => ?_,
      hsorted⟩⟩
    have := hrest.start_le g' hg'
    omega

/-- A region covers what lies in it and in none of its gaps. -/
theorem covers_iff {r : Region} (h : InOrder r.start r.gaps r.stop) :
    r.Covers p ↔ r.start ≤ p ∧ p < r.stop ∧ ∀ g ∈ r.gaps, ¬ (g.1 ≤ p ∧ p < g.2) :=
  covers_of_sorted h.sorted.1 h.sorted.2

theorem inOrder_cut {r : Region} (h : InOrder r.start r.gaps a) (hab : a ≤ b) :
    InOrder (r.cut a b).start (r.cut a b).gaps b := by
  unfold cut
  split
  next hlt => exact h.append (Nat.le_refl a) hlt
  next => exact h.mono hab

/-- A cut behind all gaps takes its code out and leaves the rest as it is. -/
theorem covers_cut {r : Region} (h : InOrder r.start r.gaps a) (hab : a ≤ b) (hb : b ≤ stop) :
    Covers { r.cut a b with stop } p ↔ Covers { r with stop } p ∧ ¬ (a ≤ p ∧ p < b) := by
  have hcut := (inOrder_cut h hab).mono hb
  rw [covers_iff (r := { r.cut a b with stop }) hcut,
    covers_iff (r := { r with stop }) (h.mono (Nat.le_trans hab hb))]
  unfold cut
  split
  next =>
    rw [List.forall_mem_append, List.forall_mem_singleton]
    simp only [and_assoc]
  next hle =>
    have hnone : ¬ (a ≤ p ∧ p < b) := by omega
    rw [and_iff_left hnone]

/-- The ranges lie in the region. -/
theorem rangesFrom_le (h : InOrder start gaps stop) :
    ∀ range ∈ rangesFrom stop start gaps, range.1 ≤ stop ∧ range.2 ≤ stop := by
  induction gaps generalizing start with
  | nil =>
    intro range hrange
    unfold rangesFrom at hrange
    split at hrange
    · cases List.mem_singleton.1 hrange
      exact ⟨h, Nat.le_refl stop⟩
    · cases hrange
  | cons g gaps ih =>
    obtain ⟨hstart, hgap, hrest⟩ := h
    have hle := hrest.le
    intro range hrange
    unfold rangesFrom at hrange
    rw [Nat.max_eq_right (by omega)] at hrange
    split at hrange
    · rcases List.mem_cons.1 hrange with rfl | hrange
      · exact ⟨by dsimp only; omega, by dsimp only; omega⟩
      · exact ih hrest range hrange
    · exact ih hrest range hrange

end Region

/-! ## The table of handlers -/

namespace Assembly

/-- The entries that were added to the table of handlers protect a place. -/
def NewlyCovered (c c' : Assembly) (p : Nat) : Prop :=
  ∃ e ∈ c'.handlers.toList.drop c.handlers.size, e.start.toNat ≤ p ∧ p < e.stop.toNat

/-- The entry for a range. -/
def entryOf (target : Nat) (type : UInt16) (range : Nat × Nat) : ClassFile.Handler :=
  ⟨range.1.toUInt16, range.2.toUInt16, target.toUInt16, type⟩

theorem handlers_protect (c : Assembly) (r : Region) (target : Nat) (type : UInt16) :
    (c.protect r target type).handlers.toList =
      c.handlers.toList ++ r.ranges.map (entryOf target type) := by
  unfold protect
  induction r.ranges generalizing c with
  | nil => simp
  | cons range ranges ih =>
    rw [List.foldl_cons, ih, List.map_cons, List.append_cons]
    simp [addHandler, entryOf]

/-- The entries that are added for a region with gaps are not empty and follow each other, and a
place of the region is left out exactly if the first gap that ends behind it holds it. So they are
for the region without its gaps exactly if, wherever a gap holds a place, the first gap that ends
behind the place does, as is so when the gaps stand in the order of their starts. A gap that
encloses an earlier one and starts before it is left out only from the start of that one on. -/
theorem protect_ranges {r : Region} (h : ∀ g ∈ r.gaps, g.1 < g.2 ∧ g.2 ≤ r.stop) (c : Assembly)
    (target : Nat) (type : UInt16) :
    (c.protect r target type).handlers.toList =
        c.handlers.toList ++ r.ranges.map (entryOf target type) ∧
      (∀ range ∈ r.ranges, range.1 < range.2) ∧ r.ranges.Pairwise (·.2 ≤ ·.1) ∧
      (∀ p, r.Covers p ↔
        r.start ≤ p ∧ p < r.stop ∧ ∀ g, r.gaps.find? (p < ·.2) = some g → p < g.1) ∧
      ((∀ p, r.Covers p ↔ r.start ≤ p ∧ p < r.stop ∧ ∀ g ∈ r.gaps, ¬ (g.1 ≤ p ∧ p < g.2)) ↔
        ∀ p g g', r.start ≤ p → r.gaps.find? (p < ·.2) = some g → g' ∈ r.gaps →
          g'.1 ≤ p ∧ p < g'.2 → g.1 ≤ p) :=
  have hordered := Region.rangesFrom_inOrder fun g hg => (h g hg).1
  ⟨handlers_protect c r target type, fun range hrange => (hordered.1 range hrange).2, hordered.2,
    fun _ => Region.covers_iff_find? h, Region.covers_exactly_iff h⟩

/-- A region with a gap that encloses the one before it. -/
def enclosed : Region := ⟨0, 29, [(8, 14), (2, 14), (22, 29)]⟩

theorem protect_ranges_enclosed : enclosed.ranges = [(0, 8), (14, 22)] ∧ enclosed.Covers 3 ∧
    ¬ ∀ p, enclosed.Covers p ↔ 0 ≤ p ∧ p < 29 ∧ ∀ g ∈ enclosed.gaps, ¬ (g.1 ≤ p ∧ p < g.2) := by
  obtain ⟨-, -, -, hcovers, hexact⟩ :=
    protect_ranges (r := enclosed) (by decide) {} 29 0
  refine ⟨rfl, (hcovers 3).2 (by decide), fun hall => ?_⟩
  have := hexact.1 hall 3 (8, 14) (2, 14) (by decide) rfl (by decide) (by decide)
  omega

/-- The entries for a region protect what the region covers. -/
theorem newlyCovered_protect {c : Assembly} {r : Region} {target stop p : Nat} {type : UInt16}
    (h : Region.InOrder r.start r.gaps stop) (hstop : stop < 65536) :
    NewlyCovered c (c.protect { r with stop } target type) p ↔ Region.Covers { r with stop } p := by
  have hdrop : (c.protect { r with stop } target type).handlers.toList.drop c.handlers.size =
      (Region.ranges { r with stop }).map (entryOf target type) := by
    rw [handlers_protect, ← Array.length_toList, List.drop_left]
  have hword : ∀ n, n ≤ stop → n.toUInt16.toNat = n := fun n hn =>
    Nat.mod_eq_of_lt (by omega)
  have hrange : ∀ range ∈ Region.ranges { r with stop },
      ((entryOf target type range).start.toNat ≤ p ∧
        p < (entryOf target type range).stop.toNat ↔ range.1 ≤ p ∧ p < range.2) := by
    intro range hmem
    obtain ⟨h1, h2⟩ := Region.rangesFrom_le h range hmem
    unfold entryOf
    rw [hword _ h1, hword _ h2]
  unfold NewlyCovered Region.Covers
  rw [hdrop]
  constructor
  · rintro ⟨e, he, hp⟩
    obtain ⟨range, hmem, rfl⟩ := List.mem_map.1 he
    exact ⟨range, hmem, (hrange range hmem).1 hp⟩
  · rintro ⟨range, hmem, hp⟩
    exact ⟨_, List.mem_map_of_mem hmem, (hrange range hmem).2 hp⟩

/-! ## Instructions only add code -/

theorem pc_append (c : Assembly) (bs : List UInt8) : (c.append bs).pc = c.pc + bs.length := by
  unfold append pc
  induction bs generalizing c with
  | nil => rfl
  | cons b bs ih =>
    have := ih { c with bytes := c.bytes.push b }
    rw [List.foldl_cons, this, Array.size_push, List.length_cons]
    omega

theorem pc_le_op (c : Assembly) (o : Opcode) (delta : Int) (operands : List UInt8) :
    c.pc ≤ (c.op o delta operands).pc := by
  unfold op
  split
  · exact Nat.le_refl _
  · have hpc : c.pc ≤ ((c.append [o]).append operands).pc := by
      rw [pc_append, pc_append]
      omega
    dsimp only
    split <;> exact hpc

theorem pc_le_varOp (c : Assembly) (long short : Opcode) (slot : Nat) (delta : Int) :
    c.pc ≤ (c.varOp long short slot delta).pc := by
  unfold varOp
  split
  · exact pc_le_op c _ _ _
  split
  · exact pc_le_op c _ _ _
  · exact Nat.le_trans (pc_le_op c _ _ _) (pc_le_op _ _ _ _)

theorem pc_overwrite (c : Assembly) (place : Nat) (bs : List UInt8) :
    (c.overwrite place bs).pc = c.pc := by
  unfold overwrite pc
  induction bs generalizing c place with
  | nil => rfl
  | cons b bs ih =>
    have := ih { c with bytes := c.bytes.setIfInBounds place b } (place + 1)
    rw [List.zipIdx_cons, List.foldl_cons, this, Array.size_setIfInBounds]

theorem pc_patch (c : Assembly) (r : LabelRef) (target : Nat) : (c.patch r target).pc = c.pc := by
  unfold patch
  dsimp only
  split
  · exact pc_overwrite c _ _
  split
  · exact pc_overwrite { c with hasOverflow := true } _ _
  · exact pc_overwrite c _ _

theorem pc_reference (c : Assembly) (l : LabelId) (r : LabelRef) :
    (c.reference l r).pc = c.pc := by
  unfold reference
  split
  · exact pc_patch c r _
  · rfl

theorem pc_le_jump (c : Assembly) (o : Opcode) (l : LabelId) : c.pc ≤ (c.jump o l).pc := by
  unfold jump
  split
  · exact Nat.le_refl _
  · rw [pc_reference]
    exact pc_le_op c _ _ _

theorem pc_place (c : Assembly) (l : LabelId) : (c.place l).pc = c.pc := by
  have hrefs : ∀ (rs : List LabelRef) (c : Assembly) (here : Nat),
      (rs.foldl (fun c r => c.patch r here) c).pc = c.pc := by
    intro rs
    induction rs with
    | nil => exact fun _ _ => rfl
    | cons r rs ih =>
      intro c here
      rw [List.foldl_cons, ih, pc_patch]
  unfold place
  dsimp only
  refine (hrefs _ _ _).trans ?_
  split
  · rfl
  split <;> rfl

end Assembly

end Javelin.Bytecode
