import Mathlib.Data.List.Nodup
import Javelin.Proofs.Bytecode.Operands

/-!
# Where a switch goes

Once its labels are placed, a switch sends every number to the label of its case and all other
numbers to the default, if no two cases have the same number.

1. `switchTarget?`, what a machine does at a switch.
2. The operands of a switch.
3. Tables, lists of pairs, and the theorem about both.
-/

namespace Javelin.Bytecode

/-! ## The machine -/

/-- The place of the first operand of a switch, a multiple of four. -/
def operands (base : Nat) : Nat := base + 4 - base % 4

/-- Where the switch at a place goes for a number. The first operand is for the default. A table
holds one operand for each number from the lowest to the highest; a list holds pairs of a number
and an operand, which have to be in order. -/
def switchTarget? (bytes : Array UInt8) (base : Nat) (v : Int32) : Option Nat :=
  let start := operands base
  let first := word bytes (start + 4)
  if bytes[base]? = some Opcode.tableswitch then
    let last := word bytes (start + 8)
    if last < first then none
    else if v < first ∨ last < v then some (operandTarget bytes base start)
    else some (operandTarget bytes base (start + 12 + 4 * (v.toInt - first.toInt).toNat))
  else if bytes[base]? = some Opcode.lookupswitch then
    let pairs := (List.range first.toInt.toNat).map fun i =>
      (word bytes (start + 8 + 8 * i), start + 12 + 8 * i)
    if pairs.Pairwise fun p q => p.1 < q.1 then
      some (operandTarget bytes base ((pairs.find? (·.1 == v)).elim start Prod.snd))
    else none
  else none

namespace Assembly

variable {c c' d : Assembly} {l l' : LabelId} {r r' : LabelRef} {i : Nat}

/-! ## Operands -/

theorem pc_switchStart (c : Assembly) (o : Opcode) (other : LabelId) :
    (c.switchStart o other).pc = operands c.pc + 4 := by
  unfold switchStart operands
  rw [pc_wideReference]
  change ((c.append [o]).append _).pc + 4 = _
  rw [pc_append, pc_append, List.length_replicate, List.length_singleton]
  omega

theorem switchStart_spec {o : Opcode} {other : LabelId} (hc : c.Sound) (hopen : c.Open [other]) :
    (c.switchStart o other).Settled c.pc ∧ (c.switchStart o other).bytes[c.pc]? = some o ∧
      (c.switchStart o other).Pending other ⟨c.pc, operands c.pc, true⟩ := by
  have hopcode := extends_append c [o]
  have hpadding := (extends_append (c.append [o]) (List.replicate (3 - c.pc % 4) 0)).trans
    (extends_adjust _ (-1))
  have hpc : (((c.append [o]).append (List.replicate (3 - c.pc % 4) 0)).adjust (-1)).pc =
      operands c.pc := by
    unfold operands
    change ((c.append [o]).append _).pc = _
    rw [pc_append, pc_append, List.length_replicate, List.length_singleton]
    omega
  have hsettled : (c.append [o]).Settled c.pc :=
    settled_append hc [o] (Nat.le_refl _) (Nat.lt_succ_self _)
  have hlater := (hpadding.trans (extends_wideReference _ other c.pc)).follows.settled hsettled
  obtain ⟨hlt, hnone⟩ := hopen other List.mem_cons_self
  refine ⟨hlater.1, hlater.2.trans ?_, ?_⟩
  · unfold pc
    rw [bytes_append, Array.getElem?_append_right (Nat.le_refl _), Nat.sub_self]
    rfl
  · rw [← hpc]
    exact pending_wideReference ((hopcode.trans hpadding).sound hc) hlt hnone

/-- The operands of a table. -/
theorem table_spec (base : Nat) {ls : List LabelId} (hc : c.Sound) (hopen : c.Open ls) :
    Extends c (ls.foldl (wideReference · · base) c) ∧
      ∀ j l, ls[j]? = some l →
        (ls.foldl (wideReference · · base) c).Pending l ⟨base, c.pc + 4 * j, true⟩ := by
  induction ls generalizing c with
  | nil => exact ⟨.refl c, nofun⟩
  | cons l ls ih =>
    have hext := extends_wideReference c l base
    have hopen' : c.Open ls := fun l' hl' => hopen l' (List.mem_cons_of_mem l hl')
    obtain ⟨hrest, hpending⟩ := ih (hext.sound hc) (hext.keepsOpen hopen')
    refine ⟨hext.trans hrest, fun j l' hl' => ?_⟩
    obtain ⟨hlt, hnone⟩ := hopen l List.mem_cons_self
    cases j with
    | zero =>
      cases hl'
      exact hrest.pending (pending_wideReference hc hlt hnone)
    | succ j =>
      have hj := hpending j l' hl'
      rwa [pc_wideReference, Nat.add_assoc, Nat.add_comm 4, ← Nat.mul_succ] at hj

/-- The pairs of a list of numbers and operands. -/
theorem pairs_spec (base : Nat) {keys : List (Int32 × LabelId)} (hc : c.Sound)
    (hopen : c.Open (keys.map Prod.snd)) :
    let c' := keys.foldl
      (fun c (k, l) => (c.append (bytes4 k.toUInt32)).wideReference l base) c
    Extends c c' ∧ ∀ j k l, keys[j]? = some (k, l) →
      c'.Holds (c.pc + 8 * j) k ∧ c'.Pending l ⟨base, c.pc + 8 * j + 4, true⟩ := by
  induction keys generalizing c with
  | nil => exact ⟨.refl c, nofun⟩
  | cons first rest ih =>
    obtain ⟨k, l⟩ := first
    have hnumber := extends_append c (bytes4 k.toUInt32)
    have hext := extends_wideReference (c.append (bytes4 k.toUInt32)) l base
    have hopen' : c.Open (rest.map Prod.snd) :=
      fun l' hl' => hopen l' (List.mem_cons_of_mem l hl')
    obtain ⟨hrest, hpairs⟩ := ih (hext.sound (hnumber.sound hc))
      (hext.keepsOpen (hnumber.keepsOpen hopen'))
    refine ⟨(hnumber.trans hext).trans hrest, fun j k' l' hj => ?_⟩
    obtain ⟨hlt, hnone⟩ := hnumber.keepsOpen hopen l List.mem_cons_self
    have hpc : (c.append (bytes4 k.toUInt32)).pc = c.pc + 4 := pc_append c _
    cases j with
    | zero =>
      rw [List.getElem?_cons_zero, Option.some.injEq, Prod.mk.injEq] at hj
      obtain ⟨rfl, rfl⟩ := hj
      refine ⟨(hext.trans hrest).follows.holds (holds_append hc k), hrest.pending ?_⟩
      rw [Nat.mul_zero, Nat.add_zero, ← hpc]
      exact pending_wideReference (hnumber.sound hc) hlt hnone
    | succ j =>
      have hj := hpairs j k' l' hj
      rwa [pc_wideReference, hpc, show c.pc + 4 + 4 + 8 * j = c.pc + 8 * (j + 1) by omega] at hj

/-- The targets of a table are those of the cases, and the default between them. -/
theorem tableTargets_spec {other : LabelId} {n j : Nat} {k : Int} {keys : List (Int32 × LabelId)}
    (hsorted : keys.Pairwise fun p q => p.1 < q.1) (hle : ∀ p ∈ keys, k ≤ p.1.toInt)
    (hj : j < n) :
    (∀ key l, (key, l) ∈ keys → key.toInt = k + j →
      (tableTargets other n k keys)[j]? = some l) ∧
    ((∀ p ∈ keys, p.1.toInt ≠ k + j) → (tableTargets other n k keys)[j]? = some other) := by
  induction n generalizing k keys j with
  | zero => omega
  | succ n ih =>
    cases keys with
    | nil =>
      refine ⟨nofun, fun _ => ?_⟩
      rw [tableTargets]
      cases j with
      | zero => rfl
      | succ j => exact (ih (k := k + 1) .nil nofun (Nat.lt_of_succ_lt_succ hj)).2 nofun
    | cons first rest =>
      obtain ⟨key, l⟩ := first
      obtain ⟨hfirst, hrest⟩ := List.pairwise_cons.1 hsorted
      have hgreater : ∀ p ∈ rest, key.toInt < p.1.toInt :=
        fun p hp => Int32.lt_iff_toInt_lt.1 (hfirst p hp)
      have hkey := hle (key, l) List.mem_cons_self
      dsimp only at hkey
      rw [tableTargets]
      split
      next heq =>
        replace heq := eq_of_beq heq
        cases j with
        | zero =>
          refine ⟨fun key' l' hmem hkey' => ?_, fun hnone => ?_⟩
          · obtain heq' | hmem := List.mem_cons.1 hmem
            · cases heq'
              rfl
            · have := hgreater _ hmem
              dsimp only at this
              omega
          · have := hnone (key, l) List.mem_cons_self
            dsimp only at this
            omega
        | succ j =>
          obtain ⟨hsome, hnone⟩ := ih (k := k + 1) (j := j) hrest
            (fun p hp => by have := hgreater p hp; omega) (Nat.lt_of_succ_lt_succ hj)
          refine ⟨fun key' l' hmem hkey' => ?_, fun hother => ?_⟩
          · obtain heq' | hmem := List.mem_cons.1 hmem
            · cases heq'
              omega
            · exact hsome key' l' hmem (by omega)
          · refine hnone fun p hp => ?_
            have := hother p (List.mem_cons_of_mem _ hp)
            omega
      next hne =>
        rw [beq_iff_eq] at hne
        have hless : ∀ p ∈ (key, l) :: rest, k + 1 ≤ p.1.toInt := by
          intro p hp
          obtain rfl | hp := List.mem_cons.1 hp
          · dsimp only
            omega
          · have := hgreater p hp
            omega
        cases j with
        | zero =>
          refine ⟨fun key' l' hmem hkey' => ?_, fun _ => rfl⟩
          have := hless _ hmem
          dsimp only at this
          omega
        | succ j =>
          obtain ⟨hsome, hnone⟩ := ih (k := k + 1) (j := j) hsorted hless
            (Nat.lt_of_succ_lt_succ hj)
          refine ⟨fun key' l' hmem hkey' => hsome key' l' hmem (by omega), fun hother => ?_⟩
          refine hnone fun p hp => ?_
          have := hother p hp
          omega

/-! ## Where it goes -/

/-- Later code with all labels of a switch placed. -/
structure Finished (c d : Assembly) (ls : List LabelId) : Prop where
  follows : Follows c d
  sound : d.Sound
  placed : ∀ l ∈ ls, (d.label l).pc ≠ none
  size : d.pc < 2 ^ 31

theorem Finished.target {base place : Nat} {ls : List LabelId} (h : Finished c d ls) (hl : l ∈ ls)
    (hr : c.Pending l ⟨base, place, true⟩) (hbase : base ≤ d.pc) :
    (d.label l).pc = some (operandTarget d.bytes base place) :=
  target_of_pending hr h.follows h.sound (h.placed l hl) h.size hbase

/-- A table leads every number to its target, and those outside to the default. -/
theorem switchTable_target {lo hi v : Int32} {targets : List LabelId} {other : LabelId}
    (hc : c.Sound) (hopen : c.Open (other :: targets))
    (hd : Finished (c.switchTable lo hi targets other) d (other :: targets)) (hle : lo ≤ hi) :
    (∀ (j : Nat) l, targets[j]? = some l → v.toInt = lo.toInt + j → v ≤ hi →
      switchTarget? d.bytes c.pc v = (d.label l).pc) ∧
    (v < lo ∨ hi < v → switchTarget? d.bytes c.pc v = (d.label other).pc) := by
  have hstart := extends_switchStart c .tableswitch other
  have hfirst := extends_append (c.switchStart .tableswitch other) (bytes4 lo.toUInt32)
  have hlast := extends_append ((c.switchStart .tableswitch other).append (bytes4 lo.toUInt32))
    (bytes4 hi.toUInt32)
  have hnumbers := (hstart.trans hfirst).trans hlast
  have hothers : c.Open [other] := fun l hl => hopen l (by simp_all)
  have htargetsOpen : c.Open targets := fun l hl => hopen l (List.mem_cons_of_mem other hl)
  obtain ⟨htable, htargets⟩ := table_spec c.pc (hnumbers.sound hc) (hnumbers.keepsOpen htargetsOpen)
  obtain ⟨hopcode, hbyte, hother⟩ := switchStart_spec (o := .tableswitch) hc hothers
  have hpc := pc_switchStart c .tableswitch other
  have hpcFirst : ((c.switchStart .tableswitch other).append (bytes4 lo.toUInt32)).pc =
      operands c.pc + 8 := by
    rw [pc_append, hpc]
    rfl
  have hpcLast : (((c.switchStart .tableswitch other).append (bytes4 lo.toUInt32)).append
      (bytes4 hi.toUInt32)).pc = operands c.pc + 12 := by
    rw [pc_append, hpcFirst]
    rfl
  rw [hpcLast] at htargets
  -- What is still there in the later code.
  have hlater := (hlast.trans htable).follows.trans hd.follows
  have hlo : word d.bytes (operands c.pc + 4) = lo := by
    have hholds := hlater.holds (holds_append (hstart.sound hc) lo)
    rw [hpc] at hholds
    exact hholds.1
  have hhi : word d.bytes (operands c.pc + 8) = hi := by
    have hholds := (htable.follows.trans hd.follows).holds
      (holds_append ((hstart.trans hfirst).sound hc) hi)
    rw [hpcFirst] at hholds
    exact hholds.1
  have hafter := (hfirst.trans (hlast.trans htable)).follows
  obtain ⟨hsettled, hkept⟩ := (hafter.trans hd.follows).settled hopcode
  have hbase := Nat.le_of_lt hsettled.lt
  unfold switchTarget?
  dsimp only
  rw [if_pos (hkept.trans hbyte), hlo, hhi, if_neg (Int32.not_lt.2 hle)]
  constructor
  · intro j l hl hj hv
    have hlo : ¬ (v < lo ∨ hi < v) := by
      rw [Int32.lt_iff_toInt_lt, Int32.lt_iff_toInt_lt]
      have := Int32.le_iff_toInt_le.1 hv
      omega
    rw [if_neg hlo, show (v.toInt - lo.toInt).toNat = j by omega]
    exact (hd.target (List.mem_cons_of_mem other (List.mem_of_getElem? hl)) (htargets j l hl)
      hbase).symm
  · intro hv
    rw [if_pos hv]
    refine (hd.target List.mem_cons_self ?_ hbase).symm
    exact (hfirst.trans (hlast.trans htable)).pending hother

/-- Among numbers in order each one is found at its place. -/
theorem find_pair {n : Nat} {f : Nat → Int32} {g : Nat → Nat} (v : Int32)
    (hless : ∀ i j, i < j → j < n → f i < f j) :
    (∀ j < n, f j = v →
      ((List.range n).map fun i => (f i, g i)).find? (·.1 == v) = some (v, g j)) ∧
    ((∀ j < n, f j ≠ v) → ((List.range n).map fun i => (f i, g i)).find? (·.1 == v) = none) := by
  constructor
  · intro j hj hv
    cases hfound : ((List.range n).map fun i => (f i, g i)).find? (·.1 == v) with
    | none =>
      have hmem : (f j, g j) ∈ (List.range n).map fun i => (f i, g i) :=
        List.mem_map.2 ⟨j, List.mem_range.2 hj, rfl⟩
      exact absurd hv (by simpa using List.find?_eq_none.1 hfound _ hmem)
    | some p =>
      obtain ⟨i, hi, rfl⟩ := List.mem_map.1 (List.mem_of_find?_eq_some hfound)
      have hi' := List.mem_range.1 hi
      have hfi : f i = v := by simpa using List.find?_some hfound
      have hij : i = j := by
        obtain hlt | heq | hlt := Nat.lt_trichotomy i j
        · exact absurd (hless i j hlt hj) (by rw [hfi, hv]; exact Int32.lt_irrefl)
        · exact heq
        · exact absurd (hless j i hlt hi') (by rw [hfi, hv]; exact Int32.lt_irrefl)
      rw [hfi, hij]
  · intro hnone
    refine List.find?_eq_none.2 fun p hp => ?_
    obtain ⟨i, hi, rfl⟩ := List.mem_map.1 hp
    simpa using hnone i (List.mem_range.1 hi)

/-- A list of pairs leads every number to the target of its pair, and all others to the default. -/
theorem switchPairs_target {v : Int32} {keys : List (Int32 × LabelId)} {other : LabelId}
    (hc : c.Sound) (hopen : c.Open (other :: keys.map Prod.snd))
    (hd : Finished (c.switchPairs keys other) d (other :: keys.map Prod.snd))
    (hsorted : keys.Pairwise fun p q => p.1 < q.1) :
    (∀ l, (v, l) ∈ keys → switchTarget? d.bytes c.pc v = (d.label l).pc) ∧
    ((∀ l, (v, l) ∉ keys) → switchTarget? d.bytes c.pc v = (d.label other).pc) := by
  have hstart := extends_switchStart c .lookupswitch other
  have hcount := extends_append (c.switchStart .lookupswitch other)
    (bytes4 (Int32.ofNat keys.length).toUInt32)
  have hnumbers := hstart.trans hcount
  have hothers : c.Open [other] := fun l hl => hopen l (by simp_all)
  have hkeysOpen : c.Open (keys.map Prod.snd) := fun l hl => hopen l (List.mem_cons_of_mem other hl)
  obtain ⟨hlist, hpairs⟩ := pairs_spec c.pc (hnumbers.sound hc) (hnumbers.keepsOpen hkeysOpen)
  obtain ⟨hopcode, hbyte, hother⟩ := switchStart_spec (o := .lookupswitch) hc hothers
  have hpc := pc_switchStart c .lookupswitch other
  have hpcCount : ((c.switchStart .lookupswitch other).append
      (bytes4 (Int32.ofNat keys.length).toUInt32)).pc = operands c.pc + 8 := by
    rw [pc_append, hpc]
    rfl
  rw [hpcCount] at hpairs
  have hafter := (hcount.trans hlist).follows
  obtain ⟨hsettled, hkept⟩ := (hafter.trans hd.follows).settled hopcode
  have hbase := Nat.le_of_lt hsettled.lt
  have hlength : word d.bytes (operands c.pc + 4) = Int32.ofNat keys.length := by
    have hholds := (hlist.follows.trans hd.follows).holds
      (holds_append (hstart.sound hc) (Int32.ofNat keys.length))
    rw [hpc] at hholds
    exact hholds.1
  have hwait : ∀ j (hj : j < keys.length), (c.switchPairs keys other).Pending keys[j].2
      ⟨c.pc, operands c.pc + 8 + 8 * j + 4, true⟩ :=
    fun j hj => (hpairs j keys[j].1 keys[j].2 (List.getElem?_eq_getElem hj)).2
  have hkey : ∀ j (hj : j < keys.length), word d.bytes (operands c.pc + 8 + 8 * j) = keys[j].1 :=
    fun j hj => (hd.follows.holds (hpairs j keys[j].1 keys[j].2 (List.getElem?_eq_getElem hj)).1).1
  have hfits : keys.length < 2 ^ 31 := by
    obtain hnil | hpos := Nat.eq_zero_or_pos keys.length
    · omega
    · have hlast := ((hpairs (keys.length - 1) keys[keys.length - 1].1 keys[keys.length - 1].2
        (List.getElem?_eq_getElem (by omega))).1.2 0 (by omega))
      have hlt := (hd.follows.settled hlast).1.lt
      have hsize := hd.size
      omega
  have hnumber : (Int32.ofNat keys.length).toInt.toNat = keys.length := by
    rw [Int32.toInt_ofNat_of_lt hfits]
    rfl
  have hless : ∀ i j, i < j → j < keys.length → word d.bytes (operands c.pc + 8 + 8 * i) <
      word d.bytes (operands c.pc + 8 + 8 * j) := by
    intro i j hij hj
    rw [hkey i (by omega), hkey j hj]
    exact List.pairwise_iff_getElem.1 hsorted i j _ hj hij
  obtain ⟨hfind, hfindNone⟩ := find_pair (g := fun j => operands c.pc + 12 + 8 * j) v hless
  unfold switchTarget?
  dsimp only
  rw [hkept.trans hbyte, if_neg (by decide), if_pos rfl, hlength, hnumber, if_pos]
  · constructor
    · intro l hl
      obtain ⟨j, hj, hjl⟩ := List.mem_iff_getElem.1 hl
      have hplace := hd.target (List.mem_cons_of_mem other
        (List.mem_map_of_mem (List.getElem_mem hj))) (hwait j hj) hbase
      rw [hfind j hj (by rw [hkey j hj, hjl])]
      rw [hjl] at hplace
      rw [hplace]
      congr 2
      dsimp only [Option.elim]
      omega
    · intro hnone
      rw [hfindNone]
      · exact (hd.target List.mem_cons_self ((hcount.trans hlist).pending hother) hbase).symm
      · intro j hj hv
        rw [hkey j hj] at hv
        have hmem := List.getElem_mem hj
        exact hnone keys[j].2 (by rwa [← hv])
  · refine List.pairwise_iff_getElem.2 fun i j hi hj hij => ?_
    simp only [List.getElem_map, List.getElem_range]
    rw [List.length_map, List.length_range] at hj
    exact hless i j hij hj

theorem mem_tableTargets {other : LabelId} {n : Nat} {k : Int} {keys : List (Int32 × LabelId)}
    (h : l ∈ tableTargets other n k keys) : l ∈ other :: keys.map Prod.snd := by
  induction n generalizing k keys with
  | zero => cases h
  | succ n ih =>
    cases keys with
    | nil =>
      rw [tableTargets] at h
      obtain rfl | h := List.mem_cons.1 h
      · exact List.mem_cons_self
      · exact ih h
    | cons first rest =>
      rw [tableTargets] at h
      split at h
      · obtain rfl | h := List.mem_cons.1 h
        · exact List.mem_cons_of_mem other List.mem_cons_self
        · obtain rfl | h := List.mem_cons.1 (ih h)
          · exact List.mem_cons_self
          · exact List.mem_cons_of_mem other (List.mem_cons_of_mem _ h)
      · obtain rfl | h := List.mem_cons.1 h
        · exact List.mem_cons_self
        · exact ih h

/-- The cases of a switch in order. -/
theorem sorted_keys {keys : List (Int32 × LabelId)} (h : (keys.map Prod.fst).Nodup) :
    (keys.mergeSort fun p q => p.1 ≤ q.1).Pairwise fun p q => p.1 < q.1 := by
  have htrans : ∀ p q r : Int32 × LabelId,
      decide (p.1 ≤ q.1) → decide (q.1 ≤ r.1) → decide (p.1 ≤ r.1) := by
    intro p q r hpq hqr
    rw [decide_eq_true_iff] at hpq hqr ⊢
    exact Int32.le_trans hpq hqr
  have htotal : ∀ p q : Int32 × LabelId, decide (p.1 ≤ q.1) || decide (q.1 ≤ p.1) := by
    intro p q
    rw [← Bool.decide_or, decide_eq_true_iff]
    exact Int32.le_total p.1 q.1
  have hle : (keys.mergeSort fun p q => p.1 ≤ q.1).Pairwise fun p q => p.1 ≤ q.1 :=
    (List.pairwise_mergeSort htrans htotal keys).imp fun h => by rwa [decide_eq_true_iff] at h
  have hne : (keys.mergeSort fun p q => p.1 ≤ q.1).Pairwise fun p q => p.1 ≠ q.1 :=
    List.pairwise_map.1 (((List.mergeSort_perm keys _).map Prod.fst).nodup_iff.2 h)
  exact hle.imp₂ (fun _ _ hab hne => Int32.lt_iff_le_and_ne.2 ⟨hab, hne⟩) hne

/-- A table for cases in order. -/
theorem table_target {keys : List (Int32 × LabelId)} {lo hi : Int32 × LabelId} {v : Int32}
    {other : LabelId} (hc : c.Sound) (hopen : c.Open (other :: keys.map Prod.snd))
    (hsorted : keys.Pairwise fun p q => p.1 < q.1) (hlo : keys.head? = some lo)
    (hhi : keys.getLast? = some hi)
    (hd : Finished (c.switchTable lo.1 hi.1 (tableTargets other
      ((hi.1.toInt - lo.1.toInt).toNat + 1) lo.1.toInt keys) other) d
      (other :: keys.map Prod.snd)) :
    (∀ l, (v, l) ∈ keys → switchTarget? d.bytes c.pc v = (d.label l).pc) ∧
    ((∀ l, (v, l) ∉ keys) → switchTarget? d.bytes c.pc v = (d.label other).pc) := by
  have hfirst : ∀ p ∈ keys, lo.1.toInt ≤ p.1.toInt := by
    obtain ⟨rest, rfl⟩ := List.head?_eq_some_iff.1 hlo
    intro p hp
    obtain rfl | hp := List.mem_cons.1 hp
    · exact Int.le_refl _
    · exact Int.le_of_lt (Int32.lt_iff_toInt_lt.1 ((List.pairwise_cons.1 hsorted).1 p hp))
  have hlast : ∀ p ∈ keys, p.1.toInt ≤ hi.1.toInt := by
    obtain ⟨rest, rfl⟩ := List.getLast?_eq_some_iff.1 hhi
    intro p hp
    obtain hp | hp := List.mem_append.1 hp
    · exact Int.le_of_lt (Int32.lt_iff_toInt_lt.1
        ((List.pairwise_append.1 hsorted).2.2 p hp hi List.mem_cons_self))
    · exact Int.le_of_eq (by rw [List.mem_singleton.1 hp])
  have hle := hlast lo (List.mem_of_head? hlo)
  have htargets : ∀ l ∈ other :: tableTargets other ((hi.1.toInt - lo.1.toInt).toNat + 1)
      lo.1.toInt keys, l ∈ other :: keys.map Prod.snd := by
    intro l hl
    obtain rfl | hl := List.mem_cons.1 hl
    · exact List.mem_cons_self
    · exact mem_tableTargets hl
  obtain ⟨hinside, houtside⟩ := switchTable_target (v := v) hc (fun l hl => hopen l (htargets l hl))
    { hd with placed := fun l hl => hd.placed l (htargets l hl) } (Int32.le_iff_toInt_le.2 hle)
  have hplace : ¬ (v < lo.1 ∨ hi.1 < v) → v ≤ hi.1 ∧
      v.toInt = lo.1.toInt + (v.toInt - lo.1.toInt).toNat ∧
      (v.toInt - lo.1.toInt).toNat < (hi.1.toInt - lo.1.toInt).toNat + 1 := by
    intro hv
    rw [Int32.lt_iff_toInt_lt, Int32.lt_iff_toInt_lt] at hv
    exact ⟨Int32.le_iff_toInt_le.2 (by omega), by omega, by omega⟩
  constructor
  · intro l hl
    have hv : ¬ (v < lo.1 ∨ hi.1 < v) := by
      rw [Int32.lt_iff_toInt_lt, Int32.lt_iff_toInt_lt]
      have := hfirst _ hl
      have := hlast _ hl
      dsimp only at *
      omega
    obtain ⟨hvhi, hj, hlt⟩ := hplace hv
    exact hinside _ l ((tableTargets_spec hsorted hfirst hlt).1 v l hl hj) hj hvhi
  · intro hnone
    by_cases hv : v < lo.1 ∨ hi.1 < v
    · exact houtside hv
    · obtain ⟨hvhi, hj, hlt⟩ := hplace hv
      refine hinside _ other ((tableTargets_spec hsorted hfirst hlt).2 fun p hp hkey => ?_) hj hvhi
      have hpv : p.1 = v := Int32.toInt_inj.1 (hkey.trans hj.symm)
      exact hnone p.2 (hpv ▸ hp)

/-- A switch sends every number to the code of its case, and all other numbers to the default, once
the labels are placed, if no two cases have the same number. -/
theorem switch_dispatches {keys : List (Int32 × LabelId)} {other : LabelId} (hc : Steps {} c)
    (hreach : c.isReachable = true) (hkeys : (keys.map Prod.fst).Nodup)
    (hopen : c.Open (other :: keys.map Prod.snd))
    (hd : Steps (c.switchOn (keys.mergeSort fun p q => p.1 ≤ q.1) other) d)
    (hplaced : ∀ l ∈ other :: keys.map Prod.snd, (d.label l).pc ≠ none) (hsize : d.pc < 2 ^ 31)
    (v : Int32) :
    (∀ l, (v, l) ∈ keys → switchTarget? d.bytes c.pc v = (d.label l).pc) ∧
    ((∀ l, (v, l) ∉ keys) → switchTarget? d.bytes c.pc v = (d.label other).pc) := by
  have hsorted := sorted_keys hkeys
  have hmem : ∀ p, p ∈ keys.mergeSort (fun p q => p.1 ≤ q.1) ↔ p ∈ keys := fun p =>
    List.mem_mergeSort
  have hlabels : ∀ l, l ∈ other :: (keys.mergeSort fun p q => p.1 ≤ q.1).map Prod.snd ↔
      l ∈ other :: keys.map Prod.snd := by
    intro l
    simp only [List.mem_cons, List.mem_map, hmem]
  simp only [← hmem]
  simp only [← hlabels] at hplaced
  have hopen' : c.Open (other :: (keys.mergeSort fun p q => p.1 ≤ q.1).map Prod.snd) :=
    fun l hl => hopen l ((hlabels l).1 hl)
  have hsound := hd.follows.sound ((extends_switchOn c _ other).sound hc.sound)
  obtain ⟨lo, hi, hlo, hhi, heq⟩ | heq := switchOn_eq hreach _ other
  · rw [heq] at hd
    exact table_target hc.sound hopen' hsorted hlo hhi
      ⟨(extends_stop _).follows.trans hd.follows, hsound, hplaced, hsize⟩
  · rw [heq] at hd
    exact switchPairs_target hc.sound hopen'
      ⟨(extends_stop _).follows.trans hd.follows, hsound, hplaced, hsize⟩ hsorted

/-- Code that loads a number, with three labels. -/
def sampleStart : Assembly := (({} : Assembly).newLabel.2.newLabel.2.newLabel.2).op .iload0 1 []

/-- Cases for one and three, each of which returns. -/
def sampleSwitch : Assembly :=
  ((((sampleStart.switchOn [(1, 0), (3, 1)] 2).place 0).op .returnVoid 0 []).place 1).op
    .returnVoid 0 [] |>.place 2

/-- Two cases and the default between them. -/
theorem switch_dispatches_three : switchTarget? sampleSwitch.bytes 1 3 = some 29 ∧
    switchTarget? sampleSwitch.bytes 1 2 = some 30 := by
  have hstart : Steps {} sampleStart :=
    (((Relation.ReflTransGen.single .newLabel).tail .newLabel).tail .newLabel).tail (.op _ _ _)
  have hsorted : ([(1, 0), (3, 1)] : List (Int32 × LabelId)).mergeSort (fun p q => p.1 ≤ q.1) =
      [(1, 0), (3, 1)] := List.mergeSort_of_pairwise (by decide)
  have hlater : Steps (sampleStart.switchOn
      (([(1, 0), (3, 1)] : List (Int32 × LabelId)).mergeSort fun p q => p.1 ≤ q.1) 2)
      sampleSwitch := by
    rw [hsorted]
    exact ((((Relation.ReflTransGen.single (.place 0 (by decide))).tail (.op _ _ _)).tail
      (.place 1 (by decide))).tail (.op _ _ _)).tail (.place 2 (by decide))
  have hopen : ∀ l ∈ [2, 0, 1], l < sampleStart.labels.size ∧ (sampleStart.label l).pc = none := by
    decide
  have hplaced : ∀ l ∈ [2, 0, 1], (sampleSwitch.label l).pc ≠ none := by decide
  have hkeys : (([(1, 0), (3, 1)] : List (Int32 × LabelId)).map Prod.fst).Nodup := by decide
  have hdispatch (v : Int32) :=
    switch_dispatches hstart (by decide) hkeys hopen hlater hplaced (by decide) v
  exact ⟨((hdispatch 3).1 1 (by decide)).trans (by decide),
    ((hdispatch 2).2 fun l => by simp).trans (by decide)⟩

end Assembly

end Javelin.Bytecode
