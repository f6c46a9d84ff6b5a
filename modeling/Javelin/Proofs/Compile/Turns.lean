import Javelin.Proofs.Compile.Work

/-!
# Turns

Compiling takes turns: each phase for all files in order, before the next phase.

1. How a turn ends: by the limit of errors, or as the work without any check ends (`step_turn`).
2. The run as a number of turns, and what it keeps (`Run.after`, `Run.Follows`).
3. The turn before which the context stops a run (`StopsAt`, `compileUntil_eq`).
-/

namespace Javelin.Compile

/-! ## How a turn ends -/

/-- The phases beside those without checks: what each does, and that checks only end it early. -/
theorem phase_works {p : Nat} {phase free : Nat → Compiling Unit} (hphase : phases[p]? = some phase)
    (hfree : freePhases[p]? = some free) (i : Nat) :
    Works i (p == 3) (phase i) ∧ Checked i (p == 3) (phase i) (free i) := by
  obtain _ | _ | _ | _ | p := p <;> cases hphase <;> cases hfree
  · exact ⟨.parse i, .refl _⟩
  · exact ⟨.declare i, .refl _⟩
  · exact ⟨.complete i, .refl _⟩
  · exact ⟨.finish i, .finish i⟩

/-- How a turn ends for a file that is not done: by the limit, with the work done, or as the work
gave up. -/
inductive Turn (i : Nat) (stores : Bool) (free : Compiling Unit) (r : Run) : Run → Prop
  | limit {s : Run} (goes : r.Goes i stores s) (full : (s.unitAt i).isFull = true) :
      Turn i stores free r (s.close i .aborted (some (s.limitAbort i)))
  | ended {s : Run} (goes : r.Goes i stores s) (work : free r = .ok () s)
      (isOpen : (s.unitAt i).isFull = false) : Turn i stores free r s
  | gaveUp {a : Abort} {s : Run} (goes : r.Goes i stores s) (work : free r = .error a s) :
      Turn i stores free r (s.close i .aborted (some (a.within (r.unitAt i).source.name)))

theorem limitAbort_within {r : Run} {i : Nat} {name : Text}
    (h : (r.unitAt i).source.name = name) : (r.limitAbort i).within name = r.limitAbort i := by
  unfold Abort.within Run.limitAbort
  split
  · rw [h]
  · rfl

theorem step_eq (phase : Nat → Compiling Unit) {r : Run} {i : Nat}
    (h : (r.unitAt i).isDone = false) : step phase r i =
      settle i (r.unitAt i).source.name ((do checkLimit i; phase i; checkLimit i) r) := by
  unfold step
  dsimp only
  rw [← Run.unitAt, if_neg (by simp [h])]
  cases (do checkLimit i; phase i; checkLimit i : Compiling Unit) r <;> rfl

theorem step_done (phase : Nat → Compiling Unit) {r : Run} {i : Nat}
    (h : (r.unitAt i).isDone = true) : step phase r i = r :=
  if_pos h

/-- A file that is full when its turn comes is given up at once. -/
theorem step_of_full (phase : Nat → Compiling Unit) {r : Run} {i : Nat}
    (h : (r.unitAt i).isDone = false) (hfull : (r.unitAt i).isFull = true) :
    step phase r i = r.close i .aborted (some (r.limitAbort i)) := by
  have hwork : (do checkLimit i; phase i; checkLimit i : Compiling Unit) r =
      .error (r.limitAbort i) r := by
    change EStateM.bind (checkLimit i) _ r = _
    rw [EStateM.bind, checkLimit_of_full hfull]
  rw [step_eq phase h, hwork, settle, limitAbort_within rfl]

theorem Limited.turn {i : Nat} {stores : Bool} {free : Compiling Unit} {r : Run}
    {x : EStateM.Result Abort Run Unit} (h : Limited i stores r x) :
    Turn i stores free r (settle i (r.unitAt i).source.name x) := by
  obtain ⟨s, hgoes, hfull, rfl⟩ := h
  rw [settle, limitAbort_within (congrArg SourceFile.name (hgoes.units i).source)]
  exact .limit hgoes hfull

theorem step_turn {p : Nat} {phase free : Nat → Compiling Unit} (hphase : phases[p]? = some phase)
    (hfree : freePhases[p]? = some free) {r : Run} {i : Nat} (h : (r.unitAt i).isDone = false) :
    Turn i (p == 3) (free i) r (step phase r i) := by
  obtain ⟨hworks, hchecked⟩ := phase_works hphase hfree i
  have hgoes := hworks r
  by_cases hfull : (r.unitAt i).isFull = true
  · rw [step_of_full phase h hfull]
    exact .limit (.refl r) hfull
  rw [step_eq phase h]
  have hwork : (do checkLimit i; phase i; checkLimit i : Compiling Unit) r =
      EStateM.bind (phase i) (fun _ => checkLimit i) r := by
    change EStateM.bind (checkLimit i) _ r = _
    rw [EStateM.bind, checkLimit_of_open (by simpa using hfull)]
    rfl
  rw [hwork, EStateM.bind]
  cases hr : phase i r with
  | error a s =>
    rw [hr] at hgoes
    obtain heq | hlimited := hchecked r
    · exact .gaveUp hgoes (heq.symm.trans hr)
    · rw [hr] at hlimited
      exact hlimited.turn
  | ok _ s =>
    rw [hr] at hgoes
    by_cases hs : (s.unitAt i).isFull = true
    · exact Limited.turn ⟨s, hgoes, hs, checkLimit_of_full hs⟩
    · have hopen : (s.unitAt i).isFull = false := by simpa using hs
      obtain heq | ⟨t, -, -, ht⟩ := hchecked r
      · simp only [checkLimit_of_open hopen]
        exact .ended hgoes (heq.symm.trans hr) hopen
      · simp [hr] at ht

/-! ## Runs -/

/-- The work on a file after its end. -/
def UnitRun.closed (u : UnitRun) (outcome : Outcome) (abort : Option Abort) : UnitRun :=
  { u with isDone := true, result := { u.result with problems := u.found.sorted, outcome, abort } }

namespace Run

variable {r s t : Run} {i j : Nat}

theorem unitAt_close (r : Run) (i j : Nat) (outcome : Outcome) (abort : Option Abort) :
    (r.close i outcome abort).unitAt j =
      if i = j ∧ j < r.units.size then (r.unitAt j).closed outcome abort else r.unitAt j :=
  unitAt_modify r i j (UnitRun.closed · outcome abort)

/-- What any later state keeps of a run. -/
structure Follows (r s : Run) : Prop where
  options : s.options = r.options
  size : s.units.size = r.units.size
  source : ∀ j, (s.unitAt j).source = (r.unitAt j).source
  noted : ∀ j, Relation.ReflTransGen (Noting r.options.maxErrors (r.unitAt j).source.name)
    (r.unitAt j).noted (s.unitAt j).noted
  done : ∀ j, (r.unitAt j).isDone = true →
    (s.unitAt j).isDone = true ∧ (s.unitAt j).result = (r.unitAt j).result

namespace Follows

theorem refl (r : Run) : r.Follows r :=
  ⟨rfl, rfl, fun _ => rfl, fun _ => .refl, fun _ h => ⟨h, rfl⟩⟩

theorem trans (h : r.Follows s) (h' : s.Follows t) : r.Follows t where
  options := h'.options.trans h.options
  size := h'.size.trans h.size
  source j := (h'.source j).trans (h.source j)
  noted j := (h.noted j).trans (h.source j ▸ h.options ▸ h'.noted j)
  done j hj :=
    have ⟨hdone, hresult⟩ := h.done j hj
    ⟨(h'.done j hdone).1, (h'.done j hdone).2.trans hresult⟩

theorem of_goes {stores : Bool} (h : r.Goes i stores s) (hi : (r.unitAt i).isDone = false) :
    r.Follows s where
  options := h.options
  size := h.size
  source j := (h.units j).source
  noted j := (h.units j).noted
  done j hj := by
    have hne : j ≠ i := by
      rintro rfl
      simp [hi] at hj
    exact ⟨(h.units j).isDone.trans hj, (h.others j hne).2⟩

theorem close (h : r.Follows s) (hi : (r.unitAt i).isDone = false) (outcome : Outcome)
    (abort : Option Abort) : r.Follows (s.close i outcome abort) where
  options := h.options
  size := (Array.size_modify ..).trans h.size
  source j := by
    rw [unitAt_close]
    split <;> exact h.source j
  noted j := by
    rw [unitAt_close]
    split <;> exact h.noted j
  done j hj := by
    have hne : ¬ (i = j ∧ j < s.units.size) := by
      rintro ⟨rfl, -⟩
      simp [hi] at hj
    rw [unitAt_close, if_neg hne]
    exact h.done j hj

/-- A file that is full stays full. -/
theorem full (h : r.Follows s) (hj : (r.unitAt j).isFull = true) : (s.unitAt j).isFull = true :=
  noting_full (h.noted j) hj

end Follows

end Run

theorem Turn.follows {i : Nat} {stores : Bool} {free : Compiling Unit} {r s : Run}
    (h : Turn i stores free r s) (hi : (r.unitAt i).isDone = false) : r.Follows s := by
  cases h with
  | limit goes _ => exact (Run.Follows.of_goes goes hi).close hi _ _
  | ended goes _ _ => exact .of_goes goes hi
  | gaveUp goes _ => exact (Run.Follows.of_goes goes hi).close hi _ _

/-- What the work of a turn and the end of a file keep, a turn keeps. -/
theorem Turn.keeps {P : Run → Prop} {i : Nat} {stores : Bool} {free : Compiling Unit} {r s : Run}
    (h : Turn i stores free r s) (goes : ∀ s, r.Goes i stores s → P s)
    (close : ∀ s abort, P s → P (s.close i .aborted abort)) : P s := by
  cases h with
  | limit hgoes _ => exact close _ _ (goes _ hgoes)
  | ended hgoes _ _ => exact goes _ hgoes
  | gaveUp hgoes _ => exact close _ _ (goes _ hgoes)

theorem freePhase_of_phase {p : Nat} {phase : Nat → Compiling Unit} (h : phases[p]? = some phase) :
    ∃ free, freePhases[p]? = some free :=
  have hp : p < 4 := (List.getElem?_eq_some_iff.mp h).1
  ⟨freePhases[p], List.getElem?_eq_getElem hp⟩

theorem step_follows {phase : Nat → Compiling Unit} (h : phase ∈ phases) (r : Run) (i : Nat) :
    r.Follows (step phase r i) := by
  obtain ⟨p, hp⟩ := List.mem_iff_getElem?.mp h
  obtain ⟨free, hfree⟩ := freePhase_of_phase hp
  cases hi : (r.unitAt i).isDone with
  | true =>
    rw [step_done phase hi]
    exact .refl r
  | false => exact (step_turn hp hfree hi).follows hi

theorem mem_turns {n : Nat} {t : (Nat → Compiling Unit) × Nat} (h : t ∈ turns n) :
    t.1 ∈ phases ∧ t.2 < n := by
  obtain ⟨phase, hphase, ht⟩ := List.mem_flatMap.mp h
  obtain ⟨i, hi, rfl⟩ := List.mem_map.mp ht
  exact ⟨hphase, List.mem_range.mp hi⟩

theorem length_turns (n : Nat) : (turns n).length = 4 * n := by
  simp [turns, phases]
  omega

/-- The turn of a phase for a file. -/
theorem getElem?_turns {n p i : Nat} (hi : i < n) :
    (turns n)[p * n + i]? = phases[p]?.map (·, i) := by
  unfold turns
  induction phases generalizing p with
  | nil => rfl
  | cons phase ps ih =>
    rw [List.flatMap_cons]
    cases p with
    | zero =>
      rw [List.getElem?_append_left (by simpa using hi)]
      simp [hi]
    | succ p =>
      rw [Nat.succ_mul, List.getElem?_append_right (by simp; omega), List.getElem?_cons_succ, ← ih]
      congr 1
      simp
      omega

theorem getElem?_turns_eq_some {n k : Nat} {phase : Nat → Compiling Unit} {i : Nat}
    (h : (turns n)[k]? = some (phase, i)) : ∃ p, phases[p]? = some phase ∧ k = p * n + i := by
  have hi : i < n := (mem_turns (List.mem_of_getElem? h)).2
  have hk : k = k / n * n + k % n := (Nat.div_add_mod' k n).symm
  rw [hk, getElem?_turns (Nat.mod_lt k (Nat.zero_lt_of_lt hi))] at h
  obtain ⟨q, hq, heq⟩ := Option.map_eq_some_iff.mp h
  cases heq
  exact ⟨k / n, hq, hk⟩

/-- The state after the first `k` turns. -/
def Run.after (r : Run) (k : Nat) : Run :=
  ((turns r.units.size).take k).foldl (fun r t => step t.1 r t.2) r

/-- What the work of a turn and the end of a file keep, a run keeps. -/
theorem Run.after_keeps {P : Run → Prop}
    (goes : ∀ {i stores r s}, P r → r.Goes i stores s → P s)
    (close : ∀ i s abort, P s → P (s.close i .aborted abort)) {r : Run} (hr : P r) (k : Nat) :
    P (r.after k) := by
  have step_keeps (s : Run) (hs : P s) (t) (ht : t ∈ turns r.units.size) : P (step t.1 s t.2) := by
    obtain ⟨p, hp⟩ := List.mem_iff_getElem?.mp (mem_turns ht).1
    obtain ⟨free, hfree⟩ := freePhase_of_phase hp
    cases hi : (s.unitAt t.2).isDone with
    | true => rwa [step_done t.1 hi]
    | false => exact (step_turn hp hfree hi).keeps (fun _ => goes hs) (close t.2)
  have taken (ts) (hts : ts ⊆ turns r.units.size) (s : Run) (hs : P s) :
      P (ts.foldl (fun r t => step t.1 r t.2) s) := by
    induction ts generalizing s with
    | nil => exact hs
    | cons t ts ih =>
      exact ih (fun _ h => hts (List.mem_cons_of_mem t h)) _
        (step_keeps s hs t (hts List.mem_cons_self))
  exact taken _ (List.take_subset k _) r hr

namespace Run

variable {r : Run}

theorem after_zero (r : Run) : r.after 0 = r := rfl

theorem after_succ {k : Nat} {t : (Nat → Compiling Unit) × Nat}
    (h : (turns r.units.size)[k]? = some t) : r.after (k + 1) = step t.1 (r.after k) t.2 := by
  rw [after, List.take_add_one, h, List.foldl_append]
  rfl

/-- The turn of a phase for a file of the run. -/
theorem after_turn (r : Run) {p i : Nat} {phase : Nat → Compiling Unit}
    (hp : phases[p]? = some phase) (hi : i < r.units.size) :
    r.after (p * r.units.size + i + 1) = step phase (r.after (p * r.units.size + i)) i :=
  after_succ ((getElem?_turns hi).trans (congrArg (Option.map (·, i)) hp))

theorem after_of_le {k : Nat} (h : 4 * r.units.size ≤ k) :
    r.after k = r.after (4 * r.units.size) := by
  rw [after, after, List.take_of_length_le (by rwa [length_turns]),
    List.take_of_length_le (Nat.le_of_eq (length_turns _))]

/-- A turn keeps what the run has so far. -/
theorem after_follows_succ (r : Run) (k : Nat) : (r.after k).Follows (r.after (k + 1)) := by
  cases h : (turns r.units.size)[k]? with
  | none =>
    have hk : 4 * r.units.size ≤ k := by
      rw [← length_turns]
      exact List.getElem?_eq_none_iff.mp h
    rw [after_of_le hk, after_of_le (Nat.le_succ_of_le hk)]
    exact .refl _
  | some t =>
    rw [after_succ h]
    exact step_follows (mem_turns (List.mem_of_getElem? h)).1 _ _

theorem after_follows (r : Run) {k m : Nat} (h : k ≤ m) : (r.after k).Follows (r.after m) := by
  induction h with
  | refl => exact .refl _
  | step _ ih => exact ih.trans (r.after_follows_succ _)

end Run

/-! ## Until the context is done -/

/-- The work on a file when all files are closed. -/
def UnitRun.ended (outcome : Outcome) (u : UnitRun) : UnitRun :=
  if u.isDone then u else u.closed outcome none

namespace Run

theorem getElem?_ended (r : Run) (outcome : Outcome) (i j : Nat) :
    (if (r.units.getD i default).isDone then r else r.close i outcome none).units[j]? =
      if i = j then r.units[j]?.map (UnitRun.ended outcome) else r.units[j]? := by
  have hclose : (r.close i outcome none).units = r.units.modify i (UnitRun.closed · outcome none) :=
    rfl
  rw [Array.getD_eq_getD_getElem?]
  by_cases hij : i = j
  · subst hij
    rw [if_pos rfl]
    cases hu : r.units[i]? with
    | none =>
      split
      · exact hu
      · rw [hclose, Array.getElem?_modify, if_pos rfl, hu]
        rfl
    | some u =>
      rw [Option.getD_some, Option.map_some, UnitRun.ended]
      split
      · exact hu
      · rw [hclose, Array.getElem?_modify, if_pos rfl, hu, Option.map_some]
  · rw [if_neg hij]
    split
    · rfl
    · rw [hclose, Array.getElem?_modify, if_neg hij]

/-- Every file that is not done is closed. -/
theorem getElem?_closeAll (r : Run) (outcome : Outcome) (j : Nat) :
    (r.closeAll outcome).units[j]? = r.units[j]?.map (UnitRun.ended outcome) := by
  have among (is : List Nat) (r : Run) : (is.foldl (fun r i =>
      if (r.units.getD i default).isDone then r else r.close i outcome none) r).units[j]? =
        if j ∈ is then r.units[j]?.map (UnitRun.ended outcome) else r.units[j]? := by
    induction is generalizing r with
    | nil => rfl
    | cons i is ih =>
      have twice (u : UnitRun) : (u.ended outcome).ended outcome = u.ended outcome := by
        by_cases h : u.isDone
        · simp only [UnitRun.ended, if_pos h]
        · simp only [UnitRun.ended, if_neg h]
          rfl
      rw [List.foldl_cons, ih, getElem?_ended]
      by_cases hij : i = j
      · subst hij
        simp only [if_true, List.mem_cons_self, Option.map_map, Function.comp_def, twice, ite_self]
      · simp only [if_neg hij, List.mem_cons, Ne.symm hij, false_or]
  unfold closeAll
  rw [among]
  split
  · rfl
  next h =>
    rw [List.mem_range, Nat.not_lt] at h
    rw [Array.getElem?_eq_none h]
    rfl

theorem store_closeAll (r : Run) (outcome : Outcome) : (r.closeAll outcome).store = r.store := by
  unfold closeAll
  induction List.range r.units.size generalizing r with
  | nil => rfl
  | cons i is ih =>
    rw [List.foldl_cons, ih]
    split <;> rfl

/-- The results of a run that ends here. -/
theorem getElem?_results (r : Run) (outcome : Outcome) (j : Nat) :
    (r.closeAll outcome).toReport.results[j]? =
      if j < r.units.size then some ((r.unitAt j).ended outcome).result else none := by
  have hclosed : (r.closeAll outcome).units.toList[j]? = r.units[j]?.map (UnitRun.ended outcome) :=
    Array.getElem?_toList.trans (getElem?_closeAll r outcome j)
  rw [toReport, List.getElem?_map, hclosed]
  split
  next hj => simp [unitAt, hj]
  next hj => simp [hj]

end Run

/-- A run is stopped before the first turn at which the context is asked and done; it takes all
turns if there is none. -/
theorem takeTurns_eq (isCancelled : Nat → Bool) (ts : List ((Nat → Compiling Unit) × Nat)) (j : Nat)
    (r : Run) : ∃ k ≤ ts.length,
      let after (m : Nat) := (ts.take m).foldl (fun r t => step t.1 r t.2) r
      takeTurns isCancelled ts j r =
        (after k).closeAll (if k < ts.length then .cancelled else .completed) ∧
      (∀ t, ts[k]? = some t → isCancelled (j + k) = true ∧ ((after k).unitAt t.2).isDone = false) ∧
      ∀ m < k, ∀ t, ts[m]? = some t → isCancelled (j + m) = true →
        ((after m).unitAt t.2).isDone = true := by
  induction ts generalizing j r with
  | nil => exact ⟨0, Nat.le_refl _, rfl, nofun, nofun⟩
  | cons t ts ih =>
    obtain ⟨phase, i⟩ := t
    rw [takeTurns]
    split
    next hstop =>
      refine ⟨0, Nat.zero_le _, by simp, fun t ht => ?_, nofun⟩
      cases ht
      simpa [Run.unitAt, and_comm] using hstop
    next hgo =>
      obtain ⟨k, hk, hrun, hstop, hasked⟩ := ih (j + 1) (step phase r i)
      refine ⟨k + 1, Nat.succ_le_succ hk, ?_, fun t ht => ?_, fun m hm t ht hc => ?_⟩
      · simpa using hrun
      · have := hstop t (by simpa using ht)
        rwa [Nat.add_right_comm] at this
      · cases m with
        | zero =>
          cases ht
          by_contra hopen
          exact hgo (by simpa [Run.unitAt] using And.intro hopen hc)
        | succ m =>
          refine hasked m (Nat.lt_of_succ_lt_succ hm) t (by simpa using ht) ?_
          rwa [Nat.add_right_comm]

/-- The context stops a run before turn `k`: it is asked there for the first time that it is done. A
run of all turns is stopped by nothing. -/
structure StopsAt (isCancelled : Nat → Bool) (r : Run) (k : Nat) : Prop where
  asked : ∀ t, (turns r.units.size)[k]? = some t →
    isCancelled k = true ∧ ((r.after k).unitAt t.2).isDone = false
  first : ∀ m < k, ∀ t, (turns r.units.size)[m]? = some t → isCancelled m = true →
    ((r.after m).unitAt t.2).isDone = true

namespace StopsAt

variable {isCancelled : Nat → Bool} {r : Run} {k : Nat}

/-- A context that is never done lets all turns be taken. -/
theorem all (h : StopsAt isCancelled r k) (hc : ∀ k, isCancelled k = false) :
    4 * r.units.size ≤ k := by
  rw [← length_turns]
  by_contra hk
  have := (h.asked _ (List.getElem?_eq_getElem (Nat.lt_of_not_le hk))).1
  simp [hc] at this

/-- A context that is done from the start lets no turn be taken. -/
theorem none (h : StopsAt isCancelled r k) (hc : isCancelled 0 = true) (hr : 0 < r.units.size)
    (hopen : (r.unitAt 0).isDone = false) : k = 0 := by
  by_contra hk
  have hturn := getElem?_turns (p := 0) hr
  rw [Nat.zero_mul] at hturn
  have := h.first 0 (Nat.pos_of_ne_zero hk) (parse, 0) hturn hc
  exact Bool.eq_false_iff.mp hopen this

end StopsAt

@[simp] theorem size_start (o : Options) (names : NameSource) (store : ClassStore)
    (files : List SourceFile) : (start o names store files).units.size = files.length := by
  simp [start]

theorem start_isDone (o : Options) (names : NameSource) (store : ClassStore)
    (files : List SourceFile) (i : Nat) :
    ((start o names store files).unitAt i).isDone = false := by
  simp only [start, Run.unitAt, Array.getD_eq_getD_getElem?, List.getElem?_toArray,
    List.getElem?_map]
  cases files[i]? <;> rfl

/-- A run is that of its turns until it is stopped. -/
theorem compileUntil_eq (isCancelled : Nat → Bool) (o : Options) (names : NameSource)
    (store : ClassStore) (files : List SourceFile) :
    let r := start o names store files
    ∃ k ≤ 4 * files.length, StopsAt isCancelled r k ∧
      compileUntil isCancelled o names store files = ((r.after k).closeAll
        (if k < 4 * files.length then .cancelled else .completed)).toReport := by
  intro r
  have hsize : r.units.size = files.length := size_start ..
  obtain ⟨k, hk, hrun, hstop, hasked⟩ := takeTurns_eq isCancelled (turns files.length) 0 r
  rw [length_turns] at hk
  refine ⟨k, hk, ⟨?_, ?_⟩, ?_⟩
  · simpa only [hsize, Nat.zero_add, Run.after] using hstop
  · simpa only [hsize, Nat.zero_add, Run.after] using hasked
  · rw [compileUntil, hrun, length_turns, Run.after, hsize]

end Javelin.Compile

/-!
# Cancelled runs

The context may be done at any turn. The run then stops, and every file that is not done is
cancelled, whether its last phase has run or not.

1. The turns of a file are its own: another turn does not end it, and only its last turn stores
   classes of it (`Turn.isDone`, `Turn.store`).
2. What a run gives that the context stops (`compileUntil_results`).
-/

namespace Javelin.Compile

variable {i j : Nat} {r s : Run}

/-! ## What a turn leaves alone -/

namespace Turn

variable {stores : Bool} {free : Compiling Unit}

/-- Only the last phase stores classes. -/
theorem store (h : Turn i false free r s) : s.store = r.store := by
  cases h with
  | limit goes _ => exact goes.store rfl
  | ended goes _ _ => exact goes.store rfl
  | gaveUp goes _ => exact goes.store rfl

/-- A turn does not end other files. -/
theorem isDone (h : Turn i stores free r s) (hj : i ≠ j) :
    (s.unitAt j).isDone = (r.unitAt j).isDone := by
  cases h with
  | limit goes _ =>
    rw [Run.unitAt_close, if_neg fun h => hj h.1]
    exact (goes.units j).isDone
  | ended goes _ _ => exact (goes.units j).isDone
  | gaveUp goes _ =>
    rw [Run.unitAt_close, if_neg fun h => hj h.1]
    exact (goes.units j).isDone

end Turn

theorem step_isDone {phase : Nat → Compiling Unit} (h : phase ∈ phases) (r : Run) (hj : i ≠ j) :
    ((step phase r i).unitAt j).isDone = (r.unitAt j).isDone := by
  obtain ⟨p, hp⟩ := List.mem_iff_getElem?.mp h
  obtain ⟨free, hfree⟩ := freePhase_of_phase hp
  cases hi : (r.unitAt i).isDone with
  | true => rw [step_done phase hi]
  | false => exact (step_turn hp hfree hi).isDone hj

theorem step_store {p : Nat} {phase : Nat → Compiling Unit} (h : phases[p]? = some phase)
    (hp : p < 3) (r : Run) (i : Nat) : (step phase r i).store = r.store := by
  obtain ⟨free, hfree⟩ := freePhase_of_phase h
  cases hi : (r.unitAt i).isDone with
  | true => rw [step_done phase hi]
  | false =>
    have hturn := step_turn h hfree hi
    rw [beq_false_of_ne (Nat.ne_of_lt hp)] at hturn
    exact hturn.store

namespace Run

/-- The turns of the phases before the last store nothing. -/
theorem store_after (r : Run) {p : Nat} (hi : i < r.units.size) (hp : p < 3) :
    (r.after (p * r.units.size + i + 1)).store = (r.after (p * r.units.size + i)).store := by
  have hlt : p < phases.length := Nat.lt_of_lt_of_le hp (by decide)
  rw [r.after_turn (List.getElem?_eq_getElem hlt) hi]
  exact step_store (List.getElem?_eq_getElem hlt) hp _ _

/-- A file ends in a turn of its own. -/
theorem turn_of_isDone (r : Run) {k : Nat} (hopen : ((r.after k).unitAt i).isDone = false)
    (hdone : ((r.after (k + 1)).unitAt i).isDone = true) :
    ∃ p phase, phases[p]? = some phase ∧ k = p * r.units.size + i := by
  cases ht : (turns r.units.size)[k]? with
  | none =>
    have hend : 4 * r.units.size ≤ k := by
      rw [← length_turns]
      exact List.getElem?_eq_none_iff.mp ht
    rw [after_of_le hend] at hopen
    rw [after_of_le (Nat.le_succ_of_le hend), hopen] at hdone
    contradiction
  | some t =>
    obtain ⟨phase, j⟩ := t
    by_cases hj : j = i
    · subst hj
      obtain ⟨p, hp, hk⟩ := getElem?_turns_eq_some ht
      exact ⟨p, phase, hp, hk⟩
    · have hphase := (mem_turns (List.mem_of_getElem? ht)).1
      rw [after_succ ht, step_isDone hphase _ hj, hopen] at hdone
      contradiction

/-- A file that is not done after its last turn stays so. -/
theorem isDone_after (r : Run) {k m : Nat} (hk : 3 * r.units.size + i < k) (hm : k ≤ m)
    (hopen : ((r.after k).unitAt i).isDone = false) : ((r.after m).unitAt i).isDone = false := by
  induction hm with
  | refl => exact hopen
  | @step m hm ih =>
    by_contra hdone
    obtain ⟨p, phase, hp, rfl⟩ := r.turn_of_isDone ih (by simpa using hdone)
    have hp4 : p < 4 := (List.getElem?_eq_some_iff.mp hp).1
    have : p * r.units.size ≤ 3 * r.units.size := Nat.mul_le_mul_right _ (by omega)
    have hm : k ≤ p * r.units.size + i := hm
    omega

end Run

/-! ## The results -/

theorem compileUntil_free (o : Options) (names : NameSource) (store : ClassStore)
    (files : List SourceFile) : compileUntil (fun _ => false) o names store files =
      (((start o names store files).after (4 * files.length)).closeAll .completed).toReport := by
  obtain ⟨k, hk, hstop, hrun⟩ := compileUntil_eq (fun _ => false) o names store files
  have hall := hstop.all fun _ => rfl
  rw [size_start] at hall
  rw [hrun, Nat.le_antisymm hk hall, if_neg (Nat.lt_irrefl _)]

/-- What a run gives that the context stops before turn `k`. A file that was given up before keeps
its result. Any other file is cancelled: if its last turn was not taken, nothing of it is stored; if
its last turn was taken, its classes may be stored, and it would be completed without the
cancellation. -/
theorem compileUntil_results (isCancelled : Nat → Bool) (o : Options) (names : NameSource)
    (store : ClassStore) (files : List SourceFile) :
    let n := files.length
    let r := start o names store files
    let free := compileUntil (fun _ => false) o names store files
    let report := compileUntil isCancelled o names store files
    ∃ k ≤ 4 * n, StopsAt isCancelled r k ∧ (k = 4 * n → report = free) ∧
      (k < 4 * n → report.store = (r.after k).store ∧ ∀ i < n,
        let u := (r.after k).unitAt i
        (u.isDone = true → report.results[i]? = free.results[i]?) ∧
        (u.isDone = false → report.results[i]? = some (u.closed .cancelled none).result ∧
          (k ≤ 3 * n + i → ∀ p, p * n + i < k →
            (r.after (p * n + i + 1)).store = (r.after (p * n + i)).store) ∧
          (3 * n + i < k → free.results[i]? =
            some (((r.after (4 * n)).unitAt i).closed .completed none).result))) := by
  intro n r free report
  have hsize : r.units.size = n := size_start ..
  obtain ⟨k, hk, hstop, hrun⟩ := compileUntil_eq isCancelled o names store files
  have hfree : free = _ := compileUntil_free o names store files
  refine ⟨k, hk, hstop, ?_, fun hlt => ?_⟩
  · rintro rfl
    rw [hfree]
    exact hrun.trans (by rw [if_neg (Nat.lt_irrefl _)])
  rw [if_pos hlt] at hrun
  have hresult {i m : Nat} (hi : i < n) (outcome : Outcome) :
      ((r.after m).closeAll outcome).toReport.results[i]? =
        some (((r.after m).unitAt i).ended outcome).result := by
    rw [Run.getElem?_results, if_pos (by rwa [(r.after_follows (Nat.zero_le m)).size.trans hsize])]
  have hstore : report.store = (r.after k).store :=
    (congrArg Report.store hrun).trans (Run.store_closeAll _ _)
  refine ⟨hstore, fun i hi => ⟨fun hdone => ?_, fun hopen => ⟨?_, ?_, ?_⟩⟩⟩
  · have hend := (r.after_follows hk).done i hdone
    rw [hfree, show report = _ from hrun, hresult hi, hresult hi, UnitRun.ended, UnitRun.ended,
      if_pos hdone, if_pos hend.1, hend.2]
  · rw [show report = _ from hrun, hresult hi, UnitRun.ended, if_neg (Bool.eq_false_iff.mp hopen)]
  · intro hlast p hp
    have hlt : p * n + i < 3 * n + i := Nat.lt_of_lt_of_le hp hlast
    have hp3 : p < 3 := Nat.lt_of_mul_lt_mul_right (Nat.lt_of_add_lt_add_right hlt)
    simpa only [hsize] using r.store_after (hsize ▸ hi) hp3
  · intro hlast
    have hend : ((r.after (4 * n)).unitAt i).isDone = false :=
      r.isDone_after (hsize ▸ hlast) hk hopen
    rw [hfree, hresult hi, UnitRun.ended, if_neg (Bool.eq_false_iff.mp hend)]

/-- The context is done when the last turn of `B.java` comes: `A.java` is cancelled after all its
turns, though it would be completed. -/
theorem cancelled_after_last_turn :
    let files : List SourceFile := [⟨"A.java", ""⟩, ⟨"B.java", ""⟩]
    let outcomes (isCancelled : Nat → Bool) : List Outcome :=
      (compileUntil isCancelled {} .empty {} files).results.map (·.outcome)
    outcomes (fun k => decide (7 ≤ k)) = [.cancelled, .cancelled] ∧
      outcomes (fun _ => false) = [.completed, .completed] := by
  decide +kernel

end Javelin.Compile
