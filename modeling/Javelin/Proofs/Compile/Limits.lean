import Javelin.Proofs.Compile.Turns

/-!
# The limit of errors

A file that has as many errors as it may takes up no further problems, and each check of the limit
gives it up. Class generation runs after the last check of a turn but one, so the classes of a file
that proceeds in spite of errors may be stored though it is given up.

1. What a problem counts (`Counted`, `noting_counted`, `Run.errorCount_reports`), and what the turns
   of a run keep (`Run.Limits`).
2. When a turn stores classes (`step_finish_store`).
3. How a file ends under a limit (`compile_limited`).
-/

namespace Javelin

namespace Problem.Collector

variable {c : Collector} {p : Problem}

theorem errorCount_sorted (c : Collector) : Problem.errorCount c.sorted = c.errorCount := by
  simp only [sorted, sort, errorCount, Problem.errorCount]
  exact (List.mergeSort_perm _ _).countP_eq _

theorem errorCount_report_le (c : Collector) (p : Problem) :
    (c.report p).errorCount ≤ c.errorCount + if p.isError then 1 else 0 := by
  simp only [errorCount, Problem.errorCount, toList, report]
  split
  · exact Nat.le_add_right ..
  · rw [Array.toList_push, List.countP_append]
    exact Nat.add_le_add_left (Nat.le_of_eq List.countP_singleton) _

/-- An error that is new counts. -/
theorem errorCount_report_new (hp : p.isError = true) (hrank : p.severity.rank ≤ c.threshold)
    (hnew : p.key ∉ c.seen) : (c.report p).errorCount = c.errorCount + 1 := by
  have hkept : ¬ (p.severity.rank > c.threshold || c.seen.contains p.key) := by
    simpa [Int.not_lt, hnew] using hrank
  rw [report, if_neg hkept, errorCount, errorCount, Problem.errorCount, Problem.errorCount, toList,
    toList, Array.toList_push, List.countP_append, List.countP_singleton, if_pos hp]

end Problem.Collector

namespace Compile

variable {limit : Nat} {files : List SourceFile} {r s : Run} {i : Nat}

/-! ## Counting errors -/

/-- A file has at most as many errors as it may, and is full if it has that many. -/
def Counted (limit : Nat) (c : Problem.Collector × Bool) : Prop :=
  c.1.errorCount ≤ limit ∧ c.2 = decide (limit ≤ c.1.errorCount)

theorem noting_counted (hlimit : 0 < limit) {name : Text} {c d : Problem.Collector × Bool}
    (h : Relation.ReflTransGen (Noting limit name) c d) (hc : Counted limit c) :
    Counted limit d := by
  induction h with
  | refl => exact hc
  | @tail d e _ hstep ih =>
    obtain ⟨p, -, hopen, rfl⟩ := hstep
    obtain ⟨-, hfull⟩ := ih
    have hless : d.1.errorCount < limit := by
      rw [hopen] at hfull
      simpa using hfull
    have hle := d.1.errorCount_report_le p
    cases hp : p.isError with
    | true =>
      rw [hp, if_pos rfl] at hle
      exact ⟨Nat.le_trans hle hless, by simp [hlimit]⟩
    | false =>
      rw [hp, if_neg nofun, Nat.add_zero] at hle
      have := Nat.lt_of_le_of_lt hle hless
      exact ⟨Nat.le_of_lt this, by simp [this]⟩

/-- What the limit means for the files of a run. -/
structure Run.Limits (limit : Nat) (r : Run) : Prop where
  options : r.options.maxErrors = limit
  counted : ∀ j, Counted limit (r.unitAt j).noted
  problems : ∀ j, Problem.errorCount (r.unitAt j).result.problems ≤ limit

namespace Run.Limits

theorem goes {stores : Bool} (h : r.Limits limit) (hlimit : 0 < limit)
    (hgoes : r.Goes i stores s) : s.Limits limit where
  options := hgoes.options ▸ h.options
  counted j := noting_counted hlimit (h.options ▸ (hgoes.units j).noted) (h.counted j)
  problems j := (hgoes.units j).problems.symm ▸ h.problems j

theorem close (h : r.Limits limit) (i : Nat) (outcome : Outcome) (abort : Option Abort) :
    (r.close i outcome abort).Limits limit where
  options := h.options
  counted j := by
    rw [unitAt_close]
    split <;> exact h.counted j
  problems j := by
    rw [unitAt_close]
    split
    · exact (Problem.Collector.errorCount_sorted _).symm ▸ (h.counted j).1
    · exact h.problems j

theorem after (h : r.Limits limit) (hlimit : 0 < limit) (k : Nat) : (r.after k).Limits limit :=
  after_keeps (fun h hgoes => h.goes hlimit hgoes) (fun i _ abort h => h.close i _ abort) h k

theorem errorCount_ended (h : r.Limits limit) (i : Nat) {outcome : Outcome} :
    Problem.errorCount ((r.unitAt i).ended outcome).result.problems ≤ limit := by
  unfold UnitRun.ended
  split
  · exact h.problems i
  · exact (Problem.Collector.errorCount_sorted _).symm ▸ (h.counted i).1

end Run.Limits

theorem start_limits (o : Options) (names : NameSource) (store : ClassStore)
    (files : List SourceFile) (hlimit : 0 < o.maxErrors) :
    (start o names store files).Limits o.maxErrors := by
  have hunit (j : Nat) : ((start o names store files).unitAt j).noted.1.errorCount = 0 ∧
      ((start o names store files).unitAt j).isFull = false ∧
      ((start o names store files).unitAt j).result.problems = [] := by
    simp only [start, Run.unitAt, Array.getD_eq_getD_getElem?, List.getElem?_toArray,
      List.getElem?_map]
    cases files[j]? <;> exact ⟨rfl, rfl, rfl⟩
  refine ⟨rfl, fun j => ⟨?_, ?_⟩, fun j => ?_⟩
  · rw [(hunit j).1]
    exact Nat.zero_le _
  · rw [(hunit j).1]
    exact (hunit j).2.1.trans (by simpa using Nat.ne_of_gt hlimit)
  · rw [(hunit j).2.2]
    exact Nat.zero_le _

theorem Run.Goes.indexOf? {stores : Bool} (h : r.Goes i stores s) (file : Text) :
    s.indexOf? file = r.indexOf? file := by
  unfold Run.indexOf?
  rw [h.size]
  congr 1
  funext j
  exact congrArg (fun u : SourceFile => u.name == file) (h.units j).source

/-- A problem of a file that is not full. -/
theorem Run.found_report (r : Run) {p : Problem} (hi : r.indexOf? p.file = some i) (hsize : i < r.units.size)
    (hopen : (r.unitAt i).isFull = false) : ((r.report p).unitAt i).found =
      (r.unitAt i).found.report p := by
  rw [Run.unitAt] at hopen ⊢
  unfold Run.report
  rw [hi]
  simp only [hopen, Bool.false_eq_true, if_false]
  rw [Run.unitAt, Array.getD_eq_getD_getElem?, Array.getElem?_setIfInBounds_self_of_lt hsize]
  rfl

/-- Errors of a file that are all new count, up to the limit. -/
theorem Run.errorCount_reports (hr : r.Limits limit) (hlimit : 0 < limit) (hsize : i < r.units.size)
    {ps : List Problem} (hps : ∀ p ∈ ps, p.isError = true ∧ r.indexOf? p.file = some i)
    (hrank : Problem.Severity.error.rank ≤ (r.unitAt i).found.threshold)
    (hnew : (ps.map Problem.key).Nodup ∧ ∀ p ∈ ps, p.key ∉ (r.unitAt i).found.seen) :
    min limit ((r.unitAt i).found.errorCount + ps.length) ≤
      ((ps.foldl Run.report r).unitAt i).found.errorCount := by
  induction ps generalizing r with
  | nil => exact Nat.min_le_right _ _
  | cons p ps ih =>
    have goes : r.Goes i false (r.report p) := .report r p
    obtain ⟨⟨herror, hfile⟩, hps⟩ := List.forall_mem_cons.1 hps
    obtain ⟨hnot, hkeys⟩ := List.nodup_cons.1 hnew.1
    obtain ⟨hunseen, hnew⟩ := List.forall_mem_cons.1 hnew.2
    cases hfull : (r.unitAt i).isFull with
    | true =>
      have same : r.report p = r := by
        rw [Run.unitAt] at hfull
        simp only [Run.report, hfile, hfull, if_true]
      have hcount : limit ≤ (r.unitAt i).found.errorCount :=
        of_decide_eq_true ((hr.counted i).2.symm.trans hfull)
      have rest := ih hr hsize hps hrank ⟨hkeys, hnew⟩
      rw [List.foldl_cons, same, List.length_cons]
      omega
    | false =>
      have found := r.found_report hfile hsize hfull
      have hseverity : p.severity = .error := eq_of_beq herror
      have count := Problem.Collector.errorCount_report_new herror (hseverity ▸ hrank) hunseen
      have unseen : ∀ q ∈ ps, q.key ∉ ((r.unitAt i).found.report p).seen := by
        intro q hq
        unfold Problem.Collector.report
        split
        · exact hnew q hq
        · simp only [Std.HashSet.mem_insert, not_or]
          exact ⟨fun h => hnot (List.mem_map.2 ⟨q, hq, (eq_of_beq h).symm⟩), hnew q hq⟩
      have threshold : ((r.unitAt i).found.report p).threshold = (r.unitAt i).found.threshold := by
        unfold Problem.Collector.report
        split <;> rfl
      have rest := ih (hr.goes hlimit goes) (goes.size ▸ hsize)
        (fun q hq => ⟨(hps q hq).1, (goes.indexOf? q.file).trans (hps q hq).2⟩)
        (by rw [found, threshold]; exact hrank) ⟨hkeys, by rw [found]; exact unseen⟩
      rw [found, count] at rest
      rw [List.foldl_cons, List.length_cons]
      omega

/-! ## Stored classes -/

/-- Work that reaches a state with the property if it stores classes. -/
def Storing {α : Type} (m : Compiling α) (r : Run) (P : Run → Prop) : Prop :=
  (stateAfter (m r)).store ≠ r.store → P (stateAfter (m r))

theorem Storing.bind {α β : Type} {m : Compiling α} {f : α → Compiling β} {P : Run → Prop}
    (i : Nat) (hm : Works i false m)
    (hf : ∀ a s, m r = .ok a s → r.Goes i false s → Storing (f a) s P) : Storing (m >>= f) r P := by
  have hgoes := hm r
  unfold Storing
  change (stateAfter (EStateM.bind m f r)).store ≠ r.store → P (stateAfter (EStateM.bind m f r))
  unfold EStateM.bind
  cases hr : m r with
  | ok a s =>
    rw [hr] at hgoes
    exact fun h => hf a s hr hgoes fun hs => h (hs.trans (hgoes.store rfl))
  | error e s =>
    rw [hr] at hgoes
    exact fun h => absurd (hgoes.store rfl) h

theorem noted_storeClasses (i j : Nat) (os : List Emit.Output) (r : Run) :
    ((stateAfter (storeClasses i os r)).unitAt j).noted = (r.unitAt j).noted := by
  induction os generalizing r with
  | nil => rfl
  | cons o os ih =>
    have hget : (get : Compiling Run) r = .ok r r := rfl
    cases hinsert : r.store.insert o.name o.bytes with
    | ok store =>
      have hcons : storeClasses i (o :: os) r = storeClasses i os { r with store } := by
        simp only [storeClasses, Bind.bind, EStateM.bind, hget, hinsert]
        rfl
      rw [hcons]
      exact ih _
    | error e =>
      have hcons : storeClasses i (o :: os) r =
          modifyResult i (fun x => { x with fault := some e }) r := by
        simp only [storeClasses, Bind.bind, EStateM.bind, hget, hinsert]
      rw [hcons]
      refine congrArg UnitRun.noted (Run.unitAt_modify r i j _) |>.trans ?_
      split <;> rfl

theorem checkLimit_ok {x : Unit} (h : checkLimit i r = .ok x s) :
    (r.unitAt i).isFull = false ∧ s = r := by
  cases hfull : (r.unitAt i).isFull with
  | true =>
    rw [checkLimit_of_full hfull] at h
    cases h
  | false =>
    rw [checkLimit_of_open hfull] at h
    cases h
    exact ⟨rfl, rfl⟩

/-- A file that reaches the limit while its classes are generated has them stored only if it
proceeds in spite of errors. -/
theorem generate_storing (hr : r.Limits limit) (hlimit : 0 < limit) :
    Storing (generate i) r fun s =>
      (s.unitAt i).isFull = true → r.options.proceedsOnError = true := by
  refine .bind i (.unitRun i) fun u s hu _ => ?_
  cases hu
  refine .bind i (.ofLookup _) fun (classes, fault) s₁ _ hgoes₁ => ?_
  refine .bind i (.modifyResult (by exact fun _ => ⟨rfl, rfl, rfl, rfl⟩)) fun _ s _ hgoes₂ => ?_
  refine .bind i (.unitRun i) fun u s' hu _ => ?_
  cases hu
  refine .bind i .get fun x s' hx _ => ?_
  cases hx
  have hgoes := hgoes₁.trans hgoes₂
  rw [← hgoes.options]
  split
  next hstores =>
    intro _ hfull
    have hnoted := noted_storeClasses i i classes s
    replace hfull : (s.unitAt i).isFull = true := (congrArg Prod.snd hnoted).symm.trans hfull
    have hcounted := ((hr.goes hlimit hgoes).counted i).2
    have herrors : (s.unitAt i).found.hasErrors = true := by
      have : limit ≤ (s.unitAt i).found.errorCount := by simpa [UnitRun.noted, hfull] using hcounted
      exact decide_eq_true (Nat.lt_of_lt_of_le hlimit this)
    rw [← Run.unitAt, herrors, Bool.not_true, Bool.false_or, Bool.and_eq_true] at hstores
    exact hstores.2
  next => exact fun h => absurd rfl h

theorem finish_storing (hr : r.Limits limit) (hlimit : 0 < limit) :
    Storing (finish i) r fun t =>
      (∃ s, examine i r = .ok () s ∧ (s.unitAt i).found.errorCount < limit) ∧
      ((t.unitAt i).isFull = true → r.options.proceedsOnError = true) := by
  refine .bind i (.unitRun i) fun u s hu _ => ?_
  cases hu
  refine .bind i (.ofLookup _) fun _ s₁ hresolve hgoes₁ => ?_
  refine .bind i (.checkLimit i) fun _ s hcheck _ => ?_
  obtain ⟨-, rfl⟩ := checkLimit_ok hcheck
  refine .bind i (.ofLookup _) fun (notes, _) s₂ hanalyze hgoes₂ => ?_
  refine .bind i (.modifyResult (by exact fun _ => ⟨rfl, rfl, rfl, rfl⟩)) ?_
  intro _ s₃ hnotes hgoes₃
  refine .bind i (.checkLimit i) fun _ s hcheck _ => ?_
  obtain ⟨hopen, rfl⟩ := checkLimit_ok hcheck
  refine .bind i .get fun x s' hx _ => ?_
  cases hx
  have hexamined : examine i r = .ok () s := by
    unfold examine
    simp only [Bind.bind, EStateM.bind, unitRun_apply, Run.unitAt, hresolve, hanalyze]
    exact hnotes
  have hgoes := (hgoes₁.trans hgoes₂).trans hgoes₃
  split
  · exact fun h => absurd rfl h
  · intro h
    have hcounted := ((hr.goes hlimit hgoes).counted i).2
    have hless : (s.unitAt i).found.errorCount < limit := by
      simpa [UnitRun.noted, hopen] using hcounted
    refine ⟨⟨s, hexamined, hless⟩, fun hfull => ?_⟩
    rw [← hgoes.options]
    exact generate_storing (hr.goes hlimit hgoes) hlimit h hfull

/-! ## How a file ends -/

theorem Run.Goes.limitAbort {stores : Bool} {j : Nat} (h : Run.Goes i stores r s) :
    s.limitAbort j = r.limitAbort j := by
  rw [Run.limitAbort, Run.limitAbort, (h.units j).source, h.options]

theorem Run.Follows.limitAbort (h : r.Follows s) (j : Nat) : s.limitAbort j = r.limitAbort j := by
  rw [Run.limitAbort, Run.limitAbort, h.source j, h.options]

/-- The abort of a file: by the limit, or by the own work of one of its turns. -/
def GivenUp (r : Run) (i : Nat) (a : Abort) : Prop :=
  a = r.limitAbort i ∨ ∃ (p : Nat) (free : Nat → Compiling Unit) (b : Abort) (s : Run),
    freePhases[p]? = some free ∧ free i (r.after (p * r.units.size + i)) = .error b s ∧
      a = b.within (r.unitAt i).source.name

theorem Run.Goes.unitAt_close {stores : Bool} (h : r.Goes i stores s) (hi : i < r.units.size)
    (outcome : Outcome) (abort : Option Abort) :
    (s.close i outcome abort).unitAt i = (s.unitAt i).closed outcome abort := by
  rw [Run.unitAt_close, if_pos ⟨rfl, Nat.lt_of_lt_of_eq hi h.size.symm⟩]

theorem Turn.isDone_of_full {stores : Bool} {free : Compiling Unit} (h : Turn i stores free r s)
    (hi : i < r.units.size) (hfull : (s.unitAt i).isFull = true) : (s.unitAt i).isDone = true := by
  cases h with
  | limit goes _ => rw [goes.unitAt_close hi, UnitRun.closed]
  | ended _ _ isOpen => exact absurd hfull (Bool.eq_false_iff.mp isOpen)
  | gaveUp goes _ => rw [goes.unitAt_close hi, UnitRun.closed]

theorem Turn.aborted {stores : Bool} {free : Compiling Unit} (h : Turn i stores free r s)
    (hi : i < r.units.size) (hopen : (r.unitAt i).isDone = false)
    (hdone : (s.unitAt i).isDone = true) : (s.unitAt i).result.outcome = .aborted ∧
      ∃ a, (s.unitAt i).result.abort = some a ∧ (a = r.limitAbort i ∨
        ∃ b t, free r = .error b t ∧ a = b.within (r.unitAt i).source.name) := by
  cases h with
  | limit goes _ =>
    rw [goes.unitAt_close hi]
    exact ⟨rfl, _, rfl, .inl goes.limitAbort⟩
  | ended goes _ _ =>
    rw [(goes.units i).isDone, hopen] at hdone
    contradiction
  | gaveUp goes work =>
    rw [goes.unitAt_close hi]
    exact ⟨rfl, _, rfl, .inr ⟨_, _, work, rfl⟩⟩

namespace Run

/-- A file that is done before the end of the run is aborted. -/
theorem aborted_of_isDone (r : Run) (hi : i < r.units.size) (hopen : (r.unitAt i).isDone = false)
    {k : Nat} (h : ((r.after k).unitAt i).isDone = true) :
    ((r.after k).unitAt i).result.outcome = .aborted ∧
      ∃ a, ((r.after k).unitAt i).result.abort = some a ∧ GivenUp r i a := by
  induction k with
  | zero => exact absurd h (Bool.eq_false_iff.mp hopen)
  | succ k ih =>
    cases hdone : ((r.after k).unitAt i).isDone with
    | true =>
      rw [((r.after_follows_succ k).done i hdone).2]
      exact ih hdone
    | false =>
      obtain ⟨p, phase, hp, rfl⟩ := r.turn_of_isDone hdone h
      obtain ⟨free, hfree⟩ := freePhase_of_phase hp
      have hstart := r.after_follows (Nat.zero_le (p * r.units.size + i))
      rw [r.after_turn hp hi] at h ⊢
      obtain ⟨houtcome, a, ha, hgiven⟩ :=
        (step_turn hp hfree hdone).aborted (Nat.lt_of_lt_of_eq hi hstart.size.symm) hdone h
      refine ⟨houtcome, a, ha, ?_⟩
      rw [hstart.limitAbort, hstart.source] at hgiven
      exact hgiven.imp id fun ⟨b, t, hwork, hb⟩ => ⟨p, free, b, t, hfree, hwork, hb⟩

/-- A file that is full after its last turn or before is done then. -/
theorem isDone_of_full (r : Run) (hi : i < r.units.size) {k : Nat}
    (hk : k ≤ 3 * r.units.size + i + 1) (hfull : ((r.after k).unitAt i).isFull = true) :
    ((r.after (3 * r.units.size + i + 1)).unitAt i).isDone = true := by
  have hend := (r.after_follows hk).full hfull
  rw [r.after_turn (p := 3) rfl hi] at hend ⊢
  cases hdone : ((r.after (3 * r.units.size + i)).unitAt i).isDone with
  | true => rwa [step_done _ hdone]
  | false =>
    have hsize := (r.after_follows (Nat.zero_le (3 * r.units.size + i))).size
    have hturn := step_turn (p := 3) rfl rfl hdone
    exact hturn.isDone_of_full (Nat.lt_of_lt_of_eq hi hsize.symm) hend

/-- The turns of a full file do none of its work. -/
theorem after_of_full (r : Run) (hi : i < r.units.size) {p k : Nat} {phase : Nat → Compiling Unit}
    (hp : phases[p]? = some phase) (hk : k ≤ p * r.units.size + i)
    (hfull : ((r.after k).unitAt i).isFull = true) :
    let before := r.after (p * r.units.size + i)
    r.after (p * r.units.size + i + 1) =
      if (before.unitAt i).isDone then before
      else before.close i .aborted (some (r.limitAbort i)) := by
  intro before
  have hbefore := (r.after_follows hk).full hfull
  rw [r.after_turn hp hi]
  split
  next hdone => exact step_done phase hdone
  next hdone =>
    rw [step_of_full phase (by simpa using hdone) hbefore,
      (r.after_follows (Nat.zero_le _)).limitAbort, after_zero]

end Run

/-! ### Stored classes of a full file -/

theorem stateAfter_checkLimit {α : Type} (m : Compiling α) (r : Run) :
    stateAfter ((do let _ ← m; checkLimit i) r) = stateAfter (m r) := by
  change stateAfter (EStateM.bind m (fun _ => checkLimit i) r) = _
  unfold EStateM.bind
  cases m r with
  | error e s => rfl
  | ok a s =>
    cases hfull : (s.unitAt i).isFull with
    | true =>
      simp only [checkLimit_of_full hfull]
      rfl
    | false =>
      simp only [checkLimit_of_open hfull]
      rfl

theorem settle_store (i : Nat) (file : Text) (x : EStateM.Result Abort Run Unit) :
    (settle i file x).store = (stateAfter x).store := by
  cases x <;> rfl

theorem settle_noted (i : Nat) (file : Text) (x : EStateM.Result Abort Run Unit) :
    ((settle i file x).unitAt i).noted = ((stateAfter x).unitAt i).noted := by
  cases x with
  | ok _ s => rfl
  | error a s =>
    rw [settle, Run.unitAt_close]
    split <;> rfl

theorem settle_isFull (i : Nat) (file : Text) (x : EStateM.Result Abort Run Unit) :
    ((settle i file x).unitAt i).isFull = ((stateAfter x).unitAt i).isFull :=
  congrArg Prod.snd (settle_noted i file x)

/-- What a turn finds in a file is what the work of its phase finds. -/
theorem found_step (phase : Nat → Compiling Unit) (hdone : (r.unitAt i).isDone = false)
    (hopen : (r.unitAt i).isFull = false) :
    ((step phase r i).unitAt i).found = ((stateAfter (phase i r)).unitAt i).found := by
  have work : (do checkLimit i; phase i; checkLimit i : Compiling Unit) r =
      (do phase i; checkLimit i : Compiling Unit) r := by
    change EStateM.bind (checkLimit i) _ r = _
    rw [EStateM.bind, checkLimit_of_open hopen]
  rw [step_eq phase hdone, work]
  have noted := settle_noted i (r.unitAt i).source.name ((do phase i; checkLimit i : Compiling Unit) r)
  rw [stateAfter_checkLimit] at noted
  exact congrArg Prod.fst noted

/-- When the last turn of a file stores classes, it was resolved and checked with fewer errors than
it may have; if it is full nevertheless, it proceeds in spite of errors. -/
theorem step_finish_store (hr : r.Limits limit) (hlimit : 0 < limit)
    (h : (step finish r i).store ≠ r.store) :
    (∃ s, examine i r = .ok () s ∧ (s.unitAt i).found.errorCount < limit) ∧
      (((step finish r i).unitAt i).isFull = true → r.options.proceedsOnError = true) := by
  cases hdone : (r.unitAt i).isDone with
  | true => exact absurd (congrArg Run.store (step_done finish hdone)) h
  | false =>
    rw [step_eq finish hdone, settle_store] at h
    rw [step_eq finish hdone, settle_isFull]
    have hwork : Storing (do checkLimit i; finish i; checkLimit i : Compiling Unit) r fun t =>
        (∃ s, examine i r = .ok () s ∧ (s.unitAt i).found.errorCount < limit) ∧
          ((t.unitAt i).isFull = true → r.options.proceedsOnError = true) := by
      refine .bind i (.checkLimit i) fun _ s hcheck _ => ?_
      obtain ⟨-, rfl⟩ := checkLimit_ok hcheck
      unfold Storing
      rw [stateAfter_checkLimit]
      exact finish_storing hr hlimit
    exact hwork h

/-- Only the last turn of a file that is full by its end stores classes, and only if the file
proceeds in spite of errors and had fewer of them when it was resolved and checked. -/
theorem Run.after_full_store (hr : r.Limits limit) (hlimit : 0 < limit) (hi : i < r.units.size)
    {p k : Nat} (hp : p < 4) (hk : k ≤ 3 * r.units.size + i + 1)
    (hfull : ((r.after k).unitAt i).isFull = true)
    (hstore : (r.after (p * r.units.size + i + 1)).store ≠ (r.after (p * r.units.size + i)).store) :
    p = 3 ∧ r.options.proceedsOnError = true ∧
      ∃ s, examine i (r.after (3 * r.units.size + i)) = .ok () s ∧
        (s.unitAt i).found.errorCount < limit := by
  obtain rfl : p = 3 := by
    by_contra hne
    exact hstore (r.store_after hi (by omega))
  have hlimits := hr.after hlimit (3 * r.units.size + i)
  have hend := (r.after_follows hk).full hfull
  rw [r.after_turn rfl hi] at hstore hend
  obtain ⟨hexamined, hproceeds⟩ := step_finish_store hlimits hlimit hstore
  have hoptions := (r.after_follows (Nat.zero_le (3 * r.units.size + i))).options
  exact ⟨rfl, (congrArg Options.proceedsOnError hoptions).symm.trans (hproceeds hend), hexamined⟩

/-! ### Files under the limit -/

/-- A turn without any check of the limit. -/
def freeStep (free : Nat → Compiling Unit) (r : Run) (i : Nat) : Run :=
  if (r.unitAt i).isDone then r else settle i (r.unitAt i).source.name (free i r)

/-- Unless a file ends with as many errors as it may, no check of the limit ends it. -/
theorem Run.after_free (hr : r.Limits limit) (hlimit : 0 < limit) (hi : i < r.units.size)
    {p : Nat} {free : Nat → Compiling Unit} (hfree : freePhases[p]? = some free)
    (hless : Problem.errorCount
      (((r.after (4 * r.units.size)).unitAt i).ended .completed).result.problems < limit) :
    r.after (p * r.units.size + i + 1) = freeStep free (r.after (p * r.units.size + i)) i := by
  have hp : p < 4 := (List.getElem?_eq_some_iff.mp hfree).1
  have hphase : phases[p]? = some phases[p] := List.getElem?_eq_getElem hp
  have hsize := (r.after_follows (Nat.zero_le (p * r.units.size + i))).size
  have hlast : p * r.units.size + i + 1 ≤ 4 * r.units.size := by
    have : p * r.units.size ≤ 3 * r.units.size := Nat.mul_le_mul_right _ (by omega)
    omega
  have hend := (r.after_follows hlast).done i
  have hlimits := hr.after hlimit (p * r.units.size + i)
  rw [r.after_turn hphase hi] at hend ⊢
  unfold freeStep
  cases hdone : ((r.after (p * r.units.size + i)).unitAt i).isDone with
  | true => rw [step_done _ hdone, if_pos rfl]
  | false =>
    have hturn := step_turn hphase hfree hdone
    rw [if_neg nofun]
    generalize step _ _ i = t at hturn hend ⊢
    cases hturn with
    | ended _ work _ => rw [work, settle]
    | gaveUp _ work => rw [work, settle]
    | @limit s goes full =>
      exfalso
      have hclosed := goes.unitAt_close (Nat.lt_of_lt_of_eq hi hsize.symm) .aborted
        (some (s.limitAbort i))
      rw [hclosed] at hend
      obtain ⟨hdone, hresult⟩ := hend rfl
      rw [UnitRun.ended, if_pos hdone, hresult] at hless
      have hcount := ((hlimits.goes hlimit goes).counted i).2
      have : limit ≤ (s.unitAt i).found.errorCount := by simpa [UnitRun.noted, full] using hcount
      change Problem.errorCount (s.unitAt i).found.sorted < limit at hless
      rw [Problem.Collector.errorCount_sorted] at hless
      exact Nat.not_le_of_lt hless this

/-! ### A file that reaches the limit -/

/-- Two files, the first of which is two braces that close nothing. -/
def fullFiles : List SourceFile := [⟨"A.java", "\x7d \x7d"⟩, ⟨"B.java", "class B { }"⟩]

/-- Two errors per file, and classes are stored in spite of errors. -/
def twoErrors : Options := { maxErrors := 2, proceedsOnError := true }

def fullStart : Run := start twoErrors .empty {} fullFiles

/-- Parsing the first file finds two errors. -/
theorem fullStart_after_parse : 2 ≤ ((fullStart.after 1).unitAt 0).found.errorCount := by
  let tree := Parse.unitOf "\x7d \x7d" { file := "A.java", firstId := 1 }
  have hps : tree.problems.length = 2 ∧ (tree.problems.map Problem.key).Nodup ∧
      ∀ p ∈ tree.problems, p.isError = true ∧ p.file = "A.java" := by decide +kernel
  obtain ⟨hlen, hkeys, hps⟩ := hps
  let numbered : Run :=
    { fullStart with world := { fullStart.world with nextNode := tree.nextId } }
  let withTree (u : UnitRun) : UnitRun := { u with result := { u.result with tree := some tree.tree } }
  let parsed : Run := { numbered with units := numbered.units.modify 0 withTree }
  have first : fullStart.Goes 0 false numbered := .of_units rfl rfl fun _ => rfl
  have goes : fullStart.Goes 0 false parsed :=
    first.trans (.modify (g := withTree) _ fun _ => ⟨rfl, rfl, rfl, rfl, rfl, rfl, .refl⟩)
  have limits : parsed.Limits 2 :=
    (start_limits twoErrors .empty {} fullFiles (by decide)).goes (by decide) goes
  have named : parsed.indexOf? "A.java" = some 0 := by decide +kernel
  have turn : fullStart.after 1 = step parse fullStart 0 :=
    fullStart.after_turn (p := 0) (i := 0) rfl (by decide +kernel)
  have work : stateAfter (parse 0 fullStart) = tree.problems.foldl Run.report parsed := rfl
  have fresh : (parsed.unitAt 0).found = { threshold := 2 } := rfl
  have counted := Run.errorCount_reports (i := 0) limits (by decide) (by decide +kernel)
    (fun p hp => ⟨(hps p hp).1, (hps p hp).2 ▸ named⟩) (by rw [fresh]; decide)
    ⟨hkeys, by rw [fresh]; simp⟩
  rw [hlen] at counted
  rw [turn, found_step parse rfl rfl, work]
  exact Nat.le_trans (by omega) counted

/-! ### The end of a file -/

/-- How a file ends under a limit of errors. Its result has at most as many errors as it may. If it
has as many before its last turn, or reaches them in a turn of its own, then it is aborted, none of
its further turns does any work, and it has classes stored only if it proceeds in spite of errors
and had fewer errors when their generation began. If its result has fewer errors, its turns run as
without any check of the limit. -/
theorem compile_limited {o : Options} (hlimit : 0 < o.maxErrors) (hrun : o.isCancelled = false)
    (names : NameSource) (store : ClassStore) (files : List SourceFile) {i : Nat}
    (hi : i < files.length) :
    let r := start o names store files
    let before (p : Nat) := r.after (p * files.length + i)
    let after (p : Nat) := r.after (p * files.length + i + 1)
    ∃ u, (compile o names store files).results[i]? = some u ∧
      Problem.errorCount u.problems ≤ o.maxErrors ∧
      (∀ k ≤ 3 * files.length + i + 1, o.maxErrors ≤ ((r.after k).unitAt i).found.errorCount →
        (u.outcome = .aborted ∧ ∃ a, u.abort = some a ∧ GivenUp r i a) ∧
        (∀ p < 4, k ≤ p * files.length + i → after p = if ((before p).unitAt i).isDone then before p
          else (before p).close i .aborted (some (r.limitAbort i))) ∧
        (∀ p < 4, (after p).store ≠ (before p).store → p = 3 ∧ o.proceedsOnError = true ∧
          ∃ s, examine i (before 3) = .ok () s ∧ (s.unitAt i).found.errorCount < o.maxErrors)) ∧
      (Problem.errorCount u.problems < o.maxErrors → ∀ p free, freePhases[p]? = some free →
        after p = freeStep free (before p) i) := by
  intro r before after
  have hsize : r.units.size = files.length := size_start ..
  have hir : i < r.units.size := hsize ▸ hi
  have hlimits : r.Limits o.maxErrors := start_limits o names store files hlimit
  have hopen : (r.unitAt i).isDone = false := start_isDone ..
  have hfullAt (k : Nat) (h : o.maxErrors ≤ ((r.after k).unitAt i).found.errorCount) :
      ((r.after k).unitAt i).isFull = true :=
    ((hlimits.after hlimit k).counted i).2.trans (decide_eq_true h)
  let u := (((r.after (4 * files.length)).unitAt i).ended .completed).result
  refine ⟨u, ?_, ?_, fun k hk hcount => ?_, fun hless p free hfree => ?_⟩
  · rw [compile, hrun, compileUntil_free, Run.getElem?_results, if_pos]
    rwa [(r.after_follows (Nat.zero_le _)).size, Run.after_zero]
  · exact (hlimits.after hlimit _).errorCount_ended i
  · have hfull := hfullAt k hcount
    have hdone := r.isDone_of_full hir (hsize.symm ▸ hk) hfull
    have hlast : 3 * r.units.size + i + 1 ≤ 4 * files.length := by omega
    refine ⟨?_, fun p hp hkp => ?_, fun p hp hstore => ?_⟩
    · have hend := ((r.after_follows hlast).done i hdone).1
      have hu : u = ((r.after (4 * files.length)).unitAt i).result :=
        congrArg UnitRun.result (if_pos hend)
      exact hu ▸ r.aborted_of_isDone hir hopen hend
    · simp only [after, before, ← hsize] at hkp ⊢
      exact r.after_of_full hir (List.getElem?_eq_getElem hp) hkp hfull
    · simp only [after, before, ← hsize] at hstore ⊢
      exact Run.after_full_store hlimits hlimit hir hp (hsize.symm ▸ hk) hfull hstore
  · simp only [after, before, ← hsize]
    exact Run.after_free hlimits hlimit hir hfree (hsize.symm ▸ hless)

theorem compile_limited_full :
    0 < twoErrors.maxErrors ∧ twoErrors.isCancelled = false ∧ 0 < fullFiles.length ∧
      twoErrors.maxErrors ≤ ((fullStart.after 1).unitAt 0).found.errorCount ∧
      ∃ u, (compile twoErrors .empty {} fullFiles).results[0]? = some u ∧
        Problem.errorCount u.problems ≤ 2 ∧
        (u.outcome = .aborted ∧ ∃ a, u.abort = some a ∧ GivenUp fullStart 0 a) ∧
        (∀ p < 4, 1 ≤ p * 2 → fullStart.after (p * 2 + 1) =
          if ((fullStart.after (p * 2)).unitAt 0).isDone then fullStart.after (p * 2)
          else (fullStart.after (p * 2)).close 0 .aborted (some (fullStart.limitAbort 0))) ∧
        ∀ p < 4, (fullStart.after (p * 2 + 1)).store ≠ (fullStart.after (p * 2)).store → p = 3 ∧
          ∃ s, examine 0 (fullStart.after 6) = .ok () s ∧ (s.unitAt 0).found.errorCount < 2 := by
  have hlimit : 0 < twoErrors.maxErrors := by decide
  have hi : 0 < fullFiles.length := by decide
  obtain ⟨u, hu, hle, hfull, -⟩ := compile_limited hlimit rfl .empty {} fullFiles hi
  obtain ⟨haborted, hturns, hstores⟩ := hfull 1 (by decide) fullStart_after_parse
  refine ⟨hlimit, rfl, hi, fullStart_after_parse, u, hu, hle, haborted, hturns, fun p hp h => ?_⟩
  obtain ⟨hp, -, hexamined⟩ := hstores p hp h
  exact ⟨hp, hexamined⟩

end Compile

end Javelin
