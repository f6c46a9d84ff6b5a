import Mathlib.Data.List.Sort
import Javelin.Proofs.Compile.JobSteps

/-!
# Every job is served once

What submitters, the background worker and the closing caller see of a batch, after any run of their
actions.

1. The table of jobs as a list (`Sound.list_numbers`, `Sound.list_requests`).
2. How the status of a job moves (`Sound.moves`).
3. Every job is served once, in the order of the queue (`jobs_served`).
4. Requests that are submitted one after another (`runRequests_eq`).
-/

namespace Javelin.Compile
namespace Batch

variable {s : Setting} {as : List Action} {a : Action} {b b' : Batch} {id : Text} {j : Job}

/-! ## The list of all jobs -/

namespace Sound

variable {requests : List Request} {queued : List Nat} {taken : Nat}

theorem mem_list (h : Sound requests queued taken b) : j ∈ b.list ↔ b.get? j.id = some j := by
  rw [list, List.mem_mergeSort, List.mem_map]
  constructor
  · rintro ⟨⟨id, k⟩, hmem, rfl⟩
    have hget : b.get? id = some k := Std.HashMap.mem_toList_iff_getElem?_eq_some.mp hmem
    exact (h.id hget).symm ▸ hget
  · intro hget
    exact ⟨(j.id, j), Std.HashMap.mem_toList_iff_getElem?_eq_some.mpr hget, rfl⟩

theorem get?_eq_some (h : Sound requests queued taken b) :
    b.get? id = some j ↔ j ∈ b.list ∧ j.id = id := by
  rw [h.mem_list]
  constructor
  · intro hget
    obtain rfl := h.id hget
    exact ⟨hget, rfl⟩
  · rintro ⟨hget, rfl⟩
    exact hget

theorem list_ids_nodup (h : Sound requests queued taken b) : (b.list.map Job.id).Nodup := by
  have hkeys : (b.jobs.toList.map (·.2)).map Job.id = b.jobs.keys := by
    rw [← Std.HashMap.map_fst_toList_eq_keys, List.map_map]
    refine List.map_congr_left fun ⟨id, j⟩ hmem => ?_
    exact h.id (Std.HashMap.mem_toList_iff_getElem?_eq_some.mp hmem)
  refine ((List.mergeSort_perm ..).map _).nodup_iff.mpr ?_
  rw [hkeys]
  exact Std.HashMap.nodup_keys

/-- The list shows the jobs in the order of their numbers. -/
theorem list_numbers (h : Sound requests queued taken b) :
    b.list.map (·.number) = List.range' 1 b.count := by
  have hids : (b.list.map (·.number)).map Text.ofNat = b.list.map Job.id := List.map_map ..
  have hnodup : (b.list.map (·.number)).Nodup := .of_map Text.ofNat (hids ▸ h.list_ids_nodup)
  have hmem (n : Nat) : n ∈ b.list.map (·.number) ↔ n ∈ List.range' 1 b.count := by
    rw [List.mem_map]
    constructor
    · rintro ⟨j, hj, rfl⟩
      obtain ⟨n, hn, he⟩ := h.known.mp (Option.isSome_of_eq_some (h.mem_list.mp hj))
      exact Text.ofNat_injective he ▸ hn
    · intro hn
      obtain ⟨j, hj⟩ := Option.isSome_iff_exists.mp (h.known.mpr ⟨n, hn, rfl⟩)
      exact ⟨j, (h.get?_eq_some.mp hj).1, Text.ofNat_injective (h.id hj)⟩
  have hsorted : (b.list.map (·.number)).Pairwise (· ≤ ·) := by
    rw [List.pairwise_map]
    refine (List.pairwise_mergeSort (fun i j k hij hjk => ?_) (fun i j => ?_) _).imp
      (by simp)
    · simp only [decide_eq_true_eq] at *
      omega
    · simp only [Bool.or_eq_true, decide_eq_true_eq]
      exact Nat.le_total ..
  refine ((List.perm_ext_iff_of_nodup hnodup (List.nodup_range' ..)).mpr hmem).eq_of_pairwise
    (fun m n _ _ => Nat.le_antisymm) hsorted ?_
  exact (List.pairwise_lt_range' ..).imp Nat.le_of_lt

/-- The list shows the jobs in the order of their requests. -/
theorem list_requests (h : Sound requests queued taken b) :
    b.list.map (·.request) = requests := by
  have hlength : b.list.length = b.count := by
    simpa using congrArg List.length h.list_numbers
  refine List.ext_getElem (by simp [hlength, h.count]) fun i hi hi' => ?_
  rw [List.length_map] at hi
  have hnumber : b.list[i].number = i + 1 := by
    have hget := List.getElem_of_eq h.list_numbers (by rwa [List.length_map])
    simpa [Nat.add_comm 1] using hget
  have hrequest := h.request (h.mem_list.mp (List.getElem_mem hi))
  rw [hnumber, Nat.add_sub_cancel, List.getElem?_eq_getElem hi'] at hrequest
  rw [List.getElem_map]
  exact (Option.some.inj hrequest).symm

theorem eq_of_number (h : Sound requests queued taken b) {i : Job} (hi : i ∈ b.list)
    (hj : j ∈ b.list) (hn : i.number = j.number) : i = j := by
  have hget : b.get? i.id = some j := by
    rw [Job.id, hn]
    exact h.mem_list.mp hj
  exact Option.some.inj ((h.mem_list.mp hi).symm.trans hget)

theorem mem_list_of_reported (h : Sound requests queued taken b) (hj : j ∈ b.reported) :
    j ∈ b.list :=
  h.mem_list.mpr (h.reported j hj).1

theorem mem_reported (h : Sound requests queued taken b) (hj : j ∈ b.list)
    (hn : j.number ∈ b.reported.map (·.number)) : j ∈ b.reported := by
  obtain ⟨k, hk, hkj⟩ := List.mem_map.mp hn
  exact h.eq_of_number (h.mem_list_of_reported hk) hj hkj ▸ hk

theorem number_mem_numbers (h : Sound requests queued taken b) (hj : j ∈ b.list) :
    j.number ∈ b.numbers := by
  rw [h.numbers.mem_iff, ← h.list_numbers]
  exact List.mem_map_of_mem hj

theorem reported_nodup (h : Sound requests queued taken b) :
    (b.reported.map (·.number)).Nodup := by
  have hnodup := h.nodup
  rw [Batch.numbers, List.append_assoc, List.append_assoc] at hnodup
  exact hnodup.of_append_left

/-- When no job is anywhere else, all jobs were reported. -/
theorem reported_perm (h : Sound requests queued taken b) (hstage : b.stage.numbers = [])
    (hqueue : b.queue = []) (hheld : b.held = []) : b.reported.Perm b.list := by
  refine (List.perm_ext_iff_of_nodup h.reported_nodup.of_map h.list_ids_nodup.of_map).mpr
    fun j => ⟨h.mem_list_of_reported, fun hj => h.mem_reported hj ?_⟩
  simpa [Batch.numbers, hstage, hqueue, hheld] using h.number_mem_numbers hj

/-- A job that is over was reported, unless the worker still has it. -/
theorem final_reported (h : Sound requests queued taken b) (hj : j ∈ b.list)
    (hfinal : j.status.isFinal = true) : j ∈ b.reported ∨ b.stage = .ended j.number := by
  have hstatus : b.status? (Text.ofNat j.number) = some j.status :=
    congrArg (Option.map _) (h.mem_list.mp hj)
  have hplace := h.number_mem_numbers hj
  rw [Batch.numbers, List.append_assoc, ← List.map_append, List.mem_append, List.mem_append] at hplace
  rcases hplace with (hreported | hworking) | hwaiting
  · exact .inl (h.mem_reported hj hreported)
  · obtain ⟨status, hworks, hallows⟩ := h.working _ hworking
    obtain rfl := Option.some.inj (hstatus.symm.trans hworks)
    cases hstage : b.stage with
    | ended number =>
      rw [hstage] at hworking
      rw [List.mem_singleton.mp hworking]
      exact .inr rfl
    | _ => simp_all [Stage.allows, JobStatus.isFinal]
  · obtain ⟨t, ht, hn⟩ := List.mem_map.mp hwaiting
    have hpending := h.waiting t ht
    rw [hn, hstatus] at hpending
    rw [Option.some.inj hpending] at hfinal
    cases hfinal

end Sound

/-! ## How the status of a job moves -/

/-- From a status, if there is the job, to the next. -/
inductive Moves : Option JobStatus → Option JobStatus → Prop
  | stay (status : Option JobStatus) : Moves status status
  | submit : Moves none (some .pending)
  | start : Moves (some .pending) (some .inProgress)
  | finish {status : JobStatus} (hfinal : status.isFinal = true) :
      Moves (some .inProgress) (some status)
  | cancel : Moves (some .pending) (some .cancelled)

theorem Work.moves {stage stage' : Stage} {f : Job → Job} (h : Work s b a stage f stage')
    (hj : stage.allows j.status = true) : Moves (some j.status) (some (f j).status) := by
  cases h with
  | cancel =>
    rw [eq_of_beq hj]
    exact .cancel
  | start =>
    rw [eq_of_beq hj]
    exact .start
  | collect => exact .stay _
  | finish =>
    rw [eq_of_beq hj]
    exact .finish (isFinal_compiled ..)

theorem Sound.moves {requests : List Request} {queued : List Nat} {taken : Nat}
    (h : Sound requests queued taken b) (hstep : Step s b a b') (id : Text) :
    Moves (b.status? id) (b'.status? id) := by
  cases hstep with
  | register q haccepting =>
    by_cases he : Text.ofNat (b.count + 1) = id
    · have hnone : b.get? id = none := by
        rw [← Option.not_isSome_iff_eq_none, h.known]
        rintro ⟨n, hn, rfl⟩
        rw [← Text.ofNat_injective he, List.mem_range'_1] at hn
        omega
      rw [status?, status?, get?_register, if_pos he, hnone]
      exact .submit
    · rw [status?, status?, get?_register, if_neg he]
      exact .stay _
  | @work _ f stage number hwork hnumber =>
    change Moves _ (((b.change number f).get? id).map _)
    rw [status?, get?_change]
    split
    next he =>
      obtain ⟨status, hstatus, hallows⟩ := h.working number (by simp [hnumber])
      obtain ⟨j, hj, rfl⟩ := Option.map_eq_some_iff.mp hstatus
      rw [← he, hj]
      exact hwork.moves hallows
    · exact .stay _
  | _ => exact .stay _

theorem Step.reported (h : Step s b a b') : b.reported <+: b'.reported := by
  cases h with
  | report => exact List.prefix_append ..
  | _ => exact List.prefix_rfl

/-! ## Every job is served -/

theorem step?_enqueue_eq_none {t : Ticket} {held : List Ticket} (hheld : b.held = t :: held)
    (h : b.step? s (.enqueue t.number) = none) : b.queue ≠ [] := by
  rintro hqueue
  simp [step?, hheld, hqueue, capacity] at h

theorem step?_start_eq_none {t : Ticket} (h : b.step? s .start = none) :
    b.stage ≠ .received t := by
  intro hstage
  dsimp only [step?] at h
  rw [hstage] at h
  dsimp only at h
  split at h <;> cases h

/-- When nothing goes on by itself, no job is on its way, and closing has not begun or is done. -/
theorem Sound.idle {requests : List Request} {queued : List Nat} {taken : Nat}
    (h : Sound requests queued taken b)
    (hstuck : ∀ a : Action, a.begins = false → b.step? s a = none) :
    (b.stage.numbers = [] ∧ b.queue = [] ∧ b.held = []) ∧
      (b.closing = .accepting ∨ b.closing = .returned) := by
  have hheld (hqueue : b.queue = []) : b.held = [] := by
    cases hheld : b.held with
    | nil => rfl
    | cons t held => exact absurd hqueue (step?_enqueue_eq_none hheld (hstuck (.enqueue t.number) rfl))
  cases hstage : b.stage with
  | received t => exact absurd hstage (step?_start_eq_none (hstuck .start rfl))
  | collecting t => simpa [step?, hstage] using hstuck (.collect {}) rfl
  | compiling t files errors => simpa [step?, hstage] using hstuck (.finish fun _ _ => false) rfl
  | ended number => simpa [step?, hstage] using hstuck .report rfl
  | idle =>
    have hqueue : b.queue = [] := by
      cases hqueue : b.queue with
      | nil => rfl
      | cons t queue => simpa [step?, hstage, hqueue] using hstuck .receive rfl
    refine ⟨⟨rfl, hqueue, hheld hqueue⟩, ?_⟩
    cases hclosing : b.closing with
    | accepting => exact .inl rfl
    | stopped => simpa [step?, hclosing] using hstuck .close rfl
    | closed => simpa [step?, hstage, hqueue, hclosing] using hstuck .exit rfl
    | returned => exact .inr rfl
  | gone =>
    obtain ⟨hqueue, hclosed | hreturned⟩ := h.gone hstage
    · simpa [step?, hstage, hclosed] using hstuck .await rfl
    · exact ⟨⟨rfl, hqueue, hheld hqueue⟩, .inr hreturned⟩

/-- From any state on, all jobs can be served. -/
theorem Sound.completes {requests : List Request} {queued : List Nat} {taken : Nat} (s : Setting)
    (h : Sound requests queued taken b) : ∃ (as : List Action) (b' : Batch),
      (∀ a ∈ as, a.begins = false) ∧ as.foldlM (step? s) b = some b' ∧
        b'.reported.Perm b'.list := by
  -- Each action takes up one of the turns that are left for the jobs that there are.
  generalize hk : 7 * b.count + 4 - taken = k
  induction k using Nat.strong_induction_on generalizing b requests queued taken with
  | _ k ih =>
    by_cases hstuck : ∀ a : Action, a.begins = false → b.step? s a = none
    · obtain ⟨⟨hstage, hqueue, hheld⟩, -⟩ := h.idle hstuck
      exact ⟨[], b, by simp, rfl, h.reported_perm hstage hqueue hheld⟩
    · push Not at hstuck
      obtain ⟨a, ha, hsome⟩ := hstuck
      obtain ⟨c, hstep⟩ := Option.ne_none_iff_exists'.mp hsome
      have hnext := h.step (step?_eq_some hstep)
      have hcount : c.count = b.count := by
        have hnone : a.registered? = none := by cases a <;> first | rfl | cases ha
        have hlength := hnext.count
        rw [hnone, Option.toList_none, List.append_nil, h.count] at hlength
        exact hlength.symm
      have htaken := hnext.taken
      obtain ⟨as, b', has, hrun, hperm⟩ := ih _ (by omega) hnext rfl
      refine ⟨a :: as, b', List.forall_mem_cons.mpr ⟨ha, has⟩, ?_, hperm⟩
      rw [List.foldlM_cons, hstep]
      exact hrun

/-- What submitters, the worker and the closing caller can rely on after a run of actions. -/
structure Serves (s : Setting) (as : List Action) (b : Batch) : Prop where
  /-- The ids count the jobs, in the order in which they were registered. -/
  ids : b.list.map Job.id = (List.range' 1 b.count).map Text.ofNat
  ids_nodup : (b.list.map Job.id).Nodup
  requests : b.list.map (·.request) = as.filterMap Action.registered?
  /-- The list shows the jobs that the table holds. -/
  get?_eq_some : ∀ (id : Text) (j : Job), b.get? id = some j ↔ j ∈ b.list ∧ j.id = id
  /-- The next action moves a job from pending to in progress to an end, or cancels it while it is
  pending; and what was reported stays reported. -/
  moves : ∀ (a : Action) (b' : Batch), b.step? s a = some b' →
    (∀ id, Moves (b.status? id) (b'.status? id)) ∧ b.reported <+: b'.reported
  /-- Jobs are reported in the order in which they were queued. -/
  queued : as.filterMap Action.enqueued? =
    b.reported.map (·.number) ++ b.stage.numbers ++ b.queue.map (·.number)
  /-- A job is reported when it is over, -/
  reported : ∀ j ∈ b.reported, j ∈ b.list ∧ j.status.isFinal = true
  /-- at most once, -/
  reported_nodup : (b.reported.map Job.id).Nodup
  /-- and as soon as the worker comes to it. -/
  ended : ∀ j ∈ b.list, j.status.isFinal = true → j ∈ b.reported ∨ b.stage = .ended j.number
  /-- A run takes at most seven actions for each job, and four for the end. -/
  length_le : as.length ≤ 7 * b.count + 4
  /-- All jobs can be reported, even if nothing else comes in. -/
  completes : ∃ (as' : List Action) (b' : Batch), (∀ a ∈ as', a.begins = false) ∧
    run? s (as ++ as') = some b' ∧ b'.reported.Perm b'.list
  /-- When nothing is left to do, every job was reported, and closing is done if it began. -/
  idle : (∀ a : Action, a.begins = false → b.step? s a = none) →
    b.reported.Perm b.list ∧ (b.closing = .accepting ∨ b.closing = .returned)
  /-- When the call that closes the batch has returned, every job was reported. -/
  returned : b.closing = .returned → b.reported.Perm b.list

/-- Every job is served once, whatever the turns of the submitters, the worker and the caller that
closes the batch. -/
theorem jobs_served (s : Setting) (as : List Action) (b : Batch) (hrun : run? s as = some b) :
    Serves s as b := by
  have h := sound_run hrun
  have hids (js : List Job) : js.map Job.id = (js.map (·.number)).map Text.ofNat :=
    (List.map_map ..).symm
  exact
    { ids := by rw [hids, h.list_numbers]
      ids_nodup := h.list_ids_nodup
      requests := h.list_requests
      get?_eq_some := fun _ _ => h.get?_eq_some
      moves := fun a b' hstep => ⟨h.moves (step?_eq_some hstep), (step?_eq_some hstep).reported⟩
      queued := h.queued
      reported := fun j hj => ⟨h.mem_list_of_reported hj, (h.reported j hj).2⟩
      reported_nodup := hids b.reported ▸ h.reported_nodup.map Text.ofNat_injective
      ended := fun j => h.final_reported
      length_le := Nat.le_of_add_right_le h.taken
      completes := by
        obtain ⟨as', b', has, hrun', hperm⟩ := h.completes s
        refine ⟨as', b', has, ?_, hperm⟩
        rw [run?, List.foldlM_append]
        exact (congrArg (· >>= _) hrun).trans hrun'
      idle := fun hstuck => by
        obtain ⟨⟨hstage, hqueue, hheld⟩, hclosing⟩ := h.idle hstuck
        exact ⟨h.reported_perm hstage hqueue hheld, hclosing⟩
      returned := fun hreturned => by
        have hgone := h.returned hreturned
        exact h.reported_perm (by rw [hgone]; rfl) (h.gone hgone).1 (h.held (by simp [hreturned])) }

/-- Two requests, of which the second is queued first and in progress when the batch is closed. -/
def overtaking : List Action :=
  [.register { paths := ["a"] }, .register { paths := ["b"] }, .enqueue 2, .enqueue 1, .receive,
    .start, .stop, .collect (.missing ["b"]), .close, .finish fun _ _ => true, .report, .receive,
    .start, .report, .exit, .await]

theorem jobs_served_overtaking :
    ∃ b, run? { names := .chain [] } overtaking = some b ∧ b.closing = .returned ∧
      Serves { names := .chain [] } overtaking b := by
  have hrun : (run? { names := .chain [] } overtaking).isSome = true := by decide
  exact ⟨_, (Option.some_get hrun).symm, rfl, jobs_served _ _ _ (Option.some_get hrun).symm⟩

/-! ## One request after another -/

/-- The batch accepts requests and waits for one. -/
structure IsIdle (b : Batch) : Prop where
  stage : b.stage = .idle
  queue : b.queue = []
  held : b.held = []
  closing : b.closing = .accepting

/-- The job of a request that is not interrupted, when there are no files but those it brings. -/
def served (s : Setting) (number : Nat) (q : Request) : Job :=
  let report := compileSharedUntil (fun _ _ => false) s.options s.names q.files s.workers
  Job.compiled q.files (Collected.missing q.paths).errors report.results
    { number, request := q, total := q.files.length }

theorem run_serving (s : Setting) (h : b.IsIdle) (q : Request) :
    ∃ b', (Action.serving (b.count + 1) q).foldlM (step? s) b = some b' ∧ b'.IsIdle ∧
      b'.count = b.count + 1 ∧ b'.reported = b.reported ++ [served s (b.count + 1) q] := by
  obtain ⟨hstage, hqueue, hheld, hclosing⟩ := h
  simp only [Action.serving, List.foldlM_cons, List.foldlM_nil, step?, isStopped, register, change,
    capacity, hstage, hqueue, hheld, hclosing, bne_self_eq_false, Bool.false_eq_true, ↓reduceIte,
    Bool.and_false, List.nil_append, List.length_nil, Nat.zero_lt_succ, BEq.rfl,
    List.find?_cons_of_pos, List.eraseP_cons_of_pos, Option.bind_eq_bind, Option.bind_some,
    Option.pure_def, bne_iff_ne, ne_eq, ite_not, Option.some.injEq, exists_eq_left', true_and,
    List.append_cancel_left_eq, Option.toList_eq_singleton_iff]
  refine ⟨⟨rfl, rfl, rfl, rfl⟩, ?_⟩
  simp [get?, served, Collected.missing, Job.compiled]

theorem run_servings (b : Batch) (s : Setting) (qs : List Request) (h : b.IsIdle) :
    ∃ b', ((qs.zipIdx (b.count + 1)).flatMap fun (q, number) =>
        Action.serving number q).foldlM (step? s) b = some b' ∧ b'.IsIdle ∧
      b'.reported = b.reported ++
        (qs.zipIdx (b.count + 1)).map fun (q, number) => served s number q := by
  induction qs generalizing b with
  | nil => exact ⟨b, rfl, h, by simp⟩
  | cons q qs ih =>
    obtain ⟨c, hrun, hc, hcount, hreported⟩ := run_serving s h q
    obtain ⟨b', hrun', hb', hreported'⟩ := ih c hc
    refine ⟨b', ?_, hb', ?_⟩
    · rw [List.zipIdx_cons, List.flatMap_cons, List.foldlM_append, hrun, ← hcount]
      exact hrun'
    · rw [hreported', hreported, hcount, List.append_assoc, List.zipIdx_cons]
      rfl

end Batch

/-- Requests that are submitted one after another are served in this order. -/
theorem runRequests_eq (o : Options) (names : NameSource) (workers : Nat) (qs : List Request) :
    runRequests o names workers qs =
      (qs.zipIdx 1).map fun (q, number) => Batch.served ⟨o, names, workers⟩ number q := by
  obtain ⟨b, hrun, hidle, hreported⟩ :=
    Batch.run_servings {} ⟨o, names, workers⟩ qs ⟨rfl, rfl, rfl, rfl⟩
  replace hreported : b.reported = (qs.zipIdx 1).map fun (q, number) =>
      Batch.served ⟨o, names, workers⟩ number q := hreported
  have h := Batch.sound_run hrun
  have hlength := (h.reported_perm (by rw [hidle.stage]; rfl) hidle.queue hidle.held).length_eq
  have hcount : b.count = qs.length := by
    have hlist := congrArg List.length h.list_numbers
    have hserved := congrArg List.length hreported
    simp only [List.length_map, List.length_range', List.length_zipIdx] at hlist hserved
    omega
  have hnumbers : b.list.map (·.number) = b.reported.map (·.number) := by
    rw [h.list_numbers, hcount, hreported, List.map_map]
    exact (List.zipIdx_map_snd ..).symm
  have hlist : b.list = b.reported := by
    refine List.ext_getElem hlength.symm fun i hi hi' => ?_
    refine h.eq_of_number (List.getElem_mem hi) (h.mem_list_of_reported (List.getElem_mem hi')) ?_
    have hget := List.getElem_of_eq hnumbers (by rwa [List.length_map])
    rwa [List.getElem_map, List.getElem_map] at hget
  calc runRequests o names workers qs = ((some b).map Batch.list).getD [] :=
        congrArg (fun r => (r.map Batch.list).getD []) hrun
    _ = b.reported := hlist
    _ = _ := hreported

end Javelin.Compile
