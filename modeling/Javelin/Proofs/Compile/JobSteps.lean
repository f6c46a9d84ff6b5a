import Mathlib.Data.List.Nodup
import Mathlib.Tactic.Common
import Javelin.Compile.Jobs

/-!
# The turns of a batch

Submitters, the background worker and the closing caller take turns in any order. After any run of
their actions, each job is at one place: with its submitter, in the queue, at the worker, or among
the jobs that were reported; its status tells which.

1. What each action finds and does (`Step`, `step?_eq_some`).
2. What every run keeps (`Sound`, `sound_run`).
-/

namespace Javelin

theorem Text.ofNat_injective : Function.Injective Text.ofNat := by
  intro m n h
  have hrepr : m.repr = n.repr := String.toByteArray_inj.mp (congrArg Text.bytes h)
  have hdigits : Nat.toDigits 10 m = Nat.toDigits 10 n := by
    simpa using congrArg String.toList hrepr
  simpa using congrArg (Nat.ofDigitChars 10 · 0) hdigits

namespace Compile

/-! ## What each action does -/

namespace Action

/-- The request for which an action registers a job. -/
@[simp] def registered? : Action → Option Request
  | .register q => some q
  | _ => none

/-- The number of the job that an action queues. -/
@[simp] def enqueued? : Action → Option Nat
  | .enqueue number => some number
  | _ => none

/-- Whether an action begins something new: a request or closing. All others go on with what was
begun. -/
def begins : Action → Bool
  | .register _ | .stop => true
  | _ => false

end Action

/-- The number of the job that the worker has. -/
def Stage.numbers : Stage → List Nat
  | .received t | .collecting t | .compiling t _ _ => [t.number]
  | .ended number => [number]
  | .idle | .gone => []

/-- The status of the job that the worker has. -/
def Stage.allows : Stage → JobStatus → Bool
  | .received _, status => status == .pending
  | .collecting _, status | .compiling _ _ _, status => status == .inProgress
  | .ended _, status => status.isFinal
  | .idle, _ | .gone, _ => false

/-- How many actions the worker can take until it is gone, if nothing else comes in. -/
def Stage.left : Stage → Nat
  | .received _ => 5
  | .collecting _ => 4
  | .compiling _ _ _ => 3
  | .ended _ => 2
  | .idle => 1
  | .gone => 0

/-- How many actions closing still takes. -/
def Closing.left : Closing → Nat
  | .accepting => 3
  | .stopped => 2
  | .closed => 1
  | .returned => 0

namespace Batch

variable {s : Setting} {as : List Action} {a : Action} {b b' : Batch} {id : Text} {j : Job} {n : Nat}

def status? (b : Batch) (id : Text) : Option JobStatus := (b.get? id).map (·.status)

/-- The numbers of all jobs by place. -/
def numbers (b : Batch) : List Nat :=
  b.reported.map (·.number) ++ b.stage.numbers ++ b.queue.map (·.number) ++ b.held.map (·.number)

/-- How many actions can be taken before something new begins. -/
def left (b : Batch) : Nat :=
  6 * b.held.length + 5 * b.queue.length + b.stage.left + b.closing.left

/-- What the worker does to the job that it has. -/
inductive Work (s : Setting) (b : Batch) : Action → Stage → (Job → Job) → Stage → Prop
  | cancel {t : Ticket} (hstopped : b.closing ≠ .accepting) :
      Work s b .start (.received t) ({ · with status := .cancelled }) (.ended t.number)
  | start {t : Ticket} :
      Work s b .start (.received t) ({ · with status := .inProgress }) (.collecting t)
  | collect {t : Ticket} (found : Collected) (total : Nat) (files : List SourceFile) :
      Work s b (.collect found) (.collecting t) ({ · with total }) (.compiling t files found.errors)
  | finish {t : Ticket} {files : List SourceFile} {errors : List Text}
      (isCancelled : Nat → Nat → Bool) (results : List UnitResult) :
      Work s b (.finish isCancelled) (.compiling t files errors) (·.compiled files errors results)
        (.ended t.number)

/-- What each action finds and does. -/
inductive Step (s : Setting) (b : Batch) : Action → Batch → Prop
  | register (q : Request) (haccepting : b.closing = .accepting) : Step s b (.register q) (b.register q)
  | enqueue {pre post : List Ticket} {t : Ticket} (hheld : b.held = pre ++ t :: post) :
      Step s b (.enqueue t.number) { b with held := pre ++ post, queue := b.queue ++ [t] }
  | receive {t : Ticket} {queue : List Ticket} (hidle : b.stage = .idle)
      (hqueue : b.queue = t :: queue) :
      Step s b .receive { b with stage := .received t, queue }
  | work {a : Action} {f : Job → Job} {stage : Stage} {number : Nat}
      (hwork : Work s b a b.stage f stage) (hnumber : b.stage.numbers = [number]) :
      Step s b a { b.change number f with stage }
  | report {number : Nat} (hover : b.stage = .ended number) :
      Step s b .report { b with
        stage := .idle
        reported := b.reported ++ (b.get? (Text.ofNat number)).toList }
  | exit (hidle : b.stage = .idle) (hqueue : b.queue = []) (hclosed : b.closing = .closed) :
      Step s b .exit { b with stage := .gone }
  | stop (haccepting : b.closing = .accepting) (hheld : b.held = []) :
      Step s b .stop { b with closing := .stopped }
  | close (hstopped : b.closing = .stopped) : Step s b .close { b with closing := .closed }
  | await (hgone : b.stage = .gone) (hclosed : b.closing = .closed) :
      Step s b .await { b with closing := .returned }

theorem isStopped_eq_false : b.isStopped = false ↔ b.closing = .accepting := by
  simp [isStopped]

theorem step?_eq_some (h : b.step? s a = some b') : Step s b a b' := by
  cases a with
  | register q =>
    dsimp only [step?] at h
    split at h
    · cases h
    next haccepting =>
      cases h
      exact .register q (isStopped_eq_false.mp (Bool.eq_false_iff.mpr haccepting))
  | enqueue number =>
    simp only [step?, Option.bind_eq_bind, Option.bind_eq_some_iff] at h
    obtain ⟨t, hfind, h⟩ := h
    split at h
    · cases h
      obtain ⟨ht, pre, post, hheld, hpre⟩ := List.find?_eq_some_iff_append.mp hfind
      obtain rfl : t.number = number := by simpa using ht
      have herase : b.held.eraseP (·.number == t.number) = pre ++ post := by
        rw [hheld, List.eraseP_append_right _ (by simpa using hpre),
          List.eraseP_cons_of_pos (by simp)]
      rw [herase]
      exact .enqueue hheld
    · cases h
  | receive =>
    dsimp only [step?] at h
    split at h
    next hidle hqueue =>
      cases h
      exact .receive hidle hqueue
    · cases h
  | start =>
    dsimp only [step?] at h
    split at h
    next t hreceived =>
      split at h
      next hstopped =>
        cases h
        exact .work (hreceived ▸ .cancel (by simpa [isStopped] using hstopped))
          (by rw [hreceived]; rfl)
      · cases h
        exact .work (hreceived ▸ .start) (by rw [hreceived]; rfl)
    · cases h
  | collect found =>
    dsimp only [step?] at h
    split at h
    next t hcollecting =>
      cases h
      exact .work (hcollecting ▸ .collect found _ _) (by rw [hcollecting]; rfl)
    · cases h
  | finish isCancelled =>
    dsimp only [step?] at h
    split at h
    next t files errors hcompiling =>
      cases h
      exact .work (hcompiling ▸ .finish isCancelled _) (by rw [hcompiling]; rfl)
    · cases h
  | report =>
    dsimp only [step?] at h
    split at h
    next number hover =>
      cases h
      exact .report hover
    · cases h
  | exit =>
    dsimp only [step?] at h
    split at h
    next hidle hqueue hclosed =>
      cases h
      exact .exit hidle hqueue hclosed
    · cases h
  | stop =>
    dsimp only [step?] at h
    split at h
    · cases h
    next hnot =>
      cases h
      rw [Bool.or_eq_true, not_or] at hnot
      exact .stop (isStopped_eq_false.mp (Bool.eq_false_iff.mpr hnot.1))
        (List.isEmpty_iff.mp (by simpa using hnot.2))
  | close =>
    dsimp only [step?] at h
    split at h
    next hstopped =>
      cases h
      exact .close hstopped
    · cases h
  | await =>
    dsimp only [step?] at h
    split at h
    next hgone hclosed =>
      cases h
      exact .await hgone hclosed
    · cases h

namespace Work

variable {stage stage' : Stage} {f : Job → Job}

theorem action (h : Work s b a stage f stage') : a.registered? = none ∧ a.enqueued? = none := by
  cases h <;> exact ⟨rfl, rfl⟩

theorem numbers (h : Work s b a stage f stage') : stage'.numbers = stage.numbers := by
  cases h <;> rfl

theorem number (h : Work s b a stage f stage') (j : Job) : (f j).number = j.number := by
  cases h <;> rfl

theorem request (h : Work s b a stage f stage') (j : Job) : (f j).request = j.request := by
  cases h <;> rfl

theorem isFinal_compiled (files : List SourceFile) (errors : List Text) (results : List UnitResult)
    (j : Job) : (j.compiled files errors results).status.isFinal = true := by
  dsimp only [Job.compiled]
  split
  · rfl
  · split <;> rfl

/-- The worker sets the status that its next stage calls for. -/
theorem allows (h : Work s b a stage f stage') (hj : stage.allows j.status = true) :
    stage'.allows (f j).status = true := by
  cases h with
  | cancel => rfl
  | start => rfl
  | collect => exact hj
  | finish => exact isFinal_compiled ..

theorem left (h : Work s b a stage f stage') : stage'.left < stage.left := by
  cases h <;> simp [Stage.left]

theorem ne_gone (h : Work s b a stage f stage') : stage' ≠ .gone := by
  cases h <;> exact nofun

end Work

/-! ## What every run keeps -/

theorem get?_change (b : Batch) (number : Nat) (f : Job → Job) (id : Text) :
    (b.change number f).get? id =
      if Text.ofNat number = id then (b.get? id).map f else b.get? id := by
  rw [get?, change, Std.HashMap.getElem?_modify]
  simp only [beq_iff_eq]
  split
  next h => rw [h, get?]
  · rfl

theorem get?_register (b : Batch) (q : Request) (id : Text) :
    (b.register q).get? id = if Text.ofNat (b.count + 1) = id
      then some { number := b.count + 1, request := q } else b.get? id := by
  simp only [get?, register, Std.HashMap.getElem?_insert, beq_iff_eq]

/-- What holds of a batch for which `requests` were registered and `queued` were queued, both in
this order, after `taken` actions. -/
structure Sound (requests : List Request) (queued : List Nat) (taken : Nat) (b : Batch) : Prop where
  id : ∀ {id : Text} {j : Job}, b.get? id = some j → j.id = id
  known : ∀ {id : Text}, (b.get? id).isSome = true ↔
    ∃ n ∈ List.range' 1 b.count, Text.ofNat n = id
  request : ∀ {id : Text} {j : Job}, b.get? id = some j → requests[j.number - 1]? = some j.request
  count : requests.length = b.count
  /-- Each job is at one place. -/
  numbers : b.numbers.Perm (List.range' 1 b.count)
  waiting : ∀ t ∈ b.queue ++ b.held, b.status? (Text.ofNat t.number) = some .pending
  working : ∀ n ∈ b.stage.numbers,
    ∃ status, b.status? (Text.ofNat n) = some status ∧ b.stage.allows status = true
  reported : ∀ j ∈ b.reported, b.get? j.id = some j ∧ j.status.isFinal = true
  queued : queued = b.reported.map (·.number) ++ b.stage.numbers ++ b.queue.map (·.number)
  held : b.closing ≠ .accepting → b.held = []
  gone : b.stage = .gone → b.queue = [] ∧ (b.closing = .closed ∨ b.closing = .returned)
  returned : b.closing = .returned → b.stage = .gone
  taken : taken + b.left ≤ 7 * b.count + 4

namespace Sound

variable {requests : List Request} {queued : List Nat} {taken number : Nat}

theorem start : Sound [] [] 0 {} where
  id h := by simp [get?] at h
  known := by simp [get?]
  request h := by simp [get?] at h
  count := rfl
  numbers := .rfl
  waiting := by simp
  working := by simp [Stage.numbers]
  reported := by simp
  queued := rfl
  held := by simp
  gone := nofun
  returned := nofun
  taken := by decide

theorem mem_numbers (h : Sound requests queued taken b) : n ∈ b.numbers ↔ 1 ≤ n ∧ n ≤ b.count := by
  rw [h.numbers.mem_iff, List.mem_range'_1]
  omega

theorem mem_numbers_of_reported (h : j ∈ b.reported) : j.number ∈ b.numbers := by
  simp only [Batch.numbers, List.mem_append]
  exact .inl (.inl (.inl (List.mem_map_of_mem h)))

theorem mem_numbers_of_working (h : n ∈ b.stage.numbers) : n ∈ b.numbers := by
  simp only [Batch.numbers, List.mem_append]
  exact .inl (.inl (.inr h))

theorem mem_numbers_of_waiting {t : Ticket} (h : t ∈ b.queue ++ b.held) : t.number ∈ b.numbers := by
  rw [Batch.numbers, List.append_assoc, ← List.map_append]
  exact List.mem_append_right _ (List.mem_map_of_mem h)

theorem nodup (h : Sound requests queued taken b) : b.numbers.Nodup :=
  h.numbers.nodup_iff.mpr (List.nodup_range' ..)

/-- The job that the worker has is nowhere else. -/
theorem apart (h : Sound requests queued taken b) (hnumber : b.stage.numbers = [number]) :
    (∀ j ∈ b.reported, j.number ≠ number) ∧ ∀ t ∈ b.queue ++ b.held, t.number ≠ number := by
  have hnodup : (b.reported.map (·.number) ++ number :: (b.queue ++ b.held).map (·.number)).Nodup := by
    simpa [Batch.numbers, hnumber] using h.nodup
  obtain ⟨hnot, -⟩ := List.nodup_cons.mp (List.nodup_middle.mp hnodup)
  rw [List.mem_append, not_or] at hnot
  exact ⟨fun j hj hn => hnot.1 (hn ▸ List.mem_map_of_mem hj),
    fun t ht hn => hnot.2 (hn ▸ List.mem_map_of_mem ht)⟩

theorem status?_of_get? {b b' : Batch} {id : Text} (h : b'.get? id = b.get? id) :
    b'.status? id = b.status? id :=
  congrArg _ h

/-- The worker changes the job that it has. -/
theorem work (h : Sound requests queued taken b) {f : Job → Job} {stage : Stage}
    (hwork : Work s b a b.stage f stage) (hnumber : b.stage.numbers = [number]) :
    Sound requests queued (taken + 1) { b.change number f with stage } := by
  obtain ⟨hreported, hwaiting⟩ := h.apart hnumber
  have hother {n : Nat} (hn : n ≠ number) :
      (b.change number f).get? (Text.ofNat n) = b.get? (Text.ofNat n) := by
    rw [get?_change, if_neg fun he => hn (Text.ofNat_injective he).symm]
  -- A job of the new table is one of the old table, changed or not.
  have hfrom {id : Text} {j' : Job} (hj' : (b.change number f).get? id = some j') :
      ∃ j, b.get? id = some j ∧ j'.number = j.number ∧ j'.request = j.request := by
    rw [get?_change] at hj'
    split at hj'
    · obtain ⟨j, hj, rfl⟩ := Option.map_eq_some_iff.mp hj'
      exact ⟨j, hj, hwork.number j, hwork.request j⟩
    · exact ⟨j', hj', rfl, rfl⟩
  refine
    { h with
      id := fun hj' => ?_
      known := fun {id} => ?_
      request := fun hj' => ?_
      numbers := ?_
      waiting := fun t ht => ?_
      working := fun n hn => ?_
      reported := fun j hj => ?_
      queued := ?_
      gone := fun hgone => absurd hgone hwork.ne_gone
      returned := fun hreturned => ?_
      taken := ?_ }
  · obtain ⟨j, hj, hn, -⟩ := hfrom hj'
    rw [Job.id, hn]
    exact h.id hj
  · refine Iff.trans ?_ h.known
    change ((b.change number f).get? id).isSome = true ↔ _
    rw [get?_change]
    split <;> simp
  · obtain ⟨j, hj, hn, hq⟩ := hfrom hj'
    rw [hn, hq]
    exact h.request hj
  · unfold Batch.numbers
    rw [hwork.numbers]
    exact h.numbers
  · exact (status?_of_get? (hother (hwaiting t ht))).trans (h.waiting t ht)
  · obtain ⟨status, hstatus, hallows⟩ := h.working n (hwork.numbers ▸ hn)
    obtain rfl : n = number := by simpa [hwork.numbers, hnumber] using hn
    obtain ⟨j, hj, rfl⟩ := Option.map_eq_some_iff.mp hstatus
    refine ⟨(f j).status, ?_, hwork.allows hallows⟩
    change ((b.change n f).get? _).map _ = _
    rw [get?_change, if_pos rfl, hj]
    rfl
  · exact ⟨(hother (hreported j hj)).trans (h.reported j hj).1, (h.reported j hj).2⟩
  · rw [hwork.numbers]
    exact h.queued
  · rw [h.returned hreturned] at hnumber
    cases hnumber
  · have htaken := h.taken
    have hleft := hwork.left
    dsimp only [Batch.left, change] at htaken ⊢
    omega

theorem register (h : Sound requests queued taken b) (q : Request) (haccepting : b.closing = .accepting) :
    Sound (requests ++ [q]) queued (taken + 1) (b.register q) := by
  have hother {n : Nat} (hn : n ∈ b.numbers) :
      (b.register q).get? (Text.ofNat n) = b.get? (Text.ofNat n) := by
    rw [get?_register, if_neg]
    intro he
    have := (h.mem_numbers.mp (Text.ofNat_injective he ▸ hn)).2
    omega
  have hstatus {n : Nat} (hn : n ∈ b.numbers) := status?_of_get? (hother hn)
  exact
    { id := fun {id j} hj => by
        rw [get?_register] at hj
        split at hj
        next he =>
          cases hj
          exact he
        · exact h.id hj
      known := fun {id} => by
        rw [get?_register, Batch.register, List.range'_1_concat]
        simp only [List.mem_append, List.mem_singleton, or_and_right, exists_or, exists_eq_left]
        split
        next he => simp [Nat.add_comm 1, he]
        next he => simp [Nat.add_comm 1, he, h.known]
      request := fun {id j} hj => by
        rw [get?_register] at hj
        split at hj
        · cases hj
          simp [← h.count]
        · rw [List.getElem?_append_left, h.request hj]
          exact (List.getElem?_eq_some_iff.mp (h.request hj)).1
      count := by simp [Batch.register, h.count]
      numbers := by
        have hnumbers : (b.register q).numbers = b.numbers ++ [1 + b.count] := by
          simp [Batch.numbers, Batch.register, Nat.add_comm 1]
        rw [hnumbers]
        change List.Perm _ (List.range' 1 (b.count + 1))
        rw [List.range'_1_concat]
        exact h.numbers.append_right _
      waiting := fun t ht => by
        rw [Batch.register, ← List.append_assoc] at ht
        rcases List.mem_append.mp ht with ht | ht
        · exact (hstatus (mem_numbers_of_waiting ht)).trans (h.waiting t ht)
        · obtain rfl := List.mem_singleton.mp ht
          rw [status?, get?_register, if_pos rfl]
          rfl
      working := fun n hn => by
        rw [hstatus (mem_numbers_of_working hn)]
        exact h.working n hn
      reported := fun j hj => by
        obtain ⟨hget, hfinal⟩ := h.reported j hj
        exact ⟨(hother (mem_numbers_of_reported hj)).trans hget, hfinal⟩
      queued := h.queued
      held := fun hclosing => absurd haccepting hclosing
      gone := h.gone
      returned := h.returned
      taken := by
        have htaken := h.taken
        simp only [Batch.left, Batch.register, List.length_append, List.length_singleton] at htaken ⊢
        omega }

theorem enqueue (h : Sound requests queued taken b) {pre post : List Ticket} {t : Ticket}
    (hheld : b.held = pre ++ t :: post) : Sound requests (queued ++ [t.number]) (taken + 1)
      { b with held := pre ++ post, queue := b.queue ++ [t] } := by
  have hmoved : ((b.queue ++ [t]) ++ (pre ++ post)).Perm (b.queue ++ b.held) := by
    rw [List.append_assoc, List.singleton_append, hheld]
    exact .append_left _ List.perm_middle.symm
  have hne : b.held ≠ [] := by simp [hheld]
  exact
    { h with
      numbers := by
        refine .trans ?_ h.numbers
        unfold Batch.numbers
        rw [List.append_assoc, ← List.map_append, List.append_assoc _ (b.queue.map _),
          ← List.map_append]
        exact (hmoved.map _).append_left _
      waiting := fun t ht => h.waiting t (hmoved.mem_iff.mp ht)
      queued := by simp [h.queued]
      held := fun hclosing => absurd (h.held hclosing) hne
      gone := fun hgone => by
        have hclosing : b.closing ≠ .accepting := by
          rcases (h.gone hgone).2 with hc | hc <;> simp [hc]
        exact absurd (h.held hclosing) hne
      taken := by
        have htaken := h.taken
        simp only [Batch.left, hheld, List.length_append, List.length_cons,
          List.length_nil] at htaken ⊢
        omega }

theorem receive (h : Sound requests queued taken b) {t : Ticket} {queue : List Ticket}
    (hidle : b.stage = .idle) (hqueue : b.queue = t :: queue) :
    Sound requests queued (taken + 1) { b with stage := .received t, queue } :=
  { h with
    numbers := by
      have hnumbers := h.numbers
      simpa [Batch.numbers, hidle, hqueue, Stage.numbers] using hnumbers
    waiting := fun t' ht => h.waiting t' (hqueue ▸ List.mem_cons_of_mem _ ht)
    working := fun n hn => by
      obtain rfl := List.mem_singleton.mp hn
      exact ⟨.pending, h.waiting t (by simp [hqueue]), rfl⟩
    queued := by simp [h.queued, hidle, hqueue, Stage.numbers]
    gone := nofun
    returned := fun hreturned => absurd (hidle.symm.trans (h.returned hreturned)) nofun
    taken := by
      have htaken := h.taken
      simp only [Batch.left, hidle, hqueue, Stage.left, List.length_cons] at htaken ⊢
      omega }

theorem report (h : Sound requests queued taken b) (hover : b.stage = .ended number) :
    Sound requests queued (taken + 1) { b with
      stage := .idle
      reported := b.reported ++ (b.get? (Text.ofNat number)).toList } := by
  obtain ⟨status, hstatus, hfinal⟩ := h.working number (by simp [hover, Stage.numbers])
  obtain ⟨j, hj, rfl⟩ := Option.map_eq_some_iff.mp hstatus
  obtain rfl : j.number = number := Text.ofNat_injective (h.id hj)
  rw [hover] at hfinal
  exact
    { h with
      numbers := by
        have hnumbers := h.numbers
        simpa [Batch.numbers, hover, hj, Stage.numbers] using hnumbers
      working := by simp [Stage.numbers]
      reported := fun k hk => by
        rw [hj] at hk
        rcases List.mem_append.mp hk with hk | hk
        · exact h.reported k hk
        · obtain rfl := List.mem_singleton.mp hk
          exact ⟨hj, hfinal⟩
      queued := by simp [h.queued, hover, hj, Stage.numbers]
      gone := nofun
      returned := fun hreturned => absurd (hover.symm.trans (h.returned hreturned)) nofun
      taken := by
        have htaken := h.taken
        simp only [Batch.left, hover, Stage.left] at htaken ⊢
        omega }

theorem exit (h : Sound requests queued taken b) (hidle : b.stage = .idle) (hqueue : b.queue = [])
    (hclosed : b.closing = .closed) :
    Sound requests queued (taken + 1) { b with stage := .gone } :=
  { h with
    numbers := by
      have hnumbers := h.numbers
      simpa [Batch.numbers, hidle, Stage.numbers] using hnumbers
    working := by simp [Stage.numbers]
    queued := by simp [h.queued, hidle, Stage.numbers]
    gone := fun _ => ⟨hqueue, .inl hclosed⟩
    returned := fun _ => rfl
    taken := by
      have htaken := h.taken
      simp only [Batch.left, hidle, Stage.left] at htaken ⊢
      omega }

/-- Closing goes on. -/
theorem closes (h : Sound requests queued taken b) (closing : Closing) (hheld : b.held = [])
    (hleft : closing.left < b.closing.left)
    (hgone : b.stage = .gone → closing = .closed ∨ closing = .returned)
    (hreturned : closing = .returned → b.stage = .gone) :
    Sound requests queued (taken + 1) { b with closing } :=
  { h with
    held := fun _ => hheld
    gone := fun hg => ⟨(h.gone hg).1, hgone hg⟩
    returned := hreturned
    taken := by
      have htaken := h.taken
      simp only [Batch.left] at htaken ⊢
      omega }

theorem step (h : Sound requests queued taken b) (hstep : Step s b a b') :
    Sound (requests ++ a.registered?.toList) (queued ++ a.enqueued?.toList) (taken + 1) b' := by
  cases hstep with
  | register q haccepting => simpa using h.register q haccepting
  | enqueue hheld => simpa using h.enqueue hheld
  | receive hidle hqueue =>
    simpa using h.receive hidle hqueue
  | work hwork hnumber =>
    rw [hwork.action.1, hwork.action.2]
    simpa using h.work hwork hnumber
  | report hover => simpa using h.report hover
  | exit hidle hqueue hclosed =>
    simpa using h.exit hidle hqueue hclosed
  | stop haccepting hheld =>
    have hnot : b.stage ≠ .gone := fun hg => by simpa [haccepting] using (h.gone hg).2
    simpa using
      h.closes .stopped hheld (by simp [haccepting, Closing.left]) (absurd · hnot) nofun
  | close hstopped =>
    have hheld := h.held (by simp [hstopped])
    simpa using
      h.closes .closed hheld (by simp [hstopped, Closing.left]) (fun _ => .inl rfl) nofun
  | await hgone hclosed =>
    have hheld := h.held (by simp [hclosed])
    simpa using
      h.closes .returned hheld (by simp [hclosed, Closing.left]) (fun _ => .inr rfl)
        fun _ => hgone

end Sound

/-- What a run keeps, from any state on. -/
theorem Sound.run {requests : List Request} {queued : List Nat} {taken : Nat}
    (h : Sound requests queued taken b) (hrun : as.foldlM (step? s) b = some b') :
    Sound (requests ++ as.filterMap Action.registered?) (queued ++ as.filterMap Action.enqueued?)
      (taken + as.length) b' := by
  induction as generalizing b requests queued taken with
  | nil =>
    cases hrun
    simpa using h
  | cons a as ih =>
    rw [List.foldlM_cons, Option.bind_eq_bind, Option.bind_eq_some_iff] at hrun
    obtain ⟨c, hstep, hrun⟩ := hrun
    have hsound := ih (h.step (step?_eq_some hstep)) hrun
    simpa [List.filterMap_eq_flatMap_toList, Nat.add_assoc, Nat.add_comm 1] using hsound

/-- What a run from the start keeps. -/
theorem sound_run (hrun : run? s as = some b) : Sound (as.filterMap Action.registered?)
    (as.filterMap Action.enqueued?) as.length b := by
  simpa using Sound.start.run hrun

end Batch
end Compile
end Javelin
