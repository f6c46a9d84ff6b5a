import Javelin.Compile.Run

/-!
# Jobs

Requests to compile are numbered when they are submitted, wait in a queue and are worked off one
after another in the background, until the batch is closed. Submitters, the background worker and
the closing caller take turns in any order; an `Action` is a turn of one of them, from one access to
the shared state to the next.

1. A request and its job.
2. The state of a batch and the table of its jobs.
3. Actions (`step?`) and runs of them (`run?`).
4. Requests that are submitted one after another (`runRequests`).
-/

namespace Javelin.Compile

/-! ## Jobs -/

/-- What is to be compiled: the sources that the paths lead to, and files that the request brings.
-/
structure Request where
  paths : List Text := []
  files : List SourceFile := []
deriving Inhabited

inductive JobStatus where
  | pending
  | inProgress
  | completed
  | failed
  | cancelled
deriving DecidableEq, Inhabited, Repr

namespace JobStatus

def name : JobStatus → String
  | .pending => "pending"
  | .inProgress => "in_progress"
  | .completed => "completed"
  | .failed => "failed"
  | .cancelled => "cancelled"

/-- Whether a job with this status is over. -/
def isFinal : JobStatus → Bool
  | .pending | .inProgress => false
  | .completed | .failed | .cancelled => true

end JobStatus

/-- The state of a submitted request. -/
structure Job where
  number : Nat
  status : JobStatus := .pending
  request : Request := {}
  results : List UnitResult := []
  summary : Summary := {}
  /-- The paths that could not be read. -/
  errors : List Text := []
  /-- How many source files there are. -/
  total : Nat := 0
deriving Inhabited

namespace Job

def id (j : Job) : Text := Text.ofNat j.number

/-- The reason why there was nothing to compile. -/
def error (j : Job) : Text := if j.status == .failed then j.errors.headD {} else {}

/-- The job when its source files are compiled. -/
def compiled (files : List SourceFile) (errors : List Text) (results : List UnitResult) (j : Job) :
    Job :=
  let summary := Summary.ofResults results
  let status : JobStatus :=
    if summary.cancelled > 0 then .cancelled
    else if !errors.isEmpty && files.isEmpty then .failed
    else .completed
  { j with status, results, summary, errors }

end Job

/-! ## Batches -/

/-- How a batch compiles. -/
structure Setting where
  options : Options := {}
  names : NameSource
  workers : Nat := 1

/-- A request on its way, under the number of its job. -/
structure Ticket where
  number : Nat
  request : Request
deriving Inhabited

/-- What the paths of a request lead to. -/
structure Collected where
  files : List SourceFile := []
  errors : List Text := []
deriving Inhabited

/-- No path leads to a file. -/
def Collected.missing (paths : List Text) : Collected where
  errors := paths.map fun path => "stat source: stat " ++ path ++ ": no such file or directory"

/-- How far the background worker is. -/
inductive Stage where
  /-- The worker waits for a request. -/
  | idle
  | received (t : Ticket)
  /-- The job is in progress, its paths are read. -/
  | collecting (t : Ticket)
  | compiling (t : Ticket) (files : List SourceFile) (errors : List Text)
  /-- The job is over, but not reported. -/
  | ended (number : Nat)
  /-- There are no more requests. -/
  | gone
deriving Inhabited

/-- How far closing the batch is. -/
inductive Closing where
  /-- Requests may still come in. -/
  | accepting
  /-- Compiling is told to stop. -/
  | stopped
  /-- No more requests come in. -/
  | closed
  /-- The call has returned. -/
  | returned
deriving DecidableEq, Inhabited, Repr

/-- The state that submitters, the background worker and the closing caller share. -/
structure Batch where
  /-- The jobs by id. -/
  jobs : Std.HashMap Text Job := {}
  /-- How many jobs there are. -/
  count : Nat := 0
  /-- The requests whose submitters have yet to queue them. -/
  held : List Ticket := []
  queue : List Ticket := []
  stage : Stage := .idle
  closing : Closing := .accepting
  /-- The jobs as they were reported, in order. -/
  reported : List Job := []
deriving Inhabited

namespace Batch

/-- How many requests the queue holds before submitters wait. -/
def capacity : Nat := 100

def isStopped (b : Batch) : Bool := b.closing != .accepting

def get? (b : Batch) (id : Text) : Option Job := b.jobs[id]?

/-- All jobs in the order of their numbers. -/
def list (b : Batch) : List Job :=
  (b.jobs.toList.map (·.2)).mergeSort (·.number ≤ ·.number)

/-- Changes the job of a number. -/
def change (b : Batch) (number : Nat) (f : Job → Job) : Batch :=
  { b with jobs := b.jobs.modify (Text.ofNat number) f }

/-- Takes up a request. -/
def register (b : Batch) (q : Request) : Batch :=
  let number := b.count + 1
  { b with
    jobs := b.jobs.insert (Text.ofNat number) { number, request := q }
    count := number
    held := b.held ++ [⟨number, q⟩] }

end Batch

/-! ## Actions -/

inductive Action where
  /-- A submitter registers a job for its request. -/
  | register (q : Request)
  /-- The submitter of a job queues the request. -/
  | enqueue (number : Nat)
  | receive
  /-- The worker starts the job that it received, or cancels it if compiling is to stop. -/
  | start
  /-- The worker has read the paths. -/
  | collect (found : Collected)
  /-- The worker has compiled the files. When the batch is stopped meanwhile, some question whether
  the work is cancelled is the first to be answered with yes. -/
  | finish (isCancelled : Nat → Nat → Bool)
  /-- The worker reports the job that is over. -/
  | report
  /-- The worker finds no more requests. -/
  | exit
  /-- The batch begins to close: compiling is told to stop. -/
  | stop
  | close
  /-- The closing caller finds the worker gone, and returns. -/
  | await

namespace Batch

/-- The state after an action, if it can be taken. Closing begins when all submitters have returned,
and nothing is submitted afterwards. -/
def step? (s : Setting) (b : Batch) : Action → Option Batch
  | .register q => if b.isStopped then none else some (b.register q)
  | .enqueue number => do
    let t ← b.held.find? (·.number == number)
    if b.queue.length < capacity then
      some { b with held := b.held.eraseP (·.number == number), queue := b.queue ++ [t] }
    else none
  | .receive =>
    match b.stage, b.queue with
    | .idle, t :: queue => some { b with stage := .received t, queue }
    | _, _ => none
  | .start =>
    match b.stage with
    | .received t =>
      if b.isStopped then
        some { b.change t.number ({ · with status := .cancelled }) with stage := .ended t.number }
      else
        some { b.change t.number ({ · with status := .inProgress }) with stage := .collecting t }
    | _ => none
  | .collect found =>
    match b.stage with
    | .collecting t =>
      let files := found.files ++ t.request.files
      some { b.change t.number ({ · with total := files.length }) with
        stage := .compiling t files found.errors }
    | _ => none
  | .finish isCancelled =>
    match b.stage with
    | .compiling t files errors =>
      let isCancelled w k := b.isStopped && isCancelled w k
      let report := compileSharedUntil isCancelled s.options s.names files s.workers
      some { b.change t.number (·.compiled files errors report.results) with stage := .ended t.number }
    | _ => none
  | .report =>
    match b.stage with
    | .ended number =>
      some { b with
        stage := .idle
        reported := b.reported ++ (b.get? (Text.ofNat number)).toList }
    | _ => none
  | .exit =>
    match b.stage, b.queue, b.closing with
    | .idle, [], .closed => some { b with stage := .gone }
    | _, _, _ => none
  | .stop => if b.isStopped || !b.held.isEmpty then none else some { b with closing := .stopped }
  | .close => if b.closing = .stopped then some { b with closing := .closed } else none
  | .await =>
    match b.stage, b.closing with
    | .gone, .closed => some { b with closing := .returned }
    | _, _ => none

/-- The state after a run of actions from the start. -/
def run? (s : Setting) (as : List Action) : Option Batch := as.foldlM (step? s) {}

end Batch

/-! ## One request after another -/

/-- The actions from submitting a request until its job is reported. -/
def Action.serving (number : Nat) (q : Request) : List Action :=
  [.register q, .enqueue number, .receive, .start, .collect (.missing q.paths),
    .finish fun _ _ => false, .report]

/-- Works off requests in order; the first has number one. No file exists outside of requests. -/
def runRequests (o : Options) (names : NameSource) (workers : Nat) (qs : List Request) : List Job :=
  let actions := (qs.zipIdx 1).flatMap fun (q, number) => Action.serving number q
  ((Batch.run? ⟨o, names, workers⟩ actions).map Batch.list).getD []

end Javelin.Compile
