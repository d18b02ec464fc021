import Ylem.Lib.Text
import Ylem.Lib.Folds

/-!
# The parent process

`MogileFS::ProcManager` forks the workers, asks them to die when there are more of a job than wanted, hands
the queries of clients to idle query workers and the responses back. Its state is what the parent keeps in its
tables, with the connections of workers and clients, and a record of what it has written to them. Connections are
numbered in the order in which they come up; a file descriptor and a pid may be given out again once the
connection is closed and the child reaped. A closed connection has no file descriptor.

An `Event` is one of the entry points: a line of a client or of a worker, the end of a connection, and a round
of the check that runs after the event loop. Writes do not fail.
-/

namespace Ylem

/-- The jobs of `job_to_class_suffix`. -/
inductive Job where
  | queryworker | delete | replicate | reaper | monitor | fsck
  deriving DecidableEq, Repr

/-- `MogileFS::Connection::Worker`. -/
structure WorkerConn where
  pid : ℕ
  fd : Option ℕ
  job : Job
  reqid : ℕ
  deriving DecidableEq

/-- An entry of `@PendingQueries`, which moves to `%Mappings` and back; `id` tells it from all others. -/
structure ClientQuery where
  client : ℕ
  line : Text
  id : ℕ
  deriving DecidableEq

/-- The response to request number `reqid` of the worker connection `conn`, written to `client`. -/
structure Answer where
  client : ℕ
  conn : ℕ
  reqid : ℕ
  text : Text
  deriving DecidableEq

/-- A worker connection is put into the idle list, or asked to die. -/
inductive Note where
  | idle (conn : ℕ)
  | shutdown (conn : ℕ)
  deriving DecidableEq

def Note.conn : Note → ℕ
  | idle w | shutdown w => w

/-- The tables of the parent, and a history: the queries that were accepted, the requests written to each
worker, how many responses were read from it, the answers written to clients, and what became of the workers, the
newest first. -/
structure ProcManager where
  worker : ℕ → WorkerConn
  next : ℕ
  closedClients : List ℕ
  idleQueryWorkers : List ℕ
  pendingQueries : List ClientQuery
  mappings : ℕ → Option ClientQuery
  child : List ℕ
  todie : List ℕ
  min : Job → ℕ
  current : Job → ℤ
  allkidsup : Bool
  lastspawntime : ℕ
  accepted : List ClientQuery
  requests : ℕ → List ClientQuery
  responses : ℕ → ℕ
  answers : List Answer
  notes : List Note

namespace ProcManager

/-- The parent after `set_min_workers`. -/
def init (min : Job → ℕ) : ProcManager where
  worker := fun _ => ⟨0, none, .queryworker, 0⟩
  next := 0
  closedClients := []
  idleQueryWorkers := []
  pendingQueries := []
  mappings := fun _ => none
  child := []
  todie := []
  min := min
  current := fun _ => 0
  allkidsup := false
  lastspawntime := 0
  accepted := []
  requests := fun _ => []
  responses := fun _ => 0
  answers := []
  notes := []

variable (s : ProcManager)

/-- The connection of a worker is open. -/
def Open (w : ℕ) : Prop := (s.worker w).fd.isSome = true

instance (w : ℕ) : Decidable (s.Open w) := inferInstanceAs (Decidable (_ = _))

def ClientClosed (client : ℕ) : Prop := client ∈ s.closedClients

instance (client : ℕ) : Decidable (s.ClientClosed client) := inferInstanceAs (Decidable (_ ∈ _))

/-- `$Mappings{$worker->{fd}}`. -/
def mapped (w : ℕ) : Option ClientQuery := (s.worker w).fd.bind s.mappings

/-- `delete $Mappings{$worker->{fd}}`. -/
def unmap (w : ℕ) : ProcManager :=
  match (s.worker w).fd with
  | none => s
  | some fd => { s with mappings := Function.update s.mappings fd none }

/-! ### Asking workers to die -/

def jobNeedsReduction (job : Job) : Bool := decide ((s.min job : ℤ) < s.current job)

def notePendingDeath (job : Job) (pid : ℕ) : ProcManager :=
  { s with todie := pid :: s.todie, current := Function.update s.current job (s.current job - 1) }

def askWorkerToDie (w : ℕ) : ProcManager :=
  let s := s.notePendingDeath (s.worker w).job (s.worker w).pid
  { s with notes := .shutdown w :: s.notes }

/-- `CullQueryWorkers` with the idle list. -/
def cullOn : List ℕ → ProcManager → ProcManager
  | [], s => { s with idleQueryWorkers := [] }
  | w :: idle, s =>
    if s.jobNeedsReduction .queryworker then cullOn idle (s.askWorkerToDie w)
    else { s with idleQueryWorkers := w :: idle }

def cullQueryWorkers : ProcManager := cullOn s.idleQueryWorkers s

/-! ### Handing out queries -/

/-- A query goes to a worker. -/
def assign (w fd : ℕ) (q : ClientQuery) : ProcManager :=
  { s with
    mappings := Function.update s.mappings fd (some q)
    worker := Function.update s.worker w { s.worker w with reqid := (s.worker w).reqid + 1 }
    requests := Function.update s.requests w (s.requests w ++ [q]) }

/-- `ProcessQueues` with the idle list: queries of clients that have gone are dropped, and so are workers
that have. -/
def processQueuesOn : List ℕ → ProcManager → ProcManager
  | [], s => { s with idleQueryWorkers := [] }
  | w :: idle, s =>
    match s.pendingQueries.dropWhile fun q => s.ClientClosed q.client with
    | [] => { s with idleQueryWorkers := w :: idle, pendingQueries := [] }
    | q :: pendingQueries =>
      match (s.worker w).fd with
      | none => processQueuesOn idle { s with pendingQueries := q :: pendingQueries }
      | some fd => processQueuesOn idle ({ s with pendingQueries }.assign w fd q)

def processQueues : ProcManager := processQueuesOn s.idleQueryWorkers s

def noteIdleQueryWorker (w : ℕ) : ProcManager :=
  let s := s.unmap w
  if s.jobNeedsReduction .queryworker then s.askWorkerToDie w
  else
    processQueues { s with
      idleQueryWorkers := s.idleQueryWorkers ++ [w]
      notes := .idle w :: s.notes }

def enqueueCommandRequest (client : ℕ) (ip : Option Text) (line : Text) : ProcManager :=
  let q : ClientQuery := ⟨client, ip.getD "0.0.0.0".toList ++ ' ' :: line, s.accepted.length⟩
  processQueues { s with
    pendingQueries := s.pendingQueries ++ [q]
    accepted := s.accepted ++ [q] }

/-- A query that a worker had not answered goes back to the front. -/
def noteDeadWorkerConn (w : ℕ) : ProcManager :=
  match s.mapped w with
  | none => s
  | some q => processQueues { s.unmap w with pendingQueries := q :: s.pendingQueries }

/-! ### Connections -/

/-- `MogileFS::Connection::Worker::close`. -/
def closeWorker (w : ℕ) : ProcManager :=
  let s := s.noteDeadWorkerConn w
  { s with worker := Function.update s.worker w { s.worker w with fd := none } }

/-- `MogileFS::Connection::Client::close`. -/
def closeClient (client : ℕ) : ProcManager := { s with closedClients := client :: s.closedClients }

/-! ### Lines of workers -/

def isSpace (c : Char) : Bool := c = ' ' || c = '\t' || c = '\n' || c = '\r' || c = '\x0c'

/-- The id, the time and the response of a line that matches `/^(\d+-\d+)\s+(\-?\d+\.\d+)\s+(.+)$/`. -/
def parseResponse (line : Text) : Option (Text × Text × Text) :=
  let (pid, t) := line.span Char.isDigit
  let (reqid, t) := t.tail.span Char.isDigit
  let id := pid ++ '-' :: reqid
  let (gap, t) := t.span isSpace
  let (minus, t) := if t.head? = some '-' then (['-'], t.tail) else ([], t)
  let (seconds, t) := t.span Char.isDigit
  let (fraction, t) := t.tail.span Char.isDigit
  let (gap', res) := t.span isSpace
  if pid = [] ∨ reqid = [] ∨ gap = [] ∨ seconds = [] ∨ fraction = [] ∨ gap' = [] ∨
      ¬ (id ++ gap ++ minus ++ seconds ++ '.' :: fraction ++ gap' ++ res = line) then none
  else if res ≠ [] then some (id, minus ++ seconds ++ '.' :: fraction, res)
  -- the last of several blanks may be the response
  else if gap'.tail = [] then none
  else some (id, minus ++ seconds ++ '.' :: fraction, gap'.drop (gap'.length - 1))

/-- `"$worker->{pid}-$worker->{reqid}"`. -/
def requestId (pid reqid : ℕ) : Text := Text.decimal pid ++ '-' :: Text.decimal reqid

/-- A line that is not the response to the request. -/
def workerMismatch (w client : ℕ) : ProcManager := (s.closeClient client).askWorkerToDie w

/-- The client of a mapping is always there. -/
def handleQueryWorkerResponse (w : ℕ) (line : Text) : ProcManager :=
  let s := { s with responses := Function.update s.responses w (s.responses w + 1) }
  match s.mapped w with
  | none => s
  | some q =>
    if s.ClientClosed q.client then s.noteIdleQueryWorker w
    else
      match parseResponse line with
      | none => s.workerMismatch w q.client
      | some (id, _, res) =>
        if id = requestId (s.worker w).pid (s.worker w).reqid then
          noteIdleQueryWorker { s with answers := ⟨q.client, w, (s.worker w).reqid, res⟩ :: s.answers } w
        else s.workerMismatch w q.client

/-- Of the commands of a child only `:ping` touches these tables. -/
def handleChildRequest (w : ℕ) (cmd : Text) : ProcManager :=
  if cmd = ":ping".toList then
    if s.jobNeedsReduction (s.worker w).job then s.askWorkerToDie w else s
  else s

/-- `/^(?:\:|error|debug)/`. -/
def isControl (line : Text) : Bool :=
  [":".toList, "error".toList, "debug".toList].any fun start => start.isPrefixOf line

/-- A line is a response to a query. -/
def IsResponse (w : ℕ) (line : Text) : Prop := (s.worker w).job = .queryworker ∧ isControl line = false

instance (w : ℕ) (line : Text) : Decidable (s.IsResponse w line) := inferInstanceAs (Decidable (_ ∧ _))

/-- A line in `MogileFS::Connection::Worker::event_read`. -/
def workerLine (w : ℕ) (line : Text) : ProcManager :=
  if s.IsResponse w line then s.handleQueryWorkerResponse w line else s.handleChildRequest w line

/-! ### Children -/

def requestJobProcess (job : Job) (n : ℕ) : ProcManager :=
  let s := { s with min := Function.update s.min job n, allkidsup := false }
  if job = .queryworker then s.cullQueryWorkers else s

/-- The command `!want`. -/
def want (count : ℕ) (job : Job) : ProcManager := s.requestJobProcess job (if 500 < count then 500 else count)

/-- What becomes of the job of a child that has died. -/
def noteDeath (w : ℕ) : ProcManager :=
  if s.todie.contains (s.worker w).pid then { s with todie := s.todie.filter fun pid => pid ≠ (s.worker w).pid }
  else
    let job := (s.worker w).job
    { s with current := Function.update s.current job (s.current job - 1) }

/-- A pid that `waitpid` has returned. -/
def reap (pid : ℕ) : ProcManager :=
  match s.child.find? fun w => (s.worker w).pid = pid with
  | none => s
  | some w =>
    let s := { s with child := s.child.filter fun w' => (s.worker w').pid ≠ pid }
    (s.closeWorker w).noteDeath w

/-- `RegisterWorkerConn` with the connection of a new child. -/
def registerWorkerConn (job : Job) (pid fd : ℕ) : ProcManager :=
  let w := s.next
  let s := { s with
    worker := Function.update s.worker w ⟨pid, some fd, job, 0⟩
    next := w + 1 }
  if job = .queryworker then s.noteIdleQueryWorker w else s

/-- `make_new_child`, and the new child in the tables. -/
def addChild (job : Job) (pid fd : ℕ) : ProcManager :=
  let w := s.next
  let s := s.registerWorkerConn job pid fd
  { s with
    child := s.child ++ [w]
    current := Function.update s.current job (s.current job + 1) }

/-- No process that was not reaped has the pid, and no open connection has the file descriptor. -/
def FreshChild (pid fd : ℕ) : Prop :=
  (∀ w ∈ s.child, (s.worker w).pid ≠ pid) ∧ ∀ w < s.next, (s.worker w).fd ≠ some fd

instance (pid fd : ℕ) : Decidable (s.FreshChild pid fd) := inferInstanceAs (Decidable (_ ∧ _))

/-- So many children of a job, and whether all came up. `forks` are the pids and file descriptors that the
system gives, or nothing where it fails. -/
def addChildren (job : Job) : ℕ → List (Option (ℕ × ℕ)) → ProcManager → ProcManager × List (Option (ℕ × ℕ)) × Bool
  | 0, forks, s => (s, forks, true)
  | need + 1, some (pid, fd) :: forks, s =>
    if s.FreshChild pid fd then addChildren job need forks (s.addChild job pid fd) else (s, forks, false)
  | _ + 1, forks, s => (s, forks.tail, false)

/-- The jobs in the order in which `each` yields them. -/
def spawn : List Job → List (Option (ℕ × ℕ)) → ProcManager → ProcManager
  | [], _, s => { s with allkidsup := true }
  | job :: jobs, forks, s =>
    -- a negative number of missing children is no round of the loop
    match addChildren job (s.min job - s.current job).toNat forks s with
    | (s, forks, true) => spawn jobs forks s
    | (s, _, false) => s

/-- `PostEventLoopChecker`; `waited` is the pid that `waitpid` has returned, if any. -/
def postEventLoop (now : ℕ) (waited : Option ℕ) (jobs : List Job) (forks : List (Option (ℕ × ℕ))) : ProcManager :=
  if now ≤ s.lastspawntime then s
  else
    let s := { s with lastspawntime := now }
    if waited.isNone && s.allkidsup then s
    else
      let s := { s with allkidsup := false }
      let s := match waited with
        | some pid => s.reap pid
        | none => s
      spawn jobs forks s

/-! ### Runs -/

/-- What may happen to the parent. -/
inductive Event where
  | enqueue (client : ℕ) (ip : Option Text) (line : Text)
  | closeClient (client : ℕ)
  | line (conn : ℕ) (line : Text)
  | closeWorker (conn : ℕ)
  | want (count : ℕ) (job : Job)
  | postEventLoop (now : ℕ) (waited : Option ℕ) (jobs : List Job) (forks : List (Option (ℕ × ℕ)))

/-- The parent after an event. A connection that is closed sends no line. -/
def handle : Event → ProcManager
  | .enqueue client ip line => if s.ClientClosed client then s else s.enqueueCommandRequest client ip line
  | .closeClient client => s.closeClient client
  | .line w line => if s.Open w then s.workerLine w line else s
  | .closeWorker w => s.closeWorker w
  | .want count job => s.want count job
  | .postEventLoop now waited jobs forks => s.postEventLoop now waited jobs forks

/-- The parent after the events. -/
def after (min : Job → ℕ) (events : List Event) : ProcManager := events.foldl handle (init min)

end ProcManager

end Ylem
