import Ylem.Query.Reply
import Ylem.Query.UrlArgs
import Ylem.Lib.Split
import Ylem.Tracker.ProcManager

/-!
# The query worker

`process_line` gets a line from the parent: the number of the request, the address of the client, and what the client
has sent. It looks up the handler of the command, and every `ok_line` and `err_line` on the way sends a line with the
number of the request. The time that the request has taken goes with the first of them only, for `querystarttime` is
cleared then.

The parent takes a line with a time for the response to the request of that number (`parseResponse_first`), and any
other for none (`parseResponse_later`).
-/

namespace Ylem

/-! ### Lines that are sent -/

/-- The bytes of a text, and the text of bytes. -/
def Text.bytes (t : Text) : Bytes := t.map Char.toUInt8

def Text.ofBytes (t : Bytes) : Text := t.map fun c => Char.ofNat c.toNat

/-- What `ok_line` and `err_line` send after the number and the time. -/
def Reply.text : Reply → Text
  | .ok args => Text.ofBytes (okLine (args.map fun kv => (Text.bytes kv.1, Text.bytes kv.2)))
  | .err code text => "ERR ".toList ++ code.toList ++ ' ' :: Text.ofBytes (eurl (Text.bytes text))

/-- An interval as `%.4f` prints it: so many ten thousandths of a second, which may be negative. -/
structure Delay where
  negative : Bool
  units : ℕ

def Delay.text (d : Delay) : Text :=
  (if d.negative then ['-'] else []) ++ Text.decimal (d.units / 10000) ++ '.' :: Text.zeroPad 4 (d.units % 10000)

/-- `reqid`, and whether there is a `querystarttime`. -/
structure QueryWorker where
  reqid : Option Text
  started : Bool
  deriving DecidableEq

namespace QueryWorker

def start : QueryWorker := ⟨none, false⟩

/-- `"${id}${delay}…"`. -/
def sendLine (delay : Delay) (worker : QueryWorker) (reply : Reply) : Text × QueryWorker :=
  let delay := if worker.started then delay.text ++ [' '] else []
  let id := match worker.reqid with
    | some reqid => reqid ++ [' ']
    | none => []
  (id ++ delay ++ reply.text, { worker with started := false })

def sendLines (delay : Delay) : List Reply → QueryWorker → List Text × QueryWorker
  | [], worker => ([], worker)
  | reply :: replies, worker =>
    let (line, worker) := sendLine delay worker reply
    let (lines, worker) := sendLines delay replies worker
    (line :: lines, worker)

end QueryWorker

/-! ### Requests -/

open ProcManager (requestId parseResponse)

/-- `\s*(\S+)\s*(.*)`: the address of the client and its line. -/
def parseClient (t : Text) : Option (Text × Text) :=
  let (ip, t) := (t.dropWhile ProcManager.isSpace).span fun c => !ProcManager.isSpace c
  if ip = [] then none else some (ip, (t.dropWhile ProcManager.isSpace).takeWhile (· != '\n'))

/-- `/^(\d+-\d+)?\s*(\S+)\s*(.*)/`. -/
def parseRequest (line : Text) : Option (Option Text × Text × Text) :=
  let (pid, t) := line.span Char.isDigit
  let (reqid, rest) := t.tail.span Char.isDigit
  let plain := (parseClient line).map fun client => (none, client)
  if pid = [] ∨ t.head? ≠ some '-' ∨ reqid = [] then plain
  else match parseClient rest with
    | some client => some (some (pid ++ '-' :: reqid), client)
    | none =>
      -- with nothing behind the number, its last digit is the address, or all of it
      if reqid.tail = [] then plain
      else some (some (pid ++ '-' :: reqid.dropLast), reqid.drop (reqid.length - 1), [])

/-- `/^(\w+)\s*(.*)/`, with the command in lower case. -/
def parseCommand (line : Text) : Option (Text × Text) :=
  let (cmd, t) := line.span Text.isWord
  if cmd = [] then none else some (cmd.map Char.toLower, (t.dropWhile ProcManager.isSpace).takeWhile (· != '\n'))

/-- The handlers of the commands, each with what it does for the text of the arguments. -/
abbrev Handlers := Text → Option (Text → Outcome)

/-- The replies to a client's line. -/
def Handlers.replies (handlers : Handlers) (line : Text) : List Reply :=
  match parseCommand line with
  | none => [errLine "unknown_command" none]
  | some (cmd, args) =>
    match handlers cmd with
    | none => [errLine "unknown_command" none]
    | some handler => (handler args).answer

/-- `process_line`. -/
def QueryWorker.processLine (handlers : Handlers) (delay : Delay) (line : Text) (worker : QueryWorker) :
    List Text × QueryWorker :=
  match parseRequest line with
  | none => worker.sendLines delay [errLine "unknown_command" none]
  | some (reqid, _, line) => sendLines delay (handlers.replies line) ⟨reqid, true⟩

/-- The lines for the replies to one request. -/
def sentLines (id : Text) (delay : Delay) : List Reply → List Text
  | [] => []
  | first :: later => (id ++ ' ' :: (delay.text ++ ' ' :: first.text)) :: later.map fun reply => id ++ ' ' :: reply.text

theorem length_sentLines (id : Text) (delay : Delay) (replies : List Reply) :
    (sentLines id delay replies).length = replies.length := by
  cases replies with
  | nil => rfl
  | cons first later => rw [sentLines, List.length_cons, List.length_map, List.length_cons]

theorem sendLines_eq (id : Text) (delay : Delay) (replies : List Reply) :
    (QueryWorker.sendLines delay replies ⟨some id, true⟩).1 = sentLines id delay replies := by
  have hlater : ∀ later : List Reply, (QueryWorker.sendLines delay later ⟨some id, false⟩).1 =
      later.map fun reply => id ++ ' ' :: reply.text := by
    intro later
    induction later with
    | nil => rfl
    | cons reply later ih =>
      simp only [QueryWorker.sendLines, QueryWorker.sendLine, List.map_cons]
      rw [ih]
      simp
  cases replies with
  | nil => rfl
  | cons first later =>
    simp only [QueryWorker.sendLines, QueryWorker.sendLine, sentLines]
    rw [hlater]
    simp

/-! ### What the parent makes of a line -/

theorem Reply.exists_cons_text (reply : Reply) :
    ∃ c t, reply.text = c :: t ∧ c.isDigit = false ∧ ProcManager.isSpace c = false ∧ c ≠ '-' := by
  cases reply with
  | ok args => exact ⟨'O', _, rfl, rfl, rfl, by decide⟩
  | err code text => exact ⟨'E', _, rfl, rfl, rfl, by decide⟩

theorem span_append_cons {p : Char → Bool} {t rest : Text} {c : Char} (ht : ∀ c ∈ t, p c = true) (hc : p c = false) :
    (t ++ c :: rest).span p = (t, c :: rest) := by
  have hrest : ∀ c' ∈ (c :: rest).head?, p c' = false := fun c' hc' => Option.some.inj hc' ▸ hc
  obtain ⟨htake, hdrop⟩ := Text.takeWhile_append_stop ht hrest
  rw [List.span_eq_takeWhile_dropWhile, htake, hdrop]

theorem span_decimal_cons {n : ℕ} {c : Char} (hc : c.isDigit = false) (rest : Text) :
    (Text.decimal n ++ c :: rest).span Char.isDigit = (Text.decimal n, c :: rest) :=
  span_append_cons (fun _ => Text.isDigit_of_mem_decimal) hc

theorem decimal_ne_nil (n : ℕ) : Text.decimal n ≠ [] := by
  obtain ⟨c, t, heq, -⟩ := Text.exists_cons_decimal n
  rw [heq]
  exact List.cons_ne_nil c t

theorem requestId_inj {pid pid' reqid reqid' : ℕ} (h : requestId pid reqid = requestId pid' reqid') :
    pid = pid' ∧ reqid = reqid' := by
  have hspan : ∀ pid reqid, (requestId pid reqid).span Char.isDigit = (Text.decimal pid, '-' :: Text.decimal reqid) :=
    fun _ _ => span_decimal_cons rfl _
  have heq := (hspan pid reqid).symm.trans (h ▸ hspan pid' reqid')
  obtain ⟨hpid, hreqid⟩ := Prod.mk.inj heq
  exact ⟨Text.decimal_injective hpid, Text.decimal_injective (List.cons.inj hreqid).2⟩

theorem span_blank {c : Char} (hc : ProcManager.isSpace c = false) (rest : Text) :
    (' ' :: c :: rest).span ProcManager.isSpace = ([' '], c :: rest) :=
  @span_append_cons ProcManager.isSpace [' '] rest c (fun c' hc' => by rw [List.mem_singleton.mp hc']; rfl) hc

theorem ProcManager.isSpace_digit {c : Char} (hc : c.isDigit = true) : ProcManager.isSpace c = false := by
  rw [Bool.eq_false_iff]
  intro hspace
  simp only [ProcManager.isSpace, Bool.or_eq_true, decide_eq_true_eq] at hspace
  rcases hspace with (((rfl | rfl) | rfl) | rfl) | rfl <;> exact absurd hc (by decide)

/-- The first line that a worker sends for a request is a response to it. -/
theorem parseResponse_first (pid reqid : ℕ) (delay : Delay) (reply : Reply) :
    parseResponse (requestId pid reqid ++ ' ' :: (delay.text ++ ' ' :: reply.text)) =
      some (requestId pid reqid, delay.text, reply.text) := by
  obtain ⟨c, t, htext, -, hspace, -⟩ := reply.exists_cons_text
  obtain ⟨d, digits, hdigits, hd⟩ := Text.exists_cons_decimal (delay.units / 10000)
  -- the line, from each part on
  have hreply : (' ' :: reply.text).span ProcManager.isSpace = ([' '], reply.text) := by
    rw [htext]
    exact span_blank hspace t
  have hfraction : (Text.zeroPad 4 (delay.units % 10000) ++ ' ' :: reply.text).span Char.isDigit =
      (Text.zeroPad 4 (delay.units % 10000), ' ' :: reply.text) :=
    span_append_cons (fun _ => Text.isDigit_of_mem_zeroPad) rfl
  have hseconds : ∀ rest, (Text.decimal (delay.units / 10000) ++ '.' :: rest).span Char.isDigit =
      (Text.decimal (delay.units / 10000), '.' :: rest) := fun rest => span_decimal_cons rfl rest
  have hreqid : ∀ rest, (Text.decimal reqid ++ ' ' :: rest).span Char.isDigit = (Text.decimal reqid, ' ' :: rest) :=
    fun rest => span_decimal_cons rfl rest
  have hpid : ∀ rest, (Text.decimal pid ++ '-' :: rest).span Char.isDigit = (Text.decimal pid, '-' :: rest) :=
    fun rest => span_decimal_cons rfl rest
  have hzero := Text.zeroPad_ne_nil 4 (delay.units % 10000)
  have hnonempty : reply.text ≠ [] := by
    rw [htext]
    exact List.cons_ne_nil c t
  have hdigit : d ≠ '-' := fun heq => by
    rw [heq] at hd
    cases hd
  cases hneg : delay.negative with
  | true =>
    have hgap : (' ' :: '-' :: (Text.decimal (delay.units / 10000) ++ '.' :: (Text.zeroPad 4 (delay.units % 10000) ++
        ' ' :: reply.text))).span ProcManager.isSpace = ([' '], '-' :: (Text.decimal (delay.units / 10000) ++
          '.' :: (Text.zeroPad 4 (delay.units % 10000) ++ ' ' :: reply.text))) := span_blank rfl _
    simp only [parseResponse, requestId, Delay.text, hneg, if_true, List.append_assoc, List.cons_append, List.nil_append,
      hpid, List.tail_cons, hreqid, hgap, List.head?_cons, hseconds, hfraction, hreply]
    simp [decimal_ne_nil, hzero, hnonempty]
  | false =>
    have hgap : (' ' :: (Text.decimal (delay.units / 10000) ++ '.' :: (Text.zeroPad 4 (delay.units % 10000) ++
        ' ' :: reply.text))).span ProcManager.isSpace = ([' '], Text.decimal (delay.units / 10000) ++
          '.' :: (Text.zeroPad 4 (delay.units % 10000) ++ ' ' :: reply.text)) := by
      rw [hdigits]
      exact span_blank (ProcManager.isSpace_digit hd) _
    have hhead : (Text.decimal (delay.units / 10000) ++ '.' :: (Text.zeroPad 4 (delay.units % 10000) ++
        ' ' :: reply.text)).head? ≠ some '-' := by
      rw [hdigits]
      exact fun heq => hdigit (Option.some.inj heq)
    simp only [parseResponse, requestId, Delay.text, hneg, Bool.false_eq_true, if_false, List.append_assoc,
      List.cons_append, List.nil_append, hpid, List.tail_cons, hreqid, hgap, if_neg hhead, hseconds, hfraction, hreply]
    simp [decimal_ne_nil, hzero, hnonempty]

/-- No other line that it sends is a response. -/
theorem parseResponse_later (pid reqid : ℕ) (reply : Reply) :
    parseResponse (requestId pid reqid ++ ' ' :: reply.text) = none := by
  obtain ⟨c, t, htext, hdigit, hspace, hminus⟩ := reply.exists_cons_text
  have hgap : (' ' :: c :: t).span ProcManager.isSpace = ([' '], c :: t) := span_blank hspace t
  have hseconds : (c :: t).span Char.isDigit = ([], c :: t) := by
    rw [List.span_eq_takeWhile_dropWhile, List.takeWhile_cons_of_neg (by simp [hdigit]),
      List.dropWhile_cons_of_neg (by simp [hdigit])]
  have hreqid : ∀ rest, (Text.decimal reqid ++ ' ' :: rest).span Char.isDigit = (Text.decimal reqid, ' ' :: rest) :=
    fun rest => span_decimal_cons rfl rest
  have hpid : ∀ rest, (Text.decimal pid ++ '-' :: rest).span Char.isDigit = (Text.decimal pid, '-' :: rest) :=
    fun rest => span_decimal_cons rfl rest
  simp only [parseResponse, requestId, htext, List.append_assoc, List.cons_append, hpid, List.tail_cons, hreqid, hgap,
    List.head?_cons, Option.some.injEq, if_neg hminus, hseconds]
  simp

theorem parseRequest_requestId (pid reqid : ℕ) {t : Text} {client : Text × Text} (h : parseClient t = some client) :
    parseRequest (requestId pid reqid ++ ' ' :: t) = some (some (requestId pid reqid), client) := by
  have hreqid : ∀ rest, (Text.decimal reqid ++ ' ' :: rest).span Char.isDigit = (Text.decimal reqid, ' ' :: rest) :=
    fun rest => span_decimal_cons rfl rest
  have hpid : ∀ rest, (Text.decimal pid ++ '-' :: rest).span Char.isDigit = (Text.decimal pid, '-' :: rest) :=
    fun rest => span_decimal_cons rfl rest
  have hblank : parseClient (' ' :: t) = some client := h
  simp only [parseRequest, requestId, List.append_assoc, List.cons_append, hpid, List.tail_cons, hreqid,
    List.head?_cons, hblank]
  simp [decimal_ne_nil]

theorem parseClient_append {ip : Text} (hne : ip ≠ []) (hip : ∀ c ∈ ip, ProcManager.isSpace c = false) (line : Text) :
    parseClient (ip ++ ' ' :: line) = some (ip, (line.dropWhile ProcManager.isSpace).takeWhile (· != '\n')) := by
  obtain ⟨c, t, rfl⟩ := List.exists_cons_of_ne_nil hne
  have hspan : (c :: t ++ ' ' :: line).span (fun c => !ProcManager.isSpace c) = (c :: t, ' ' :: line) :=
    span_append_cons (fun c' hc' => by rw [hip c' hc']; rfl) rfl
  have hdrop : (c :: t ++ ' ' :: line).dropWhile ProcManager.isSpace = c :: t ++ ' ' :: line := by
    rw [List.cons_append, List.dropWhile_cons_of_neg (by rw [hip c List.mem_cons_self]; exact Bool.false_ne_true)]
  rw [parseClient, hdrop, hspan]
  rfl

theorem processLine_request (handlers : Handlers) (delay : Delay) (pid reqid : ℕ) {t ip line : Text}
    (h : parseClient t = some (ip, line)) (worker : QueryWorker) :
    (worker.processLine handlers delay (requestId pid reqid ++ ' ' :: t)).1 =
      sentLines (requestId pid reqid) delay (handlers.replies line) := by
  rw [QueryWorker.processLine, parseRequest_requestId pid reqid h]
  exact sendLines_eq _ delay _

end Ylem
