import Ylem.Store
import Ylem.DevFid

/-!
# Requests and replies of the query worker

A command handler gets the decoded arguments of a request, works on the database and on what else the
worker can see, and sends `OK` and `ERR` lines to the parent. Its `Outcome` is the lines it has sent, in
order, and the exception it died of, if it did; nothing in the source keeps a handler from sending no line
or several.
-/

namespace Ylem

/-- Decoded arguments; nothing for a key that is not there. -/
abbrev Args := String → Option Text

/-- An exception: one thrown with the code `dup`, or any other with its text. -/
inductive Exn where
  | dup
  | other (message : Text)
  deriving DecidableEq

/-- A line sent by `ok_line` or `err_line`. -/
inductive Reply where
  | ok (args : List (Text × Text))
  | err (code : String) (text : Text)
  deriving DecidableEq

/-- The texts of `err_line` for the codes that have one. -/
def errTexts : List (String × String) :=
  [("dup", "Duplicate name/number used."),
    ("after_mismatch", "Pattern does not match the after-value?"),
    ("bad_params", "Invalid parameters to command; please see documentation"),
    ("class_exists", "That class already exists in that domain"),
    ("class_has_files", "Class still has files, uanble to delete"),
    ("class_not_found", "Class not found"),
    ("db", "Database error"),
    ("domain_has_files", "Domain still has files, uanble to delete"),
    ("domain_exists", "That domain already exists"),
    ("domain_not_empty", "Domain still has classes, unable to delete"),
    ("domain_not_found", "Domain not found"),
    ("failure", "Operation failed"),
    ("host_exists", "That host already exists"),
    ("host_mismatch", "The device specified doesn't belong to the host specified"),
    ("host_not_empty", "Unable to delete host; it contains devices still"),
    ("host_not_found", "Host not found"),
    ("invalid_chars", "Patterns must not contain backslashes (\\) or percent signs (%)."),
    ("invalid_checker_level", "Checker level invalid.  Please see documentation on this command."),
    ("invalid_mindevcount", "The mindevcount must be at least 1"),
    ("key_exists", "Target key name already exists; can't overwrite."),
    ("no_class", "No class provided"),
    ("no_devices", "No devices found to store file"),
    ("no_domain", "No domain provided"),
    ("no_host", "No host provided"),
    ("no_ip", "IP required to create host"),
    ("no_port", "Port required to create host"),
    ("none_match", "No keys match that pattern and after-value (if any)."),
    ("plugin_aborted", "Action aborted by plugin"),
    ("state_too_high", "Status cannot go from dead to alive; must use down"),
    ("unknown_command", "Unknown server command"),
    ("unknown_host", "Host not found"),
    ("unknown_state", "Invalid/unknown state"),
    ("unreg_domain", "Domain name invalid/not found")]

/-- `err_line` with a code and, if it is true, a text of its own. -/
def errLine (code : String) (text : Option Text) : Reply :=
  .err code (if Text.truthy text then text.getD [] else ((errTexts.lookup code).getD code).toList)

/-- What a handler has done to the connection: the lines it sent, and what it died of. -/
structure Outcome where
  lines : List Reply
  died : Option Exn
  deriving DecidableEq

namespace Outcome

def ok (args : List (Text × Text)) : Outcome := ⟨[.ok args], none⟩
def err (code : String) : Outcome := ⟨[errLine code none], none⟩
def errText (code : String) (text : Text) : Outcome := ⟨[errLine code (some text)], none⟩
def dies (e : Exn) : Outcome := ⟨[], some e⟩

/-- What a client learns: the arguments of the first line, if that is an `OK`. -/
def okArgs (o : Outcome) : Option (List (Text × Text)) :=
  match o.lines with
  | .ok args :: _ => some args
  | _ => none

/-- The lines that go out, with the one that `process_line` sends for an exception. -/
def answer (o : Outcome) : List Reply :=
  match o.died with
  | none => o.lines
  | some .dup => o.lines ++ [errLine "dup" none]
  | some (.other _) => o.lines ++ [errLine "failure" none]

end Outcome

/-- What a handler sees of the world outside the database. `fileSize` is the answer of the size check of
an uploaded file, nothing if its host cannot be reached; `devcountLock` are the answers of `get_lock` in
the two device counts. -/
structure QueryEnv where
  idOfName : Text → Except Exn (Option ℕ)
  devs : DeviceMap
  zone : Zone
  volumeId : Option Text
  fileSize : Text → Except Exn (Option ℕ)
  lastError : Text
  addLock : Option Bool
  devcountLock : Option Bool
  now : ℕ

/-- `check_domain`: the lines it sends and the id of the domain, `0` for none. -/
def checkDomain (env : QueryEnv) (args : Args) : Except Exn (List Reply × ℕ) :=
  match args "domain" with
  | none | some [] => .ok ([errLine "no_domain" none], 0)
  | some domain =>
    match env.idOfName domain with
    | .error e => .error e
    | .ok none | .ok (some 0) => .ok ([errLine "unreg_domain" none], 0)
    | .ok (some dmid) => .ok ([], dmid)

/-- The handlers that need a domain: a failed `check_domain` is followed by their own error line. -/
def withDomain (env : QueryEnv) (args : Args) (handler : ℕ → DbProg Outcome) : DbProg Outcome :=
  match checkDomain env args with
  | .error e => pure (.dies e)
  | .ok (lines, 0) => pure ⟨lines ++ [errLine "domain_not_found" none], none⟩
  | .ok (_, dmid) => handler dmid

/-- `MogileFS::DevFID::url` and `get_url`. A tracker without a volume id makes it die; a device without a
host has no URL. -/
def deviceUrl (env : QueryEnv) (useGetPort : Bool) (dev : Device) (fid : ℕ) : Except Exn (Option Text) :=
  match dev.host with
  | none => .ok none
  | some host =>
    match env.volumeId with
    | none => .error (.other "No volume id set for this tracker".toList)
    | some volid =>
      .ok (some (fullUrl env.zone host useGetPort (uriPath volid (Text.decimal dev.devid) fid)))

/-- The URL of a fid on the device a client names. An unknown device makes it die. -/
def devfidUrl (env : QueryEnv) (useGetPort : Bool) (devid : Text) (fid : ℕ) :
    Except Exn (Device × Option Text) :=
  match env.devs.ofDevidText devid with
  | none => .error (.other "Device doesn't exist".toList)
  | some dev => (deviceUrl env useGetPort dev fid).map fun url => (dev, url)

end Ylem
