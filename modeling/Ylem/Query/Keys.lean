import Ylem.Query.Reply

/-!
# Deleting and renaming a key

`cmd_delete` and `cmd_rename`. A rename to a key that exists answers twice: the error line of the failed
update is followed by the `OK` line that ends the handler.
-/

namespace Ylem

section Handler

variable (env : QueryEnv) (args : Args)

/-- `MogileFS::FID->new_from_dmid_and_key`: the fid of a key, and what it is used for. -/
def withFid (dmid : ℕ) (key : Text) (use : ℕ → DbProg Outcome) : DbProg Outcome := do
  match ← sql (.selectFileByName dmid key) with
  | none => pure (.err "unknown_key")
  | some row =>
    if row.fid = 0 then pure (.dies (.other "Missing 'fid' column".toList)) else use row.fid

/-- `cmd_delete`, without plugin hooks. -/
def cmdDelete : DbProg Outcome :=
  withDomain env args fun dmid =>
    if !Text.truthy (args "key") then pure (.err "no_key")
    else withFid dmid ((args "key").getD []) fun fid => do
      Store.deleteFidid fid
      pure (.ok [])

def cmdRename : DbProg Outcome :=
  withDomain env args fun dmid =>
    if !(Text.truthy (args "from_key") && Text.truthy (args "to_key")) then pure (.err "no_key")
    else withFid dmid ((args "from_key").getD []) fun fid => do
      match ← sql (.renameFile fid ((args "to_key").getD [])) with
      | true => pure (.ok [])
      -- the error line does not end the handler
      | false => pure ⟨[errLine "key_exists" none, .ok []], none⟩

end Handler

end Ylem
