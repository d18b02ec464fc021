import Ylem.Lib.Folds
import Ylem.Lib.Holders
import Ylem.Lib.Text

/-!
# The locks of replication

`replicate` works on a file under a lock, `mgfs:fid:N:replicate`, which it asks for with `get_lock` and gives back
with `note_done_replicating`. The MySQL store has the locks of the server: they go by name, and end with the session
that has taken them. The Postgres store keeps a table of its own: a row has a number that is made of the name, the
host and the pid of the process, and stays until somebody with the same host and pid deletes it.

Any number of processes ask for locks, give them back, lose their connection and die, in any order. The locks that are
taken are those of the processes that work on a file, and no others, exactly if no process of a MySQL store loses its
connection while it works and none of a Postgres store dies (`sound_iff`). As long as no lock is lost with a
connection, no two processes work on a file, whoever dies (`exclusive_after`); but a lock that a dead process has left
in a table blocks the file until a process of the same pid comes by (`blocked_after`).
-/

namespace Ylem

namespace ReplicationLocks

/-- `(hostname, $$)`. -/
structure Owner where
  hostname : Text
  pid : ℕ
  deriving DecidableEq

/-- What a store makes of the name of a lock, and whether a lock ends with the session. -/
structure LockStore (κ : Type) where
  key : Text → κ
  perSession : Bool

/-- `GET_LOCK` and `RELEASE_LOCK`. -/
def mysql : LockStore Text := ⟨id, true⟩

/-- Table `lock` with `lockid`, for the number in the first bytes of a digest. -/
def postgres (md5 : Text → ℕ) : LockStore ℕ := ⟨fun lockname => md5 lockname &&& 0x7fffffff, false⟩

/-- `"mgfs:fid:$fidid:replicate"`. -/
def lockname (fidid : ℕ) : Text := "mgfs:fid:".toList ++ Text.decimal fidid ++ ":replicate".toList

/-- Where a process is in `replicate`: it asks for the lock for so many more times, works, or has not got it. -/
inductive Call where
  | none
  | asking (fidid timeout : ℕ)
  | working (fidid : ℕ)
  | refused (fidid : ℕ)
  deriving DecidableEq

/-- `lock_depth` of the store of a process, and its call. -/
structure Process where
  lockDepth : Bool
  call : Call
  deriving DecidableEq

/-- The file that a process works on. -/
def Process.file (p : Process) : Option ℕ :=
  match p.call with
  | .working fidid => some fidid
  | _ => none

/-- The locks that are taken, and the processes that live; no two of a host have the same pid. -/
structure Locks (κ : Type) where
  taken : κ → Option Owner
  process : Owner → Option Process

/-- What may happen next. -/
inductive Event where
  | start (o : Owner)
  | replicate (o : Owner) (fidid : ℕ)
  | ask (o : Owner)
  | unlock (o : Owner)
  | reconnect (o : Owner)
  | die (o : Owner)

namespace Locks

variable {κ : Type} (store : LockStore κ) (s : Locks κ)

def init : Locks κ := ⟨fun _ => none, fun _ => none⟩

def setProcess (o : Owner) (p : Option Process) : Locks κ := { s with process := Function.update s.process o p }

/-- The locks of a session that has ended. -/
def endSession (o : Owner) : Locks κ :=
  if store.perSession then { s with taken := fun k => (s.taken k).filter (· ≠ o) } else s

variable [DecidableEq κ]

/-- One turn of the loop in `get_lock`. -/
def getLock (o : Owner) (p : Process) (fidid timeout : ℕ) : Locks κ :=
  let k := store.key (lockname fidid)
  match s.taken k with
  | none => { s with taken := Function.update s.taken k (some o) }.setProcess o (some ⟨true, .working fidid⟩)
  | some _ => s.setProcess o (some { p with call := if timeout ≤ 1 then .refused fidid else .asking fidid (timeout - 1) })

/-- `release_lock`: only a lock of the process is given back. -/
def releaseLock (o : Owner) (fidid : ℕ) : Locks κ :=
  let k := store.key (lockname fidid)
  { s with taken := Function.update s.taken k ((s.taken k).filter (· ≠ o)) }.setProcess o (some ⟨false, .none⟩)

/-- What happens to a process that is alive. -/
def act (o : Owner) (p : Process) : Event → Locks κ
  | .start _ => s
  | .replicate _ fidid =>
    if p.call ≠ .none then s
    -- "Lock recursion detected", which nobody catches
    else if p.lockDepth then (s.endSession store o).setProcess o none
    else s.setProcess o (some { p with call := .asking fidid 1 })
  | .ask _ =>
    match p.call with
    | .asking fidid timeout => s.getLock store o p fidid timeout
    | _ => s
  | .unlock _ =>
    match p.call with
    | .working fidid | .refused fidid => s.releaseLock store o fidid
    | _ => s
  | .reconnect _ => (s.endSession store o).setProcess o (some { p with lockDepth := false })
  | .die _ => (s.endSession store o).setProcess o none

end Locks

def Event.owner : Event → Owner
  | .start o | .replicate o _ | .ask o | .unlock o | .reconnect o | .die o => o

namespace Locks

variable {κ : Type} (store : LockStore κ)

section

variable [DecidableEq κ]

def handle (s : Locks κ) (event : Event) : Locks κ :=
  match s.process event.owner with
  | some p => s.act store event.owner p event
  | none =>
    match event with
    | .start o => s.setProcess o (some ⟨false, .none⟩)
    | _ => s

/-- The locks after the events. -/
def after (events : List Event) : Locks κ := events.foldl (handle store) init

end

/-! ### Who holds what -/

variable (s : Locks κ)

/-- The file that a process works on. -/
def fileOf (o : Owner) : Option ℕ := (s.process o).bind Process.file

/-- The lock of the file that a process works on. -/
def lockOf (o : Owner) : Option κ := (s.fileOf o).map fun fidid => store.key (lockname fidid)

/-- The locks that are taken are those of the processes that work. -/
def Sound : Prop := Holders.Agree s.taken (s.lockOf store)

/-- A process works on a file. -/
def Working (o : Owner) : Prop := ∃ p fidid, s.process o = some p ∧ p.call = .working fidid

/-- A process whose `lock_depth` is not `0` works on a file. -/
def DepthKept : Prop := ∀ o p, s.process o = some p → p.lockDepth = true → ∃ fidid, p.call = .working fidid

/-- No process of a store whose locks are those of a session loses its connection while it works, and no process of
another store dies. -/
def Guard : Event → Prop
  | .reconnect o => store.perSession = true → ¬ s.Working o
  | .die o => store.perSession = false → ¬ s.Working o
  | _ => True

variable {store s} {o o' : Owner} {p p' : Process} {fidid timeout : ℕ}

theorem lockOf_setProcess (s : Locks κ) (o : Owner) (p : Option Process) :
    (s.setProcess o p).lockOf store =
      Function.update (s.lockOf store) o ((p.bind Process.file).map fun fidid => store.key (lockname fidid)) := by
  funext x
  show ((Function.update s.process o p x).bind Process.file).map _ = _
  by_cases hx : x = o
  · rw [hx, Function.update_self, Function.update_self]
  · rw [Function.update_of_ne hx, Function.update_of_ne hx]
    rfl

theorem lockOf_eq (hp : s.process o = some p) :
    s.lockOf store o = p.file.map fun fidid => store.key (lockname fidid) := by
  rw [lockOf, fileOf, hp, Option.bind_some]

theorem lockOf_eq_none_iff : s.lockOf store o = none ↔ ¬ s.Working o := by
  unfold lockOf fileOf Working
  cases hp : s.process o with
  | none => exact iff_of_true rfl fun ⟨_, _, heq, _⟩ => Option.some_ne_none _ heq.symm
  | some p =>
    rw [Option.bind_some, Option.map_eq_none_iff, Process.file]
    cases hcall : p.call <;> simp [hcall]

theorem lockOf_endSession (s : Locks κ) (o : Owner) : (s.endSession store o).lockOf store = s.lockOf store := by
  unfold endSession
  split_ifs <;> rfl

variable (store s) in
/-- What an event does to the locks that are taken, and to those of the processes that work. -/
inductive Effect (s' : Locks κ) : Event → Prop
  | rest {event : Event} (hguard : s.Guard store event) (htaken : s'.taken = s.taken)
      (hlocks : s'.lockOf store = s.lockOf store) : Effect s' event
  | take {o : Owner} {k : κ} [DecidableEq κ] (hfree : s.taken k = none) (hidle : s.lockOf store o = none)
      (htaken : s'.taken = Function.update s.taken k (some o))
      (hlocks : s'.lockOf store = Function.update (s.lockOf store) o (some k)) : Effect s' (.ask o)
  | give {o : Owner} {k : κ} [DecidableEq κ] (hold : s.lockOf store o = some k ∨ s.lockOf store o = none)
      (htaken : s'.taken = Function.update s.taken k ((s.taken k).filter (· ≠ o)))
      (hlocks : s'.lockOf store = Function.update (s.lockOf store) o none) : Effect s' (.unlock o)
  | reconnect {o : Owner} (htaken : s'.taken = (s.endSession store o).taken) (hlocks : s'.lockOf store = s.lockOf store) :
      Effect s' (.reconnect o)
  | die {o : Owner} (htaken : s'.taken = (s.endSession store o).taken)
      (hlocks : s'.lockOf store = Function.update (s.lockOf store) o none) : Effect s' (.die o)

/-- A process that neither worked nor works now. -/
theorem Effect.idle (hold : s.lockOf store o = none) {p : Option Process} (hnew : p.bind Process.file = none) {event : Event}
    (hguard : s.Guard store event) : s.Effect store (s.setProcess o p) event := by
  refine .rest hguard rfl ?_
  rw [lockOf_setProcess, hnew, Option.map_none, ← hold, Function.update_eq_self]

variable [DecidableEq κ]

theorem effect_getLock (hp : s.process o = some p) (hcall : p.call = .asking fidid timeout) :
    s.Effect store (s.getLock store o p fidid timeout) (.ask o) := by
  have hold : s.lockOf store o = none := by rw [lockOf_eq hp, Process.file, hcall, Option.map_none]
  unfold Locks.getLock
  extract_lets k
  cases htaken : s.taken k with
  | none => exact .take htaken hold rfl (lockOf_setProcess ..)
  | some o' =>
    refine .idle hold ?_ trivial
    rw [Option.bind_some, Process.file]
    dsimp only
    split_ifs <;> rfl

omit [DecidableEq κ] in
theorem effect_reconnect (hp : s.process o = some p) :
    s.Effect store ((s.endSession store o).setProcess o (some { p with lockDepth := false })) (.reconnect o) := by
  refine .reconnect rfl ?_
  have hfile : ((some { p with lockDepth := false }).bind Process.file).map (fun fidid => store.key (lockname fidid)) =
      s.lockOf store o := (lockOf_eq hp).symm
  rw [lockOf_setProcess, hfile, lockOf_endSession, Function.update_eq_self]

theorem effect_handle (hdepth : s.DepthKept) (event : Event) : s.Effect store (s.handle store event) event := by
  unfold Locks.handle
  cases hp : s.process event.owner with
  | none =>
    have hold : s.lockOf store event.owner = none := by rw [lockOf, fileOf, hp]; rfl
    cases event with
    | start o => exact .idle hold rfl trivial
    | replicate | ask | unlock => exact .rest trivial rfl rfl
    | reconnect o | die o => exact .rest (fun _ => lockOf_eq_none_iff.mp hold) rfl rfl
  | some p =>
    have hlock := @lockOf_eq κ store s _ p hp
    rw [Process.file] at hlock
    cases event with
    | start o => exact .rest trivial rfl rfl
    | replicate o fidid =>
      show s.Effect store (Locks.act store s o p (.replicate o fidid)) (.replicate o fidid)
      unfold Locks.act
      dsimp only
      split_ifs with hcall hdeep
      · exact .rest trivial rfl rfl
      · obtain ⟨fidid, hworking⟩ := hdepth o p hp hdeep
        rw [not_not.mp hcall] at hworking
        cases hworking
      · rw [not_not.mp hcall] at hlock
        exact .idle hlock rfl trivial
    | ask o =>
      show s.Effect store (Locks.act store s o p (.ask o)) (.ask o)
      unfold Locks.act
      dsimp only
      split
      · rename_i fidid timeout hcall
        exact effect_getLock hp hcall
      · exact .rest trivial rfl rfl
    | unlock o =>
      show s.Effect store (Locks.act store s o p (.unlock o)) (.unlock o)
      unfold Locks.act
      dsimp only
      split
      · rename_i fidid hcall
        rw [hcall] at hlock
        exact .give (.inl hlock) rfl (lockOf_setProcess ..)
      · rename_i fidid hcall
        rw [hcall] at hlock
        exact .give (.inr hlock) rfl (lockOf_setProcess ..)
      · exact .rest trivial rfl rfl
    | reconnect o => exact effect_reconnect hp
    | die o =>
      refine .die rfl ?_
      show Locks.lockOf store ((s.endSession store o).setProcess o none) = _
      rw [lockOf_setProcess, lockOf_endSession]
      rfl

/-! ### What the effects keep -/

variable {s' : Locks κ} {event : Event}

omit [DecidableEq κ] in
theorem Effect.keeps_sound_iff (heffect : s.Effect store s' event) (h : s.Sound store) :
    s'.Sound store ↔ s.Guard store event := by
  unfold Sound
  cases heffect with
  | rest hguard htaken hlocks =>
    rw [htaken, hlocks]
    exact iff_of_true h hguard
  | take hfree hidle htaken hlocks =>
    rw [htaken, hlocks]
    exact iff_of_true (Holders.Agree.take h hfree hidle) trivial
  | give hold htaken hlocks =>
    rw [htaken, hlocks]
    exact iff_of_true (Holders.Agree.give h hold) trivial
  | @reconnect o htaken hlocks =>
    rw [htaken, hlocks, endSession]
    split_ifs with hsession
    · rw [Holders.Agree.drop_iff h, lockOf_eq_none_iff]
      exact ⟨fun hidle _ => hidle, fun hidle => hidle hsession⟩
    · exact iff_of_true h fun heq => absurd heq hsession
  | @die o htaken hlocks =>
    rw [htaken, hlocks, endSession]
    split_ifs with hsession
    · exact iff_of_true (Holders.Agree.drop h o) fun heq => absurd (heq.symm.trans hsession) Bool.false_ne_true
    · rw [Holders.Agree.forget_iff h, lockOf_eq_none_iff]
      exact ⟨fun hidle _ => hidle, fun hidle => hidle (Bool.eq_false_of_not_eq_true hsession)⟩

variable (store s) in
/-- No process loses with its connection the lock of its file. -/
def KeepsConnection (event : Event) : Prop := ∀ o, event = .reconnect o → store.perSession = true → ¬ s.Working o

omit [DecidableEq κ] in
theorem Effect.held (heffect : s.Effect store s' event) (hguard : s.KeepsConnection store event)
    (h : Holders.Held s.taken (s.lockOf store)) : Holders.Held s'.taken (s'.lockOf store) := by
  cases heffect with
  | rest _ htaken hlocks =>
    rw [htaken, hlocks]
    exact h
  | take hfree _ htaken hlocks =>
    rw [htaken, hlocks]
    exact h.take hfree
  | @give o k _ _ htaken hlocks =>
    rw [htaken, hlocks]
    exact h.give k o
  | @reconnect o htaken hlocks =>
    rw [htaken, hlocks, endSession]
    split_ifs with hsession
    · have hidle : s.lockOf store o = none := lockOf_eq_none_iff.mpr (hguard o rfl hsession)
      have hdrop := h.drop o
      rwa [← hidle, Function.update_eq_self] at hdrop
    · exact h
  | @die o htaken hlocks =>
    rw [htaken, hlocks, endSession]
    split_ifs
    · exact h.drop o
    · exact h.forget o

omit [DecidableEq κ] in
theorem Effect.taken_of_dead (heffect : s.Effect store s' event) (hstore : store.perSession = false) {k : κ}
    (htaken : s.taken k = some o) (howner : event.owner ≠ o) : s'.taken k = some o := by
  have hsession : ∀ x, (s.endSession store x).taken = s.taken := fun x => by
    rw [endSession, if_neg (by rw [hstore]; exact Bool.false_ne_true)]
  cases heffect with
  | rest _ heq _ => rw [heq, htaken]
  | @take x k' _ hfree _ heq _ =>
    have hk : k ≠ k' := fun hk => Option.some_ne_none o (htaken.symm.trans (hk ▸ hfree))
    rw [heq, Function.update_of_ne hk, htaken]
  | @give x k' _ _ heq _ =>
    rw [heq]
    by_cases hk : k = k'
    · subst hk
      rw [Function.update_self]
      exact Option.filter_eq_some_iff.mpr ⟨htaken, decide_eq_true howner.symm⟩
    · rw [Function.update_of_ne hk, htaken]
  | reconnect heq _ | die heq _ => rw [heq, hsession, htaken]

/-! ### Runs -/

omit [DecidableEq κ] in
theorem DepthKept.setProcess (h : s.DepthKept) {p : Option Process}
    (hp : ∀ q ∈ p, q.lockDepth = true → ∃ fidid, q.call = .working fidid) : (s.setProcess o p).DepthKept := by
  intro x q hq
  have hq : Function.update s.process o p x = some q := hq
  by_cases hx : x = o
  · rw [hx, Function.update_self] at hq
    exact hp q hq
  · rw [Function.update_of_ne hx] at hq
    exact h x q hq

omit [DecidableEq κ] in
theorem depthKept_endSession (h : s.DepthKept) (o : Owner) : (s.endSession store o).DepthKept := by
  unfold endSession
  split_ifs
  · exact h
  · exact h

theorem DepthKept.getLock (h : s.DepthKept) (hp : s.process o = some p) (hcall : p.call = .asking fidid timeout) :
    (s.getLock store o p fidid timeout).DepthKept := by
  unfold Locks.getLock
  extract_lets k
  split
  · exact DepthKept.setProcess h fun q hq _ => by cases hq; exact ⟨fidid, rfl⟩
  · refine h.setProcess fun q hq hdeep => ?_
    cases hq
    obtain ⟨fidid, hworking⟩ := h o p hp hdeep
    rw [hcall] at hworking
    cases hworking

theorem DepthKept.handle (h : s.DepthKept) (event : Event) : (s.handle store event).DepthKept := by
  have hidle : ∀ {q : Process}, q.lockDepth = false → ∀ q' ∈ some q, q'.lockDepth = true →
      ∃ fidid, q'.call = .working fidid := fun hq q' hq' hdeep => by
    cases hq'
    exact absurd (hq.symm.trans hdeep) Bool.false_ne_true
  unfold Locks.handle
  cases hp : s.process event.owner with
  | none =>
    cases event with
    | start o => exact h.setProcess (hidle rfl)
    | replicate | ask | unlock | reconnect | die => exact h
  | some p =>
    cases event with
    | start o => exact h
    | replicate o fidid =>
      show (Locks.act store s o p (.replicate o fidid)).DepthKept
      unfold Locks.act
      dsimp only
      split_ifs with hcall hdeep
      · exact h
      · exact (depthKept_endSession h o).setProcess fun q hq => by cases hq
      · exact h.setProcess (hidle (Bool.eq_false_of_not_eq_true hdeep))
    | ask o =>
      show (Locks.act store s o p (.ask o)).DepthKept
      unfold Locks.act
      dsimp only
      split
      · rename_i fidid timeout hcall
        exact h.getLock hp hcall
      · exact h
    | unlock o =>
      show (Locks.act store s o p (.unlock o)).DepthKept
      unfold Locks.act
      dsimp only
      split
      · exact DepthKept.setProcess h (hidle rfl)
      · exact DepthKept.setProcess h (hidle rfl)
      · exact h
    | reconnect o => exact (depthKept_endSession h o).setProcess (hidle rfl)
    | die o => exact (depthKept_endSession h o).setProcess fun q hq => by cases hq

omit [DecidableEq κ] in
theorem depthKept_init : (init : Locks κ).DepthKept := fun _ _ hp => absurd hp (Option.some_ne_none _).symm

variable (store)

theorem depthKept_after (events : List Event) : (after store events).DepthKept :=
  foldl_inv depthKept_init (fun _ event hs => hs.handle event) events

/-- The locks that are taken are those of the processes that work, at all times, exactly if no process loses its
connection while it works that has a lock of its session, and none dies that has a row in a table. -/
theorem sound_iff (events : List Event) :
    (∀ before, before <+: events → (after store before).Sound store) ↔
      ∀ before event, before ++ [event] <+: events → (after store before).Guard store event :=
  @foldl_forall_iff _ _ (handle store) init DepthKept (Sound store) (Guard store) depthKept_init Holders.agree_none
    (fun _ event hs => hs.handle event) (fun _ event hdepth hs => (effect_handle hdepth event).keeps_sound_iff hs) events

theorem held_after (events : List Event)
    (h : ∀ before event, before ++ [event] <+: events → (after store before).KeepsConnection store event) :
    Holders.Held (after store events).taken ((after store events).lockOf store) := by
  have hall : (after store events).DepthKept ∧ Holders.Held (after store events).taken ((after store events).lockOf store) :=
    @foldl_inv_of_guard _ _ (handle store) init (fun s => s.DepthKept ∧ Holders.Held s.taken (s.lockOf store))
      (KeepsConnection store) ⟨depthKept_init, Holders.held_none⟩
      (fun _ event hs hguard => ⟨hs.1.handle event, (effect_handle hs.1 event).held hguard hs.2⟩) _ h
  exact hall.2

/-- No two processes work on a file at the same time, whoever dies. -/
theorem exclusive_after (events : List Event)
    (h : ∀ before event, before ++ [event] <+: events → (after store before).KeepsConnection store event)
    {o o' : Owner} {fidid : ℕ} (ho : (after store events).fileOf o = some fidid)
    (ho' : (after store events).fileOf o' = some fidid) : o = o' := by
  have hlock : ∀ {x}, (after store events).fileOf x = some fidid →
      (after store events).lockOf store x = some (store.key (lockname fidid)) := fun hx => by
    rw [lockOf, hx, Option.map_some]
  exact (held_after store events h).unique (hlock ho) (hlock ho')

/-- Two processes ask for the same file. -/
def twoAsk (o o' : Owner) (fidid : ℕ) : List Event :=
  [.start o, .start o', .replicate o fidid, .replicate o' fidid, .ask o', .ask o]

theorem exclusive_after_twoAsk :
    (after mysql (twoAsk ⟨"a".toList, 10⟩ ⟨"b".toList, 10⟩ 7)).fileOf ⟨"a".toList, 10⟩ ≠ some 7 := by
  intro ha
  have hb : (after mysql (twoAsk ⟨"a".toList, 10⟩ ⟨"b".toList, 10⟩ 7)).fileOf ⟨"b".toList, 10⟩ = some 7 := by
    decide +kernel
  have heq := exclusive_after mysql (twoAsk ⟨"a".toList, 10⟩ ⟨"b".toList, 10⟩ 7) (fun before event hbefore o hevent => by
    subst hevent
    have hmem : Event.reconnect o ∈ twoAsk ⟨"a".toList, 10⟩ ⟨"b".toList, 10⟩ 7 := hbefore.subset (by simp)
    simp [twoAsk] at hmem) ha hb
  exact absurd heq (by decide)

theorem process_handle_of_ne (s : Locks κ) {event : Event} (h : o ≠ event.owner) :
    (s.handle store event).process o = s.process o := by
  have hset : ∀ (t : Locks κ) (p : Option Process), t.process = s.process →
      (t.setProcess event.owner p).process o = s.process o := fun t p ht => by
    show Function.update t.process event.owner p o = s.process o
    rw [Function.update_of_ne h, ht]
  have hsession : (s.endSession store event.owner).process = s.process := by
    unfold endSession
    split_ifs <;> rfl
  unfold Locks.handle
  cases hp : s.process event.owner with
  | none =>
    cases event with
    | start x => exact hset s _ rfl
    | replicate | ask | unlock | reconnect | die => rfl
  | some p =>
    dsimp only
    unfold Locks.act
    split
    · rfl
    · split_ifs
      · rfl
      · exact hset _ _ hsession
      · exact hset s _ rfl
    · split
      · unfold Locks.getLock
        extract_lets k
        split
        · exact hset _ _ rfl
        · exact hset s _ rfl
      · rfl
    · split
      · exact hset _ _ rfl
      · exact hset _ _ rfl
      · rfl
    · exact hset _ _ hsession
    · exact hset _ _ hsession

/-- A lock in a table that a dead process has left stays as long as no process with its host and pid starts: until then
nobody works on the file. -/
theorem blocked_after (hstore : store.perSession = false) (events later : List Event) {o : Owner} {fidid : ℕ}
    (htaken : (after store events).taken (store.key (lockname fidid)) = some o) (hdead : (after store events).process o = none)
    (hstart : .start o ∉ later) (x : Owner) : (after store (events ++ later)).fileOf x ≠ some fidid := by
  have hleft : ∀ before, before <+: later →
      (after store (events ++ before)).taken (store.key (lockname fidid)) = some o ∧
      (after store (events ++ before)).process o = none := by
    intro before
    induction before using List.reverseRecOn with
    | nil =>
      rw [List.append_nil]
      exact fun _ => ⟨htaken, hdead⟩
    | append_singleton before event ih =>
      intro hbefore
      obtain ⟨htaken, hdead⟩ := ih ((List.prefix_append _ _).trans hbefore)
      rw [← List.append_assoc, after, List.foldl_concat, ← after]
      have hmem : event ∈ later := hbefore.subset (List.mem_append_right _ (List.mem_singleton_self event))
      by_cases howner : event.owner = o
      · -- what is not there does nothing
        have hsame : (after store (events ++ before)).handle store event = after store (events ++ before) := by
          unfold Locks.handle
          rw [howner, hdead]
          cases event with
          | start y => exact absurd (howner ▸ hmem) hstart
          | replicate | ask | unlock | reconnect | die => rfl
        rw [hsame]
        exact ⟨htaken, hdead⟩
      · exact ⟨(effect_handle (depthKept_after store _) event).taken_of_dead hstore htaken howner,
          (process_handle_of_ne store _ (Ne.symm howner)).trans hdead⟩
  intro hx
  obtain ⟨htaken, hdead⟩ := hleft later List.prefix_rfl
  have hheld := held_after store (events ++ later) fun _ _ _ y _ hsession =>
    absurd (hstore.symm.trans hsession) Bool.false_ne_true
  have hlock : (after store (events ++ later)).lockOf store x = some (store.key (lockname fidid)) := by
    rw [lockOf, hx, Option.map_some]
  obtain rfl : o = x := Option.some.inj (htaken.symm.trans (hheld _ x hlock))
  rw [fileOf, hdead] at hx
  cases hx

/-- A process dies while it works. -/
def diesWorking (o : Owner) (fidid : ℕ) : List Event := [.start o, .replicate o fidid, .ask o, .die o]

theorem blocked_after_diesWorking :
    (after (postgres fun _ => 3) (diesWorking ⟨"a".toList, 10⟩ 7 ++
      [.start ⟨"a".toList, 11⟩, .replicate ⟨"a".toList, 11⟩ 7, .ask ⟨"a".toList, 11⟩])).fileOf ⟨"a".toList, 11⟩ ≠ some 7 :=
  blocked_after (postgres fun _ => 3) rfl (diesWorking ⟨"a".toList, 10⟩ 7) _ (o := ⟨"a".toList, 10⟩) (by decide +kernel)
    (by decide +kernel) (by simp) _

end Locks

end ReplicationLocks

end Ylem
