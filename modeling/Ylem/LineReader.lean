import Ylem.Lib.Lines

/-!
# The line readers

The query worker, the parent link of the other workers, the parent's connection to a worker and the side
channel of the storage server all read the same way: what `sysread` returns goes to the end of a buffer, and
`s/^(.+?)\r?\n//` takes lines off its front, one after the other, each of which is handed to a handler. The
handlers differ in what they do to the reader (`Reaction`): the process may exit, and the handler of the
side channel returns from the loop when it rejects a uri.

The pattern wants at least one character in front of the newline. A line that consists of its newline
alone is never taken off, and holds back all that follow; one that consists of CR LF is handed on as a CR.
Otherwise the reader hands on the lines of the stream, wherever the reads have cut it, and keeps what
follows the last newline, except that a handler that returns early leaves the lines behind it in the buffer
(`framed_iff`).
-/

namespace Ylem

/-! ### The pattern -/

/-- `\r?\n` at the start of a text: what follows it. -/
def lineEnd : Text → Option Text
  | '\n' :: t => some t
  | '\r' :: '\n' :: t => some t
  | _ => none

/-- `s/^(.+?)\r?\n//`: the shortest non-empty piece without a newline that a line end follows, and what is
left of the buffer. -/
def takeLine : Text → Option (Text × Text)
  | [] => none
  | c :: t =>
    if c = '\n' then none
    else match lineEnd t with
      | some rest => some ([c], rest)
      | none => (takeLine t).map fun found => (c :: found.1, found.2)

/-! ### The readers -/

/-- What a handler does to its reader: nothing, return from the loop, or exit from the process. -/
inductive Reaction where
  | next | leave | exit
  deriving DecidableEq

/-- A reader: how its handler reacts to a line. A blank line is nothing to react to. -/
structure Reader where
  react : Text → Reaction
  blank : ∀ line, chomp line = [] → react line = .next

structure ReaderState where
  handed : List Text
  buf : Text
  exited : Bool

namespace Reader

variable (R : Reader)

/-- `while ($buf =~ s/^(.+?)\r?\n//)`. Every line takes at least two bytes of the buffer. -/
def drain : ℕ → ReaderState → ReaderState
  | 0, st => st
  | fuel + 1, st =>
    match takeLine st.buf with
    | none => st
    | some (line, rest) =>
      let st := { st with handed := st.handed ++ [line], buf := rest }
      match R.react line with
      | .next => drain fuel st
      | .leave => st
      | .exit => { st with exited := true }

/-- One read. -/
def read (st : ReaderState) (chunk : Text) : ReaderState :=
  if st.exited then st
  else R.drain (st.buf ++ chunk).length { st with buf := st.buf ++ chunk }

/-- All the reads so far. -/
def reads (chunks : List Text) : ReaderState := chunks.foldl R.read ⟨[], [], false⟩

end Reader

/-- A worker's reader, for lines from the parent: `:shutdown` makes it exit, as do the lines that its
handler dies of. -/
def workerReader (dies : Text → Bool) (blank : ∀ line, chomp line = [] → dies line = false) : Reader where
  react line := if ":shutdown".toList.isPrefixOf line || dies line then .exit else .next
  blank line h := by
    rw [blank line h]
    rcases chomp_eq_nil_iff.mp h with rfl | rfl <;> rfl

/-- `MogileFS::Worker::Query::work`. -/
def queryWorker (dies : Text → Bool) (blank : ∀ line, chomp line = [] → dies line = false) : Reader :=
  workerReader dies blank

/-- `MogileFS::Worker::read_from_parent`. -/
def readFromParent (dies : Text → Bool) (blank : ∀ line, chomp line = [] → dies line = false) : Reader :=
  workerReader dies blank

/-- `MogileFS::Connection::Worker::event_read`, which only the handlers end. -/
def connectionWorker (dies : Text → Bool) (blank : ∀ line, chomp line = [] → dies line = false) :
    Reader where
  react line := if dies line then .exit else .next
  blank line h := by rw [blank line h]; rfl

namespace SideChannelClient

def isSpace (c : Char) : Bool := c = ' ' || c = '\t' || c = '\n' || c = '\r' || c = '\x0c'

/-- `/^size (\S+)$/`. -/
def sizeUri (cmd : Text) : Option Text :=
  if "size ".toList.isPrefixOf cmd && !(cmd.drop 5).isEmpty && (cmd.drop 5).all fun c => !isSpace c then
    some (cmd.drop 5)
  else none

/-- `/\.\./`. -/
def hasDotDot (uri : Text) : Bool := uri.tails.any fun t => "..".toList.isPrefixOf t

/-- `/^kill/i`. -/
def isKill (cmd : Text) : Bool := "kill".toList.isPrefixOf (cmd.map Char.toLower)

/-- `/^exit\s+(\d+)/i`. -/
def isExit (cmd : Text) : Bool :=
  "exit".toList.isPrefixOf (cmd.map Char.toLower) &&
    match (cmd.drop 4).span isSpace with
    | (_ :: _, c :: _) => c.isDigit
    | _ => false

/-- What does not fall into the cases of a uri with `..`, `kill` and `exit` goes on, except for the
commands of `run_manage_command` that end the process. -/
def react (exits : Text → Bool) (cmd : Text) : Reaction :=
  match sizeUri cmd with
  | some uri => if hasDotDot uri then .leave else .next
  | none => if isKill cmd || isExit cmd || exits cmd then .exit else .next

end SideChannelClient

/-- `Mogstored::SideChannelClient::event_read`. -/
def sideChannelClient (exits : Text → Bool) (blank : ∀ line, chomp line = [] → exits line = false) :
    Reader where
  react := SideChannelClient.react exits
  blank line h := by
    have hexits := blank line h
    rcases chomp_eq_nil_iff.mp h with rfl | rfl
    · show (if false || exits [] then Reaction.exit else .next) = .next
      rw [hexits]
      rfl
    · show (if false || exits ['\r'] then Reaction.exit else .next) = .next
      rw [hexits]
      rfl

/-! ### What a read hands on -/

/-- A line as the pattern matches it: a lone CR stays. -/
def matched (line : Text) : Text := if line = ['\r'] then line else chomp line

theorem matched_ne_nil {line : Text} (h : line ≠ []) : matched line ≠ [] := by
  unfold matched
  split_ifs with hcr
  · exact h
  · intro hnil
    exact (chomp_eq_nil_iff.mp hnil).elim h hcr

theorem matched_eq_chomp {line : Text} (h : chomp line ≠ []) : matched line = chomp line :=
  if_neg fun hcr => h (chomp_eq_nil_iff.mpr (.inr hcr))

theorem matched_singleton (c : Char) : matched [c] = [c] := by
  unfold matched chomp
  split_ifs with h hcr
  · rfl
  · exact absurd (by simpa using hcr) (fun hc => h (congrArg (fun c => [c]) hc))
  · rfl

theorem matched_cons {c : Char} {line : Text} (hne : line ≠ []) (hcr : line ≠ ['\r']) :
    matched (c :: line) = c :: matched line := by
  have hlong : c :: line ≠ ['\r'] := fun h => hne (List.cons.inj h).2
  rw [matched, if_neg hlong, matched, if_neg hcr, chomp, chomp, List.getLast?_cons_of_ne_nil hne,
    List.dropLast_cons_of_ne_nil hne]
  split_ifs <;> rfl

theorem takeLine_of_not_mem {t : Text} (h : '\n' ∉ t) : takeLine t = none := by
  induction t with
  | nil => rfl
  | cons c t ih =>
    have hc : c ≠ '\n' := fun heq => h (heq ▸ List.mem_cons_self)
    have ht : '\n' ∉ t := fun hmem => h (List.mem_cons_of_mem _ hmem)
    have hend : lineEnd t = none := by
      unfold lineEnd
      split
      · exact absurd List.mem_cons_self ht
      · exact absurd (List.mem_cons_of_mem _ List.mem_cons_self) ht
      · rfl
    rw [takeLine, if_neg hc, hend, ih ht]
    rfl

theorem lineEnd_line {line : Text} (h : '\n' ∉ line) (hne : line ≠ []) (hcr : line ≠ ['\r']) (t : Text) :
    lineEnd (line ++ '\n' :: t) = none := by
  match line, h, hne, hcr with
  | c :: [], h, _, hcr =>
    have hc : c ≠ '\r' := fun heq => hcr (by rw [heq])
    have hn : c ≠ '\n' := fun heq => h (by rw [heq]; exact List.mem_cons_self)
    show lineEnd (c :: '\n' :: t) = none
    unfold lineEnd
    split
    · exact absurd (by injection ‹_ = _›) hn
    · exact absurd (by injection ‹_ = _›) hc
    · rfl
  | c :: d :: line, h, _, _ =>
    have hc : c ≠ '\n' := fun heq => h (by rw [heq]; exact List.mem_cons_self)
    have hd : d ≠ '\n' := fun heq => h (by rw [heq]; exact List.mem_cons_of_mem _ List.mem_cons_self)
    show lineEnd (c :: d :: (line ++ '\n' :: t)) = none
    simp [lineEnd, hc, hd]

theorem takeLine_line {line : Text} (h : '\n' ∉ line) (hne : line ≠ []) (t : Text) :
    takeLine (line ++ '\n' :: t) = some (matched line, t) := by
  induction line with
  | nil => exact absurd rfl hne
  | cons c line ih =>
    have hc : c ≠ '\n' := fun heq => h (heq ▸ List.mem_cons_self)
    have hline : '\n' ∉ line := fun hmem => h (List.mem_cons_of_mem _ hmem)
    rw [List.cons_append, takeLine, if_neg hc]
    by_cases hnil : line = []
    · subst hnil
      show some ([c], t) = some (matched [c], t)
      rw [matched_singleton]
    by_cases hcr : line = ['\r']
    · subst hcr
      show some ([c], t) = some (matched [c, '\r'], t)
      rw [matched, if_neg (by simp)]
      rfl
    have hend : lineEnd (line ++ '\n' :: t) = none := lineEnd_line hline hnil hcr t
    rw [hend, ih hline hnil, matched_cons hnil hcr]
    rfl

/-- What a read does with the lines that it completes: those it hands on, those it leaves in the buffer, and
whether the process exits. -/
structure Handled where
  handed : List Text
  left : List Text
  exited : Bool

namespace Reader

variable (R : Reader)

theorem react_matched (line : Text) : R.react (matched line) = R.react (chomp line) := by
  by_cases h : chomp line = []
  · have hmatched : chomp (matched line) = [] := by
      rcases chomp_eq_nil_iff.mp h with rfl | rfl <;> rfl
    rw [R.blank _ hmatched, h, R.blank [] rfl]
  · rw [matched_eq_chomp h]

/-- One read over its lines: an empty line stays in front of the rest. -/
def handle : List Text → Handled
  | [] => ⟨[], [], false⟩
  | [] :: raws => ⟨[], [] :: raws, false⟩
  | (c :: raw) :: raws =>
    match R.react (chomp (c :: raw)) with
    | .next => ⟨matched (c :: raw) :: (handle raws).handed, (handle raws).left, (handle raws).exited⟩
    | .leave => ⟨[matched (c :: raw)], raws, false⟩
    | .exit => ⟨[matched (c :: raw)], raws, true⟩

theorem drain_eq {fuel : ℕ} {st : ReaderState} (hfuel : st.buf.length ≤ fuel) (hlive : st.exited = false) :
    R.drain fuel st =
      ⟨st.handed ++ (R.handle (cutLines st.buf).1).handed,
        joinLines (R.handle (cutLines st.buf).1).left ++ (cutLines st.buf).2,
        (R.handle (cutLines st.buf).1).exited⟩ := by
  obtain ⟨handed, buf, exited⟩ := st
  simp only at hfuel hlive ⊢
  subst hlive
  induction buf using line_induction generalizing fuel handed with
  | rest t h =>
    rw [cutLines_of_not_mem h]
    show _ = (⟨handed ++ [], t, false⟩ : ReaderState)
    rw [List.append_nil]
    cases fuel with
    | zero => rfl
    | succ fuel => simp only [drain, takeLine_of_not_mem h]
  | line line t h ih =>
    rw [cutLines_line h]
    have hlen : line.length + (t.length + 1) ≤ fuel := by
      rw [List.length_append, List.length_cons] at hfuel
      exact hfuel
    match line, h, fuel, hlen with
    | [], h, fuel + 1, _ =>
      show (⟨handed, '\n' :: t, false⟩ : ReaderState) =
        ⟨handed ++ [], joinLines ([] :: (cutLines t).1) ++ (cutLines t).2, false⟩
      rw [List.append_nil]
      have hjoin : joinLines ([] :: (cutLines t).1) ++ (cutLines t).2 =
          '\n' :: (joinLines (cutLines t).1 ++ (cutLines t).2) := rfl
      rw [hjoin, joinLines_cutLines]
    | c :: line, h, fuel + 1, hlen =>
      rw [List.length_cons] at hlen
      simp only [drain, takeLine_line h (List.cons_ne_nil _ _), R.react_matched, handle]
      cases R.react (chomp (c :: line)) with
      | next =>
        have hrest : t.length ≤ fuel := by omega
        simp only
        rw [ih _ hrest, List.append_assoc]
        rfl
      | leave =>
        simp only
        rw [joinLines_cutLines]
      | exit =>
        simp only
        rw [joinLines_cutLines]

theorem read_eq {st : ReaderState} (chunk : Text) (hlive : st.exited = false) :
    R.read st chunk =
      ⟨st.handed ++ (R.handle (cutLines (st.buf ++ chunk)).1).handed,
        joinLines (R.handle (cutLines (st.buf ++ chunk)).1).left ++ (cutLines (st.buf ++ chunk)).2,
        (R.handle (cutLines (st.buf ++ chunk)).1).exited⟩ := by
  rw [read, if_neg (by simp [hlive])]
  exact R.drain_eq le_rfl hlive

theorem read_of_exited {st : ReaderState} (chunk : Text) (h : st.exited = true) : R.read st chunk = st :=
  if_pos h

theorem reads_append (chunks : List Text) (chunk : Text) :
    R.reads (chunks ++ [chunk]) = R.read (R.reads chunks) chunk := by
  rw [reads, List.foldl_append]
  rfl

/-! ### What they ought to hand on -/

/-- The lines up to the one that the process exits on. -/
def upToExit : List Text → List Text
  | [] => []
  | line :: lines => if R.react line = .exit then [line] else line :: upToExit lines

theorem upToExit_append_of_exit {s : List Text} (h : ∃ line ∈ s, R.react line = .exit) (t : List Text) :
    R.upToExit (s ++ t) = R.upToExit s := by
  induction s with
  | nil =>
    obtain ⟨line, hmem, _⟩ := h
    exact absurd hmem List.not_mem_nil
  | cons line s ih =>
    rw [List.cons_append, upToExit, upToExit]
    split_ifs with hexit
    · rfl
    · obtain ⟨line', hmem, hexit'⟩ := h
      rcases List.mem_cons.mp hmem with rfl | hmem
      · exact absurd hexit' hexit
      · rw [ih ⟨line', hmem, hexit'⟩]

theorem upToExit_append {s : List Text} (h : ∀ line ∈ s, R.react line ≠ .exit) (t : List Text) :
    R.upToExit (s ++ t) = s ++ R.upToExit t := by
  induction s with
  | nil => rfl
  | cons line s ih =>
    rw [List.cons_append, upToExit, if_neg (h line List.mem_cons_self),
      ih fun line' hmem => h line' (List.mem_cons_of_mem _ hmem), List.cons_append]

theorem upToExit_eq_self {s : List Text} (h : ∀ line ∈ s, R.react line ≠ .exit) : R.upToExit s = s := by
  have happend := R.upToExit_append h []
  rwa [List.append_nil, upToExit, List.append_nil] at happend

end Reader

/-- The lines of a stream, without the newlines and the CR in front of them. -/
def streamLines (t : Text) : List Text := (cutLines t).1.map chomp

theorem streamLines_append (s t : Text) :
    streamLines (s ++ t) = streamLines s ++ streamLines ((cutLines s).2 ++ t) := by
  rw [streamLines, cutLines_append, List.map_append]
  rfl

theorem rest_append (s t : Text) : (cutLines (s ++ t)).2 = (cutLines ((cutLines s).2 ++ t)).2 := by
  rw [cutLines_append]

/-- After these reads the lines of the stream have been handed on in order, except that blank lines may be
missing; and the buffer of a process that lives holds what follows the last newline. -/
structure Framed (R : Reader) (chunks : List Text) : Prop where
  handed : (R.reads chunks).handed.Sublist (R.upToExit (streamLines chunks.flatten))
  complete : (R.reads chunks).handed.filter (· ≠ []) =
    (R.upToExit (streamLines chunks.flatten)).filter (· ≠ [])
  buf : (R.reads chunks).exited = false → (R.reads chunks).buf = (cutLines chunks.flatten).2

/-- Lines that the reader gets through: none is blank, and it returns on none but the last. -/
def Clean (R : Reader) (lines : List Text) : Prop :=
  (∀ line ∈ R.upToExit lines, line ≠ []) ∧
    ∀ line ∈ (R.upToExit lines).dropLast, R.react line ≠ .leave

section Clean

variable {R : Reader} {line : Text} {lines raws : List Text}

theorem clean_nil : Clean R [] := ⟨fun _ h => absurd h List.not_mem_nil, fun _ h => absurd h List.not_mem_nil⟩

theorem clean_cons_of_exit (h : R.react line = .exit) : Clean R (line :: lines) ↔ line ≠ [] := by
  rw [Clean, Reader.upToExit, if_pos h]
  simp

theorem upToExit_ne_nil (h : lines ≠ []) : R.upToExit lines ≠ [] := by
  cases lines with
  | nil => exact absurd rfl h
  | cons line lines =>
    rw [Reader.upToExit]
    split_ifs <;> exact List.cons_ne_nil _ _

theorem clean_cons_of_ne (h : R.react line ≠ .exit) :
    Clean R (line :: lines) ↔ line ≠ [] ∧ (R.react line = .leave → lines = []) ∧ Clean R lines := by
  rw [Clean, Reader.upToExit, if_neg h]
  by_cases hnil : lines = []
  · subst hnil
    simp [clean_nil, Reader.upToExit]
  · rw [List.dropLast_cons_of_ne_nil (upToExit_ne_nil hnil), List.forall_mem_cons, List.forall_mem_cons, Clean]
    constructor
    · rintro ⟨⟨hline, hlines⟩, hleave, hleaves⟩
      exact ⟨hline, fun hl => absurd hl hleave, hlines, hleaves⟩
    · rintro ⟨hline, hleave, hlines, hleaves⟩
      exact ⟨⟨hline, hlines⟩, fun hl => hnil (hleave hl), hleaves⟩

theorem handle_of_clean (h : Clean R (raws.map chomp)) :
    (R.handle raws).handed = R.upToExit (raws.map chomp) ∧
      ((R.handle raws).exited = false → (R.handle raws).left = []) ∧
      ((R.handle raws).exited = true ↔ ∃ line ∈ raws.map chomp, R.react line = .exit) := by
  induction raws with
  | nil => exact ⟨rfl, fun _ => rfl, by simp [Reader.handle]⟩
  | cons raw raws ih =>
    rw [List.map_cons] at h ⊢
    have hchomp : chomp raw ≠ [] := h.1 _ (by rw [Reader.upToExit]; split_ifs <;> exact List.mem_cons_self)
    match raw, hchomp, h with
    | [], hchomp, _ => exact absurd rfl hchomp
    | c :: raw, hchomp, h =>
      rw [Reader.upToExit, ← matched_eq_chomp hchomp, R.react_matched]
      cases hreact : R.react (chomp (c :: raw)) with
      | next =>
        have hne : R.react (chomp (c :: raw)) ≠ .exit := by rw [hreact]; decide
        obtain ⟨hhanded, hleft, hexited⟩ := ih ((clean_cons_of_ne hne).mp h).2.2
        simp only [Reader.handle, hreact, List.mem_cons, exists_eq_or_imp, R.react_matched]
        exact ⟨by rw [hhanded]; rfl, hleft, by simpa using hexited⟩
      | leave =>
        have hne : R.react (chomp (c :: raw)) ≠ .exit := by rw [hreact]; decide
        have hlast : raws.map chomp = [] := ((clean_cons_of_ne hne).mp h).2.1 hreact
        simp only [Reader.handle, hreact, hlast, List.mem_cons, exists_eq_or_imp, R.react_matched]
        exact ⟨rfl, fun _ => List.map_eq_nil_iff.mp hlast, by simp⟩
      | exit =>
        simp only [Reader.handle, hreact, List.mem_cons, exists_eq_or_imp, R.react_matched]
        exact ⟨rfl, by simp, by simp⟩

theorem length_le_handed (hleft : (R.handle raws).exited = false → (R.handle raws).left = []) :
    ((R.upToExit (raws.map chomp)).filter (· ≠ [])).length ≤ (R.handle raws).handed.length := by
  induction raws with
  | nil => exact le_rfl
  | cons raw raws ih =>
    match raw, hleft with
    | [], hleft => exact absurd (hleft rfl) (List.cons_ne_nil _ _)
    | c :: raw, hleft =>
      rw [List.map_cons, Reader.upToExit]
      cases hreact : R.react (chomp (c :: raw)) with
      | next =>
        simp only [Reader.handle, hreact] at hleft ⊢
        have hrest := ih hleft
        rw [if_neg (by decide), List.filter_cons, List.length_cons]
        split_ifs
        · rw [List.length_cons]
          omega
        · omega
      | leave =>
        simp only [Reader.handle, hreact] at hleft ⊢
        rw [hleft trivial]
        exact List.length_filter_le _ _
      | exit =>
        simp only [Reader.handle, hreact, if_true]
        exact List.length_filter_le _ _

/-- The lines of a read that hands on the lines of its stream are clean. -/
theorem clean_of_handle
    (hhanded : (R.handle raws).handed = (R.upToExit (raws.map chomp)).filter (· ≠ []))
    (hleft : (R.handle raws).exited = false → (R.handle raws).left = []) : Clean R (raws.map chomp) := by
  induction raws with
  | nil => exact clean_nil
  | cons raw raws ih =>
    rw [List.map_cons] at hhanded ⊢
    match raw, hhanded, hleft with
    | [], _, hleft => exact absurd (hleft rfl) (List.cons_ne_nil _ _)
    | c :: raw, hhanded, hleft =>
      rw [Reader.upToExit] at hhanded
      have hblank : chomp (c :: raw) = [] → R.react (chomp (c :: raw)) = .next := fun h => by
        rw [h]
        exact R.blank [] rfl
      cases hreact : R.react (chomp (c :: raw)) with
      | next =>
        have hne : R.react (chomp (c :: raw)) ≠ .exit := by rw [hreact]; decide
        simp only [Reader.handle, hreact] at hhanded hleft
        rw [if_neg (by decide), List.filter_cons] at hhanded
        have hchomp : chomp (c :: raw) ≠ [] := by
          intro hnil
          -- a CR was handed on for the blank line, and the others do not make up for it
          have hle := length_le_handed hleft
          have hlen := congrArg List.length hhanded
          rw [if_neg (by simp [hnil]), List.length_cons] at hlen
          omega
        rw [if_pos (by simpa using hchomp)] at hhanded
        refine (clean_cons_of_ne hne).mpr ⟨hchomp, fun hl => ?_, ih (List.cons.inj hhanded).2 hleft⟩
        rw [hreact] at hl
        exact absurd hl (by decide)
      | leave =>
        have hne : R.react (chomp (c :: raw)) ≠ .exit := by rw [hreact]; decide
        simp only [Reader.handle, hreact] at hleft
        rw [hleft trivial]
        refine (clean_cons_of_ne hne).mpr ⟨fun hnil => ?_, fun _ => rfl, clean_nil⟩
        rw [hblank hnil] at hreact
        exact absurd hreact (by decide)
      | exit =>
        refine (clean_cons_of_exit hreact).mpr fun hnil => ?_
        rw [hblank hnil] at hreact
        exact absurd hreact (by decide)

end Clean

/-- What holds of a reader that has got through all its lines so far. -/
structure Whole (R : Reader) (chunks : List Text) : Prop where
  handed : (R.reads chunks).handed = R.upToExit (streamLines chunks.flatten)
  buf : (R.reads chunks).exited = false → (R.reads chunks).buf = (cutLines chunks.flatten).2
  exited : (R.reads chunks).exited = true ↔ ∃ line ∈ streamLines chunks.flatten, R.react line = .exit

theorem Whole.framed {R : Reader} {chunks : List Text} (h : Whole R chunks) : Framed R chunks :=
  ⟨by rw [h.handed], by rw [h.handed], h.buf⟩

section Framed

variable {R : Reader} {chunks : List Text}

theorem flatten_snoc (chunks : List Text) (chunk : Text) :
    (chunks ++ [chunk]).flatten = chunks.flatten ++ chunk := by
  rw [List.flatten_append, List.flatten_singleton]

theorem Whole.snoc (h : Whole R chunks) (chunk : Text)
    (hclean : (∀ line ∈ streamLines chunks.flatten, R.react line ≠ .exit) →
      Clean R (streamLines ((cutLines chunks.flatten).2 ++ chunk))) : Whole R (chunks ++ [chunk]) := by
  by_cases hexit : ∃ line ∈ streamLines chunks.flatten, R.react line = .exit
  · have hdead := h.exited.mpr hexit
    have hread : R.reads (chunks ++ [chunk]) = R.reads chunks := by
      rw [R.reads_append, R.read_of_exited _ hdead]
    refine ⟨?_, fun hlive => ?_, ?_⟩
    · rw [hread, flatten_snoc, streamLines_append, R.upToExit_append_of_exit hexit]
      exact h.handed
    · rw [hread, hdead] at hlive
      exact absurd hlive (by decide)
    · rw [hread, flatten_snoc, streamLines_append]
      obtain ⟨line, hmem, hline⟩ := hexit
      exact iff_of_true hdead ⟨line, List.mem_append_left _ hmem, hline⟩
  · have hnone : ∀ line ∈ streamLines chunks.flatten, R.react line ≠ .exit :=
      fun line hmem heq => hexit ⟨line, hmem, heq⟩
    have hlive : (R.reads chunks).exited = false := by
      rw [Bool.eq_false_iff]
      exact fun hdead => hexit (h.exited.mp hdead)
    have hbuf := h.buf hlive
    obtain ⟨hhanded, hleft, hexited⟩ := handle_of_clean (hclean hnone)
    rw [← hbuf] at hhanded hleft hexited
    refine ⟨?_, fun hlive' => ?_, ?_⟩
    · rw [R.reads_append, R.read_eq chunk hlive, flatten_snoc, streamLines_append, R.upToExit_append hnone, ← hbuf]
      show _ ++ _ = _
      rw [hhanded, h.handed, R.upToExit_eq_self hnone]
      rfl
    · rw [R.reads_append, R.read_eq chunk hlive] at hlive' ⊢
      show joinLines _ ++ _ = _
      rw [hleft hlive', flatten_snoc, rest_append chunks.flatten, ← hbuf]
      rfl
    · rw [R.reads_append, R.read_eq chunk hlive, flatten_snoc, streamLines_append, ← hbuf]
      show _ = true ↔ _
      rw [hexited]
      constructor
      · rintro ⟨line, hmem, hline⟩
        exact ⟨line, List.mem_append_right _ hmem, hline⟩
      · rintro ⟨line, hmem, hline⟩
        rcases List.mem_append.mp hmem with hold | hnew
        · exact absurd hline (hnone line hold)
        · exact ⟨line, hnew, hline⟩

theorem handle_exited (raws : List Text) (h : (R.handle raws).exited = true) :
    ∃ line ∈ (R.handle raws).handed, R.react line = .exit := by
  induction raws with
  | nil => exact absurd h (by simp [Reader.handle])
  | cons raw raws ih =>
    match raw with
    | [] => exact absurd h (by simp [Reader.handle])
    | c :: raw =>
      cases hreact : R.react (chomp (c :: raw)) with
      | next =>
        simp only [Reader.handle, hreact] at h ⊢
        obtain ⟨line, hmem, hline⟩ := ih h
        exact ⟨line, List.mem_cons_of_mem _ hmem, hline⟩
      | leave =>
        simp only [Reader.handle, hreact] at h
        exact absurd h (by decide)
      | exit =>
        simp only [Reader.handle, hreact]
        exact ⟨_, List.mem_cons_self, by rw [R.react_matched, hreact]⟩

theorem reads_exited (chunks : List Text) (h : (R.reads chunks).exited = true) :
    ∃ line ∈ (R.reads chunks).handed, R.react line = .exit := by
  induction chunks using List.reverseRecOn with
  | nil => exact absurd h (by simp [Reader.reads])
  | append_singleton chunks chunk ih =>
    rw [R.reads_append] at h ⊢
    by_cases hdead : (R.reads chunks).exited = true
    · rw [R.read_of_exited _ hdead]
      exact ih hdead
    · rw [R.read_eq chunk (by simpa using hdead)] at h ⊢
      obtain ⟨line, hmem, hline⟩ := handle_exited _ h
      exact ⟨line, List.mem_append_right _ hmem, hline⟩

theorem handle_ne_nil (raws : List Text) : ∀ line ∈ (R.handle raws).handed, line ≠ [] := by
  induction raws with
  | nil => exact fun _ h => absurd h List.not_mem_nil
  | cons raw raws ih =>
    match raw with
    | [] => exact fun _ h => absurd h List.not_mem_nil
    | c :: raw =>
      have hfirst : matched (c :: raw) ≠ [] := matched_ne_nil (List.cons_ne_nil _ _)
      rw [Reader.handle]
      cases R.react (chomp (c :: raw)) with
      | next => exact List.forall_mem_cons.mpr ⟨hfirst, ih⟩
      | leave => exact List.forall_mem_singleton.mpr hfirst
      | exit => exact List.forall_mem_singleton.mpr hfirst

theorem Framed.clean {chunk : Text} (h : Framed R chunks) (h' : Framed R (chunks ++ [chunk]))
    (hnone : ∀ line ∈ streamLines chunks.flatten, R.react line ≠ .exit) :
    Clean R (streamLines ((cutLines chunks.flatten).2 ++ chunk)) := by
  have hlines := R.upToExit_eq_self hnone
  have hlive : (R.reads chunks).exited = false := by
    rw [Bool.eq_false_iff]
    intro hdead
    obtain ⟨line, hmem, hline⟩ := reads_exited chunks hdead
    exact hnone line (hlines ▸ h.handed.subset hmem) hline
  have hcomplete := h'.complete
  have hbuf := h'.buf
  rw [R.reads_append, R.read_eq chunk hlive, h.buf hlive, flatten_snoc] at hcomplete hbuf
  rw [streamLines_append, R.upToExit_append hnone, List.filter_append, List.filter_append, h.complete, hlines,
    List.append_cancel_left_eq] at hcomplete
  rw [rest_append chunks.flatten] at hbuf
  refine clean_of_handle ?_ fun hexited => ?_
  · rwa [List.filter_eq_self.mpr fun line hmem => decide_eq_true (handle_ne_nil _ line hmem)] at hcomplete
  · have hkept : joinLines (R.handle (cutLines ((cutLines chunks.flatten).2 ++ chunk)).1).left ++
        (cutLines ((cutLines chunks.flatten).2 ++ chunk)).2 = _ := hbuf hexited
    have hjoin := List.append_left_eq_self.mp hkept
    cases hleft : (R.handle (cutLines ((cutLines chunks.flatten).2 ++ chunk)).1).left with
    | nil => rfl
    | cons line left =>
      rw [hleft, joinLines, List.flatMap_cons] at hjoin
      simp at hjoin

end Framed

/-- A line reader hands on the lines of its stream, and keeps nothing but what follows the last newline,
after every read, exactly if no read completes a blank line, or a line that the handler returns on with
another one behind it, while the process lives. -/
theorem framed_iff (R : Reader) (chunks : List Text) :
    (∀ reads, reads <+: chunks → Framed R reads) ↔
      ∀ reads chunk, reads ++ [chunk] <+: chunks →
        (∀ line ∈ streamLines reads.flatten, R.react line ≠ .exit) →
        Clean R (streamLines ((cutLines reads.flatten).2 ++ chunk)) := by
  constructor
  · intro h reads chunk hprefix hnone
    exact (h reads ((List.prefix_append _ _).trans hprefix)).clean (h _ hprefix) hnone
  · intro h
    have hwhole : ∀ reads, reads <+: chunks → Whole R reads := by
      intro reads
      induction reads using List.reverseRecOn with
      | nil => exact fun _ => ⟨rfl, fun _ => rfl, by simp [Reader.reads, streamLines, cutLines]⟩
      | append_singleton reads chunk ih =>
        intro hprefix
        exact (ih ((List.prefix_append _ _).trans hprefix)).snoc chunk (h reads chunk hprefix)
    exact fun reads hprefix => (hwhole reads hprefix).framed

/-- A newline in front of all other lines makes the query worker keep everything that it reads, and a uri
with `..` holds back the command behind it. -/
theorem leadingNewline_wedges :
    ¬ Framed (queryWorker (fun _ => false) fun _ _ => rfl) ["\nstats\r\n".toList, "version\r\n".toList] ∧
      ¬ Framed (sideChannelClient (fun _ => false) fun _ _ => rfl) ["size /dev1/..\r\nruok\r\n".toList] :=
  ⟨fun h => absurd (h.buf (by decide)) (by decide), fun h => absurd (h.buf (by decide)) (by decide)⟩

end Ylem
