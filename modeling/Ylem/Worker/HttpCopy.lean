import Ylem.DevFid
import Ylem.Lib.Bytes
import Ylem.Lib.Split
import Ylem.Worker.Replicate

/-!
# http_copy

The copy of a replica from one storage node to another. The source answers a `GET` with the length of the file
and its contents; they are read a megabyte at a time, and every block is a `PUT` of its own with a
`Content-Range`. The network is in `CopyWorld`: what the source sends, how much of it each `read` returns, what
comes of each `PUT`, and the response of the destination, which goes by the requests it has had.

Most failures set the error code that `replicate` looks at. Those on the way to the sockets do not, and neither
does a pipe that is closed while the file is asked for (`classified_httpCopy_iff`).
-/

namespace Ylem

/-! ### Lines of a response -/

/-- `m!^HTTP/\d+\.\d+\s+(\d+)!`: the digits of the status. -/
def httpStatus (line : Text) : Option Text :=
  if "HTTP/".toList.isPrefixOf line then
    let (major, rest) := (line.drop 5).span Char.isDigit
    match rest with
    | '.' :: rest =>
      let (minor, rest) := rest.span Char.isDigit
      let (space, rest) := rest.span Text.isBlank
      let status := rest.takeWhile Char.isDigit
      if major = [] ∨ minor = [] ∨ space = [] ∨ status = [] then none else some status
    | _ => none
  else none

/-- `/^Content-length:\s*(\d+)\s*$/i`, for a line without white space at its end. -/
def contentLength (line : Text) : Option Text :=
  if (line.take 15).map Char.toLower = "content-length:".toList then
    let digits := (line.drop 15).dropWhile Text.isBlank
    if digits = [] ∨ digits.any (fun c => !c.isDigit) then none else some digits
  else none

/-- `$1 >= 200 && $1 <= 299`. -/
def okStatus (status : Text) : Bool := decide (200 ≤ Text.ofDigits status ∧ Text.ofDigits status ≤ 299)

/-- The head of a response: its content length, or the status of an error. -/
def readHead : List Text → Option Text → Except Text (Option Text)
  | [], clen => .ok clen
  | line :: lines, clen =>
    let line := line.rdropWhile Text.isBlank
    if line = [] then .ok clen
    else match (httpStatus line).filter fun status => !okStatus status with
      | some status => .error status
      | none => readHead lines ((contentLength line).or clen)

/-! ### The copy -/

/-- An address and a port. -/
structure Peer where
  ip : Text
  port : ℕ

def Peer.text (p : Peer) : Text := p.ip ++ ':' :: Text.decimal p.port

def Peer.url (p : Peer) (path : Text) : Text := "http://".toList ++ p.text ++ path

/-- How a call of `http_copy` ends: a failure has its code and what was logged. -/
inductive CopyResult where
  | copied
  | failed (errcode : Option CopyErr) (errmsgs : List Text)
  | died (error : String)
  deriving DecidableEq

namespace CopyResult

/-- What `replicate` sees of it. -/
def outcome : CopyResult → CopyOutcome
  | copied => .copied
  | failed (some .srcError) _ => .srcError
  | failed (some .destError) _ => .destError
  | failed none _ => .uncoded
  | died _ => .died

/-- A failure that has set the error code. -/
def Classified : CopyResult → Prop
  | copied => True
  | failed errcode _ => errcode.isSome
  | died _ => False

def srcError (errmsg : Text) : CopyResult := failed (some .srcError) [errmsg]

def destError (errmsg : Text) : CopyResult := failed (some .destError) [errmsg]

/-- The file is also marked as unreachable. -/
def errorUnreachable (fid : ℕ) (errmsg : Text) : CopyResult :=
  srcError ("Fid ".toList ++ Text.decimal fid ++ " unreachable while replicating: ".toList ++ errmsg)

end CopyResult

/-- `WEBDAV_BLOCK_SIZE`. -/
def webdavBlockSize : ℕ := 1024 * 1024

structure PutRequest where
  path : Text
  contentRange : Text
  body : Bytes
  deriving DecidableEq

/-- `bytes $soff-$eoff/$clen`. -/
def contentRange (soff eoff : ℕ) (clen : Text) : Text :=
  "bytes ".toList ++ (Text.decimal soff ++ '-' :: (Text.decimal eoff ++ '/' :: clen))

/-- What a turn of the loop meets: how much is there to be read, and what comes of its `PUT`. -/
structure Turn where
  ready : ℕ
  connects : Bool
  headWritten : Bool
  pipeClosed : Bool
  sent : Option ℕ
  pipeClosedLater : Bool

/-- What a call of `http_copy` meets. A turn that is not in the list is one whose `read` returns nothing. -/
structure CopyWorld where
  connects : Bool
  pipeClosed : Bool
  head : List Text
  body : Bytes
  turns : List Turn
  readErr : Text
  respond : List PutRequest → PutRequest → Option Text

/-- The loop, with the requests it has sent. -/
def putBlocks (w : CopyWorld) (dest : Peer) (dpath clen : Text) :
    List Turn → List PutRequest → ℕ → ℕ → ℕ → Bytes → CopyResult × List PutRequest
  | [], reqs, _, _, _, _ => (.srcError ("error reading midway through source: ".toList ++ w.readErr), reqs)
  | turn :: turns, reqs, written, remain, bytesToRead, rest =>
    let data := rest.take (min turn.ready bytesToRead)
    let bytes := data.length
    let req := ⟨dpath, contentRange written (written + bytes - 1) clen, data⟩
    if data = [] then (.srcError ("error reading midway through source: ".toList ++ w.readErr), reqs)
    else if !turn.connects then
      (.destError ("Unable to create dest socket to ".toList ++ dest.text ++ " for ".toList ++ dpath), reqs)
    else if !turn.headWritten then
      (.destError ("Unable to write data to ".toList ++ dpath ++ " on ".toList ++ dest.text), reqs)
    else if turn.pipeClosed then
      (.destError ("Pipe closed during write to ".toList ++ dpath ++ " on ".toList ++ dest.text), reqs)
    else if turn.sent ≠ some bytes then
      (.destError ("Error: wrote ".toList ++ (turn.sent.elim [] Text.decimal) ++ "; expected to write ".toList ++
        Text.decimal bytes ++ "; failed putting to ".toList ++ dpath), reqs)
    else
      match w.respond reqs req with
      | none => (.destError ("Error: HTTP response line not recognized writing to ".toList ++ dest.url dpath ++
          ": ".toList), reqs ++ [req])
      | some line =>
        match httpStatus line with
        | none => (.destError ("Error: HTTP response line not recognized writing to ".toList ++ dest.url dpath ++
            ": ".toList ++ line), reqs ++ [req])
        | some status =>
          if !okStatus status then
            (.destError ("Got HTTP status code ".toList ++ status ++ " PUTing to ".toList ++ dest.url dpath),
              reqs ++ [req])
          else if turn.pipeClosedLater then
            (.destError "closed pipe writing to destination".toList, reqs ++ [req])
          else if min (remain - bytes) bytesToRead = 0 then (.copied, reqs ++ [req])
          else putBlocks w dest dpath clen turns (reqs ++ [req]) (written + bytes) (remain - bytes)
            (min (remain - bytes) bytesToRead) (rest.drop bytes)

/-- From the connection to the source on. -/
def transfer (fid : ℕ) (expectedClen : Option ℕ) (source dest : Peer) (spath dpath : Text) (w : CopyWorld) :
    CopyResult × List PutRequest :=
  if !w.connects then
    (.srcError ("Unable to create source socket to ".toList ++ source.text ++ " for ".toList ++ spath), [])
  else if w.pipeClosed then
    (.failed none ["Pipe closed retrieving ".toList ++ spath ++ " from ".toList ++ source.text], [])
  else
    match readHead w.head none with
    | .error status =>
      (.errorUnreachable fid ("Error: Resource ".toList ++ source.url spath ++ " failed: HTTP ".toList ++ status), [])
    | .ok clen =>
      match clen.filter fun clen => Text.truthy (some clen) with
      | none => (.errorUnreachable fid ("File ".toList ++ spath ++
          " has a content-length of 0; unable to replicate".toList), [])
      | some clen =>
        if expectedClen.any fun expected => expected != Text.ofDigits clen then
          (.errorUnreachable fid ("File ".toList ++ spath ++ " has unexpected content-length of ".toList ++ clen ++
            ", not ".toList ++ (expectedClen.elim [] Text.decimal)), [])
        else
          putBlocks w dest dpath clen w.turns [] 0 (Text.ofDigits clen) (min (Text.ofDigits clen) webdavBlockSize)
            w.body

/-- The settings that `http_copy` reads. -/
structure CopyConfig where
  volumeId : Option Text
  replUseGetPort : Bool

/-- `MogileFS::Host::http_get_port`. -/
def Host.getPort (h : Host) : Option ℕ := (h.httpGetPort.filter fun port => port != 0).or h.httpPort

/-- The port of a source. -/
def CopyConfig.sport (cfg : CopyConfig) (h : Host) : Option ℕ := if cfg.replUseGetPort then h.getPort else h.httpPort

/-- Where a connection goes, if the address and the port are configured. -/
def endpoint (ip : Option Text) (port : Option ℕ) : Option Peer :=
  match ip, port.filter fun port => port != 0 with
  | some ip, some port => some ⟨ip, port⟩
  | _, _ => none

def httpCopy (cfg : CopyConfig) (devs : DeviceMap) (sdevid ddevid fid : ℕ) (expectedClen : Option ℕ)
    (w : CopyWorld) : CopyResult × List PutRequest :=
  if sdevid = 0 ∨ ddevid = 0 then (.died "Invalid devid", [])
  else
    match devs.ofDevid sdevid, devs.ofDevid ddevid with
    | some sdev, some ddev =>
      match cfg.volumeId with
      | none => (.died "No volume id set for this tracker", [])
      | some volid =>
        let spath := uriPath volid (Text.decimal sdevid) fid
        let dpath := uriPath volid (Text.decimal ddevid) fid
        match sdev.host, ddev.host with
        | some shost, some dhost =>
          -- outside of a request the address is that of the host
          match endpoint shost.hostip (cfg.sport shost), endpoint dhost.hostip dhost.httpPort with
          | some source, some dest => transfer fid expectedClen source dest spath dpath w
          | _, _ => (.failed none
            ["Error: unable to replicate file fid=".toList ++ Text.decimal fid ++ " from device id ".toList ++
                Text.decimal sdevid ++ " to device id ".toList ++ Text.decimal ddevid,
              "       http://".toList ++ shost.hostip.getD [] ++ ':' :: (cfg.sport shost).elim [] Text.decimal ++
                spath ++ " -> http://".toList ++ dhost.hostip.getD [] ++ ':' ::
                dhost.httpPort.elim [] Text.decimal ++ dpath], [])
        | _, _ => (.died "Host doesn't exist", [])
    | _, _ => (.failed none ["Error: unable to get device information: source=".toList ++ Text.decimal sdevid ++
        ", destination=".toList ++ Text.decimal ddevid ++ ", fid=".toList ++ Text.decimal fid], [])

/-! ### Which failures have a code -/

/-- Both devices are known, on hosts with an address and a port, and the tracker has a volume. -/
structure Configured (cfg : CopyConfig) (devs : DeviceMap) (sdevid ddevid : ℕ) : Prop where
  source : ∃ sdev, devs.ofDevid sdevid = some sdev ∧ ∃ h ∈ sdev.host, (endpoint h.hostip (cfg.sport h)).isSome
  dest : ∃ ddev, devs.ofDevid ddevid = some ddev ∧ ∃ h ∈ ddev.host, (endpoint h.hostip h.httpPort).isSome
  volume : cfg.volumeId.isSome

section

variable {cfg : CopyConfig} {devs : DeviceMap} {sdevid ddevid fid : ℕ} {expectedClen : Option ℕ} {w : CopyWorld}

theorem ofDevid_zero : devs.ofDevid 0 = none := by
  by_contra hne
  obtain ⟨d, hd⟩ := Option.ne_none_iff_exists'.mp hne
  obtain ⟨hmem, hzero⟩ := DeviceMap.ofDevid_eq_some.mp hd
  have hpos := devs.devid_pos d hmem
  omega

theorem httpCopy_cases (cfg : CopyConfig) (devs : DeviceMap) (sdevid ddevid fid : ℕ) (expectedClen : Option ℕ)
    (w : CopyWorld) :
    (Configured cfg devs sdevid ddevid ∧ ∃ source dest spath dpath,
        httpCopy cfg devs sdevid ddevid fid expectedClen w = transfer fid expectedClen source dest spath dpath w) ∨
      (¬ Configured cfg devs sdevid ddevid ∧ ¬ (httpCopy cfg devs sdevid ddevid fid expectedClen w).1.Classified) := by
  unfold httpCopy
  split_ifs with hzero
  · refine .inr ⟨fun h => ?_, not_false⟩
    obtain ⟨sdev, hsdev, -⟩ := h.source
    obtain ⟨ddev, hddev, -⟩ := h.dest
    rcases hzero with rfl | rfl
    · rw [ofDevid_zero] at hsdev
      cases hsdev
    · rw [ofDevid_zero] at hddev
      cases hddev
  · cases hsdev : devs.ofDevid sdevid with
    | none =>
      refine .inr ⟨fun h => ?_, Bool.false_ne_true⟩
      obtain ⟨sdev, hsdev', -⟩ := h.source
      rw [hsdev] at hsdev'
      cases hsdev'
    | some sdev =>
      cases hddev : devs.ofDevid ddevid with
      | none =>
        refine .inr ⟨fun h => ?_, Bool.false_ne_true⟩
        obtain ⟨ddev, hddev', -⟩ := h.dest
        rw [hddev] at hddev'
        cases hddev'
      | some ddev =>
        dsimp only
        cases hvol : cfg.volumeId with
        | none => exact .inr ⟨fun h => by simpa [hvol] using h.volume, not_false⟩
        | some volid =>
          cases hshost : sdev.host with
          | none =>
            refine .inr ⟨fun h => ?_, not_false⟩
            obtain ⟨sdev', hsdev', host, hhost, -⟩ := h.source
            rw [hsdev, Option.some.injEq] at hsdev'
            rw [← hsdev', hshost] at hhost
            cases hhost
          | some shost =>
            cases hdhost : ddev.host with
            | none =>
              refine .inr ⟨fun h => ?_, not_false⟩
              obtain ⟨ddev', hddev', host, hhost, -⟩ := h.dest
              rw [hddev, Option.some.injEq] at hddev'
              rw [← hddev', hdhost] at hhost
              cases hhost
            | some dhost =>
              dsimp only
              cases hsource : endpoint shost.hostip (cfg.sport shost) with
              | none =>
                refine .inr ⟨fun h => ?_, Bool.false_ne_true⟩
                obtain ⟨sdev', hsdev', host, hhost, hsome⟩ := h.source
                rw [hsdev, Option.some.injEq] at hsdev'
                rw [← hsdev', hshost] at hhost
                cases hhost
                rw [hsource] at hsome
                exact Bool.false_ne_true hsome
              | some source =>
                cases hdest : endpoint dhost.hostip dhost.httpPort with
                | none =>
                  refine .inr ⟨fun h => ?_, Bool.false_ne_true⟩
                  obtain ⟨ddev', hddev', host, hhost, hsome⟩ := h.dest
                  rw [hddev, Option.some.injEq] at hddev'
                  rw [← hddev', hdhost] at hhost
                  cases hhost
                  rw [hdest] at hsome
                  exact Bool.false_ne_true hsome
                | some dest =>
                  refine .inl ⟨⟨⟨sdev, hsdev, shost, hshost, ?_⟩, ⟨ddev, hddev, dhost, hdhost, ?_⟩, ?_⟩,
                    source, dest, _, _, rfl⟩
                  · rw [hsource]; rfl
                  · rw [hdest]; rfl
                  · rw [hvol]; rfl

theorem classified_putBlocks (w : CopyWorld) (dest : Peer) (dpath clen : Text) (turns : List Turn)
    (reqs : List PutRequest) (written remain bytesToRead : ℕ) (rest : Bytes) :
    (putBlocks w dest dpath clen turns reqs written remain bytesToRead rest).1.Classified := by
  induction turns generalizing reqs written remain bytesToRead rest with
  | nil => rfl
  | cons turn turns ih =>
    unfold putBlocks
    extract_lets data bytes req
    split
    · rfl
    split
    · rfl
    split
    · rfl
    split
    · rfl
    split
    · rfl
    split
    · rfl
    split
    · rfl
    split_ifs
    · rfl
    · rfl
    · exact trivial
    · exact ih _ _ _ _ _

theorem classified_transfer_iff (source dest : Peer) (spath dpath : Text) :
    (transfer fid expectedClen source dest spath dpath w).1.Classified ↔ (w.connects = true → w.pipeClosed = false) := by
  unfold transfer
  cases hconnects : w.connects with
  | false => exact iff_of_true rfl fun h => absurd h Bool.false_ne_true
  | true =>
    cases hpipe : w.pipeClosed with
    | true => exact iff_of_false Bool.false_ne_true fun h => absurd (h rfl) (by decide)
    | false =>
      refine iff_of_true ?_ fun _ => rfl
      simp only [Bool.not_true, Bool.false_eq_true, if_false]
      split
      · rfl
      · split
        · rfl
        · split_ifs
          · rfl
          · exact classified_putBlocks _ _ _ _ _ _ _ _ _ _

/-- A failing copy has set the error code, exactly where its devices are configured and the pipe to the source is
not closed while the file is asked for. -/
theorem classified_httpCopy_iff :
    (httpCopy cfg devs sdevid ddevid fid expectedClen w).1.Classified ↔
      Configured cfg devs sdevid ddevid ∧ (w.connects = true → w.pipeClosed = false) := by
  rcases httpCopy_cases cfg devs sdevid ddevid fid expectedClen w with ⟨hconf, source, dest, spath, dpath, heq⟩ | ⟨hconf, hnot⟩
  · rw [heq, classified_transfer_iff]
    exact (and_iff_right hconf).symm
  · exact iff_of_false hnot fun h => hconf h.1

end

end Ylem
