import Latkit.OtlpEndpoint

/-! The sender of the OTLP exporter: one request in flight at a time, driven by the tick, the watermark of the span
ring, the sweep and the socket. What the system calls and clocks answer, and the encoded requests, are inputs. -/

namespace Latkit

inductive OtlpState where
  | idle
  | connect
  | write
  | read
  deriving DecidableEq, Repr

inductive OtlpSignal where
  | metrics
  | traces
  deriving DecidableEq, Repr

/-- A connection as its peer saw it, when it was closed. -/
structure OtlpExchange where
  sig : OtlpSignal
  req : List Byte
  sent : Nat
  status : Int
  deriving DecidableEq, Repr

def otlpTimeoutSec : Nat := 5
def otlpRespSize : Nat := 512

/-- The client; `closed` is kept for the specification only. -/
structure LkOtlp where
  spans : Bool
  resolved : Bool
  fd : Bool := false
  state : OtlpState := .idle
  cur : OtlpSignal := .metrics
  pendingTraces : Bool := false
  deadlineNs : Nat := 0
  req : Option (List Byte) := none
  reqOff : Nat := 0
  statusCode : Int := 0
  resp : List Byte := []
  skipUntilNs : Nat := 0
  exportsOk : OtlpSignal → Nat := fun _ => 0
  exportsErr : OtlpSignal → Nat := fun _ => 0
  ticksSkipped : Nat := 0
  closed : List OtlpExchange := []

inductive Io (α : Type) where
  | got (ret : α)
  | eintr
  | eagain
  | failed

/-- What the calls made while one event is handled answer; a socket with nothing more to say would block. -/
structure ConnIo where
  soError : Bool
  modWrite : Bool
  sends : List (Io Nat)
  modRead : Bool
  recvs : List (Io (List Byte))
  now : Nat

inductive ConnectRc where
  | connected
  | inProgress
  | failed
  deriving DecidableEq

structure Attempt where
  mono : Nat
  request : Option (List Byte)
  resolve : Bool
  socket : Bool
  connect : ConnectRc
  registered : Bool
  io : ConnIo

structure NextTraces where
  queued : Nat
  attempt : Attempt

inductive Flow where
  | waits
  | fails
  | goes
  deriving DecidableEq

def otlpFinish (o : LkOtlp) (reresolve : Bool) : LkOtlp :=
  { o with
    closed := if o.fd then ⟨o.cur, o.req.getD [], o.reqOff, o.statusCode⟩ :: o.closed else o.closed
    fd := false
    req := none
    reqOff := 0
    resp := []
    statusCode := 0
    state := .idle
    resolved := o.resolved && !reresolve }

def bump (n : OtlpSignal → Nat) (sig : OtlpSignal) : OtlpSignal → Nat := fun s => if s = sig then n s + 1 else n s

def LkOtlp.failed (o : LkOtlp) : LkOtlp := { o with exportsErr := bump o.exportsErr o.cur }

def parseStatus (buf : List Byte) : Int :=
  if buf.length < 12 ∨ buf.take 7 ≠ "HTTP/1.".toUTF8.toList then 0
  else
    let sp := buf.findIdx (· == ' '.toUInt8)
    if buf.length ≤ sp + 3 then 0
    else
      let digit (i : Nat) : Int := (buf.getD (sp + i) 0).toInt8.toInt - 48
      digit 1 * 100 + digit 2 * 10 + digit 3

def parseRetryAfter : List Byte → Nat
  | [] => 0
  | b :: rest =>
    if spanEqCi ((b :: rest).take 12) "retry-after:" then
      let v := ((b :: rest).drop 12).dropWhile fun c => c == ' '.toUInt8 || c == '\t'.toUInt8
      (v.takeWhile fun c => '0'.toUInt8 ≤ c && c ≤ '9'.toUInt8).foldl (fun secs c => (secs * 10 + (c.toNat - 48)) % 2 ^ 32) 0
    else parseRetryAfter rest

/-- Up to the call of `otlp_after`. -/
def otlpOnResponseDone (o : LkOtlp) (now : Nat) : LkOtlp :=
  if 200 ≤ o.statusCode ∧ o.statusCode < 300 then { o with exportsOk := bump o.exportsOk o.cur }
  else if o.statusCode = 429 ∨ o.statusCode = 503 then
    let secs := parseRetryAfter o.resp
    { o.failed with skipUntilNs := now + (if secs = 0 then otlpTimeoutSec else secs) * 1000000000 }
  else o.failed

def sendLoop (len off : Nat) : List (Io Nat) → Nat × Flow
  | [] => (off, if off < len then .waits else .goes)
  | out :: outs =>
    if off < len then
      match out with
      | .got n => if 0 < n then sendLoop len (off + min n (len - off)) outs else (off, .fails)
      | .eintr => sendLoop len off outs
      | .eagain => (off, .waits)
      | .failed => (off, .fails)
    else (off, .goes)

def recvLoop (resp : List Byte) (status : Int) : List (Io (List Byte)) → List Byte × Int × Flow
  | [] => (resp, status, if resp.length < otlpRespSize then .waits else .goes)
  | out :: outs =>
    if resp.length < otlpRespSize then
      match out with
      | .got [] => (resp, status, .goes)
      | .got bytes =>
        let resp := resp ++ bytes.take (otlpRespSize - resp.length)
        recvLoop resp (if status = 0 then parseStatus resp else status) outs
      | .eintr => recvLoop resp status outs
      | .eagain => (resp, status, .waits)
      | .failed => (resp, status, .fails)
    else (resp, status, .goes)

def connectStage (io : ConnIo) (o : LkOtlp) : LkOtlp × Flow :=
  if o.state = .connect then
    if io.soError then (o, .fails) else ({ o with state := .write }, if io.modWrite then .goes else .fails)
  else (o, .goes)

def writeStage (io : ConnIo) (o : LkOtlp) : LkOtlp × Flow :=
  if o.state = .write then
    match sendLoop (o.req.getD []).length o.reqOff io.sends with
    | (off, .goes) => ({ o with reqOff := off, state := .read }, if io.modRead then .goes else .fails)
    | (off, flow) => ({ o with reqOff := off }, flow)
  else (o, .goes)

def readStage (io : ConnIo) (o : LkOtlp) : LkOtlp × Flow :=
  if o.state = .read then
    let (resp, status, flow) := recvLoop o.resp o.statusCode io.recvs
    ({ o with resp := resp, statusCode := status }, flow)
  else (o, .waits)

def andThen (k : LkOtlp → LkOtlp × Flow) (r : LkOtlp × Flow) : LkOtlp × Flow := if r.2 = .goes then k r.1 else r

/-- `on_conn` until it returns, or ends the request. -/
def drive (o : LkOtlp) (io : ConnIo) : LkOtlp × Flow := andThen (readStage io) (andThen (writeStage io) (connectStage io o))

def otlpEnd (o : LkOtlp) (now : Nat) : Flow → LkOtlp
  | .waits => o
  | .fails => otlpFinish o.failed true
  | .goes => otlpFinish (otlpOnResponseDone o now) false

/-- `otlp_send` until it returns, or the connection made at once has ended the request. -/
def otlpStart (o : LkOtlp) (sig : OtlpSignal) (a : Attempt) : LkOtlp × Flow :=
  match a.request with
  | none => ({ o with cur := sig }.failed, .waits)
  | some req =>
    if !o.resolved && !a.resolve then ({ o with cur := sig }.failed, .waits)
    else if !a.socket then ({ o with cur := sig, resolved := true }.failed, .waits)
    else if a.connect = .failed then ({ o with cur := sig, resolved := false }.failed, .waits)
    else
      let o := { o with
        cur := sig
        resolved := true
        req := some req
        reqOff := 0
        state := if a.connect = .connected then .write else .connect
        fd := true
        deadlineNs := a.mono + otlpTimeoutSec * 1000000000 }
      if !a.registered then (otlpFinish o.failed true, .waits)
      else if o.state = .write then drive o a.io
      else (o, .waits)

/-- The `otlp_after` of the traces request leaves nothing to send: `pending_traces` has been cleared. -/
def otlpMaybeTraces (o : LkOtlp) (next : NextTraces) : LkOtlp :=
  if o.state ≠ .idle ∨ !o.pendingTraces ∨ !o.spans then o
  else if next.queued = 0 then { o with pendingTraces := false }
  else
    let (o, flow) := otlpStart { o with pendingTraces := false } .traces next.attempt
    otlpEnd o next.attempt.io.now flow

def otlpAfter (r : LkOtlp × Flow) (now : Nat) (next : NextTraces) : LkOtlp :=
  if r.2 = .waits then r.1 else otlpMaybeTraces (otlpEnd r.1 now r.2) next

def onConn (o : LkOtlp) (io : ConnIo) (next : NextTraces) : LkOtlp := otlpAfter (drive o io) io.now next

def otlpSend (o : LkOtlp) (sig : OtlpSignal) (a : Attempt) (next : NextTraces) : LkOtlp :=
  otlpAfter (otlpStart o sig a) a.io.now next

def onTick (o : LkOtlp) (now queued : Nat) (a : Attempt) (next : NextTraces) : LkOtlp :=
  if now < o.skipUntilNs then o
  else
    let o := { o with pendingTraces := o.pendingTraces || (o.spans && 0 < queued) }
    if o.state ≠ .idle then { o with ticksSkipped := o.ticksSkipped + 1 } else otlpSend o .metrics a next

def otlpOnWatermark (o : LkOtlp) (next : NextTraces) : LkOtlp := otlpMaybeTraces { o with pendingTraces := true } next

def onSweep (o : LkOtlp) (now : Nat) (next : NextTraces) : LkOtlp :=
  if o.state ≠ .idle ∧ o.deadlineNs ≤ now then otlpAfter (o, .fails) now next else o

inductive OtlpEv where
  | tick (now queued : Nat) (a : Attempt) (next : NextTraces)
  | watermark (next : NextTraces)
  | sweep (now : Nat) (next : NextTraces)
  | ready (io : ConnIo) (next : NextTraces)

def LkOtlp.step (o : LkOtlp) : OtlpEv → LkOtlp
  | .tick now queued a next => onTick o now queued a next
  | .watermark next => otlpOnWatermark o next
  | .sweep now next => onSweep o now next
  | .ready io next => onConn o io next

/-- A tick counts unless a Retry-After pause holds it back. -/
def LkOtlp.tickDue (o : LkOtlp) : OtlpEv → Nat
  | .tick now .. => if now < o.skipUntilNs then 0 else 1
  | _ => 0

def LkOtlp.due (o : LkOtlp) : List OtlpEv → Nat
  | [] => 0
  | ev :: evs => o.tickDue ev + (o.step ev).due evs

def OtlpEv.wakes : OtlpEv → Bool
  | .tick .. | .watermark _ => true
  | _ => false

def OtlpExchange.delivered (e : OtlpExchange) : Bool := e.sent == e.req.length && 200 ≤ e.status && e.status < 300

/-- The exports of a signal that were begun: counted, or still in flight. -/
def LkOtlp.begun (o : LkOtlp) (sig : OtlpSignal) : Nat :=
  o.exportsOk sig + o.exportsErr sig + if o.state ≠ .idle ∧ o.cur = sig then 1 else 0

structure LkOtlp.Ok (o : LkOtlp) : Prop where
  fd : o.fd = true ↔ o.state ≠ .idle
  req : o.req.isSome ↔ o.state ≠ .idle
  sent : o.reqOff ≤ (o.req.getD []).length
  whole : o.state = .read → o.reqOff = (o.req.getD []).length
  resp : o.resp.length ≤ otlpRespSize
  delivered : ∀ sig, o.exportsOk sig ≤ o.closed.countP fun e => e.sig = sig && e.delivered

theorem sendLoop_off (outs : List (Io Nat)) (h : off ≤ len) :
    (sendLoop len off outs).1 ≤ len ∧ ((sendLoop len off outs).2 = .goes → (sendLoop len off outs).1 = len) := by
  fun_induction sendLoop len off outs <;> grind

theorem recvLoop_resp (outs : List (Io (List Byte))) (h : resp.length ≤ otlpRespSize) :
    (recvLoop resp status outs).1.length ≤ otlpRespSize := by
  fun_induction recvLoop resp status outs <;> grind

theorem bump_add (n : OtlpSignal → Nat) (sig s : OtlpSignal) : bump n sig s = n s + if sig = s then 1 else 0 := by
  rw [bump]
  split <;> split <;> simp_all

/-- What handling a socket may change of a client before its request ends. -/
structure Flies (o : LkOtlp) (r : LkOtlp × Flow) : Prop where
  ok : r.1.Ok
  flying : r.1.state ≠ .idle
  same : ∃ state off resp code, r.1 = { o with state := state, reqOff := off, resp := resp, statusCode := code }

theorem flies_ok (ho : o.Ok) (hs : o.state ≠ .idle) (hstate : state ≠ .idle) (hoff : off ≤ (o.req.getD []).length)
    (hwhole : state = .read → off = (o.req.getD []).length) (hresp : resp.length ≤ otlpRespSize) :
    Flies o ({ o with state := state, reqOff := off, resp := resp, statusCode := code }, flow) where
  ok := ⟨by simp [ho.fd, hs, hstate], by simp [ho.req, hs, hstate], hoff, hwhole, hresp, ho.delivered⟩
  flying := hstate
  same := ⟨_, _, _, _, rfl⟩

theorem flies_self (ho : o.Ok) (hs : o.state ≠ .idle) : Flies o (o, flow) :=
  flies_ok ho hs hs ho.sent ho.whole ho.resp

theorem connectStage_flies (io : ConnIo) (ho : o.Ok) (hs : o.state ≠ .idle) : Flies o (connectStage io o) := by
  rw [connectStage]
  split_ifs
  · exact flies_self ho hs
  all_goals first | exact flies_self ho hs | exact flies_ok ho hs (by simp) ho.sent (by simp) ho.resp

theorem writeStage_flies (io : ConnIo) (ho : o.Ok) (hs : o.state ≠ .idle) : Flies o (writeStage io o) := by
  obtain ⟨hle, hgoes⟩ := sendLoop_off io.sends ho.sent
  rw [writeStage]
  by_cases hw : o.state = .write
  · rw [if_pos hw]
    split
    · rename_i off hloop
      rw [hloop] at hle hgoes
      exact flies_ok ho hs (by simp) hle (fun _ => hgoes rfl) ho.resp
    · rename_i off flow _ hloop
      rw [hloop] at hle
      exact flies_ok ho hs hs hle (by simp [hw]) ho.resp
  · rw [if_neg hw]
    exact flies_self ho hs

theorem readStage_flies (io : ConnIo) (ho : o.Ok) (hs : o.state ≠ .idle) :
    Flies o (readStage io o) ∧ ((readStage io o).2 = .goes → (readStage io o).1.state = .read) := by
  rw [readStage]
  split_ifs with hr
  · exact ⟨flies_ok ho hs hs ho.sent ho.whole (recvLoop_resp io.recvs ho.resp), fun _ => hr⟩
  · exact ⟨flies_self ho hs, nofun⟩

theorem Flies.andThen (hr : Flies o r) (hk : ∀ o' : LkOtlp, o'.Ok → o'.state ≠ .idle → Flies o' (k o')) :
    Flies o (andThen k r) := by
  rw [Latkit.andThen]
  split_ifs
  · obtain ⟨hok, hflying, _, _, _, _, hsame⟩ := hr
    obtain ⟨hok', hflying', st, off, resp, code, hsame'⟩ := hk r.1 hok hflying
    exact ⟨hok', hflying', st, off, resp, code, by rw [hsame', hsame]⟩
  · exact hr

theorem drive_flies (io : ConnIo) (ho : o.Ok) (hs : o.state ≠ .idle) :
    Flies o (drive o io) ∧ ((drive o io).2 = .goes → (drive o io).1.state = .read) := by
  have hwritten := (connectStage_flies io ho hs).andThen fun _ => writeStage_flies io
  refine ⟨hwritten.andThen fun _ ho hs => (readStage_flies io ho hs).1, ?_⟩
  rw [drive, andThen]
  split_ifs with hgoes
  · exact (readStage_flies io hwritten.ok hwritten.flying).2
  · exact fun h => absurd h hgoes

/-- Every due tick began a metrics export or was skipped, and no traces export was begun without a tick or a watermark
of its own. -/
structure Serves (due woken : Nat) (o : LkOtlp) : Prop where
  ok : o.Ok
  metrics : o.begun .metrics + o.ticksSkipped = due
  traces : o.begun .traces + o.pendingTraces.toNat ≤ woken

theorem Flies.serves (hf : Flies o r) (ho : Serves due woken o) (hs : o.state ≠ .idle) : Serves due woken r.1 := by
  obtain ⟨hok, hflying, _, _, _, _, hsame⟩ := hf
  have hbegun : ∀ sig, r.1.begun sig = o.begun sig := by
    intro sig
    rw [LkOtlp.begun, LkOtlp.begun, if_congr (and_congr_left' (iff_of_true hflying hs)) rfl rfl, hsame]
  exact ⟨hok, by rw [hbegun, hsame]; exact ho.metrics, by rw [hbegun, hsame]; exact ho.traces⟩

theorem Serves.finish (ho : Serves due woken o) (hs : o.state ≠ .idle)
    (hcount : ∀ sig, good sig + bad sig = o.exportsOk sig + o.exportsErr sig + if o.cur = sig then 1 else 0)
    (hdel : ∀ sig, good sig ≤ (⟨o.cur, o.req.getD [], o.reqOff, o.statusCode⟩ :: o.closed).countP
      fun e => e.sig = sig && e.delivered) :
    Serves due woken (otlpFinish { o with exportsOk := good, exportsErr := bad, skipUntilNs := skip } reresolve) := by
  have hbegun : ∀ sig, (otlpFinish { o with exportsOk := good, exportsErr := bad, skipUntilNs := skip } reresolve).begun sig =
      o.begun sig := by
    intro sig
    simp [LkOtlp.begun, otlpFinish, hs, hcount]
  refine ⟨⟨by simp [otlpFinish], by simp [otlpFinish], by simp [otlpFinish], by simp [otlpFinish], by simp [otlpFinish], ?_⟩,
    by rw [hbegun]; exact ho.metrics, by rw [hbegun]; exact ho.traces⟩
  simpa [otlpFinish, ho.ok.fd.mpr hs] using hdel

theorem Serves.failed (ho : Serves due woken o) (hs : o.state ≠ .idle) :
    Serves due woken (otlpFinish { o.failed with skipUntilNs := skip } reresolve) := by
  refine ho.finish hs (fun sig => ?_) fun sig => ?_
  · change _ + bump _ _ _ = _
    rw [bump_add, Nat.add_assoc]
    rfl
  · rw [List.countP_cons]
    exact Nat.le_add_right_of_le (ho.ok.delivered sig)

theorem Serves.ended (ho : Serves due woken o) (hs : o.state ≠ .idle) (now : Nat) (hgoes : flow = .goes → o.state = .read) :
    Serves due woken (otlpEnd o now flow) := by
  cases flow with
  | waits => exact ho
  | fails => exact ho.failed hs
  | goes =>
    rw [otlpEnd, otlpOnResponseDone]
    split_ifs with hcode
    · refine ho.finish hs (fun sig => by rw [bump_add]; omega) fun sig => ?_
      rw [bump_add, List.countP_cons]
      refine Nat.add_le_add (ho.ok.delivered sig) ?_
      simp [OtlpExchange.delivered, ho.ok.whole (hgoes rfl), hcode]
    · exact ho.failed hs
    · exact ho.failed hs

theorem otlpEnd_idle (o : LkOtlp) (now : Nat) (hflow : flow ≠ .waits) : (otlpEnd o now flow).state = .idle := by
  cases flow with
  | waits => exact absurd rfl hflow
  | fails | goes => rfl

theorem Serves.setPending (ho : Serves due woken o) (flag : Bool) (skipped : Nat)
    (h : o.begun .traces + flag.toNat ≤ woken') :
    Serves (due + skipped) woken' { o with pendingTraces := flag, ticksSkipped := o.ticksSkipped + skipped } :=
  ⟨⟨ho.ok.fd, ho.ok.req, ho.ok.sent, ho.ok.whole, ho.ok.resp, ho.ok.delivered⟩,
    (Nat.add_assoc _ _ _).symm.trans (congrArg (· + skipped) ho.metrics), h⟩

theorem Serves.wake (ho : Serves due woken o) (skipped : Nat) (flag : Bool) :
    Serves (due + skipped) (woken + 1) { o with pendingTraces := flag, ticksSkipped := o.ticksSkipped + skipped } :=
  ho.setPending flag skipped (Nat.add_le_add ((Nat.le_add_right _ _).trans ho.traces) flag.toNat_le)

theorem Serves.begin (ho : Serves due woken o) (sig : OtlpSignal) (o' : LkOtlp) (hok : o'.Ok)
    (hbegun : ∀ s, o'.begun s = o.begun s + if sig = s then 1 else 0)
    (hpending : o'.pendingTraces = o.pendingTraces) (hskipped : o'.ticksSkipped = o.ticksSkipped) :
    Serves (due + if sig = .metrics then 1 else 0) (woken + if sig = .traces then 1 else 0) o' := by
  refine ⟨hok, ?_, ?_⟩
  · rw [hbegun, hskipped, ← ho.metrics, Nat.add_right_comm]
  · rw [hbegun, hpending, Nat.add_right_comm]
    exact Nat.add_le_add_right ho.traces _

structure Underway (due woken : Nat) (r : LkOtlp × Flow) : Prop where
  serves : Serves due woken r.1
  flying : r.2 ≠ .waits → r.1.state ≠ .idle
  goes : r.2 = .goes → r.1.state = .read

theorem Serves.underway (ho : Serves due woken o) : Underway due woken (o, .waits) := ⟨ho, by simp, by simp⟩

theorem Serves.driven (ho : Serves due woken o) (hs : o.state ≠ .idle) (io : ConnIo) : Underway due woken (drive o io) :=
  have ⟨hflies, hgoes⟩ := drive_flies io ho.ok hs
  ⟨hflies.serves ho hs, fun _ => hflies.flying, hgoes⟩

theorem Serves.start (ho : Serves due woken o) (hs : o.state = .idle) (sig : OtlpSignal) (a : Attempt) :
    Underway (due + if sig = .metrics then 1 else 0) (woken + if sig = .traces then 1 else 0) (otlpStart o sig a) := by
  obtain ⟨hfd, hreq, hsent, hwhole, hresp, hdel⟩ := ho.ok
  have hbad := fun res => ho.begin sig { o with cur := sig, resolved := res }.failed
    ⟨hfd, hreq, hsent, hwhole, hresp, hdel⟩
    (fun s => by simp [LkOtlp.begun, LkOtlp.failed, bump_add, hs, Nat.add_assoc]) rfl rfl
  have hnew := fun req st dl (hst : st = .write ∨ st = .connect) => ho.begin sig
    { o with cur := sig, resolved := true, req := some req, reqOff := 0, state := st, fd := true, deadlineNs := dl }
    ⟨by rcases hst with rfl | rfl <;> simp, by rcases hst with rfl | rfl <;> simp, Nat.zero_le _,
      by rcases hst with rfl | rfl <;> simp, hresp, hdel⟩
    (fun s => by rcases hst with rfl | rfl <;> simp [LkOtlp.begun, hs]) rfl rfl
  generalize due + (if sig = .metrics then 1 else 0) = due', woken + (if sig = .traces then 1 else 0) = woken' at *
  rw [otlpStart]
  split
  · exact (hbad _).underway
  · rename_i req _
    split
    · exact (hbad _).underway
    split
    · exact (hbad _).underway
    split
    · exact (hbad _).underway
    · dsimp only
      by_cases hconn : a.connect = .connected
      · have hflight := hnew req .write (a.mono + otlpTimeoutSec * 1000000000) (.inl rfl)
        simp only [hconn, if_true]
        split
        · exact (hflight.failed (by simp)).underway
        · exact hflight.driven (by simp) a.io
      · have hflight := hnew req .connect (a.mono + otlpTimeoutSec * 1000000000) (.inr rfl)
        simp only [hconn, if_false]
        split
        · exact (hflight.failed (by simp)).underway
        · exact hflight.underway

theorem Underway.ended (hr : Underway due woken r) (now : Nat) : Serves due woken (otlpEnd r.1 now r.2) := by
  by_cases hflow : r.2 = .waits
  · rw [hflow]
    exact hr.serves
  · exact hr.serves.ended (hr.flying hflow) now hr.goes

theorem Serves.maybeTraces (ho : Serves due woken o) (next : NextTraces) : Serves due woken (otlpMaybeTraces o next) := by
  rw [otlpMaybeTraces]
  split_ifs with hnot hqueued
  · exact ho
  · exact ho.setPending false 0 ((Nat.le_add_right _ _).trans ho.traces)
  · obtain ⟨hidle, hpending, -⟩ : o.state = .idle ∧ o.pendingTraces = true ∧ o.spans = true := by simpa using hnot
    have htraces : o.begun .traces + 1 ≤ woken := by simpa [hpending] using ho.traces
    have hstart := (ho.setPending false 0 (Nat.le_sub_one_of_lt htraces)).start hidle .traces next.attempt
    rw [if_neg (by simp), if_pos rfl, Nat.sub_add_cancel (by omega)] at hstart
    exact hstart.ended _

theorem Underway.after (hr : Underway due woken r) (now : Nat) (next : NextTraces) :
    Serves due woken (otlpAfter r now next) := by
  rw [otlpAfter]
  split_ifs with hflow
  · exact hr.serves
  · exact (hr.ended now).maybeTraces next

theorem Serves.step (ho : Serves due woken o) (ev : OtlpEv) :
    Serves (due + o.tickDue ev) (woken + ev.wakes.toNat) (o.step ev) := by
  cases ev with
  | tick now queued a next =>
    change Serves (due + if now < o.skipUntilNs then 0 else 1) (woken + 1) (onTick o now queued a next)
    rw [onTick]
    by_cases hpause : now < o.skipUntilNs
    · rw [if_pos hpause, if_pos hpause]
      exact ho.setPending _ 0 (ho.traces.trans (Nat.le_succ _))
    · rw [if_neg hpause, if_neg hpause]
      by_cases hidle : o.state = .idle
      · rw [if_neg (not_not.mpr hidle)]
        exact ((ho.wake 0 (o.pendingTraces || (o.spans && 0 < queued))).start hidle .metrics a).after _ next
      · rw [if_pos hidle]
        exact ho.wake 1 _
  | watermark next => exact (ho.wake 0 true).maybeTraces next
  | sweep now next =>
    change Serves due woken (onSweep o now next)
    rw [onSweep]
    split_ifs with hlate
    · have hlost : Underway due woken (o, .fails) := ⟨ho, fun _ => hlate.1, by simp⟩
      exact hlost.after now next
    · exact ho
  | ready io next =>
    change Serves due woken (onConn o io next)
    by_cases hidle : o.state = .idle
    · have hdrive : drive o io = (o, .waits) := by simp [drive, andThen, connectStage, writeStage, readStage, hidle]
      rw [onConn, hdrive]
      exact ho.underway.after _ next
    · exact (ho.driven hidle io).after _ next

theorem Serves.run (ho : Serves due woken o) (evs : List OtlpEv) :
    Serves (due + o.due evs) (woken + evs.countP OtlpEv.wakes) (evs.foldl LkOtlp.step o) := by
  induction evs generalizing o due woken with
  | nil => exact ho
  | cons ev evs ih =>
    have hwakes : (ev :: evs).countP OtlpEv.wakes = ev.wakes.toNat + evs.countP OtlpEv.wakes := by
      rw [List.countP_cons, Nat.add_comm]
      cases ev.wakes <;> rfl
    rw [hwakes, LkOtlp.due, ← Nat.add_assoc, ← Nat.add_assoc]
    exact ih (ho.step ev)

/-- Over every run the sender holds a socket and a request exactly while one export is in flight, and reads only when
all of it is sent. Every tick that no pause holds back began one metrics export, counted once, or was skipped. Only an
export that the peer got whole and answered with 2xx is a success. -/
theorem otlp_run_accounts (spans resolved : Bool) (evs : List OtlpEv) :
    let start : LkOtlp := { spans := spans, resolved := resolved }
    let o := evs.foldl LkOtlp.step start
    (o.fd = true ↔ o.state ≠ .idle) ∧ (o.req.isSome ↔ o.state ≠ .idle) ∧
      o.reqOff ≤ (o.req.getD []).length ∧ (o.state = .read → o.reqOff = (o.req.getD []).length) ∧
      o.resp.length ≤ otlpRespSize ∧
      o.begun .metrics + o.ticksSkipped = start.due evs ∧ o.begun .traces ≤ evs.countP OtlpEv.wakes ∧
      ∀ sig, o.exportsOk sig ≤ o.closed.countP fun e => e.sig = sig && e.delivered := by
  have hstart : Serves 0 0 { spans := spans, resolved := resolved } :=
    ⟨⟨by simp, by simp, Nat.le_refl 0, fun _ => rfl, Nat.zero_le _, fun _ => Nat.zero_le _⟩, rfl, Nat.le_refl 0⟩
  obtain ⟨⟨hfd, hreq, hsent, hwhole, hresp, hdel⟩, hmetrics, htraces⟩ := hstart.run evs
  rw [Nat.zero_add] at hmetrics htraces
  exact ⟨hfd, hreq, hsent, hwhole, hresp, hmetrics, (Nat.le_add_right _ _).trans htraces, hdel⟩

end Latkit
