import Latkit.Pool
import Latkit.RegProfile

namespace Latkit

/-! The series registry: a dictionary of the most recent queries behind a doorkeeper, the interned
dimensions, and one series of accumulators for each (slot, dimension, protocol, code). -/

def lkTopQueriesDefault : Nat := 500
def lkQueryLabelLenDefault : Nat := 256
def lkMaxSessionDimsDefault : Nat := 32
def lkQueryLabelMax : Nat := 256
def lkDoorkeeperSlots : Nat := 2048
def lkMaxErrCodes : Nat := 64
def lkMaxProtos : Nat := 8
def lkRegOpMax : Nat := 16
def dimNameMax : Nat := 64
def protoNameMax : Nat := 8
def errCodeMax : Nat := 48

def bytesOf (s : String) : List Byte := s.toUTF8.toList

theorem toList_loop (b : ByteArray) (i : Nat) (r : List UInt8) :
    ByteArray.toList.loop b i r = r.reverse ++ b.data.toList.drop i := by
  fun_induction ByteArray.toList.loop b i r with
  | case1 i r hi ih =>
    have hlt : i < b.data.toList.length := by simpa using hi
    rw [ih, List.drop_eq_getElem_cons hlt]
    simp [ByteArray.get!, hi]
  | case2 i r hi =>
    rw [List.drop_of_length_le, List.append_nil]
    simpa using hi

def otherText : List Byte := bytesOf "other"

def snprintf (cap : Nat) (s : List Byte) : List Byte := s.take (cap - 1)

inductive LkCode where
  | ok
  | error
  deriving DecidableEq, Repr

structure SeriesKey where
  qslot : Nat
  dim : Nat
  proto : Nat
  code : LkCode
  deriving DecidableEq, Repr

structure Series where
  key : SeriesKey
  createdNs : Nat
  rows : UInt64 := 0
  dur : LkHist := {}
  firstRow : Option LkHist := none
  tally : Nat → UInt64 := fun _ => 0
  bytesIn : UInt64 := 0
  bytesOut : UInt64 := 0
  upload : Option LkHist := none
  size : Option LkBhist := none

structure QEntry where
  fp : UInt64 := 0
  label : List Byte := []
  op : List Byte := []

structure Dim where
  db : List Byte := []
  user : List Byte := []
  deriving DecidableEq, Repr

structure LkMetricsCfg where
  topQueries : Nat := lkTopQueriesDefault
  queryLabelLen : Nat := lkQueryLabelLenDefault
  maxSessionDims : Nat := lkMaxSessionDimsDefault
  firstRowHist : Bool := false

structure LkRegistry where
  k : Nat
  labelLen : Nat
  maxDims : Nat
  firstRow : Bool
  entries : Nat → QEntry := fun _ => {}
  /-- The slots in use, the one resolved last in front. -/
  lru : List Nat := []
  free : List Nat
  door : Nat → UInt64 := fun _ => 0
  dims : List Dim := []
  protos : List (List Byte) := []
  protoProf : Nat → LkProfile := fun _ => .query
  used : LkProfile → Bool := fun prof => prof = .query
  series : List Series := []
  qTotal : Nat → Nat → Nat → Nat → UInt64 := fun _ _ _ _ => 0
  errTotal : Nat → Nat → Nat → UInt64 := fun _ _ _ => 0
  txn : Nat → Nat → Bool → LkHist := fun _ _ _ => {}
  errCodes : LkProfile → List (List Byte) := fun _ => []
  redirects : Nat → Nat → UInt64 := fun _ _ => 0
  depth : Nat → LkBhist := fun _ => {}
  truncatedObs : LkProfile → UInt64 := fun _ => 0
  totalObs : LkProfile → UInt64 := fun _ => 0
  otherObs : LkProfile → UInt64 := fun _ => 0
  internalObs : LkProfile → UInt64 := fun _ => 0

def lkRegNew (cfg : LkMetricsCfg) : LkRegistry :=
  let k := if cfg.topQueries = 0 then lkTopQueriesDefault else cfg.topQueries
  { k := k
    labelLen :=
      if cfg.queryLabelLen = 0 ∨ lkQueryLabelMax ≤ cfg.queryLabelLen then lkQueryLabelMax - 1 else cfg.queryLabelLen
    maxDims := if cfg.maxSessionDims = 0 then lkMaxSessionDimsDefault else cfg.maxSessionDims
    firstRow := cfg.firstRowHist
    free := List.range k }

structure LkRegObs where
  now : Nat := 0
  fp : UInt64 := 0
  label : Option (List Byte) := none
  op : Option (List Byte) := none
  db : Option (List Byte) := none
  user : Option (List Byte) := none
  proto : Option (List Byte) := none
  profile : UInt8 := 0
  kind : Nat := 0
  qcode : Nat := 0
  sclass : Nat := 0
  forceOther : Bool := false
  internal : Bool := false
  hasDuration : Bool := false
  dcode : LkCode := .ok
  durSeconds : Float := 0
  rows : UInt64 := 0
  hasFirstRow : Bool := false
  firstRowSeconds : Float := 0
  hasUpload : Bool := false
  uploadSeconds : Float := 0
  hasSize : Bool := false
  sizeBytes : UInt64 := 0
  bytesIn : UInt64 := 0
  bytesOut : UInt64 := 0
  truncated : Bool := false
  errCode : Option (List Byte) := none
  redirect : Nat := 0
  hasBlock : Bool := false
  blockSeconds : Float := 0
  hasDepth : Bool := false
  depth : UInt32 := 0

/-- How far to back off so that no sequence of UTF-8 is cut. -/
def utf8Back (src : List Byte) : Nat → Nat
  | 0 => 0
  | n + 1 => if (src.getD (n + 1) 0) &&& 0xC0 = 0x80 then utf8Back src n else n + 1

def utf8Trunc (src : List Byte) (maxChars : Nat) : List Byte :=
  let n := min src.length maxChars
  src.take (if n < src.length then utf8Back src n else n)

/-! Interning. The index behind the last one is the pseudo-value for whatever found no room. -/

def internDim (r : LkRegistry) (db user : List Byte) : Nat × LkRegistry :=
  match r.dims.findIdx? (· = ⟨db, user⟩) with
  | some i => (i, r)
  | none =>
    if r.maxDims ≤ r.dims.length then (r.maxDims, r)
    else (r.dims.length, { r with dims := r.dims ++ [⟨snprintf dimNameMax db, snprintf dimNameMax user⟩] })

def internErrCode (r : LkRegistry) (prof : LkProfile) (code : List Byte) : Nat × LkRegistry :=
  match (r.errCodes prof).findIdx? (· = code) with
  | some i => (i, r)
  | none =>
    if lkMaxErrCodes ≤ (r.errCodes prof).length then (lkMaxErrCodes, r)
    else
      ((r.errCodes prof).length,
        { r with errCodes := Function.update r.errCodes prof (r.errCodes prof ++ [snprintf errCodeMax code]) })

def protoName (proto : Option (List Byte)) : List Byte := if proto.getD [] = [] then bytesOf "pg" else proto.getD []

def internProto (r : LkRegistry) (proto : Option (List Byte)) (prof : LkProfile) : Nat × LkRegistry :=
  match r.protos.findIdx? (· = protoName proto) with
  | some i => (i, r)
  | none =>
    if lkMaxProtos ≤ r.protos.length then
      (lkMaxProtos, { r with protoProf := Function.update r.protoProf lkMaxProtos prof })
    else
      (r.protos.length,
        { r with
          protos := r.protos ++ [snprintf protoNameMax (protoName proto)]
          protoProf := Function.update r.protoProf r.protos.length prof })

def fpFind (r : LkRegistry) (fp : UInt64) : Option Nat := r.lru.find? fun s => (r.entries s).fp = fp

def lruTouch (r : LkRegistry) (s : Nat) : LkRegistry := { r with lru := s :: r.lru.erase s }

def admitQuery (r : LkRegistry) (fp : UInt64) (label op : List Byte) : Nat × LkRegistry :=
  match r.free with
  | [] => (r.k, r)
  | s :: free =>
    (s, { r with
          free := free
          entries := Function.update r.entries s ⟨fp, utf8Trunc label r.labelLen, snprintf lkRegOpMax op⟩
          lru := s :: r.lru })

def mergeHist (dst src : Option LkHist) : Option LkHist :=
  match src with
  | none => dst
  | some h => some (lkHistMerge (dst.getD {}) h)

def mergeSize (dst src : Option LkBhist) : Option LkBhist :=
  match src with
  | none => dst
  | some h => some (lkBhistMerge (dst.getD {}) h)

def mergeSeries (s dst : Series) : Series :=
  { dst with
    dur := lkHistMerge dst.dur s.dur
    rows := dst.rows + s.rows
    bytesIn := dst.bytesIn + s.bytesIn
    bytesOut := dst.bytesOut + s.bytesOut
    tally := fun i => if i < lkNSclasses then dst.tally i + s.tally i else dst.tally i
    firstRow := mergeHist dst.firstRow s.firstRow
    upload := mergeHist dst.upload s.upload
    size := mergeSize dst.size s.size }

def seriesUse (now : Nat) (key : SeriesKey) (f : Series → Series) (series : List Series) : List Series :=
  Pool.upsert Series.key key { key := key, createdNs := now } f series

def SeriesKey.heir (k : Nat) (key : SeriesKey) : SeriesKey := { key with qslot := k }

def evictLru (r : LkRegistry) (now : Nat) : LkRegistry :=
  match r.lru.getLast? with
  | none => r
  | some t =>
    { r with
      series := (r.series.filter (·.key.qslot = t)).foldl
        (fun series s => seriesUse now (s.key.heir r.k) (mergeSeries s) series) (r.series.filter (·.key.qslot ≠ t))
      lru := r.lru.dropLast
      free := t :: r.free }

def doorKey (fp : UInt64) : UInt64 := if fp = 0 then 1 else fp

def doorIndex (key : UInt64) : Nat := (key ^^^ (key >>> 17)).toNat % lkDoorkeeperSlots

def resolveQuery (r : LkRegistry) (now : Nat) (fp : UInt64) (label op : List Byte) : Nat × LkRegistry :=
  match fpFind r fp with
  | some s => (s, lruTouch r s)
  | none =>
    if r.free ≠ [] then admitQuery r fp label op
    else
      let key := doorKey fp
      let d := doorIndex key
      if r.door d = key then
        admitQuery (evictLru { r with door := Function.update r.door d 0 } now) fp label op
      else (r.k, { r with door := Function.update r.door d key })

def obsKind (o : LkRegObs) : Nat := if o.kind < lkNQkinds then o.kind else 0

def obsQcode (o : LkRegObs) : Nat := if o.qcode < lkNQcodes then o.qcode else 0

def LkRegObs.isInternal (o : LkRegObs) : Bool := o.internal && (profiles (lkProfile o.profile)).has .internal

def countQuery (r : LkRegistry) (pf : RegProfile) (dim proto : Nat) (o : LkRegObs) : LkRegistry :=
  if pf.has .qtotal then
    { r with
      qTotal := fun d p kind code =>
        if d = dim ∧ p = proto ∧ kind = obsKind o ∧ code = obsQcode o then r.qTotal d p kind code + 1
        else r.qTotal d p kind code }
  else r

def countTruncated (r : LkRegistry) (pf : RegProfile) (prof : LkProfile) (o : LkRegObs) : LkRegistry :=
  if o.truncated && pf.has .truncated then
    { r with truncatedObs := Function.update r.truncatedObs prof (r.truncatedObs prof + 1) }
  else r

def countError (r : LkRegistry) (pf : RegProfile) (prof : LkProfile) (dim proto : Nat) (o : LkRegObs) : LkRegistry :=
  match o.errCode with
  | none => r
  | some code =>
    if pf.has .errors then
      let (id, r) := internErrCode r prof code
      { r with
        errTotal := fun c d p =>
          if c = id ∧ d = dim ∧ p = proto then r.errTotal c d p + 1 else r.errTotal c d p }
    else r

def countRedirect (r : LkRegistry) (pf : RegProfile) (proto : Nat) (o : LkRegObs) : LkRegistry :=
  if o.redirect ≠ 0 ∧ pf.has .redirect then
    let kind := if o.redirect < lkNRedirects then o.redirect else 0
    { r with
      redirects := fun c p => if c = kind ∧ p = proto then r.redirects c p + 1 else r.redirects c p }
  else r

def countDepth (r : LkRegistry) (pf : RegProfile) (proto : Nat) (o : LkRegObs) : LkRegistry :=
  if o.hasDepth && pf.has .depth then
    let h := r.depth proto
    let h := if h.nbuckets = 0 then lkBhistInit h lkDhistMinLog2 lkDhistNbuckets else h
    { r with depth := Function.update r.depth proto (lkBhistObserve h o.depth.toUInt64) }
  else r

def countObs (r : LkRegistry) (prof : LkProfile) (dim proto : Nat) (o : LkRegObs) : LkRegistry :=
  let pf := profiles prof
  let r := countQuery r pf dim proto o
  let r := countTruncated r pf prof o
  let r := countError r pf prof dim proto o
  let r := countRedirect r pf proto o
  countDepth r pf proto o

def observeHist (h : Option LkHist) (v : Float) : Option LkHist := some (lkHistObserve (h.getD {}) v)

def seriesSize (s : Series) (pf : RegProfile) : LkBhist :=
  s.size.getD (if pf.sizeNbuckets ≠ 0 then lkBhistInit {} pf.sizeMinLog2 pf.sizeNbuckets else {})

def tallyIndex (pf : RegProfile) (o : LkRegObs) : Nat :=
  let ax := if pf.totalQcode then obsQcode o else o.sclass
  if ax < totalAxisN pf then ax else 0

def recordUntimed (pf : RegProfile) (o : LkRegObs) (s : Series) : Series :=
  { s with
    tally :=
      if pf.has .total then Function.update s.tally (tallyIndex pf o) (s.tally (tallyIndex pf o) + 1) else s.tally
    bytesIn := if pf.has .bytes then s.bytesIn + o.bytesIn else s.bytesIn
    bytesOut := if pf.has .bytes then s.bytesOut + o.bytesOut else s.bytesOut
    size := if o.hasSize && pf.has .size then some (lkBhistObserve (seriesSize s pf) o.sizeBytes) else s.size
    firstRow := if o.hasBlock && pf.has .blocking then observeHist s.firstRow o.blockSeconds else s.firstRow }

def recordTimed (firstRow : Bool) (pf : RegProfile) (o : LkRegObs) (s : Series) : Series :=
  { s with
    dur := lkHistObserve s.dur o.durSeconds
    rows := s.rows + o.rows
    firstRow :=
      if o.hasFirstRow && (pf.has .ttfb || (firstRow && pf.has .firstRow)) then
        observeHist s.firstRow o.firstRowSeconds
      else s.firstRow
    upload := if o.hasUpload && pf.has .upload then observeHist s.upload o.uploadSeconds else s.upload }

def recordSeries (firstRow : Bool) (o : LkRegObs) (s : Series) : Series :=
  let pf := profiles (lkProfile o.profile)
  let s := recordUntimed pf o s
  if o.hasDuration then recordTimed firstRow pf o s else s

def obsSlot (r : LkRegistry) (o : LkRegObs) : Nat × LkRegistry :=
  match o.label with
  | some label => if o.forceOther then (r.k, r) else resolveQuery r o.now o.fp label (o.op.getD [])
  | none => (r.k, r)

def countTimed (r : LkRegistry) (prof : LkProfile) (qslot : Nat) : LkRegistry :=
  { r with
    totalObs := Function.update r.totalObs prof (r.totalObs prof + 1)
    otherObs := if qslot = r.k then Function.update r.otherObs prof (r.otherObs prof + 1) else r.otherObs }

def LkRegObs.hasSeries (o : LkRegObs) : Bool := o.hasDuration || (profiles (lkProfile o.profile)).has .total

def observeSlot (r : LkRegistry) (dim proto : Nat) (o : LkRegObs) : LkRegistry :=
  let (qslot, r) := obsSlot r o
  let key : SeriesKey := ⟨qslot, dim, proto, o.dcode⟩
  let r := { r with series := seriesUse o.now key (recordSeries r.firstRow o) r.series }
  if o.hasDuration then countTimed r (lkProfile o.profile) qslot else r

def obsDim (r : LkRegistry) (o : LkRegObs) : Nat × LkRegistry := internDim r (o.db.getD []) (o.user.getD [])

def lkRegObserve (r : LkRegistry) (o : LkRegObs) : LkRegistry :=
  let prof := lkProfile o.profile
  let r := { r with used := Function.update r.used prof true }
  if o.isInternal then { r with internalObs := Function.update r.internalObs prof (r.internalObs prof + 1) }
  else
    let (dim, r) := obsDim r o
    let (proto, r) := internProto r o.proto prof
    let r := countObs r prof dim proto o
    if o.hasSeries then observeSlot r dim proto o else r

structure LkRegTxn where
  db : Option (List Byte) := none
  user : Option (List Byte) := none
  proto : Option (List Byte) := none
  profile : UInt8 := 0
  aborted : Bool := false
  durSeconds : Float := 0

def lkRegObserveTxn (r : LkRegistry) (t : LkRegTxn) : LkRegistry :=
  let (dim, r) := internDim r (t.db.getD []) (t.user.getD [])
  let (proto, r) := internProto r t.proto (lkProfile t.profile)
  { r with
    txn := fun d p ab =>
      if d = dim ∧ p = proto ∧ ab = t.aborted then lkHistObserve (r.txn d p ab) t.durSeconds else r.txn d p ab }

inductive RegCall where
  | observe (o : LkRegObs)
  | txn (t : LkRegTxn)

def regStep (r : LkRegistry) : RegCall → LkRegistry
  | .observe o => lkRegObserve r o
  | .txn t => lkRegObserveTxn r t

def regRun (r : LkRegistry) (calls : List RegCall) : LkRegistry := calls.foldl regStep r

end Latkit
