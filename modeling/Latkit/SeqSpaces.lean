import Latkit.ChunkingInvariance
import Latkit.FrameStays
import Latkit.Pipeline
import Latkit.SeqDetector

namespace Latkit

/-- What an event of one connection is; `decrypted` is a data event of the TLS channel. -/
inductive ConnEvKind where
  | opened (tuple : Tuple) (synthetic : Bool)
  | close
  | data (dir : Dir) (totalLen off : Nat) (payload : List Byte)
  | decrypted (dir : Dir) (totalLen off : Nat) (payload : List Byte)
  deriving DecidableEq, Repr

structure ConnEv where
  seq : UInt32
  ts : Nat
  kind : ConnEvKind
  deriving DecidableEq, Repr

def ConnEv.view (cookie : UInt64) (e : ConnEv) : EvView :=
  let hdr := { connId := cookie, seq := e.seq, ts := e.ts }
  match e.kind with
  | .opened tuple synthetic => .connOpen hdr tuple synthetic
  | .close => .connClose hdr
  | .data dir totalLen off payload => .data hdr dir totalLen off payload false
  | .decrypted dir totalLen off payload => .data hdr dir totalLen off payload true

def ConnEvKind.raw : ConnEvKind → Bool
  | .decrypted .. => false
  | _ => true

def ConnEvKind.isData : ConnEvKind → Bool
  | .data .. => true
  | _ => false

def rawOf (es : List ConnEv) : List ConnEv := es.filter fun e => e.kind.raw
def tlsOf (es : List ConnEv) : List ConnEv := es.filter fun e => !e.kind.raw

/-- Both channels of a connection, interleaved; neither lost an event. A close ends the raw one. -/
structure Lossless (es : List ConnEv) : Prop where
  raw : (rawOf es).IsChain fun a b => b.seq = a.seq + 1
  tls : (tlsOf es).IsChain fun a b => b.seq = a.seq + 1
  close : ∀ e ∈ (rawOf es).dropLast, e.kind ≠ .close

def NoWrap (es : List ConnEv) : Prop := ∀ e ∈ es, e.seq.toNat + 1 < 2 ^ 32

def checked (t : ConnTable φ) (cookie : UInt64) (e : ConnEv) : ConnTable φ × UInt32 :=
  match e.kind with
  | .opened tuple synthetic =>
    let (t, _, lost) := t.lkConnTableOpen cookie e.seq e.ts tuple synthetic
    (t, lost)
  | .close => t.lkConnTableClose cookie e.seq e.ts
  | .data .. =>
    match t.lookup cookie with
    | some c =>
      if c.tls then (t.lkConnTableNoteTlsDrop c e.seq e.ts, 0)
      else
        let (t, _, lost) := t.lkConnTableData cookie e.seq e.ts
        (t, lost)
    | none =>
      let (t, _, lost) := t.lkConnTableData cookie e.seq e.ts
      (t, lost)
  | .decrypted .. =>
    let (t, _, lost) := t.lkConnTableDataDecrypted cookie e.seq e.ts
    (t, lost)

/-- The event reports no loss, and the sequence check leaves the entry's framing alone. -/
structure Quiet (env : Env φ) (p : Pipeline φ) (cookie : UInt64) (e : ConnEv) : Prop where
  lost : (p.lkPipelineFeed env (e.view cookie)).2.lost = 0
  clean : ∀ c c', p.conns.lookup cookie = some c →
    (checked p.conns cookie e).1.lookup cookie = some c' → c'.framing = c.framing

def AllQuiet (env : Env φ) (cookie : UInt64) : Pipeline φ → List ConnEv → Prop
  | _, [] => True
  | p, e :: es => Quiet env p cookie e ∧ AllQuiet env cookie (p.lkPipelineFeed env (e.view cookie)).1 es

theorem feed_lost (env : Env φ) (p : Pipeline φ) (cookie : UInt64) (e : ConnEv) :
    (p.lkPipelineFeed env (e.view cookie)).2.lost = (checked p.conns cookie e).2 := by
  obtain ⟨seq, ts, kind⟩ := e
  cases kind with
  | opened tuple synthetic => rfl
  | close => rfl
  | data dir totalLen off payload =>
    simp only [ConnEv.view, Pipeline.lkPipelineFeed, checked]
    cases h : p.conns.lookup cookie with
    | none =>
      simp only [Bool.false_eq_true, if_false, Pipeline.feedPlain]
      split <;> rfl
    | some c =>
      simp only [Bool.not_false, Bool.and_true]
      split
      · rfl
      · simp only [Bool.false_eq_true, if_false, Pipeline.feedPlain]
        split <;> rfl
  | decrypted dir totalLen off payload =>
    have hfeed : (p.feedDecrypted env ⟨cookie, seq, ts⟩ dir ⟨ts, totalLen, off, payload, true⟩).2.lost =
        (p.conns.lkConnTableDataDecrypted cookie seq ts).2.2 := by
      simp only [Pipeline.feedDecrypted]
      split <;> rfl
    simp only [ConnEv.view, Pipeline.lkPipelineFeed, checked]
    cases h : p.conns.lookup cookie with
    | none => exact hfeed
    | some c => simpa using hfeed

section
variable {env : Env φ}

theorem mapFraming_front {p : Pipeline φ} (h : p.conns.conns = c :: cs) (g : FConn φ → FConn φ) :
    (p.mapFraming g).conns.conns = { c with framing := g c.framing } :: cs := by
  simp only [Pipeline.mapFraming, ConnTable.mapFront, h, List.modifyHead_cons]

theorem reasmData_front (he : KeepsTls env) {p : Pipeline φ} (h : p.conns.conns = c :: cs) (dir : Dir)
    (ev : EvData) :
    ∃ f, Stays c.framing f ∧ (p.reasmData env dir ev).conns.conns = { c with framing := f } :: cs := by
  refine ⟨_, lkReasmData_stays he p.reasm c.framing dir ev, ?_⟩
  simp only [Pipeline.reasmData, h]
  exact mapFraming_front h _

theorem tlsReset_stays (midstream : Bool) (f : FConn φ) : Stays f (lkConnTlsResetFraming midstream f) := by
  cases midstream <;> exact ⟨rfl, id⟩

theorem tlsOpen_front {p : Pipeline φ} (h : p.conns.conns = c :: cs) (midstream : Bool) :
    (p.tlsOpen midstream).conns.conns =
      { c with framing := lkConnTlsResetFraming midstream c.framing } :: cs :=
  mapFraming_front h _

theorem feedPlain_front (he : KeepsTls env) (p : Pipeline φ) (hdr : EvHdr) (dir : Dir) (ev : EvData)
    (ht : (p.conns.lkConnTableData hdr.connId hdr.seq hdr.ts).1.conns = c :: cs)
    (hok : (p.conns.lkConnTableData hdr.connId hdr.seq hdr.ts).2.1 = true) :
    ∃ f, Stays c.framing f ∧
      (p.feedPlain env hdr dir ev).1.conns.conns = { c with framing := f } :: cs := by
  simp only [Pipeline.feedPlain, hok, if_true]
  obtain ⟨f, hf, hfront⟩ := reasmData_front he
    (p := p.withConns (p.conns.lkConnTableData hdr.connId hdr.seq hdr.ts).1) ht dir ev
  split
  · exact ⟨_, hf.trans (tlsReset_stays false f), tlsOpen_front hfront false⟩
  · exact ⟨f, hf, hfront⟩

theorem feedDecrypted_front (he : KeepsTls env) (p : Pipeline φ) (hdr : EvHdr) (dir : Dir) (ev : EvData)
    (ht : (p.conns.lkConnTableDataDecrypted hdr.connId hdr.seq hdr.ts).1.conns = c :: cs)
    (hok : (p.conns.lkConnTableDataDecrypted hdr.connId hdr.seq hdr.ts).2.1 = true) :
    ∃ f, f.cookie = c.cookie ∧ f.flags.tls = true ∧
      (p.feedDecrypted env hdr dir ev).1.conns.conns = { c with framing := f } :: cs := by
  simp only [Pipeline.feedDecrypted, hok, if_true]
  generalize hq : p.withConns (p.conns.lkConnTableDataDecrypted hdr.connId hdr.seq hdr.ts).1 = q
  replace hq : q.conns.conns = c :: cs := by rw [← hq]; exact ht
  split
  · have hset := mapFraming_front hq (·.mapFlags fun fl => { fl with tls := true })
    obtain ⟨f, hf, hfront⟩ := reasmData_front he (tlsOpen_front hset true) dir ev
    have hstays := (tlsReset_stays true _).trans hf
    exact ⟨f, hstays.1, hstays.2 rfl, hfront⟩
  · next htls =>
    obtain ⟨f, hf, hfront⟩ := reasmData_front he hq dir ev
    refine ⟨f, hf.1, hf.2 ?_, hfront⟩
    simpa [Pipeline.frontTls, hq, Conn.tls] using htls

structure Moves (e : ConnEv) (c c' : Conn φ) : Prop where
  lastSeq : c'.lastSeq = if e.kind.raw then seqMax c.lastSeq e.seq else c.lastSeq
  tlsSeqSeen : c'.tlsSeqSeen = (c.tlsSeqSeen || !e.kind.raw)
  tlsLastSeq : c'.tlsLastSeq =
    if e.kind.raw then c.tlsLastSeq else if c.tlsSeqSeen then seqMax c.tlsLastSeq e.seq else e.seq
  tls : c.tls = true ∨ e.kind.raw = false → c'.tls = true

theorem touched_moves (c : Conn φ) (ts : Nat) {e : ConnEv} (hk : e.kind.raw = true) (hs : Stays
    (ConnTable.touched c e.seq ts).framing f) :
    Moves e c { ConnTable.touched c e.seq ts with framing := f } := by
  refine ⟨by rw [hk]; rfl, by simp [hk, ConnTable.touched], by rw [hk]; rfl, ?_⟩
  rw [hk]
  rintro (h | h)
  · exact hs.2 ((congrArg ConnFlags.tls (ConnTable.dirtyIf_flags _ _)).trans h)
  · cases h

theorem feed_entry (he : KeepsTls env) {p : Pipeline φ} (h : p.conns.lookup cookie = some c)
    {e : ConnEv} (hk : e.kind ≠ .close) :
    ∃ c', (p.lkPipelineFeed env (e.view cookie)).1.conns.lookup cookie = some c' ∧ Moves e c c' := by
  have hcookie := ConnTable.cookie_of_lookup h
  have htouch (seq : UInt32) (ts : Nat) : (ConnTable.touched c seq ts).framing.cookie = cookie :=
    (ConnTable.dirtyIf_cookie _ _).trans hcookie
  obtain ⟨seq, ts, kind⟩ := e
  cases kind with
  | opened tuple synthetic =>
    refine ⟨ConnTable.touched c seq ts, ?_, touched_moves c ts rfl (Stays.refl _)⟩
    simp only [ConnEv.view, Pipeline.lkPipelineFeed, ConnTable.lkConnTableOpen, h]
    exact ConnTable.touch_lookup h seq ts
  | close => exact absurd rfl hk
  | data dir totalLen off payload =>
    simp only [ConnEv.view, Pipeline.lkPipelineFeed, h, Bool.not_false, Bool.and_true]
    split
    · next htls =>
      exact ⟨_, ConnTable.lookup_noteTlsDrop h seq ts, rfl, by simp [ConnEvKind.raw], rfl,
        fun _ => htls⟩
    · simp only [Bool.false_eq_true, if_false]
      obtain ⟨f, hf, hfront⟩ := feedPlain_front (c := ConnTable.touched c seq ts) he p
        ⟨cookie, seq, ts⟩ dir ⟨ts, totalLen, off, payload, false⟩
        (by simp only [ConnTable.lkConnTableData, h]; rfl) (by simp only [ConnTable.lkConnTableData, h])
      exact ⟨_, ConnTable.lookup_front hfront (hf.1.trans (htouch seq ts)), touched_moves c ts rfl hf⟩
  | decrypted dir totalLen off payload =>
    simp only [ConnEv.view, Pipeline.lkPipelineFeed, h, Bool.not_true, Bool.and_false,
      Bool.false_eq_true, if_false, if_true]
    obtain ⟨f, hf, htls, hfront⟩ := feedDecrypted_front he p ⟨cookie, seq, ts⟩ dir
      ⟨ts, totalLen, off, payload, true⟩
      (by simp only [ConnTable.lkConnTableDataDecrypted, h]; rfl)
      (by simp only [ConnTable.lkConnTableDataDecrypted, h])
    refine ⟨_, ConnTable.lookup_front hfront (hf.trans ?_), rfl, by simp [ConnEvKind.raw], rfl,
      fun _ => htls⟩
    exact (ConnTable.dirtyIf_cookie _ _).trans hcookie

def ConnEv.lostAt (c : Conn φ) (e : ConnEv) : UInt32 :=
  match e.kind with
  | .data .. => if c.tls then 0 else seqLost c.lastSeq e.seq
  | .decrypted .. => if c.tlsSeqSeen then seqLost c.tlsLastSeq e.seq else 0
  | _ => seqLost c.lastSeq e.seq

theorem checked_entry {t : ConnTable φ} (h : t.lookup cookie = some c) (e : ConnEv) :
    (checked t cookie e).2 = e.lostAt c ∧
      ∀ c', (checked t cookie e).1.lookup cookie = some c' →
        c'.framing = ConnTable.dirtyIf (e.lostAt c) c.framing := by
  have hcookie := ConnTable.cookie_of_lookup h
  have htouch (seq : UInt32) (ts : Nat) (c' : Conn φ)
      (hc' : (t.touch c seq ts).1.lookup cookie = some c') :
      c'.framing = ConnTable.dirtyIf (seqLost c.lastSeq seq) c.framing := by
    rw [ConnTable.touch_lookup h] at hc'
    cases hc'
    rfl
  obtain ⟨seq, ts, kind⟩ := e
  cases kind with
  | opened tuple synthetic =>
    simp only [checked, ConnTable.lkConnTableOpen, h]
    exact ⟨rfl, htouch seq ts⟩
  | close =>
    refine ⟨rawEvent_lost h seq ts .close, ?_⟩
    intro c' hc'
    simp only [checked, ConnTable.lookup_close h, reduceCtorEq] at hc'
  | data dir totalLen off payload =>
    simp only [checked, ConnEv.lostAt, h]
    split
    · refine ⟨rfl, ?_⟩
      intro c' hc'
      rw [ConnTable.lookup_noteTlsDrop h] at hc'
      cases hc'
      rfl
    · simp only [ConnTable.lkConnTableData, h]
      exact ⟨rfl, htouch seq ts⟩
  | decrypted dir totalLen off payload =>
    simp only [checked, ConnTable.lkConnTableDataDecrypted, h]
    refine ⟨rfl, ?_⟩
    intro c' hc'
    simp only [ConnTable.touchTls] at hc'
    rw [ConnTable.lookup_pushFront _ (by exact (ConnTable.dirtyIf_cookie _ _).trans hcookie)] at hc'
    cases hc'
    rfl

theorem quiet_entry {p : Pipeline φ} (h : p.conns.lookup cookie = some c) (e : ConnEv) :
    Quiet env p cookie e ↔ e.lostAt c = 0 := by
  obtain ⟨hlost, hframing⟩ := checked_entry h e
  rw [← hlost, ← feed_lost env]
  constructor
  · exact Quiet.lost
  · intro hzero
    refine ⟨hzero, ?_⟩
    intro c₀ c' h₀ hc'
    obtain rfl := Option.some.inj (h.symm.trans h₀)
    rw [hframing c' hc', ← hlost, ← feed_lost env, hzero]
    rfl

theorem feed_close {p : Pipeline φ} (h : p.conns.lookup cookie = some c) {e : ConnEv}
    (hk : e.kind = .close) : (p.lkPipelineFeed env (e.view cookie)).1.conns.lookup cookie = none := by
  simp only [ConnEv.view, hk, Pipeline.lkPipelineFeed]
  exact ConnTable.lookup_close h e.seq e.ts

theorem quiet_absent {p : Pipeline φ} (h : p.conns.lookup cookie = none) (e : ConnEv) :
    Quiet env p cookie e := by
  constructor
  · rw [feed_lost]
    obtain ⟨seq, ts, kind⟩ := e
    cases kind <;> simp only [checked, ConnTable.lkConnTableOpen, ConnTable.lkConnTableClose,
      ConnTable.lkConnTableData, ConnTable.lkConnTableDataDecrypted, h]
  · intro c c' hc
    rw [h] at hc
    cases hc

/-- The cursors of the entry an event creates: its raw baseline is the event's number, whichever
channel the event is of. -/
structure Starts (e : ConnEv) (c : Conn φ) : Prop where
  lastSeq : c.lastSeq = e.seq
  tlsSeqSeen : c.tlsSeqSeen = !e.kind.raw
  tlsLastSeq : e.kind.raw = false → c.tlsLastSeq = e.seq
  tls : e.kind.raw = false → c.tls = true

theorem feed_creates (he : KeepsTls env) {p : Pipeline φ} (h : p.conns.lookup cookie = none)
    (halloc : p.conns.allocOk = true) {e : ConnEv} (hk : e.kind ≠ .close) :
    ∃ c, (p.lkPipelineFeed env (e.view cookie)).1.conns.lookup cookie = some c ∧ Starts e c := by
  obtain ⟨seq, ts, kind⟩ := e
  cases kind with
  | opened tuple synthetic =>
    simp only [ConnEv.view, Pipeline.lkPipelineFeed, ConnTable.lkConnTableOpen, h]
    exact ⟨_, ConnTable.create_lookup halloc seq ts (ConnTable.opened_cookie _ _ _), rfl, rfl, by rintro ⟨⟩, by rintro ⟨⟩⟩
  | close => exact absurd rfl hk
  | data dir totalLen off payload =>
    simp only [ConnEv.view, Pipeline.lkPipelineFeed, h, Bool.false_eq_true, if_false]
    obtain ⟨hfront, hok⟩ := ConnTable.create_front halloc cookie seq ts (ConnTable.adopted p.conns.protoDflt)
    obtain ⟨f, hf, hfront⟩ := feedPlain_front he p ⟨cookie, seq, ts⟩ dir
      ⟨ts, totalLen, off, payload, false⟩
      (by simp only [ConnTable.lkConnTableData, h]; exact hfront)
      (by simp only [ConnTable.lkConnTableData, h]; exact hok)
    exact ⟨_, ConnTable.lookup_front hfront hf.1, rfl, rfl, by rintro ⟨⟩, by rintro ⟨⟩⟩
  | decrypted dir totalLen off payload =>
    simp only [ConnEv.view, Pipeline.lkPipelineFeed, h, if_true]
    obtain ⟨hfront, hok⟩ := ConnTable.create_front halloc cookie seq ts fun c =>
      { ConnTable.adopted p.conns.protoDflt c with tlsSeqSeen := true, tlsLastSeq := seq }
    obtain ⟨f, hf, htls, hfront⟩ := feedDecrypted_front he p ⟨cookie, seq, ts⟩ dir
      ⟨ts, totalLen, off, payload, true⟩
      (by simp only [ConnTable.lkConnTableDataDecrypted, h]; exact hfront)
      (by simp only [ConnTable.lkConnTableDataDecrypted, h]; exact hok)
    exact ⟨_, ConnTable.lookup_front hfront hf, rfl, rfl, fun _ => rfl, fun _ => htls⟩

theorem feed_absent_close (env : Env φ) {p : Pipeline φ} (h : p.conns.lookup cookie = none) {e : ConnEv}
    (hk : e.kind = .close) : (p.lkPipelineFeed env (e.view cookie)).1.conns.lookup cookie = none := by
  simp only [ConnEv.view, hk, Pipeline.lkPipelineFeed, ConnTable.lkConnTableClose, h]
  exact h

theorem feed_no_memory (env : Env φ) {p : Pipeline φ} (h : p.conns.lookup cookie = none)
    (halloc : p.conns.allocOk = false) (e : ConnEv) :
    (p.lkPipelineFeed env (e.view cookie)).1.conns.lookup cookie = none ∧
      (p.lkPipelineFeed env (e.view cookie)).1.conns.allocOk = false := by
  have hcreate (seq : UInt32) (ts : Nat) (init : Conn φ → Conn φ) :
      p.conns.create cookie seq ts init = (p.conns.makeRoom, false) := by
    simp [ConnTable.create, ConnTable.makeRoom_allocOk, halloc]
  have hroom := ConnTable.lookup_makeRoom h
  have halloc' := (ConnTable.makeRoom_allocOk p.conns).trans halloc
  obtain ⟨seq, ts, kind⟩ := e
  cases kind with
  | opened tuple synthetic =>
    simp only [ConnEv.view, Pipeline.lkPipelineFeed, ConnTable.lkConnTableOpen, h, hcreate]
    exact ⟨hroom, halloc'⟩
  | close =>
    simp only [ConnEv.view, Pipeline.lkPipelineFeed, ConnTable.lkConnTableClose, h]
    exact ⟨h, halloc⟩
  | data dir totalLen off payload =>
    simp only [ConnEv.view, Pipeline.lkPipelineFeed, h, Bool.false_eq_true, if_false,
      Pipeline.feedPlain, ConnTable.lkConnTableData, hcreate]
    exact ⟨hroom, halloc'⟩
  | decrypted dir totalLen off payload =>
    simp only [ConnEv.view, Pipeline.lkPipelineFeed, h, if_true, Pipeline.feedDecrypted,
      ConnTable.lkConnTableDataDecrypted, hcreate, Bool.false_eq_true, if_false]
    exact ⟨hroom, halloc'⟩

end

theorem rawOf_cons (h : e.kind.raw = true) (es : List ConnEv) : rawOf (e :: es) = e :: rawOf es := by
  simp [rawOf, h]

theorem rawOf_cons_tls (h : e.kind.raw = false) (es : List ConnEv) : rawOf (e :: es) = rawOf es := by
  simp [rawOf, h]

theorem tlsOf_cons (h : e.kind.raw = false) (es : List ConnEv) : tlsOf (e :: es) = e :: tlsOf es := by
  simp [tlsOf, h]

theorem tlsOf_cons_raw (h : e.kind.raw = true) (es : List ConnEv) : tlsOf (e :: es) = tlsOf es := by
  simp [tlsOf, h]

theorem Lossless.tail (h : Lossless (e :: es)) : Lossless es := by
  obtain ⟨hraw, htls, hclose⟩ := h
  cases hk : e.kind.raw with
  | true =>
    rw [rawOf_cons hk] at hraw hclose
    rw [tlsOf_cons_raw hk] at htls
    refine ⟨hraw.tail, htls, ?_⟩
    intro f hf
    apply hclose f
    rw [List.dropLast_cons_of_ne_nil (by rintro h; rw [h] at hf; cases hf)]
    exact List.mem_cons_of_mem _ hf
  | false =>
    rw [rawOf_cons_tls hk] at hraw hclose
    rw [tlsOf_cons hk] at htls
    exact ⟨hraw, htls.tail, hclose⟩

theorem Lossless.next_raw (h : Lossless (e :: es)) (hk : e.kind.raw = true) :
    ∀ f ∈ (rawOf es).head?, f.seq = e.seq + 1 := by
  have hraw := h.raw
  rw [rawOf_cons hk, List.isChain_cons] at hraw
  exact hraw.1

theorem Lossless.next_tls (h : Lossless (e :: es)) (hk : e.kind.raw = false) :
    ∀ f ∈ (tlsOf es).head?, f.seq = e.seq + 1 := by
  have htls := h.tls
  rw [tlsOf_cons hk, List.isChain_cons] at htls
  exact htls.1

theorem Lossless.close_last (h : Lossless (e :: es)) (hk : e.kind = .close) : rawOf es = [] := by
  have hclose := h.close
  rw [rawOf_cons (by rw [hk]; rfl)] at hclose
  by_contra hne
  rw [List.dropLast_cons_of_ne_nil hne] at hclose
  exact hclose e List.mem_cons_self hk

theorem toNat_next {last seq : UInt32} (h : seq = last + 1) (hlast : last.toNat + 1 < 2 ^ 32) :
    seq.toNat = last.toNat + 1 := by
  rw [h, UInt32.toNat_add]
  exact Nat.mod_eq_of_lt hlast

theorem seqLost_eq_zero_iff {last seq : UInt32} (hlast : last.toNat + 1 < 2 ^ 32) :
    seqLost last seq = 0 ↔ seq.toNat ≤ last.toNat + 1 := by
  rw [← UInt32.toNat_inj, seqLost_toNat, Nat.mod_eq_of_lt hlast]
  have h0 : (0 : UInt32).toNat = 0 := rfl
  rw [h0]
  split <;> omega

/-- What the rest of a run needs of the entry: the decrypted channel is followed exactly, the raw one
too unless its data is dropped as ciphertext. Without an entry the raw channel is over. -/
inductive InStep : Option (Conn φ) → List ConnEv → Prop where
  | absent (raw : rawOf es = []) : InStep none es
  | entry {c : Conn φ} (tls : ∀ e ∈ (tlsOf es).head?, c.tlsSeqSeen = true → e.seq = c.tlsLastSeq + 1)
      (raw : c.tls = true ∨ ∀ e ∈ (rawOf es).head?, e.seq.toNat ≤ c.lastSeq.toNat + 1)
      (lastSeq : c.lastSeq.toNat + 1 < 2 ^ 32)
      (tlsLastSeq : c.tlsSeqSeen = true → c.tlsLastSeq.toNat + 1 < 2 ^ 32) : InStep (some c) es

/-- The first raw event still to come is data or does not pass the raw baseline. -/
def Fits (last : UInt32) (es : List ConnEv) : Prop :=
  ∀ e ∈ (rawOf es).head?, e.kind.isData = true ∨ e.seq.toNat ≤ last.toNat + 1

theorem Starts.inStep {c : Conn φ} (h : Starts e c) (hl : Lossless (e :: es)) (hw : NoWrap (e :: es)) :
    InStep (some c) es := by
  have hwrap := hw e List.mem_cons_self
  apply InStep.entry
  · intro f hf hseen
    rw [h.tlsSeqSeen] at hseen
    have hk : e.kind.raw = false := by simpa using hseen
    rw [h.tlsLastSeq hk]
    exact hl.next_tls hk f hf
  · cases hk : e.kind.raw with
    | true =>
      right
      intro f hf
      rw [h.lastSeq, toNat_next (hl.next_raw hk f hf) hwrap]
    | false => exact .inl (h.tls hk)
  · rw [h.lastSeq]
    exact hwrap
  · intro hseen
    rw [h.tlsSeqSeen] at hseen
    rw [h.tlsLastSeq (by simpa using hseen)]
    exact hwrap

theorem Moves.raw_next {c c' : Conn φ} (h : Moves e c c') (hk : e.kind.raw = true)
    (hl : Lossless (e :: es)) (hw : NoWrap (e :: es)) :
    ∀ f ∈ (rawOf es).head?, f.seq.toNat ≤ c'.lastSeq.toNat + 1 := by
  intro f hf
  rw [toNat_next (hl.next_raw hk f hf) (hw e List.mem_cons_self), h.lastSeq, if_pos hk, seqMax_toNat]
  omega

theorem Moves.inStep {c c' : Conn φ} (h : Moves e c c') (hin : InStep (some c) (e :: es))
    (hl : Lossless (e :: es)) (hw : NoWrap (e :: es)) : InStep (some c') es := by
  obtain ⟨⟩ | ⟨htls, hraw, hlast, htlsLast⟩ := hin
  have hwrap := hw e List.mem_cons_self
  cases hk : e.kind.raw with
  | true =>
    have hseen : c'.tlsSeqSeen = c.tlsSeqSeen := by simp [h.tlsSeqSeen, hk]
    have hlastTls : c'.tlsLastSeq = c.tlsLastSeq := by rw [h.tlsLastSeq, if_pos hk]
    rw [tlsOf_cons_raw hk] at htls
    apply InStep.entry
    · rw [hseen, hlastTls]
      exact htls
    · exact .inr (h.raw_next hk hl hw)
    · rw [h.lastSeq, if_pos hk, seqMax_toNat]
      omega
    · rw [hseen, hlastTls]
      exact htlsLast
  | false =>
    have hlastRaw : c'.lastSeq = c.lastSeq := by simp [h.lastSeq, hk]
    have hlastTls : c'.tlsLastSeq = e.seq := by
      rw [h.tlsLastSeq, hk]
      simp only [Bool.false_eq_true, if_false]
      split
      · next hseen =>
        have hnext := htls e (by rw [tlsOf_cons hk]; rfl) hseen
        have hnat := toNat_next hnext (htlsLast hseen)
        rw [← UInt32.toNat_inj, seqMax_toNat]
        omega
      · rfl
    apply InStep.entry
    · intro f hf _
      rw [hlastTls]
      exact hl.next_tls hk f hf
    · exact .inl (h.tls (.inr hk))
    · rw [hlastRaw]
      exact hlast
    · rw [hlastTls]
      exact fun _ => hwrap

section
variable {env : Env φ}

theorem feed_inStep (he : KeepsTls env) {p : Pipeline φ} (hin : InStep (p.conns.lookup cookie) (e :: es))
    (hl : Lossless (e :: es)) (hw : NoWrap (e :: es)) :
    InStep ((p.lkPipelineFeed env (e.view cookie)).1.conns.lookup cookie) es := by
  cases h : p.conns.lookup cookie with
  | none =>
    rw [h] at hin
    obtain ⟨hraw⟩ := hin
    have hk : e.kind.raw = false := by
      by_contra hk
      rw [rawOf_cons (by simpa using hk)] at hraw
      cases hraw
    cases halloc : p.conns.allocOk with
    | true =>
      have hclose : e.kind ≠ .close := by
        intro hclose
        simp [hclose, ConnEvKind.raw] at hk
      obtain ⟨c, hc, hstarts⟩ := feed_creates he h halloc hclose
      rw [hc]
      exact hstarts.inStep hl hw
    | false =>
      rw [(feed_no_memory env h halloc e).1]
      rw [rawOf_cons_tls hk] at hraw
      exact .absent hraw
  | some c =>
    rw [h] at hin
    by_cases hclose : e.kind = .close
    · rw [feed_close h hclose]
      exact .absent (hl.close_last hclose)
    · obtain ⟨c', hc', hmoves⟩ := feed_entry he h hclose
      rw [hc']
      exact hmoves.inStep hin hl hw

theorem quiet_iff_fits {p : Pipeline φ} {c : Conn φ} (h : p.conns.lookup cookie = some c)
    (hin : InStep (some c) (e :: es)) :
    Quiet env p cookie e ↔ (e.kind.raw = true → Fits c.lastSeq (e :: es)) := by
  obtain ⟨⟩ | ⟨htls, hraw, hlast, htlsLast⟩ := hin
  have hfits (hk : e.kind.raw = true) : (e.kind.raw = true → Fits c.lastSeq (e :: es)) ↔
      e.kind.isData = true ∨ e.seq.toNat ≤ c.lastSeq.toNat + 1 := by
    simp [Fits, rawOf_cons hk, hk]
  rw [quiet_entry h]
  obtain ⟨seq, ts, kind⟩ := e
  cases kind with
  | opened tuple synthetic =>
    rw [hfits rfl]
    simpa [ConnEv.lostAt, ConnEvKind.isData] using seqLost_eq_zero_iff hlast
  | close =>
    rw [hfits rfl]
    simpa [ConnEv.lostAt, ConnEvKind.isData] using seqLost_eq_zero_iff hlast
  | data dir totalLen off payload =>
    rw [hfits rfl]
    simp only [ConnEv.lostAt, ConnEvKind.isData, true_or, iff_true]
    split
    · rfl
    · next hplain =>
      rw [seqLost_eq_zero_iff hlast]
      exact (hraw.resolve_left hplain) _ (by rw [rawOf_cons rfl]; rfl)
  | decrypted dir totalLen off payload =>
    simp only [ConnEv.lostAt, ConnEvKind.raw, Bool.false_eq_true, false_imp_iff, iff_true]
    split
    · next hseen =>
      have hnext := htls _ (by rw [tlsOf_cons rfl]; rfl) hseen
      rw [seqLost_eq_zero_iff (htlsLast hseen), toNat_next hnext (htlsLast hseen)]
    · rfl

theorem fits_after (he : KeepsTls env) {p : Pipeline φ} {c : Conn φ} (h : p.conns.lookup cookie = some c)
    (hl : Lossless (e :: es)) (hw : NoWrap (e :: es)) :
    (∀ c', (p.lkPipelineFeed env (e.view cookie)).1.conns.lookup cookie = some c' → Fits c'.lastSeq es) ↔
      (e.kind.raw = false → Fits c.lastSeq (e :: es)) := by
  by_cases hclose : e.kind = .close
  · simp [feed_close h hclose, hclose, ConnEvKind.raw]
  obtain ⟨c', hc', hmoves⟩ := feed_entry he h hclose
  rw [hc']
  cases hk : e.kind.raw with
  | true =>
    simp only [Option.some.injEq, forall_eq', Bool.true_eq_false, false_imp_iff, iff_true]
    intro f hf
    exact .inr (hmoves.raw_next hk hl hw f hf)
  | false =>
    have hlast : c'.lastSeq = c.lastSeq := by simp [hmoves.lastSeq, hk]
    simp only [Option.some.injEq, forall_eq', imp_iff_right, hlast, Fits, rawOf_cons_tls hk]

theorem allQuiet_iff_fits (he : KeepsTls env) (es : List ConnEv) {p : Pipeline φ}
    (hin : InStep (p.conns.lookup cookie) es) (hl : Lossless es) (hw : NoWrap es) :
    AllQuiet env cookie p es ↔ ∀ c, p.conns.lookup cookie = some c → Fits c.lastSeq es := by
  induction es generalizing p with
  | nil => simp [AllQuiet, Fits, rawOf]
  | cons e es ih =>
    have hnext := feed_inStep he hin hl hw
    rw [AllQuiet, ih hnext hl.tail fun f hf => hw f (List.mem_cons_of_mem _ hf)]
    cases h : p.conns.lookup cookie with
    | none =>
      rw [h] at hin
      obtain ⟨hraw⟩ := hin
      have hrest : rawOf es = [] := by
        simp only [rawOf, List.filter_eq_nil_iff, List.mem_cons, forall_eq_or_imp] at hraw ⊢
        exact hraw.2
      simp [quiet_absent h, Fits, hrest]
    | some c =>
      rw [h] at hin
      rw [quiet_iff_fits h hin, fits_after he h hl hw]
      cases hk : e.kind.raw <;> simp

theorem allQuiet_no_memory (es : List ConnEv) {p : Pipeline φ} (h : p.conns.lookup cookie = none)
    (halloc : p.conns.allocOk = false) : AllQuiet env cookie p es := by
  induction es generalizing p with
  | nil => trivial
  | cons e es ih =>
    obtain ⟨hnone, halloc'⟩ := feed_no_memory env h halloc e
    exact ⟨quiet_absent h e, ih hnone halloc'⟩

/-- Where a connection shows up first on the decrypted channel, its first raw event is data, or does
not pass the number of that first event. -/
def Anchored : List ConnEv → Prop
  | [] => True
  | e :: es => e.kind.raw = false → Fits e.seq es

/-- The two sequence spaces of a connection keep out of each other's way, before a wrap, exactly when
the raw channel does not start, behind a decrypted event, with an open or close beyond its number. -/
theorem sequence_spaces_independent_iff (he : KeepsTls env) (cookie : UInt64) {p : Pipeline φ}
    (hnew : p.conns.lookup cookie = none) (es : List ConnEv) (hl : Lossless es) (hw : NoWrap es) :
    AllQuiet env cookie p es ↔ (p.conns.allocOk = true → Anchored es) := by
  cases halloc : p.conns.allocOk with
  | false => simp [allQuiet_no_memory es hnew halloc]
  | true =>
    rw [imp_iff_right rfl]
    cases es with
    | nil => simp [AllQuiet, Anchored]
    | cons e es =>
      have hw' : NoWrap es := fun f hf => hw f (List.mem_cons_of_mem _ hf)
      rw [AllQuiet, and_iff_right (quiet_absent hnew e), Anchored]
      by_cases hclose : e.kind = .close
      · have hnone := feed_absent_close env hnew hclose
        rw [allQuiet_iff_fits he es (by rw [hnone]; exact .absent (hl.close_last hclose)) hl.tail hw']
        simp [hnone, hclose, ConnEvKind.raw]
      · obtain ⟨c, hc, hstarts⟩ := feed_creates he hnew halloc hclose
        rw [allQuiet_iff_fits he es (by rw [hc]; exact hstarts.inStep hl hw) hl.tail hw']
        simp only [hc, Option.some.injEq, forall_eq', hstarts.lastSeq]
        cases hk : e.kind.raw with
        | false => simp
        | true =>
          simp only [Bool.true_eq_false, false_imp_iff, iff_true]
          intro f hf
          rw [toNat_next (hl.next_raw hk f hf) (hw e List.mem_cons_self)]
          exact .inr le_rfl

end

theorem passiveEnv_keepsTls : KeepsTls passiveEnv where
  react _ _ h := h
  bytes _ _ _ _ _ _ := ⟨rfl, id⟩
  hole _ _ _ _ _ := ⟨rfl, id⟩

/-- An open, two decrypted events around a dropped one, and the close. -/
theorem sequence_spaces_independent_iff_close :
    AllQuiet passiveEnv 1 ⟨{}, {}⟩ [⟨7, 1, .opened {} false⟩, ⟨0, 2, .decrypted .recv 1 0 [80]⟩,
      ⟨8, 3, .data .recv 40 0 [23]⟩, ⟨1, 4, .decrypted .send 1 0 [83]⟩, ⟨9, 5, .close⟩] := by
  apply (sequence_spaces_independent_iff passiveEnv_keepsTls 1 rfl _ _ _).2
  · intro _ hk
    cases hk
  · constructor <;> decide
  · unfold NoWrap
    decide

/-- The entry a decrypted event makes takes the event's number for its raw baseline too, so the close,
the first raw event seen, reports a loss. -/
theorem sequence_spaces_close_loss :
    let p := (Pipeline.lkPipelineFeed passiveEnv ⟨{}, {}⟩
      (ConnEv.view 1 ⟨0, 1, .decrypted .recv 1 0 [80]⟩)).1
    (p.lkPipelineFeed passiveEnv (ConnEv.view 1 ⟨5, 2, .close⟩)).2.lost = 4 ∧
      (p.lkPipelineFeed passiveEnv (ConnEv.view 1 ⟨5, 2, .close⟩)).1.conns.st.seqGaps = 1 := by
  decide

end Latkit
