import Latkit.Reassembly

namespace Latkit

def Msg.eraseTs (m : Msg) : Msg := { m with ts := 0 }

def SinkEvent.eraseTs : SinkEvent → SinkEvent
  | .msg cookie dir flags m => .msg cookie dir flags m.eraseTs
  | e => e

def Frame.eraseTs (f : Frame) : Frame := { f with msgTs := 0 }

def FConn.eraseTs (c : FConn φ) : FConn φ :=
  { c with send := c.send.eraseTs, recv := c.recv.eraseTs }

/-- An edit of what no protocol hook looks at: timestamps and the slabs. -/
def FConn.edit (t : Nat → Nat) (b : Dir → List Byte → List Byte) (c : FConn φ) : FConn φ :=
  { c with
    send := { c.send with msgTs := t c.send.msgTs, buf := b .send c.send.buf }
    recv := { c.recv with msgTs := t c.recv.msgTs, buf := b .recv c.recv.buf } }

def Msg.edit (t : Nat → Nat) (m : Msg) : Msg := { m with ts := t m.ts }

def Reasm.eraseTs (r : Reasm) : Reasm := { r with trace := r.trace.map SinkEvent.eraseTs }

/-- What a consumer may do to a connection: it never looks at timestamps, leaves the pending SSL
reply alone, and a blind connection stays blind. -/
structure SinkOk (env : Env φ) : Prop where
  erase : ∀ t fl, env.react (t.map SinkEvent.eraseTs) fl = env.react t fl
  sslReply : ∀ t fl, (env.react t fl).sslReply = fl.sslReply
  tls : ∀ t fl, fl.tls = true → (env.react t fl).tls = true
  ignore : ∀ t fl, fl.ignore = true → (env.react t fl).ignore = true

/-- No single-byte reply is pending on this direction. -/
def PgSettled (dir : Dir) (fl : ConnFlags) : Prop := dir = .send → fl.sslReply = false

def ConnFlags.le (fl fl' : ConnFlags) : Prop :=
  (fl.tls = true → fl'.tls = true) ∧ (fl.ignore = true → fl'.ignore = true)

/-- What an interception does with the first byte of a chunk; `kept` is what it leaves of it. -/
structure Intercepts (ops : ProtoOps φ) (Settled : Dir → ConnFlags → Prop) (r : Reasm) (c : FConn φ)
    (dir : Dir) (b : Byte) (ts : Nat) (r' : Reasm) (c' : FConn φ) (kept : Option (List Byte)) :
    Prop where
  eq : ∀ p, ops.interceptBytes r c dir (b :: p) ts = (r', c', kept.map (· ++ p))
  frame : ∀ d, c'.frame d = c.frame d
  ops : c'.ops = c.ops
  settled : Settled dir c'.flags
  flags : c.flags.le c'.flags
  badLen : r'.st.badLen = r.st.badLen
  slabOk : r'.slabOk = r.slabOk
  tlsConns : r.st.tlsConns ≤ r'.st.tlsConns
  dropped : kept = none → r.st.tlsConns < r'.st.tlsConns

/-- The contract between the generic framer and a message-framed protocol; on a `Settled` direction
the interception has nothing to do. -/
structure LawfulOps (ops : ProtoOps φ) (Settled : Dir → ConnFlags → Prop) : Prop where
  stream : ops.stream = false
  hdrSize_pos : ∀ dir f, 0 < ops.hdrSize dir f
  hdrSize_congr : ∀ dir f g, f.startupDone = g.startupDone → ops.hdrSize dir f = ops.hdrSize dir g
  parseHdr_keeps : ∀ dir f g, ops.parseHdr dir f = some g →
    g.st = f.st ∧ g.buf = f.buf ∧ g.prefixClosed = f.prefixClosed
  parseHdr_erase : ∀ dir f, ops.parseHdr dir f.eraseTs = (ops.parseHdr dir f).map Frame.eraseTs
  preEmit_edit : ∀ t b (c : FConn φ) dir m, ops.preEmit (c.edit t b) dir (m.edit t) =
    ((ops.preEmit c dir m).1.edit t b, (ops.preEmit c dir m).2.edit t)
  preEmit_ops : ∀ (c : FConn φ) dir m, (ops.preEmit c dir m).1.ops = c.ops
  preEmit_flags : ∀ (c : FConn φ) dir m, c.flags.le (ops.preEmit c dir m).1.flags
  preEmit_settled : ∀ (c : FConn φ) dir m, Settled dir c.flags → Settled dir (ops.preEmit c dir m).1.flags
  scan_erase : ∀ dir f p, ops.resyncScan dir f.eraseTs p =
    ((ops.resyncScan dir f p).1.eraseTs, (ops.resyncScan dir f p).2)
  scan_st : ∀ dir f p, (ops.resyncScan dir f p).1.st = f.st
  scan_miss : ∀ dir f p q g n, ops.resyncScan dir f p = (g, n, false) →
    ops.resyncScan dir f (p ++ q) =
      ((ops.resyncScan dir g q).1, p.length + (ops.resyncScan dir g q).2.1,
        (ops.resyncScan dir g q).2.2)
  scan_hit : ∀ dir f p q g n, ops.resyncScan dir f p = (g, n, true) →
    ops.resyncScan dir f (p ++ q) = (g, n, true) ∧ 0 < n ∧ n ≤ p.length
  intercept_settled : ∀ r c dir p ts, Settled dir c.flags →
    ops.interceptBytes r c dir p ts = (r, c, some p)
  settled_congr : ∀ dir fl fl', fl'.sslReply = fl.sslReply → Settled dir fl → Settled dir fl'
  intercept_cases : ∀ r c dir b ts, ∃ r' c' kept, Intercepts ops Settled r c dir b ts r' c' kept
  intercept_erase : ∀ r c dir p ts, ops.interceptBytes r.eraseTs c.eraseTs dir p 0 =
    let s := ops.interceptBytes r c dir p ts
    (s.1.eraseTs, s.2.1.eraseTs, s.2.2)

@[simp] theorem ConnFlags.le_refl (fl : ConnFlags) : fl.le fl := ⟨id, id⟩

theorem ConnFlags.le.trans (h : fl.le fl') (h' : fl'.le fl'') : ConnFlags.le fl fl'' :=
  ⟨h'.1 ∘ h.1, h'.2 ∘ h.2⟩

theorem SinkOk.le {env : Env φ} (he : SinkOk env) (t : List SinkEvent) (fl : ConnFlags) :
    fl.le (env.react t fl) :=
  ⟨he.tls t fl, he.ignore t fl⟩

@[simp] theorem FConn.eraseTs_frame (c : FConn φ) (dir : Dir) :
    c.eraseTs.frame dir = (c.frame dir).eraseTs := by
  cases dir <;> rfl

@[simp] theorem FConn.eraseTs_setFrame (c : FConn φ) (dir : Dir) (f : Frame) :
    c.eraseTs.setFrame dir f.eraseTs = (c.setFrame dir f).eraseTs := by
  cases dir <;> rfl

@[simp] theorem FConn.eraseTs_flags (c : FConn φ) : c.eraseTs.flags = c.flags := rfl
@[simp] theorem FConn.eraseTs_cookie (c : FConn φ) : c.eraseTs.cookie = c.cookie := rfl
@[simp] theorem FConn.eraseTs_ops (c : FConn φ) : c.eraseTs.ops = c.ops := rfl
@[simp] theorem Reasm.eraseTs_slabOk (r : Reasm) : r.eraseTs.slabOk = r.slabOk := rfl
@[simp] theorem Reasm.eraseTs_st (r : Reasm) : r.eraseTs.st = r.st := rfl

@[simp] theorem FConn.eraseTs_mapFlags (c : FConn φ) (g : ConnFlags → ConnFlags) :
    c.eraseTs.mapFlags g = (c.mapFlags g).eraseTs := rfl

theorem SinkOk.deliver_erase {env : Env φ} (he : SinkOk env) (r : Reasm) (c : FConn φ) (e : SinkEvent) :
    deliver env r.eraseTs c.eraseTs e.eraseTs =
      ((deliver env r c e).1.eraseTs, (deliver env r c e).2.eraseTs) := by
  have ht : r.eraseTs.trace ++ [e.eraseTs] = (r.trace ++ [e]).map SinkEvent.eraseTs := by
    simp [Reasm.eraseTs]
  have hr : env.react ((r.trace ++ [e]).map SinkEvent.eraseTs) = env.react (r.trace ++ [e]) :=
    funext (he.erase _)
  simp only [deliver, ht, hr]
  rfl

theorem pgScan_used_le (m : Nat) (p : List Byte) : (pgScan m p).2.1 ≤ p.length := by
  induction p generalizing m with
  | nil => exact Nat.le_refl _
  | cons b p ih =>
    simp only [pgScan]
    cases pgScanByte m b with
    | none => simp
    | some m' => simpa using ih m'

theorem pgScan_append_miss (h : (pgScan m p).2.2 = false) (q : List Byte) :
    pgScan m (p ++ q) = ((pgScan (pgScan m p).1 q).1, p.length + (pgScan (pgScan m p).1 q).2.1,
      (pgScan (pgScan m p).1 q).2.2) := by
  induction p generalizing m with
  | nil => simp [pgScan]
  | cons b p ih =>
    cases hb : pgScanByte m b with
    | none => simp [pgScan, hb] at h
    | some m' =>
      simp only [pgScan, hb] at h
      simp only [List.cons_append, pgScan, hb, ih h, List.length_cons]
      rw [Nat.add_right_comm]

theorem pgScan_append_hit (h : (pgScan m p).2.2 = true) (q : List Byte) :
    pgScan m (p ++ q) = pgScan m p ∧ 0 < (pgScan m p).2.1 := by
  induction p generalizing m with
  | nil => simp [pgScan] at h
  | cons b p ih =>
    cases hb : pgScanByte m b with
    | none => simp [pgScan, hb]
    | some m' =>
      simp only [pgScan, hb] at h
      obtain ⟨he, -⟩ := ih h
      simp only [List.cons_append, pgScan, hb, he]
      exact ⟨trivial, Nat.succ_pos _⟩

theorem pgPreEmit_settled (c : FConn φ) (dir : Dir) (m : Msg) (h : PgSettled dir c.flags) :
    PgSettled dir (pgPreEmit c dir m).1.flags := by
  cases dir with
  | send => exact h
  | recv => intro hd; cases hd

theorem pgPreEmit_flags (c : FConn φ) (dir : Dir) (m : Msg) :
    c.flags.le (pgPreEmit c dir m).1.flags := by
  simp only [pgPreEmit]
  repeat' split
  all_goals simp [ConnFlags.le]

theorem pgPreEmit_edit (t : Nat → Nat) (b : Dir → List Byte → List Byte) (c : FConn φ) (dir : Dir)
    (m : Msg) : pgPreEmit (c.edit t b) dir (m.edit t) =
      ((pgPreEmit c dir m).1.edit t b, (pgPreEmit c dir m).2.edit t) := by
  have hs : inStartup ((c.edit t b).frame dir) dir = inStartup (c.frame dir) dir := by
    cases dir <;> rfl
  have hm : (m.edit t).body = m.body := rfl
  simp only [pgPreEmit, hs, hm]
  repeat' split
  all_goals first | rfl | (cases dir <;> rfl)

theorem pgParseHdr_erase (dir : Dir) (f : Frame) :
    pgParseHdr dir f.eraseTs = (pgParseHdr dir f).map Frame.eraseTs := by
  have hs : inStartup f.eraseTs dir = inStartup f dir := rfl
  have hh : f.eraseTs.hdr = f.hdr := rfl
  simp only [pgParseHdr, hs, hh]
  split <;> rfl

theorem SinkOk.sslReply_settled {env : Env φ} (he : SinkOk env) (r : Reasm) (c : FConn φ) (b : Byte)
    (ts : Nat) : PgSettled .send (pgSslReply env r c b ts).2.flags :=
  fun _ => he.sslReply _ _

theorem SinkOk.sslReply_le {env : Env φ} (he : SinkOk env) (r : Reasm) (c : FConn φ) (b : Byte)
    (ts : Nat) : c.flags.le (pgSslReply env r c b ts).2.flags :=
  he.le _ { c.flags with sslReply := false }

theorem SinkOk.sslReply_erase {env : Env φ} (he : SinkOk env) (r : Reasm) (c : FConn φ) (b : Byte)
    (ts : Nat) : pgSslReply env r.eraseTs c.eraseTs b 0 =
      ((pgSslReply env r c b ts).1.eraseTs, (pgSslReply env r c b ts).2.eraseTs) :=
  he.deliver_erase (r.bump fun s => { s with msgs := s.msgs + 1 })
    (c.mapFlags fun fl => { fl with sslReply := false })
    (.msg c.cookie .send { c.flags with sslReply := false } { ts := ts, type := b })

theorem pgIntercept_cases {env : Env φ} (he : SinkOk env) (r : Reasm) (c : FConn φ) (dir : Dir)
    (b : Byte) (ts : Nat) :
    ∃ r' c' kept, Intercepts (lkProtoPgOps env) PgSettled r c dir b ts r' c' kept := by
  by_cases hs : dir = .send ∧ c.flags.sslReply = true
  · obtain ⟨rfl, hs⟩ := hs
    have hset := he.sslReply_settled r c b ts
    have hle := he.sslReply_le r c b ts
    by_cases hb : b = 'S'.toUInt8 ∨ b = 'G'.toUInt8
    · refine ⟨(pgSslReply env r c b ts).1.bump fun s => { s with tlsConns := s.tlsConns + 1 },
        (pgSslReply env r c b ts).2.mapFlags fun fl => { fl with tls := true }, none,
        ⟨fun p => ?_, ?_, rfl, hset, ⟨fun _ => rfl, hle.2⟩, rfl, rfl, Nat.le_succ _,
          fun _ => Nat.lt_succ_self _⟩⟩
      · simp only [lkProtoPgOps, pgInterceptBytes, hs, hb, if_true]
        rfl
      · intro d
        cases d <;> rfl
    · refine ⟨(pgSslReply env r c b ts).1, (pgSslReply env r c b ts).2, some [],
        ⟨fun p => ?_, ?_, rfl, hset, hle, rfl, rfl, Nat.le_refl _, nofun⟩⟩
      · simp only [lkProtoPgOps, pgInterceptBytes, hs, hb, if_true, if_false]
        rfl
      · intro d
        cases d <;> rfl
  · refine ⟨r, c, some [b], ⟨fun p => ?_, fun _ => rfl, rfl, ?_, ConnFlags.le_refl _, rfl, rfl,
      Nat.le_refl _, nofun⟩⟩
    · cases dir with
      | send =>
        have hs' : c.flags.sslReply = false := by simpa using hs
        simp [lkProtoPgOps, pgInterceptBytes, hs']
      | recv => rfl
    · intro hd
      simpa [hd] using hs

theorem pgIntercept_settled (env : Env φ) (r : Reasm) (c : FConn φ) (dir : Dir) (p : List Byte)
    (ts : Nat) (h : PgSettled dir c.flags) : pgInterceptBytes env r c dir p ts = (r, c, some p) := by
  cases dir with
  | recv => rfl
  | send =>
    cases p with
    | nil => rfl
    | cons b p => simp [pgInterceptBytes, h rfl]

theorem pgIntercept_erase {env : Env φ} (he : SinkOk env) (r : Reasm) (c : FConn φ) (dir : Dir)
    (p : List Byte) (ts : Nat) :
    pgInterceptBytes env r.eraseTs c.eraseTs dir p 0 =
      ((pgInterceptBytes env r c dir p ts).1.eraseTs, (pgInterceptBytes env r c dir p ts).2.1.eraseTs,
        (pgInterceptBytes env r c dir p ts).2.2) := by
  cases dir with
  | recv => rfl
  | send =>
    cases p with
    | nil => rfl
    | cons b p =>
      simp only [pgInterceptBytes, FConn.eraseTs_flags, he.sslReply_erase r c b ts]
      repeat' split
      all_goals rfl

theorem pgResyncScan_miss (h : pgResyncScan dir f p = (g, n, false)) (q : List Byte) :
    pgResyncScan dir f (p ++ q) = ((pgResyncScan dir g q).1, p.length + (pgResyncScan dir g q).2.1,
      (pgResyncScan dir g q).2.2) := by
  cases dir with
  | recv =>
    simp only [pgResyncScan, ne_eq, reduceCtorEq, not_false_eq_true, if_true] at h ⊢
    cases h
    simp
  | send =>
    simp only [pgResyncScan, ne_eq, not_true_eq_false, if_false, Prod.mk.injEq] at h ⊢
    obtain ⟨rfl, -, hf⟩ := h
    rw [pgScan_append_miss hf]
    exact ⟨rfl, rfl, rfl⟩

theorem pgResyncScan_hit (h : pgResyncScan dir f p = (g, n, true)) (q : List Byte) :
    pgResyncScan dir f (p ++ q) = (g, n, true) ∧ 0 < n ∧ n ≤ p.length := by
  cases dir with
  | recv => simp [pgResyncScan] at h
  | send =>
    simp only [pgResyncScan, ne_eq, not_true_eq_false, if_false, Prod.mk.injEq] at h ⊢
    obtain ⟨rfl, rfl, hf⟩ := h
    obtain ⟨he, hn⟩ := pgScan_append_hit hf q
    rw [he]
    exact ⟨⟨rfl, rfl, hf⟩, hn, pgScan_used_le _ _⟩

theorem lkProtoPgOps_lawful {env : Env φ} (he : SinkOk env) :
    LawfulOps (lkProtoPgOps env) PgSettled where
  stream := rfl
  hdrSize_pos dir f := by simp only [lkProtoPgOps, pgHdrSize]; split <;> omega
  hdrSize_congr dir f g h := by
    have hs : inStartup f dir = inStartup g dir := by simp only [inStartup, h]
    simp only [lkProtoPgOps, pgHdrSize, hs]
  parseHdr_keeps dir f g h := by
    simp only [lkProtoPgOps, pgParseHdr] at h
    split at h <;> cases h
    exact ⟨rfl, rfl, rfl⟩
  parseHdr_erase := pgParseHdr_erase
  preEmit_edit := pgPreEmit_edit
  preEmit_ops c dir m := by
    simp only [lkProtoPgOps, pgPreEmit]
    repeat' split
    all_goals first | rfl | simp
  preEmit_flags := pgPreEmit_flags
  preEmit_settled := pgPreEmit_settled
  scan_erase dir f p := by cases dir <;> rfl
  scan_st dir f p := by cases dir <;> rfl
  scan_miss _ _ _ q _ _ h := pgResyncScan_miss h q
  scan_hit _ _ _ q _ _ h := pgResyncScan_hit h q
  intercept_settled := pgIntercept_settled env
  settled_congr _ _ _ h hs hd := h.trans (hs hd)
  intercept_cases := pgIntercept_cases he
  intercept_erase := pgIntercept_erase he

theorem myAuthDone_flags (c : FConn φ) : c.flags.le (myAuthDone c).flags :=
  ⟨id, fun h => by simp [myAuthDone, h]⟩

theorem myNoteCommand_flags (c : FConn φ) (dir : Dir) : c.flags.le (myNoteCommand c dir).flags := by
  simp only [myNoteCommand]
  split
  · exact myAuthDone_flags c
  · exact ConnFlags.le_refl _

theorem myNoteCommand_edit (t : Nat → Nat) (b : Dir → List Byte → List Byte) (c : FConn φ)
    (dir : Dir) : myNoteCommand (c.edit t b) dir = (myNoteCommand c dir).edit t b := by
  have hs : ((c.edit t b).frame dir).startupDone = (c.frame dir).startupDone := by cases dir <;> rfl
  have hq : ((c.edit t b).frame dir).msgSeq0 = (c.frame dir).msgSeq0 := by cases dir <;> rfl
  simp only [myNoteCommand, hs, hq]
  split <;> rfl

theorem myFirstPacket_flags (c : FConn φ) (m : Msg) : c.flags.le (myFirstPacket c m).flags := by
  simp only [myFirstPacket]
  repeat' split
  all_goals simp [ConnFlags.le]

theorem myFirstPacket_edit (t : Nat → Nat) (b : Dir → List Byte → List Byte) (c : FConn φ)
    (m : Msg) : myFirstPacket (c.edit t b) (m.edit t) = (myFirstPacket c m).edit t b := by
  have hm : (m.edit t).body = m.body := rfl
  have hf : (c.edit t b).flags = c.flags := rfl
  simp only [myFirstPacket, hm, hf]
  repeat' split
  all_goals rfl

theorem myNoteCommand_ops (c : FConn φ) (dir : Dir) : (myNoteCommand c dir).ops = c.ops := by
  simp only [myNoteCommand]
  split <;> rfl

theorem myPacket_ops (c : FConn φ) (dir : Dir) (m : Msg) : (myPacket c dir m).1.ops = c.ops := by
  cases dir <;> simp only [myPacket, myFirstPacket] <;> repeat' split
  all_goals rfl

theorem myPacket_flags (c : FConn φ) (dir : Dir) (m : Msg) :
    c.flags.le (myPacket c dir m).1.flags := by
  cases dir with
  | recv =>
    simp only [myPacket]
    split
    · exact myFirstPacket_flags c m
    · exact ConnFlags.le_refl _
  | send =>
    simp only [myPacket]
    split
    · exact myAuthDone_flags c
    · exact ConnFlags.le_refl _

theorem myStampStartup_edit (t : Nat → Nat) (b : Dir → List Byte → List Byte) (c : FConn φ)
    (m : Msg) : myStampStartup (c.edit t b) (m.edit t) = (myStampStartup c m).edit t := by
  have hs : (c.edit t b).send.startupDone = c.send.startupDone := rfl
  simp only [myStampStartup, hs]
  split <;> rfl

theorem myPacket_edit (t : Nat → Nat) (b : Dir → List Byte → List Byte) (c : FConn φ) (dir : Dir)
    (m : Msg) : myPacket (c.edit t b) dir (m.edit t) =
      ((myPacket c dir m).1.edit t b, (myPacket c dir m).2.edit t) := by
  have hs : (c.edit t b).send.startupDone = c.send.startupDone := rfl
  have hr : (c.edit t b).recv.startupDone = c.recv.startupDone := rfl
  have hq : (c.edit t b).recv.msgSeq0 = c.recv.msgSeq0 := rfl
  have hb : (m.edit t).body = m.body := rfl
  cases dir with
  | recv =>
    simp only [myPacket, hr, hq, hb, myFirstPacket_edit]
    split
    · rfl
    · split <;> rfl
  | send =>
    simp only [myPacket, hs, hb]
    split <;> rfl

theorem lkProtoMyOps_lawful : LawfulOps (lkProtoMyOps : ProtoOps φ) (fun _ _ => True) where
  stream := rfl
  hdrSize_pos _ _ := Nat.succ_pos 3
  hdrSize_congr _ _ _ _ := rfl
  parseHdr_keeps dir f g h := by
    simp only [lkProtoMyOps, myParseHdr] at h
    repeat' split at h
    all_goals cases h
    all_goals exact ⟨rfl, rfl, rfl⟩
  parseHdr_erase dir f := by
    have hc : f.eraseTs.msgCont = f.msgCont := rfl
    have hq : f.eraseTs.msgSeq = f.msgSeq := rfl
    have hh : f.eraseTs.hdr = f.hdr := rfl
    simp only [lkProtoMyOps, myParseHdr, hc, hq, hh]
    repeat' split
    all_goals rfl
  preEmit_edit t b c dir m := by
    simp only [lkProtoMyOps, myPreEmit, myNoteCommand_edit, myStampStartup_edit, myPacket_edit]
  preEmit_ops c dir m := (myPacket_ops _ dir _).trans (myNoteCommand_ops c dir)
  preEmit_flags c dir m := (myNoteCommand_flags c dir).trans (myPacket_flags _ dir _)
  preEmit_settled _ _ _ _ := trivial
  scan_erase _ _ _ := rfl
  scan_st _ _ _ := rfl
  scan_miss dir f p q g n h := by
    cases h
    simp [lkProtoMyOps, myResyncScan]
  scan_hit dir f p q g n h := by simp [lkProtoMyOps, myResyncScan] at h
  intercept_settled _ _ _ _ _ _ := rfl
  settled_congr _ _ _ _ _ := trivial
  intercept_cases r c dir b ts := ⟨r, c, some [b], fun _ => rfl, fun _ => rfl, rfl, trivial,
    ConnFlags.le_refl _, rfl, rfl, Nat.le_refl _, nofun⟩
  intercept_erase _ _ _ _ _ := rfl

end Latkit
