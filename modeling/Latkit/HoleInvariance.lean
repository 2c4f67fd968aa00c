import Latkit.ChunkingInvariance
import Latkit.FramePrims
import Latkit.WireMsg

namespace Latkit
open Wire (Reader Ahead)

/-- Everything the hole argument needs of a message-framed protocol behind its startup phase. -/
structure Lossy (env : Env φ) (proto : Proto) (dir : Dir) (Settled : Dir → ConnFlags → Prop)
    (rd : Reader Head Byte) (view : Head → Head) (note : Head → List Byte → Note) : Prop where
  lawful : LawfulOps (protoOps env proto) Settled
  hole : ∀ c, Settled dir c.flags → (protoOps env proto).interceptHole c dir = none
  reads : ReadsAs (protoOps env proto) dir rd view note
  ahead : ∀ ms : List WireMsg, (∀ m ∈ ms, m.Sound proto) → Ahead rd lkMsgBodyMax note none
    (ms.flatMap (WireMsg.cells proto)) (ms.map (WireMsg.report proto dir))

theorem pg_lossy {env : Env φ} (he : SinkOk env) (dir : Dir) :
    Lossy env .pg dir PgSettled pgReader pgView pgNote where
  lawful := lkProtoPgOps_lawful he
  hole c hset := by
    simp only [protoOps, lkProtoPgOps, pgInterceptHole]
    rw [if_neg]
    rintro ⟨rfl, hr⟩
    rw [hset rfl] at hr
    cases hr
  reads := pg_readsAs env dir
  ahead ms hms := by
    induction ms with
    | nil => exact .done
    | cons m ms ih =>
      obtain ⟨hm, hms⟩ := List.forall_mem_cons.1 hms
      exact pgCells_ahead hm (ih hms)

theorem my_lossy (env : Env φ) (dir : Dir) :
    Lossy env .mysql dir (fun _ _ => True) myReader id (myNote dir) where
  lawful := lkProtoMyOps_lawful
  hole _ _ := rfl
  reads := my_readsAs dir
  ahead ms hms := by
    induction ms with
    | nil => exact .done
    | cons m ms ih =>
      obtain ⟨hm, hms⟩ := List.forall_mem_cons.1 hms
      exact myCells_report hm (ih hms)

theorem FConn.lossy {env : Env φ} (he : SinkOk env) {c : FConn φ} (hc : c.MsgFramed)
    (hreply : dir = .send → c.flags.sslReply = false) :
    ∃ Settled rd view note, Lossy env (c.ops.getD .pg) dir Settled rd view note ∧
      Settled dir c.flags := by
  rcases hc with hc | hc
  · rw [hc]
    exact ⟨_, _, _, _, pg_lossy he dir, hreply⟩
  · rw [hc]
    exact ⟨_, _, _, _, my_lossy env dir, trivial⟩

theorem AtBoundary.track (hat : AtBoundary f) (hpos : 0 < rd.size)
    (hz : Ahead rd lkMsgBodyMax note none z out) : Track rd view note f z out := by
  refine .header hat.st (by rw [hat.hdr]; exact hpos) (K := none) ⟨hat.msgCont, ?_, ?_⟩ ?_
  · rw [← hat.cont, hat.msgCont]
  · simpa using hat.buf
  · rw [hat.hdr]
    exact hz

section
variable {env : Env φ}

theorem Lossy.prims (hp : Lossy env proto dir Settled rd view note) (he : SinkOk env)
    (hpin : c.ops = some proto) (hslab : r.slabOk = true) (hat : AtBoundary (c.frame dir))
    (hs : inStartup (c.frame dir) dir = false) (hset : Settled dir c.flags)
    {ms : List WireMsg} (hms : ∀ m ∈ ms, m.Sound proto) (ps qs : List Prim)
    (hps : (ps ++ qs).flatMap Prim.seen = ms.flatMap (WireMsg.cells proto))
    (hb : (framePrims env dir (r, c) (ps ++ qs)).2.flags.blind = true → c.flags.blind = true) :
    Owes rd view note dir (framePrims env dir (r, c) ps) (qs.flatMap Prim.seen)
      (traceNotes r.trace ++ ms.map (WireMsg.report proto dir)) := by
  have htrack : Track rd view note (c.frame dir) ((ps ++ qs).flatMap Prim.seen)
      (ms.map (WireMsg.report proto dir)) := by
    rw [hps]
    exact hat.track hp.reads.pos (hp.ahead ms hms)
  have hsettles : Settles env (protoOps env proto) Settled dir (r, c) := by
    refine ⟨?_, ⟨proto, hpin⟩, htrack.wf hp.reads hs, hslab, hset⟩
    rw [connOps, hpin]
    rfl
  rw [List.flatMap_append] at htrack
  refine framePrims_owes he hp.lawful hp.hole hp.reads hsettles ps ?_ ⟨hs, _, htrack, rfl⟩
  intro hblind
  obtain ⟨hmid, -⟩ := framePrims_settles he hp.lawful hp.hole hsettles ps
  obtain ⟨-, hg⟩ := framePrims_settles he hp.lawful hp.hole hmid qs
  apply hb
  rw [framePrims, List.foldl_append]
  exact hg.flags.blind hblind

theorem framePrims_pin (env : Env φ) (dir : Dir) (r : Reasm) (c : FConn φ) (ps : List Prim) :
    (framePrims env dir (r, c) ps).1 = (framePrims env dir (r, c.pin) ps).1 ∧
      (framePrims env dir (r, c) ps).2.frame dir = (framePrims env dir (r, c.pin) ps).2.frame dir ∧
      (framePrims env dir (r, c) ps).2.flags = (framePrims env dir (r, c.pin) ps).2.flags := by
  cases ps with
  | nil => exact ⟨rfl, (c.pin_frame dir).symm, rfl⟩
  | cons x ps => cases x <;> exact ⟨rfl, rfl, rfl⟩

theorem WireMsg.Sound.whole (h : WireMsg.Sound proto m) : m.whole.Sound proto := by
  have hlen : m.whole.body.length = m.body.length := by simp [WireMsg.whole, WireMsg.bytes]
  cases proto with
  | mysql =>
    intro x hx
    simp only [WireMsg.whole, List.head?_map, Option.mem_def, Option.map_eq_some_iff] at hx
    obtain ⟨_, _, rfl⟩ := hx
    rfl
  | _ =>
    simp only [WireMsg.Sound, hlen] at h ⊢
    exact h

theorem WireMsg.report_whole (proto : Proto) (dir : Dir) (m : WireMsg) :
    ((m.whole.report proto dir).type, (m.whole.report proto dir).len) =
      ((m.report proto dir).type, (m.report proto dir).len) := by
  have hb : m.whole.bytes = m.bytes := by simp [WireMsg.whole, WireMsg.bytes, Function.comp_def]
  cases proto <;> simp only [WireMsg.report, WireMsg.type, WireMsg.len, hb] <;> rfl

/-- Losses inside the bodies cost bytes of those bodies and nothing else. Whatever the losses and the
delivery, every message is reported with its type, its length and its body up to the first hole, so
the types and lengths are those of a delivery without losses, and the direction is never dirty. -/
theorem framing_hole_invariant (he : SinkOk env) (dir : Dir) (r : Reasm) (c : FConn φ)
    (hc : c.MsgFramed) (hslab : r.slabOk = true) (hat : AtBoundary (c.frame dir))
    (hs : inStartup (c.frame dir) dir = false) (hreply : dir = .send → c.flags.sslReply = false)
    (ms : List WireMsg) (hms : ∀ m ∈ ms, m.Sound (c.ops.getD .pg)) (ps : List Prim)
    (hps : ps.flatMap Prim.seen = ms.flatMap (WireMsg.cells (c.ops.getD .pg)))
    (hsight : (framePrims env dir (r, c) ps).2.flags.blind = c.flags.blind) :
    (∀ k, ((framePrims env dir (r, c) (ps.take k)).2.frame dir).st ≠ .dirty) ∧
      traceNotes (framePrims env dir (r, c) ps).1.trace =
        traceNotes r.trace ++ ms.map (WireMsg.report (c.ops.getD .pg) dir) ∧
      ∀ qs, qs.flatMap Prim.seen = (ms.map WireMsg.whole).flatMap (WireMsg.cells (c.ops.getD .pg)) →
        (framePrims env dir (r, c) qs).2.flags.blind = c.flags.blind →
        (traceNotes (framePrims env dir (r, c) qs).1.trace).map (fun n => (n.type, n.len)) =
          (traceNotes (framePrims env dir (r, c) ps).1.trace).map fun n => (n.type, n.len) := by
  obtain ⟨Settled, rd, view, note, hp, hset⟩ := c.lossy he hc hreply
  have hat' : AtBoundary (c.pin.frame dir) := by rw [FConn.pin_frame]; exact hat
  have hs' : inStartup (c.pin.frame dir) dir = false := by rw [FConn.pin_frame]; exact hs
  have hreports {ms : List WireMsg} {ps : List Prim} (hms : ∀ m ∈ ms, WireMsg.Sound (c.ops.getD .pg) m)
      (hps : ps.flatMap Prim.seen = ms.flatMap (WireMsg.cells (c.ops.getD .pg)))
      (hsight : (framePrims env dir (r, c) ps).2.flags.blind = c.flags.blind) :
      traceNotes (framePrims env dir (r, c) ps).1.trace =
        traceNotes r.trace ++ ms.map (WireMsg.report (c.ops.getD .pg) dir) := by
    obtain ⟨h₁, -, h₃⟩ := framePrims_pin env dir r c ps
    rw [h₃] at hsight
    obtain ⟨-, out, ht, htotal⟩ := hp.prims he (c := c.pin) rfl hslab hat' hs' hset hms ps []
      (by simpa using hps) (by rw [List.append_nil, hsight]; exact id)
    rw [h₁, ← htotal, ht.done, List.append_nil]
  refine ⟨?_, hreports hms hps hsight, ?_⟩
  · intro k
    obtain ⟨-, -, h₃⟩ := framePrims_pin env dir r c ps
    obtain ⟨-, h₂, -⟩ := framePrims_pin env dir r c (ps.take k)
    rw [h₃] at hsight
    obtain ⟨-, _, ht, -⟩ := hp.prims he (c := c.pin) rfl hslab hat' hs' hset hms (ps.take k)
      (ps.drop k) (by rwa [List.take_append_drop])
      (by rw [List.take_append_drop, hsight]; exact id)
    rw [h₂]
    exact ht.not_dirty
  · intro qs hqs hsight'
    have hwhole : ∀ m ∈ ms.map WireMsg.whole, WireMsg.Sound (c.ops.getD .pg) m := by
      intro m hm
      obtain ⟨m', hm', rfl⟩ := List.mem_map.1 hm
      exact (hms m' hm').whole
    rw [hreports hwhole hqs hsight', hreports hms hps hsight]
    simp only [List.map_append, List.map_map]
    congr 2
    funext m
    exact m.report_whole _ dir

end

/-- A DataRow that lost two of its bytes, and the ReadyForQuery behind it. -/
theorem framing_hole_invariant_row :
    let ps := [.bytes [0x44, 0, 0] 1, .bytes [0, 8, 1] 2, .hole 2, .bytes [4, 0x5a, 0, 0, 0, 5, 0x49] 3]
    let s := framePrims passiveEnv .send ({}, { cookie := 1 }) ps
    (s.2.frame .send).st ≠ .dirty ∧
      traceNotes s.1.trace = [⟨0x44, 8, [1], true⟩, ⟨0x5a, 5, [0x49], false⟩] := by
  have h := framing_hole_invariant passiveEnv_ok .send {} { cookie := 1 } (.inl rfl) rfl
    ⟨⟨rfl, fun _ => ⟨rfl, rfl⟩, nofun, Nat.le_refl _⟩, rfl, rfl, rfl⟩ rfl (fun _ => rfl)
    [⟨0x44, [⟨1, false⟩, ⟨2, true⟩, ⟨3, true⟩, ⟨4, false⟩]⟩, ⟨0x5a, [⟨0x49, false⟩]⟩]
    (by simp [WireMsg.Sound, lkPgMsgLenMax])
    [.bytes [0x44, 0, 0] 1, .bytes [0, 8, 1] 2, .hole 2, .bytes [4, 0x5a, 0, 0, 0, 5, 0x49] 3]
    (by decide) (by decide)
  refine ⟨h.1 4, ?_⟩
  rw [h.2.1]
  decide

end Latkit
