import Latkit.PgRing

namespace Latkit
open Inflight (UnitRing)

/-- An observation without its pipelining and COPY bytes. -/
def QueryObs.view (o : QueryObs) : QueryObs :=
  { o with bytes := 0, flags := { o.flags with pipelined := false } }

def readyStatus (m : Msg) : Byte :=
  match pgWireGetU8 m.body with
  | some (sb, _) => sb
  | none => 0

def PgUnit.reported (m : Msg) (u : PgUnit) : QueryObs :=
  u.obs none (if u.flags.aborted then 0 else m.ts) (readyStatus m)

theorem obs_view (prep : Option PgPrepCache) (u : PgUnit) (ready : Nat) (status : Byte) :
    (u.obs prep ready status).view = (u.view prep).obs none ready status := by
  have htext : fillText none (u.view prep) = fillText prep u := by
    cases hn : u.flags.noText with
    | true => simp [fillText, PgUnit.view, hn]
    | false => simp [fillText, PgUnit.view, hn]
  simp only [PgUnit.obs, htext]
  rfl

theorem ready_view (prep : Option PgPrepCache) (ts : Nat) (u : PgUnit) :
    (u.ready ts).view prep = (u.view prep).ready ts := by
  simp only [PgUnit.ready, PgUnit.zClosed_view]
  change _ = if (u.zClosed && u.tsComplete == 0) = true then _ else _
  split <;> rfl

theorem readyUnits_view (prep : Option PgPrepCache) (r : UnitRing PgUnit) (ts : Nat) :
    (readyUnits r ts).map (PgUnit.view prep) = readyUnits (r.map (PgUnit.view prep)) ts := by
  simp only [readyUnits, UnitRing.map, List.filter_map, List.map_append, List.map_map]
  congr 1 <;> apply List.map_congr_left <;> intro u _ <;> exact ready_view prep ts u

theorem emitUnit_foldl (m : Msg) (us : List PgUnit) (s : PgState) :
    (us.foldl (fun s u => emitUnit s u (if u.flags.aborted then 0 else m.ts) (readyStatus m)) s).pc = s.pc ∧
      queries (us.foldl (fun s u =>
        emitUnit s u (if u.flags.aborted then 0 else m.ts) (readyStatus m)) s).p.out =
        queries s.p.out ++ us.map fun u =>
          u.obs s.pc.prep (if u.flags.aborted then 0 else m.ts) (readyStatus m) := by
  induction us generalizing s with
  | nil => simp
  | cons u us ih =>
    obtain ⟨hpc, hout⟩ := ih (emitUnit s u (if u.flags.aborted then 0 else m.ts) (readyStatus m))
    refine ⟨hpc, ?_⟩
    rw [List.foldl_cons, hout]
    simp [emitUnit, LkProto.call, LkProto.bump, queries]

theorem trackTxn_queries (s : PgState) (ts : Nat) (status : Byte) :
    queries (trackTxn s ts status).p.out = queries s.p.out := by
  simp only [trackTxn]
  repeat' split
  all_goals simp [queries, LkProto.call]

theorem trackTxn_pc (s : PgState) (ts : Nat) (status : Byte) :
    (trackTxn s ts status).pc.phase = s.pc.phase ∧ (trackTxn s ts status).pc.lossy = s.pc.lossy ∧
      (trackTxn s ts status).pc.degraded = s.pc.degraded ∧ (trackTxn s ts status).pc.ring = s.pc.ring ∧
      (trackTxn s ts status).pc.prep = s.pc.prep := by
  simp only [trackTxn]
  repeat' split
  all_goals exact ⟨rfl, rfl, rfl, rfl, rfl⟩

structure PgConn.Idle (pc : PgConn) : Prop where
  phase : pc.phase = .ready
  lossy : pc.lossy = false
  degraded : pc.degraded = false
  ring : pc.ring = {}

theorem PgConn.Idle.live {pc : PgConn} (h : pc.Idle) : pc.Live where
  phase := by
    rw [h.phase]
    rfl
  lossy := h.lossy
  degraded := h.degraded
  refs := by
    rw [PgConn.RefsOk, h.ring]
    exact fun _ hu => absurd hu List.not_mem_nil

theorem PgConn.Idle.view {pc : PgConn} (h : pc.Idle) : pc.view = {} := by
  rw [PgConn.view, h.ring]
  rfl

theorem PgPhase.settle_live {phase : PgPhase} (h : phase.live = true) : phase.settle = .ready := by
  cases phase <;> first | rfl | cases h

theorem pgQueryReady_eq (s : PgState) (m : Msg) (h : s.pc.lossy = false) :
    pgQueryReady s m =
      let s := (readyUnits s.pc.ring m.ts).foldl
        (fun s u => emitUnit s u (if u.flags.aborted then 0 else m.ts) (readyStatus m)) s
      trackTxn (s.withPc { s.pc with
        ring := {}, lossy := false, degraded := false, phase := s.pc.phase.settle }) m.ts
        (readyStatus m) := by
  rw [pgQueryReady, if_neg (by simp [h])]
  rfl

theorem pgQueryReady_lossy (s : PgState) (m : Msg) (h : s.pc.lossy = true) :
    pgQueryReady s m = trackTxn (s.withPc { s.pc with
      ring := {}, lossy := false, degraded := false, phase := s.pc.phase.settle }) m.ts (readyStatus m) := by
  rw [pgQueryReady, if_pos h]
  rfl

/-- The Z reports the units in flight, each once, and leaves nothing behind. -/
theorem pgBackendMsg_ready {s : PgState} (h : s.pc.Live) (hk : beKind m.type = .ready) :
    (pgBackendMsg s m).pc.Idle ∧ (pgBackendMsg s m).pc.prep = s.pc.prep ∧
      ∃ obs, queries (pgBackendMsg s m).p.out = queries s.p.out ++ obs ∧
        obs.map QueryObs.view = (readyUnits s.pc.view m.ts).map (PgUnit.reported m) := by
  obtain ⟨hpc, hout⟩ := emitUnit_foldl m (readyUnits s.pc.ring m.ts) s
  rw [pgBackendMsg, if_neg h.not_ignore, hk]
  simp only [pgQueryReady_eq s m h.lossy, hpc]
  obtain ⟨hphase, hlossy, hdegraded, hring, hprep⟩ := trackTxn_pc _ m.ts (readyStatus m)
  refine ⟨⟨hphase.trans (PgPhase.settle_live h.phase), hlossy, hdegraded, hring⟩, hprep, _,
    (trackTxn_queries _ _ _).trans hout, ?_⟩
  rw [List.map_map, PgConn.view, ← readyUnits_view, List.map_map]
  apply List.map_congr_left
  intro u _
  exact obs_view s.pc.prep u _ _

end Latkit
