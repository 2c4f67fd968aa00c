import Latkit.PgTxn

namespace Latkit
open Inflight (UnitRing)

def PgUnit.origin (u : PgUnit) : QueryKind × Nat := (u.kind, u.tsStart)

def PgConn.origins (pc : PgConn) : List (QueryKind × Nat) := pc.ring.all.map PgUnit.origin

theorem PgConn.origins_length (pc : PgConn) : pc.origins.length = pc.ring.count := by
  simp [PgConn.origins, UnitRing.all, UnitRing.count]

def PgUnit.KeepsOrigin (g : PgUnit → PgUnit) : Prop := ∀ u, (g u).origin = u.origin

theorem dataRow_origin (ts : Nat) : PgUnit.KeepsOrigin (PgUnit.dataRow ts) := by
  intro u
  rw [PgUnit.dataRow]
  split <;> rfl

theorem ready_origin (ts : Nat) : PgUnit.KeepsOrigin (PgUnit.ready ts) := by
  intro u
  rw [PgUnit.ready]
  split <;> rfl

theorem closeReply_origin {g : PgUnit → PgUnit} (hg : PgUnit.KeepsOrigin g) (r : UnitRing PgUnit) :
    (closeReply g r).all.map PgUnit.origin = r.all.map PgUnit.origin := by
  rw [closeReply]
  split
  · exact UnitRing.all_modify hg r
  · exact UnitRing.all_close hg r

theorem errorReply_origin {g : PgUnit → PgUnit} (hg : PgUnit.KeepsOrigin g) (r : UnitRing PgUnit) :
    (errorReply g r).all.map PgUnit.origin = r.all.map PgUnit.origin := by
  rw [errorReply]
  split
  · exact UnitRing.all_modify hg r
  · exact UnitRing.all_abort hg (k := PgUnit.aborted) (fun _ => rfl) r

theorem ringPush_origins (pc : PgConn) (u : PgUnit) :
    (pc.ringPush u).origins = pc.origins ++ [u.origin] := by
  have hpush : (pc.ring.push u).all.map PgUnit.origin = pc.origins ++ [u.origin] := by
    simp [PgConn.origins, UnitRing.all, UnitRing.push]
  simp only [PgConn.ringPush, PgConn.origins]
  split
  · rw [UnitRing.all_map, List.map_map]
    exact hpush
  · exact hpush

def readyObs (pc : PgConn) (m : Msg) : List QueryObs :=
  if pc.lossy then []
  else (readyUnits pc.ring m.ts).map fun u =>
    u.obs pc.prep (if u.flags.aborted then 0 else m.ts) (readyStatus m)

structure UnitView where
  pc : PgConn
  obs : List QueryObs
  parseErrors : Nat

def PgState.unitView (s : PgState) : UnitView := ⟨s.pc, queries s.p.out, s.p.st.parseErrors⟩

def PgLink.unitView (l : PgLink) : UnitView := ⟨l.conn, queries l.p.out, l.p.st.parseErrors⟩

inductive PgMove (v : UnitView) (m : Msg) (v' : UnitView) : Prop
  /-- Units are answered in place; a CancelRequest is reported on its own. -/
  | keep (cancels : List QueryObs) (cancel : ∀ o ∈ cancels, o = { kind := .cancel })
      (obs : v'.obs = v.obs ++ cancels) (origins : v'.pc.origins = v.pc.origins)
      (degraded : v'.pc.degraded = v.pc.degraded) (parsed : v'.parseErrors = v.parseErrors)
  /-- A unit opens behind the others. -/
  | opened (kind : QueryKind) (obs : v'.obs = v.obs) (inStep : v.pc.degraded = false)
      (fits : v.pc.ring.count < lkPgMaxInflight)
      (origins : v'.pc.origins = v.pc.origins ++ [(kind, m.ts)])
      (degraded : v'.pc.degraded = false) (parsed : v'.parseErrors = v.parseErrors)
  /-- All units are given up. -/
  | lost (obs : v'.obs = v.obs) (ring : v'.pc.ring = {})
  /-- A Z reports what was answered. -/
  | ready (obs : v'.obs = v.obs ++ readyObs v.pc m) (ring : v'.pc.ring = {})

theorem PgMove.still {v v' : UnitView} (hobs : v'.obs = v.obs) (horigins : v'.pc.origins = v.pc.origins)
    (hdegraded : v'.pc.degraded = v.pc.degraded) (hparsed : v'.parseErrors = v.parseErrors) :
    PgMove v m v' :=
  .keep [] nofun (by rw [hobs, List.append_nil]) horigins hdegraded hparsed

theorem PgMove.refl (v : UnitView) (m : Msg) : PgMove v m v := .still rfl rfl rfl rfl

theorem rescue_origin (slot : Nat) (e : PgPrep) : PgUnit.KeepsOrigin (PgUnit.rescue slot e) := by
  intro u
  rw [PgUnit.rescue]
  split <;> rfl

theorem reuse_origins (pc : PgConn) (r : SlotReuse) : (pc.reuse r).origins = pc.origins := by
  change (pc.ring.map (PgUnit.rescue r.slot (r.before.slot r.slot))).all.map PgUnit.origin = _
  rw [UnitRing.all_map, List.map_map]
  exact List.map_congr_left fun u _ => rescue_origin _ _ u

section
variable {s : PgState} {m : Msg}

theorem PgMove.push {u : PgUnit} {prep : Option PgPrepCache} (hd : s.pc.degraded = false)
    (hfull : s.pc.full = false) (hts : u.tsStart = m.ts) :
    PgMove s.unitView m (s.withPc (PgConn.ringPush { s.pc with prep } u)).unitView := by
  have hfits : s.pc.ring.count < lkPgMaxInflight := by
    simp only [PgConn.full, Bool.or_eq_false_iff, decide_eq_false_iff_not, Nat.not_le] at hfull
    exact hfull.2
  refine .opened u.kind rfl hd hfits ?_ hd rfl
  rw [← hts]
  exact ringPush_origins { s.pc with prep } u

theorem boundUnit_tsStart (prep : Option PgPrepCache) (m : Msg) : (boundUnit prep m).2.tsStart = m.ts := by
  obtain h | ⟨_, _, _, _, _, _, h⟩ := boundUnit_cases prep m <;> rw [h]

theorem pgSessionStartup_move (s : PgState) (m : Msg) : PgMove s.unitView m (pgSessionStartup s m).unitView := by
  rw [pgSessionStartup]
  split
  · exact .refl s.unitView m
  · split
    · exact .still rfl rfl rfl rfl
    · split
      · refine .keep [{ kind := .cancel }] (fun o ho => List.mem_singleton.mp ho) ?_ rfl rfl rfl
        simp [PgState.unitView, emitCancel, queries, LkProto.call, LkProto.bump]
      · exact .refl s.unitView m

theorem pgFrontendMsg_move (s : PgState) (m : Msg) : PgMove s.unitView m (pgFrontendMsg s m).unitView := by
  rw [pgFrontendMsg]
  split
  · exact .refl s.unitView m
  split
  · exact pgSessionStartup_move s m
  cases feKind m.type with
  | query =>
    simp only [pgQuerySimple]
    split
    · exact .refl s.unitView m
    · next hopen =>
      split
      · exact .still rfl rfl rfl rfl
      · next hfull => exact .push (by simp_all) (by simpa using hfull) rfl
  | parse =>
    simp only [pgPrepParse]
    split
    · exact .refl s.unitView m
    · refine .still ?_ (reuse_origins _ _) rfl ?_
      · simp only [PgState.unitView]
        split <;> rfl
      · simp only [PgState.unitView]
        split <;> rfl
  | bind =>
    simp only [pgQueryBind]
    split
    · exact .refl s.unitView m
    · next hopen =>
      split
      · exact .still rfl rfl rfl rfl
      · next hfull => exact .push (by simp_all) (by simpa using hfull) (boundUnit_tsStart _ m)
  | function =>
    simp only [pgQueryFunction]
    split
    · exact .refl s.unitView m
    · next hopen =>
      split
      · exact .still rfl rfl rfl rfl
      · next hfull => exact .push (by simp_all) (by simpa using hfull) rfl
  | close =>
    simp only [pgPrepClose]
    split
    · exact .refl s.unitView m
    · exact .still rfl (reuse_origins _ _) rfl rfl
  | copyData => exact .still rfl (UnitRing.all_modify (g := PgUnit.copyData m.len) (fun _ => rfl) _) rfl rfl
  | sync => exact .refl s.unitView m
  | neutral => exact .refl s.unitView m
  | unknown => exact .still rfl rfl rfl rfl

theorem pgQueryReady_move (s : PgState) (m : Msg) : PgMove s.unitView m (pgQueryReady s m).unitView := by
  obtain ⟨_, _, _, hring⟩ := pgQueryReady_pc s m
  refine .ready ?_ hring
  change queries (pgQueryReady s m).p.out = queries s.p.out ++ readyObs s.pc m
  rw [readyObs]
  cases hl : s.pc.lossy with
  | true =>
    rw [pgQueryReady_lossy s m hl, trackTxn_queries, if_pos rfl, List.append_nil]
    rfl
  | false =>
    obtain ⟨hpc, hout⟩ := emitUnit_foldl m (readyUnits s.pc.ring m.ts) s
    simp only [pgQueryReady_eq s m hl, trackTxn_queries]
    exact hout

theorem pgBackendMsg_move (s : PgState) (m : Msg) : PgMove s.unitView m (pgBackendMsg s m).unitView := by
  rw [pgBackendMsg]
  split
  · exact .refl s.unitView m
  cases beKind m.type with
  | ready => exact pgQueryReady_move s m
  | auth =>
    simp only [pgSessionAuth]
    split
    · exact .refl s.unitView m
    · split
      · refine .still ?_ rfl rfl rfl
        simp [PgState.unitView, queries, LkProto.call, LkProto.bump]
      · exact .refl s.unitView m
  | paramStatus =>
    simp only [pgSessionParamStatus]
    split
    · exact .still rfl rfl rfl rfl
    · exact .refl s.unitView m
  | dataRow => exact .still rfl (UnitRing.all_modify (dataRow_origin m.ts) _) rfl rfl
  | complete =>
    simp only [pgQueryComplete]
    split
    · exact .refl s.unitView m
    · split
      · exact .still rfl (closeReply_origin (g := PgUnit.complete _ m.ts) (fun _ => rfl) _) rfl rfl
      · split
        · exact .still rfl (closeReply_origin (g := PgUnit.complete 0 m.ts) (fun _ => rfl) _) rfl rfl
        · exact .lost rfl rfl
  | empty => exact .still rfl (closeReply_origin (g := PgUnit.empty m.ts) (fun _ => rfl) _) rfl rfl
  | suspended => exact .still rfl (UnitRing.all_close (g := PgUnit.suspended m.ts) (fun _ => rfl) _) rfl rfl
  | error => exact .still rfl (errorReply_origin (g := PgUnit.error _ m.ts) (fun _ => rfl) _) rfl rfl
  | funcResponse =>
    exact .still rfl (UnitRing.all_modify (g := PgUnit.funcResponse m.ts) (fun _ => rfl) _) rfl rfl
  | copyIn => exact .still rfl (UnitRing.all_modify (g := PgUnit.copyBegin .copyIn) (fun _ => rfl) _) rfl rfl
  | copyOut => exact .still rfl (UnitRing.all_modify (g := PgUnit.copyBegin .copyOut) (fun _ => rfl) _) rfl rfl
  | copyData => exact .still rfl (UnitRing.all_modify (g := PgUnit.copyData m.len) (fun _ => rfl) _) rfl rfl
  | copyBoth => exact .lost rfl rfl
  | neutral => exact .refl s.unitView m
  | unknown => exact .still rfl rfl rfl rfl

end

theorem pgConnGet_unitView (l : PgLink) : (pgConnGet l.p l.flags l.pc).unitView = l.unitView := by
  obtain ⟨p, flags, _ | pc⟩ := l <;> rfl

theorem pgEvent_move (l : PgLink) (dir : Dir) (m : Msg) :
    PgMove l.unitView m (pgEvent l (.msg dir m)).unitView := by
  have hcount : (countMsgs m (pgConnGet l.p l.flags l.pc)).unitView = l.unitView := pgConnGet_unitView l
  rw [← hcount]
  cases dir with
  | recv => exact pgFrontendMsg_move _ m
  | send => exact pgBackendMsg_move _ m

theorem pgConnNew_ring (flags : ConnFlags) : (pgConnNew flags).ring = {} := by
  rw [pgConnNew]
  split <;> rfl

theorem pgEvent_drops (l : PgLink) (e : PgEvent) (he : e = .resync ∨ e = .close) :
    (pgEvent l e).unitView.obs = l.unitView.obs ∧ (pgEvent l e).unitView.pc.ring = {} := by
  obtain rfl | rfl := he
  · obtain ⟨p, flags, _ | pc⟩ := l <;> exact ⟨rfl, rfl⟩
  · refine ⟨?_, pgConnNew_ring l.flags⟩
    obtain ⟨p, flags, _ | pc⟩ := l <;> rfl

end Latkit
