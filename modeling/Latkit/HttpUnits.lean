import Latkit.S3Dialect
import Latkit.FateQueue
import Latkit.HttpFrame

namespace Latkit

/-! What becomes of the units of a connection. -/

inductive HttpFate where
  | emitted (o : HttpQueryObs)
  | resync
  | close
  | lost
  deriving DecidableEq, Repr

def HttpFate.obs? : HttpFate → Option HttpQueryObs
  | .emitted o => some o
  | _ => none

def lkHttpDialectBase (resolve : LkHttpCfg → HttpUnit → LkRouteOut) : LkHttpDialect where
  errBody := false
  resolve := resolve
  reqField _ _ u := u
  reqHead _ _ u := u
  respField _ r := r
  readErr _ dr := dr
  obs _ _ o := o

/-- The hooks that read a request do not answer it. -/
structure LkHttpDialect.AsksOnly (d : LkHttpDialect) : Prop where
  field : ∀ cfg f u, (d.reqField cfg f u).haveResp = u.haveResp
  head : ∀ cfg rq u, (d.reqHead cfg rq u).haveResp = u.haveResp

theorem lkHttpDialectBase_asksOnly (resolve : LkHttpCfg → HttpUnit → LkRouteOut) :
    (lkHttpDialectBase resolve).AsksOnly := ⟨fun _ _ _ => rfl, fun _ _ _ => rfl⟩

def HttpHs.reported (s : HttpHs) : List HttpQueryObs :=
  s.out.filterMap fun e => match e with | .query _ o => some o | .session _ => none

/-- The units in flight as a queue: a unit is marked when it is answered. -/
def HttpConn.queue (hc : HttpConn) : FateQueue.State := { head := hc.headSeq, marks := hc.units.map HttpUnit.haveResp }

/-- A move of the queue, and what the counters and the calls say of it. -/
structure Books (s : HttpHs) (mv : FateQueue.Move HttpFate) (s' : HttpHs) : Prop where
  queue : s'.hc.queue = s.hc.queue.next mv
  reported : s'.reported = s.reported ++ mv.fates.filterMap HttpFate.obs?
  queries : s'.st.queries = s.st.queries + (mv.fates.filterMap HttpFate.obs?).length
  resync : s'.st.unitsDroppedResync = s.st.unitsDroppedResync + mv.fates.count .resync
  close : s'.st.unitsDroppedClose = s.st.unitsDroppedClose + mv.fates.count .close

section
variable (d : LkHttpDialect) (cfg : LkHttpCfg)

def httpStep (s : HttpHs) : HttpEvent → HttpHs
  | .msg dir m => httpOnMsg d cfg dir m s
  | .resync dir => httpOnResync dir s

def httpRun (es : List HttpEvent) : HttpHs := es.foldl (httpStep d cfg) {}

def endMove (m : Msg) (hc : HttpConn) : FateQueue.Move HttpFate :=
  if hc.respOrphan then .stay
  else
    match hc.units with
    | [] => .stay
    | u :: _ =>
      if u.haveResp then .leave [.emitted (unitObsHttp d cfg hc.dr { u with tsComplete := m.ts })] else .leave [.lost]

def msgMove (hc : HttpConn) : Dir → Msg → FateQueue.Move HttpFate
  | .recv, m =>
    if m.type = lkHttpMsgReq ∧ (httpReadReq m.body).isSome ∧ hc.units.length < lkHttpMaxInflight then .enter else .stay
  | .send, m =>
    if m.type = lkHttpMsgResp ∧ (httpReadResp m.body).isSome then .mark
    else if m.type = lkHttpMsgEnd then endMove d cfg m hc
    else .stay

def unitMove (s : HttpHs) : HttpEvent → FateQueue.Move HttpFate
  | .msg dir m => msgMove d cfg s.hc dir m
  | .resync .recv => .leave (s.hc.units.map fun _ => .resync)
  | .resync .send => .leave ((s.hc.units.takeWhile HttpUnit.haveResp).map fun _ => .resync)

def closeFront (lastActivity : Nat) (hc : HttpConn) : List HttpFate :=
  match hc.units with
  | [] => []
  | u :: _ =>
    if u.haveResp then
      [.emitted (unitObsHttp d cfg hc.dr { u with
        tsComplete := lastActivity
        flags := { u.flags with bodyUnseen := u.flags.bodyUnseen || !u.toClose } })]
    else []

def closeMove (lastActivity : Nat) (hc : HttpConn) : FateQueue.Move HttpFate :=
  .leave (closeFront d cfg lastActivity hc ++
    List.replicate (hc.units.length - (closeFront d cfg lastActivity hc).length) .close)

variable {d cfg}

theorem Books.same (hq : s'.hc.queue = s.hc.queue) (hout : s'.reported = s.reported)
    (hst : s'.st.queries = s.st.queries) (hr : s'.st.unitsDroppedResync = s.st.unitsDroppedResync)
    (hc : s'.st.unitsDroppedClose = s.st.unitsDroppedClose) : Books s .stay s' :=
  ⟨hq, by rw [hout]; exact (List.append_nil _).symm, hst, hr, hc⟩

theorem Books.after (h : Books s .stay s₁) (h' : Books s₁ mv s') : Books s mv s' := by
  have hout : s₁.reported = s.reported := h.reported.trans (List.append_nil _)
  refine ⟨?_, ?_, ?_, ?_, ?_⟩
  · rw [h'.queue, h.queue]
    rfl
  · rw [h'.reported, hout]
  · rw [h'.queries, h.queries]
    rfl
  · rw [h'.resync, h.resync]
    rfl
  · rw [h'.close, h.close]
    rfl

theorem Books.before (h : Books s mv s₁) (h' : Books s₁ .stay s') : Books s mv s' := by
  have hout : s'.reported = s₁.reported := h'.reported.trans (List.append_nil _)
  refine ⟨?_, ?_, ?_, ?_, ?_⟩
  · rw [h'.queue, h.queue]
    rfl
  · rw [hout, h.reported]
  · rw [h'.queries, h.queries]
    rfl
  · rw [h'.resync, h.resync]
    rfl
  · rw [h'.close, h.close]
    rfl

theorem Books.append (h : Books s (.leave fs) s₁) (h' : Books s₁ (.leave gs) s') : Books s (.leave (fs ++ gs)) s' := by
  refine ⟨?_, ?_, ?_, ?_, ?_⟩
  · rw [h'.queue, h.queue]
    simp only [FateQueue.State.next, List.length_append, List.drop_drop, Nat.add_assoc]
  · rw [h'.reported, h.reported, List.append_assoc, ← List.filterMap_append]
    rfl
  · rw [h'.queries, h.queries, Nat.add_assoc, ← List.length_append, ← List.filterMap_append]
    rfl
  · rw [h'.resync, h.resync, Nat.add_assoc, ← List.count_append]
    rfl
  · rw [h'.close, h.close, Nat.add_assoc, ← List.count_append]
    rfl

theorem mapHc_books (s : HttpHs) (g : HttpConn → HttpConn) (h : (g s.hc).queue = s.hc.queue) :
    Books s .stay (s.mapHc g) :=
  .same h rfl rfl rfl rfl

theorem httpOrphan_books (s : HttpHs) : Books s .stay (httpOrphan s) := by
  rw [httpOrphan]
  split <;> exact .same rfl rfl rfl rfl rfl

theorem sessionEmit_books (u : HttpUnit) (ua : List Byte) (s : HttpHs) : Books s .stay (sessionEmit u ua s) := by
  rw [sessionEmit]
  split
  · exact .same rfl rfl rfl rfl rfl
  · refine .same rfl ?_ rfl rfl rfl
    simp only [HttpHs.reported, HttpHs.call, List.filterMap_append, HttpHs.bump, HttpHs.mapHc, List.filterMap_cons,
      List.filterMap_nil, List.append_nil]

theorem map_haveResp_modify (us : List HttpUnit) (i : Nat) (g : HttpUnit → HttpUnit)
    (h : ∀ u, (g u).haveResp = u.haveResp) :
    (us.modify i g).map HttpUnit.haveResp = us.map HttpUnit.haveResp := by
  induction us generalizing i with
  | nil => cases i <;> rfl
  | cons u us ih =>
    cases i with
    | zero => rw [List.modify_zero_cons, List.map_cons, List.map_cons, h]
    | succ i => rw [List.modify_succ_cons, List.map_cons, List.map_cons, ih]

theorem httpReqField_haveResp (hd : d.AsksOnly) (r : HttpReqRead) (f : HttpField) :
    (httpReqField d cfg r f).u.haveResp = r.u.haveResp := by
  rw [← hd.field cfg f r.u, httpReqField]
  repeat' split
  all_goals rfl

theorem httpReqUnit_haveResp (hd : d.AsksOnly) (m : Msg) (rl : HttpReqLine) (fields : List HttpField) :
    (httpReqUnit d cfg m rl fields).1.haveResp = false := by
  have hfold (r : HttpReqRead) : (fields.foldl (httpReqField d cfg) r).u.haveResp = r.u.haveResp := by
    induction fields generalizing r with
    | nil => rfl
    | cons f fields ih => rw [List.foldl_cons, ih, httpReqField_haveResp hd]
  rw [httpReqUnit]
  dsimp only
  rw [hd.head]
  exact hfold _

theorem map_haveResp_push (us : List HttpUnit) (u : HttpUnit) :
    (unitPushHttp us u).map HttpUnit.haveResp = us.map HttpUnit.haveResp ++ [u.haveResp] := by
  rw [unitPushHttp]
  split
  · next h => rw [h]; rfl
  · rw [List.map_map, List.map_append]
    rfl

theorem httpReqHead_books (hd : d.AsksOnly) (m : Msg) (s : HttpHs) :
    Books s
      (if (httpReadReq m.body).isSome ∧ s.hc.units.length < lkHttpMaxInflight then .enter else .stay)
      (httpReqHead d cfg m s) := by
  rw [httpReqHead]
  cases hread : httpReadReq m.body with
  | none => simpa using httpOrphan_books s
  | some read =>
    obtain ⟨rl, fields⟩ := read
    dsimp only
    by_cases hfull : lkHttpMaxInflight ≤ s.hc.units.length
    · rw [if_neg (by omega), if_pos hfull]
      exact .same rfl rfl rfl rfl rfl
    · rw [if_pos ⟨rfl, by omega⟩, if_neg hfull]
      refine Books.before ?_ (sessionEmit_books _ _ _)
      refine ⟨?_, ?_, rfl, rfl, rfl⟩
      · simp only [HttpHs.mapHc, HttpConn.queue, map_haveResp_push, httpReqUnit_haveResp hd, FateQueue.State.next]
      · exact (List.append_nil _).symm

theorem httpRespHead_books (interim : Bool) (m : Msg) (s : HttpHs) :
    Books s (if (httpReadResp m.body).isSome ∧ interim = false then .mark else .stay) (httpRespHead d interim m s) := by
  rw [httpRespHead]
  cases hread : httpReadResp m.body with
  | none => simpa using httpOrphan_books s
  | some read =>
    obtain ⟨⟨code, minor⟩, fields⟩ := read
    dsimp only
    cases hus : s.hc.units with
    | nil =>
      have hstay : Books s .stay (httpOrphan (if !interim && s.hc.owed ≠ 0 then
          s.mapHc fun hc => { hc with owed := hc.owed - 1, respOrphan := true } else s)) := by
        refine Books.after ?_ (httpOrphan_books _)
        split
        · exact mapHc_books s _ rfl
        · exact .same rfl rfl rfl rfl rfl
      cases interim with
      | true => exact hstay
      | false =>
        -- marking an empty queue changes nothing
        refine ⟨hstay.queue.trans ?_, hstay.reported, hstay.queries, hstay.resync, hstay.close⟩
        simp [FateQueue.State.next, HttpConn.queue, hus]
    | cons u us =>
      cases interim with
      | true =>
        rw [if_neg (by simp)]
        dsimp only
        rw [if_pos rfl]
        refine mapHc_books s _ ?_
        simp only [HttpConn.queue, hus, List.map_cons]
        split <;> rfl
      | false =>
        refine ⟨?_, (List.append_nil _).symm, rfl, rfl, rfl⟩
        simp [FateQueue.State.next, HttpConn.queue, hus, HttpHs.mapHc, httpRespUnit]

theorem bodyDataHttp_books (dir : Dir) (m : Msg) (s : HttpHs) : Books s .stay (bodyDataHttp dir m s) := by
  cases dir with
  | recv =>
    rw [bodyDataHttp]
    split
    · exact httpOrphan_books s
    · exact mapHc_books s _ (FateQueue.State.ext rfl (map_haveResp_modify _ _ _ fun _ => rfl))
  | send =>
    rw [bodyDataHttp]
    split
    · exact .same rfl rfl rfl rfl rfl
    · cases hus : s.hc.units with
      | nil => exact httpOrphan_books s
      | cons u us =>
        refine mapHc_books s _ ?_
        simp only [HttpConn.queue, hus, List.map_cons]

theorem unitEmitHttp_books (u : HttpUnit) (s : HttpHs) :
    Books s (.leave [.emitted (unitObsHttp d cfg s.hc.dr u)]) ((unitEmitHttp d cfg u s).mapHc unitsPop) := by
  refine ⟨?_, ?_, rfl, rfl, rfl⟩
  · simp [unitEmitHttp, HttpConn.queue, FateQueue.State.next, HttpHs.mapHc, HttpHs.bump, HttpHs.call, unitsPop]
  · simp [unitEmitHttp, HttpHs.reported, HttpHs.mapHc, HttpHs.bump, HttpHs.call, FateQueue.Move.fates, HttpFate.obs?]

theorem bodyEndHttp_books (m : Msg) (s : HttpHs) :
    Books s .stay (bodyEndHttp d cfg .recv m s) ∧ Books s (endMove d cfg m s.hc) (bodyEndHttp d cfg .send m s) := by
  refine ⟨?_, ?_⟩
  · rw [bodyEndHttp]
    split
    · exact (mapHc_books s _ rfl).after (httpOrphan_books _)
    · exact mapHc_books s _ (FateQueue.State.ext rfl (map_haveResp_modify _ _ _ fun _ => rfl))
  · rw [bodyEndHttp, endMove]
    by_cases horphan : s.hc.respOrphan = true
    · rw [if_pos horphan, if_pos horphan]
      exact mapHc_books s _ rfl
    · rw [if_neg horphan, if_neg horphan]
      cases hus : s.hc.units with
      | nil => exact httpOrphan_books s
      | cons u us =>
        by_cases hresp : u.haveResp = true
        · simp only [hresp, if_true]
          exact unitEmitHttp_books _ s
        · simp only [hresp, Bool.false_eq_true, if_false]
          refine (httpOrphan_books s).after ⟨?_, (List.append_nil _).symm, rfl, rfl, rfl⟩
          simp [HttpConn.queue, FateQueue.State.next, HttpHs.mapHc, unitsPop]

theorem framerNoteHttp_books (m : Msg) (s : HttpHs) : Books s .stay (framerNoteHttp m s) := by
  rw [framerNoteHttp]
  dsimp only
  split
  · refine .same ?_ rfl rfl rfl rfl
    cases hus : s.hc.units <;> simp [HttpHs.mapHc, HttpHs.bump, HttpConn.queue, hus]
  · exact .same rfl rfl rfl rfl rfl

theorem msgMove_recv (hc : HttpConn) (hreq : m.type ≠ lkHttpMsgReq) : msgMove d cfg hc .recv m = .stay := by
  rw [msgMove, if_neg fun h => hreq h.1]

theorem msgMove_send (hc : HttpConn) (hresp : m.type ≠ lkHttpMsgResp) (hend : m.type ≠ lkHttpMsgEnd) :
    msgMove d cfg hc .send m = .stay := by
  rw [msgMove, if_neg fun h => hresp h.1, if_neg hend]

theorem msgMove_stay (hc : HttpConn) (dir : Dir) (hreq : m.type ≠ lkHttpMsgReq) (hresp : m.type ≠ lkHttpMsgResp)
    (hend : m.type ≠ lkHttpMsgEnd) : msgMove d cfg hc dir m = .stay := by
  cases dir with
  | recv => exact msgMove_recv hc hreq
  | send => exact msgMove_send hc hresp hend

theorem httpOnMsg_books (hd : d.AsksOnly) (dir : Dir) (m : Msg) (s : HttpHs) :
    Books s (msgMove d cfg s.hc dir m) (httpOnMsg d cfg dir m s) := by
  rw [httpOnMsg]
  generalize hs₁ : (s.bump fun st => { st with msgs := st.msgs + 1 }) = s₁
  have hbump : Books s .stay s₁ := by
    rw [← hs₁]
    exact .same rfl rfl rfl rfl rfl
  have hhc : s.hc = s₁.hc := by
    rw [← hs₁]
    rfl
  rw [hhc]
  refine hbump.after ?_
  by_cases hnote : m.type = lkHttpMsgNote
  · rw [if_pos hnote, msgMove_stay _ _ (by rw [hnote]; decide) (by rw [hnote]; decide) (by rw [hnote]; decide)]
    exact framerNoteHttp_books m s₁
  rw [if_neg hnote]
  by_cases hreq : m.type = lkHttpMsgReq
  · rw [if_pos hreq]
    cases dir with
    | recv =>
      rw [if_pos rfl, msgMove]
      simp only [hreq, true_and]
      exact httpReqHead_books hd m s₁
    | send =>
      rw [if_neg (by decide), msgMove_send _ (by rw [hreq]; decide) (by rw [hreq]; decide)]
      exact .same rfl rfl rfl rfl rfl
  rw [if_neg hreq]
  by_cases hresp : m.type = lkHttpMsgResp ∨ m.type = lkHttpMsgInter
  · rw [if_pos hresp]
    cases dir with
    | recv =>
      rw [if_neg (by decide), msgMove_recv _ hreq]
      exact .same rfl rfl rfl rfl rfl
    | send =>
      rw [if_pos rfl]
      have hmove : msgMove d cfg s₁.hc .send m =
          if (httpReadResp m.body).isSome ∧ (m.type == lkHttpMsgInter) = false then .mark else .stay := by
        rw [msgMove]
        rcases hresp with htype | htype
        · rw [htype, show (lkHttpMsgResp == lkHttpMsgInter) = false by decide]
          simp only [true_and, and_true, show lkHttpMsgResp ≠ lkHttpMsgEnd by decide, if_false]
        · rw [htype, beq_self_eq_true]
          simp only [show lkHttpMsgInter ≠ lkHttpMsgResp by decide, show lkHttpMsgInter ≠ lkHttpMsgEnd by decide,
            false_and, and_false, if_false, Bool.true_eq_false]
      rw [hmove]
      exact httpRespHead_books _ m s₁
  rw [if_neg hresp]
  rw [not_or] at hresp
  by_cases hdata : m.type = lkHttpMsgData
  · rw [if_pos hdata, msgMove_stay _ _ hreq hresp.1 (by rw [hdata]; decide)]
    exact bodyDataHttp_books dir m s₁
  rw [if_neg hdata]
  by_cases hend : m.type = lkHttpMsgEnd
  · rw [if_pos hend]
    cases dir with
    | recv =>
      rw [msgMove_recv _ hreq]
      exact (bodyEndHttp_books m s₁).1
    | send =>
      rw [msgMove, if_neg fun h => hresp.1 h.1, if_pos hend]
      exact (bodyEndHttp_books m s₁).2
  rw [if_neg hend, msgMove_stay _ _ hreq hresp.1 hend]
  split
  · split
    · exact mapHc_books s₁ _ rfl
    · exact .same rfl rfl rfl rfl rfl
  · exact .same rfl rfl rfl rfl rfl

theorem Books.resynced {s s' : HttpHs} (us : List HttpUnit)
    (hqueue : s'.hc.queue = s.hc.queue.next (.leave (us.map fun _ => HttpFate.resync)))
    (hreported : s'.reported = s.reported) (hqueries : s'.st.queries = s.st.queries)
    (hresync : s'.st.unitsDroppedResync = s.st.unitsDroppedResync + us.length)
    (hclose : s'.st.unitsDroppedClose = s.st.unitsDroppedClose) : Books s (.leave (us.map fun _ => .resync)) s' := by
  have hobs : (us.map fun _ => HttpFate.resync).filterMap HttpFate.obs? = [] := by
    rw [List.filterMap_map]
    exact List.filterMap_eq_nil_iff.mpr fun _ _ => rfl
  refine ⟨hqueue, ?_, ?_, ?_, ?_⟩
  · rw [FateQueue.Move.fates, hobs, List.append_nil, hreported]
  · rw [FateQueue.Move.fates, hobs, hqueries]
    rfl
  · rw [FateQueue.Move.fates, List.map_const', List.count_replicate_self, hresync]
  · rw [FateQueue.Move.fates, List.map_const', List.count_replicate, hclose]
    rfl

theorem httpOnResync_books (dir : Dir) (s : HttpHs) :
    Books s (unitMove d cfg s (.resync dir)) (httpOnResync dir s) := by
  cases dir with
  | recv =>
    refine .resynced s.hc.units ?_ rfl rfl rfl rfl
    simp [httpOnResync, HttpConn.queue, HttpHs.mapHc, HttpHs.bump, FateQueue.State.next, unitsDropAllHttp, HttpConn.openSeq]
  | send =>
    refine .resynced (s.hc.units.takeWhile HttpUnit.haveResp) ?_ rfl rfl rfl rfl
    simp [httpOnResync, HttpConn.queue, HttpHs.mapHc, HttpHs.bump, FateQueue.State.next]

theorem dropAll_books (s : HttpHs) :
    Books s (.leave (List.replicate s.hc.units.length .close))
      ((s.bump fun st => { st with unitsDroppedClose := st.unitsDroppedClose + s.hc.units.length }).mapHc
        unitsDropAllHttp) := by
  have hobs : (List.replicate s.hc.units.length HttpFate.close).filterMap HttpFate.obs? = [] :=
    List.filterMap_replicate_of_none rfl
  refine ⟨?_, ?_, ?_, ?_, ?_⟩
  · simp [HttpConn.queue, HttpHs.mapHc, HttpHs.bump, FateQueue.State.next, unitsDropAllHttp, HttpConn.openSeq]
  · rw [FateQueue.Move.fates, hobs, List.append_nil]
    rfl
  · rw [FateQueue.Move.fates, hobs]
    rfl
  · rw [FateQueue.Move.fates, List.count_replicate]
    rfl
  · rw [FateQueue.Move.fates, List.count_replicate_self]
    rfl

theorem httpOnConnClose_front (lastActivity : Nat) (s : HttpHs) :
    ∃ s₁, httpOnConnClose d cfg lastActivity s =
        (s₁.bump fun st => { st with unitsDroppedClose := st.unitsDroppedClose + s₁.hc.units.length }).mapHc
          unitsDropAllHttp ∧
      Books s (.leave (closeFront d cfg lastActivity s.hc)) s₁ := by
  refine ⟨_, rfl, ?_⟩
  rw [closeFront]
  cases hus : s.hc.units with
  | nil => exact ⟨rfl, (List.append_nil _).symm, rfl, rfl, rfl⟩
  | cons u us =>
    by_cases hresp : u.haveResp = true
    · simp only [hresp, if_true]
      exact unitEmitHttp_books _ s
    · simp only [hresp, Bool.false_eq_true, if_false]
      exact ⟨rfl, (List.append_nil _).symm, rfl, rfl, rfl⟩

theorem httpOnConnClose_books (lastActivity : Nat) (s : HttpHs) :
    Books s (closeMove d cfg lastActivity s.hc) (httpOnConnClose d cfg lastActivity s) := by
  obtain ⟨s₁, heq, h⟩ := @httpOnConnClose_front d cfg lastActivity s
  have hlen : s₁.hc.units.length = s.hc.units.length - (closeFront d cfg lastActivity s.hc).length := by
    have := congrArg (fun q => q.marks.length) h.queue
    simpa [HttpConn.queue, FateQueue.State.next] using this
  rw [heq, closeMove, ← hlen]
  exact h.append (dropAll_books s₁)

theorem httpStep_books (hd : d.AsksOnly) (s : HttpHs) (e : HttpEvent) :
    Books s (unitMove d cfg s e) (httpStep d cfg s e) := by
  cases e with
  | msg dir m => exact httpOnMsg_books hd dir m s
  | resync dir => exact httpOnResync_books dir s

end

end Latkit
