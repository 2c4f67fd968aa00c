import Latkit.RedisHandler

namespace Latkit

/-! What the handler's queue, its replies and its observations say of commands and answers, and what a
message does to that. -/

structure RedisAsked where
  tsStart : Nat
  bytesIn : Nat
  route : String
  argc : Nat
  blocking : Bool
  deriving DecidableEq, Repr

structure RedisSaid where
  tsComplete : Nat
  bytesOut : Nat
  errName : Option String
  redirect : LkRedisRedirect
  error : Bool
  clientErr : Bool
  queued : Bool
  deriving DecidableEq, Repr

def RedisUnit.asked (u : RedisUnit) : RedisAsked :=
  ⟨u.tsStart, u.bytes, lkRedisCmdName u.cmd, unitArgc u, u.flags.blocking⟩

def RedisReply.said (r : RedisReply) : RedisSaid :=
  ⟨r.endNs, r.bytes, r.errName, r.redirect, r.flags.error, r.flags.clientErr, r.flags.queued⟩

def RedisQueryObs.sides (o : RedisQueryObs) : RedisAsked × RedisSaid :=
  (⟨o.tsStart, o.bytesIn, o.route, o.redis.argc, o.flags.blocking⟩,
    ⟨o.tsComplete, o.bytesOut, o.errName, o.redis.redirect, o.flags.error, o.flags.clientErr, o.flags.queued⟩)

def redisPairs (out : List RedisUpcall) : List (RedisAsked × RedisSaid) :=
  out.filterMap fun
    | .query _ o => some o.sides
    | .txn _ _ _ => none

/-- The bits of a unit that only its reply may set are not set, and the other way round. -/
structure RedisUnit.Plain (u : RedisUnit) : Prop where
  error : u.flags.error = false
  clientErr : u.flags.clientErr = false
  queued : u.flags.queued = false

def RedisReply.Plain (r : RedisReply) : Prop := r.flags.blocking = false

structure RedisView where
  units : List RedisAsked
  owed : Nat
  early : List RedisSaid
  sub : Bool
  ignore : Bool
  pairs : List (RedisAsked × RedisSaid)
  overflow : Nat
  deriving DecidableEq, Repr

def RedisHs.view (s : RedisHs) : RedisView where
  units := s.rc.units.map RedisUnit.asked
  owed := s.rc.owed
  early := s.rc.early.map RedisReply.said
  sub := s.rc.sub
  ignore := s.flags.ignore
  pairs := redisPairs s.out
  overflow := s.st.unitsDroppedOverflow

structure RedisHs.Plain (s : RedisHs) : Prop where
  units : ∀ u ∈ s.rc.units, u.Plain
  early : ∀ r ∈ s.rc.early, r.Plain

section
variable (cfg : LkRedisCfg) {s : RedisHs} {u : RedisUnit} {r : RedisReply}

theorem unitObs_sides (rc : RedisConn) (hu : u.Plain) (hr : r.Plain) : (unitObs rc u r).sides = (u.asked, r.said) := by
  have hblocking : r.flags.blocking = false := hr
  simp only [RedisQueryObs.sides, unitObs, RedisQo.or, RedisUnit.asked, RedisReply.said, hu.error, hu.clientErr,
    hu.queued, hblocking, Bool.false_or, Bool.or_false]

theorem replyVerdict_plain (m : Msg) (endNs : Nat) : (replyVerdict m endNs).Plain := by
  simp only [replyVerdict, RedisReply.Plain]
  repeat' split
  all_goals rfl

theorem commandUnit_plain (m : Msg) (v : LkRedisArgv) (nelem : Option Nat) : (commandUnit m v nelem).Plain :=
  ⟨rfl, rfl, rfl⟩

theorem markPipelined_asked (u : RedisUnit) : (markPipelined u).asked = u.asked := rfl

theorem RedisUnit.Plain.mark (h : u.Plain) : (markPipelined u).Plain := ⟨h.error, h.clientErr, h.queued⟩

theorem sessionSetUser_eq (rc : RedisConn) (p : List Byte) :
    ∃ se, sessionSetUser cfg rc p = { rc with session := se } := by
  rw [sessionSetUser]
  split
  · exact ⟨rc.session, rfl⟩
  · exact ⟨_, rfl⟩

theorem sessionUserUnknown_eq (rc : RedisConn) : ∃ se, sessionUserUnknown cfg rc = { rc with session := se } := by
  rw [sessionUserUnknown]
  split
  · exact ⟨rc.session, rfl⟩
  · exact ⟨_, rfl⟩

theorem sessionApply_eq (rc : RedisConn) (u : RedisUnit) (seq : Nat) (err : Bool) :
    ∃ se, sessionApply cfg rc u seq err = { rc with session := se } := by
  have hdb : ∃ se, (if u.uflags.select then sessionSetDb rc u.db else rc) = { rc with session := se } := by
    split
    · exact ⟨_, rfl⟩
    · exact ⟨rc.session, rfl⟩
  obtain ⟨se, hse⟩ := hdb
  simp only [sessionApply, hse]
  split
  · exact ⟨rc.session, rfl⟩
  · split
    · obtain ⟨se', hse'⟩ := sessionSetUser_eq cfg (sessionSetDb rc 0) []
      exact ⟨se', hse'⟩
    · split
      · split
        · obtain ⟨se', hse'⟩ := sessionSetUser_eq cfg { rc with session := se }
            (rc.authUser.takeWhile (· ≠ 0))
          exact ⟨se', hse'⟩
        · obtain ⟨se', hse'⟩ := sessionUserUnknown_eq cfg { rc with session := se }
          exact ⟨se', hse'⟩
      · exact ⟨se, rfl⟩

theorem unitForget_eq (rc : RedisConn) (u : RedisUnit) : ∃ se, unitForget cfg rc u = { rc with session := se } := by
  have hdb : ∃ se, (if u.uflags.select || u.uflags.reset then sessionSetDb rc lkRedisDbUnknown else rc) =
      { rc with session := se } := by
    split
    · exact ⟨_, rfl⟩
    · exact ⟨rc.session, rfl⟩
  obtain ⟨se, hse⟩ := hdb
  simp only [unitForget, hse]
  split
  · obtain ⟨se', hse'⟩ := sessionUserUnknown_eq cfg { rc with session := se }
    exact ⟨se', hse'⟩
  · exact ⟨se, rfl⟩

theorem txnApply_eq (s : RedisHs) (u : RedisUnit) (r : RedisReply) :
    ∃ es start n, redisPairs es = [] ∧
      txnApply s u r = { s with out := s.out ++ es, rc := { s.rc with txnStart := start, txnN := n } } := by
  have hsame : ∃ es start n, redisPairs es = [] ∧
      s = { s with out := s.out ++ es, rc := { s.rc with txnStart := start, txnN := n } } :=
    ⟨[], s.rc.txnStart, s.rc.txnN, rfl, by rw [List.append_nil]⟩
  simp only [txnApply]
  split
  · split
    · exact ⟨[], u.tsStart, 0, rfl, by rw [List.append_nil]; rfl⟩
    · exact hsame
  · split
    · exact ⟨[], s.rc.txnStart, _, rfl, by rw [List.append_nil]; rfl⟩
    · split
      · exact hsame
      · split
        · exact hsame
        · exact ⟨[_], 0, 0, rfl, rfl⟩

theorem unitAnswer_eq (s : RedisHs) (u : RedisUnit) (r : RedisReply) :
    ∃ es se start n, redisPairs es = [(unitObs s.rc u r).sides] ∧
      unitAnswer cfg s u r =
        { s with
          st := (unitEmit s u r).st, out := s.out ++ es
          rc := { s.rc with
            session := se, txnStart := start, txnN := n, headSeq := s.rc.headSeq + 1, units := s.rc.units.tail } } := by
  obtain ⟨se, hse⟩ := sessionApply_eq cfg s.rc u s.rc.headSeq r.err
  have hanswer : unitAnswer cfg s u r =
      (txnApply ((unitEmit s u r).mapRc fun _ => { s.rc with session := se }) u r).mapRc fun rc =>
        { rc with headSeq := rc.headSeq + 1, units := rc.units.tail } := by
    rw [← hse]
    rfl
  obtain ⟨es, start, n, hes, htxn⟩ := txnApply_eq ((unitEmit s u r).mapRc fun _ => { s.rc with session := se }) u r
  rw [hanswer, htxn]
  refine ⟨.query s.rc.session (unitObs s.rc u r) :: es, se, start, n, ?_, ?_⟩
  · rw [redisPairs, List.filterMap_cons]
    exact congrArg _ hes
  · simp only [RedisHs.mapRc, unitEmit, RedisHs.call, RedisHs.bump, List.append_assoc, List.cons_append, List.nil_append]

theorem unitAnswer_view (hu : u.Plain) (hr : r.Plain) (s : RedisHs) : (unitAnswer cfg s u r).view =
    { s.view with units := s.view.units.tail, pairs := s.view.pairs ++ [(u.asked, r.said)] } := by
  obtain ⟨es, se, start, n, hes, heq⟩ := unitAnswer_eq cfg s u r
  have hst : (unitEmit s u r).st.unitsDroppedOverflow = s.st.unitsDroppedOverflow := rfl
  rw [unitObs_sides s.rc hu hr] at hes
  rw [heq]
  simp only [RedisHs.view, hst, List.map_tail]
  congr 1
  rw [redisPairs, List.filterMap_append]
  exact congrArg _ hes

theorem RedisHs.Plain.answer (h : s.Plain) (u : RedisUnit) (r : RedisReply) : (unitAnswer cfg s u r).Plain := by
  obtain ⟨es, se, start, n, -, heq⟩ := unitAnswer_eq cfg s u r
  rw [heq]
  exact ⟨fun u hu => h.units u (List.mem_of_mem_tail hu), h.early⟩

theorem redisOrphan_view (s : RedisHs) : (redisOrphan s).view = s.view := by
  rw [redisOrphan]
  split <;> rfl

theorem RedisHs.Plain.orphan (h : s.Plain) : (redisOrphan s).Plain := by
  rw [redisOrphan]
  split
  · exact h
  · exact ⟨h.units, h.early⟩

def assembling (fr : Option RedisFrame) : Bool := fr.any fun fr => redisValueOpen fr.recv

theorem unitClose_front (h : s.Plain) (hunits : s.rc.units = u :: us) (fr : Option RedisFrame) (m : Msg) (endNs : Nat) :
    (unitClose cfg fr m endNs s).Plain ∧
      (unitClose cfg fr m endNs s).view =
        { s.view with
          units := us.map RedisUnit.asked
          pairs := s.view.pairs ++ [(u.asked, (replyVerdict m endNs).said)] } := by
  have hu : u.Plain := by
    apply h.units
    rw [hunits]
    exact List.mem_cons_self ..
  simp only [unitClose, hunits]
  refine ⟨h.answer cfg u _, ?_⟩
  rw [unitAnswer_view cfg hu (replyVerdict_plain m endNs)]
  simp only [RedisHs.view, hunits, List.map_cons, List.tail_cons]

theorem unitClose_owed (h : s.Plain) (hunits : s.rc.units = []) (howed : s.rc.owed ≠ 0) (fr : Option RedisFrame)
    (m : Msg) (endNs : Nat) :
    (unitClose cfg fr m endNs s).Plain ∧
      (unitClose cfg fr m endNs s).view = { s.view with owed := s.rc.owed - 1 } := by
  simp only [unitClose, hunits]
  rw [if_pos howed]
  exact ⟨⟨h.units, h.early⟩, rfl⟩

theorem unitClose_held (h : s.Plain) (hunits : s.rc.units = []) (howed : s.rc.owed = 0)
    (hearly : s.rc.early.length < lkRedisMaxEarly) (hfr : assembling fr = true) (m : Msg) (endNs : Nat) :
    (unitClose cfg fr m endNs s).Plain ∧
      (unitClose cfg fr m endNs s).view =
        { s.view with early := s.view.early ++ [(replyVerdict m endNs).said] } := by
  simp only [unitClose, hunits]
  rw [if_neg (not_not_intro howed), if_pos ⟨hfr, hearly⟩]
  refine ⟨⟨h.units, ?_⟩, ?_⟩
  · intro r hr
    rw [RedisHs.mapRc, List.mem_append, List.mem_singleton] at hr
    rcases hr with hr | rfl
    · exact h.early r hr
    · exact replyVerdict_plain m endNs
  · simp only [RedisHs.view, RedisHs.mapRc, List.map_append, List.map_singleton]

theorem unitClose_orphan (h : s.Plain) (hunits : s.rc.units = []) (howed : s.rc.owed = 0)
    (hfr : assembling fr = false) (m : Msg) (endNs : Nat) :
    (unitClose cfg fr m endNs s).Plain ∧ (unitClose cfg fr m endNs s).view = s.view := by
  simp only [unitClose, hunits]
  rw [if_neg (not_not_intro howed), if_neg]
  · exact ⟨h.orphan, redisOrphan_view s⟩
  · rintro ⟨hopen, -⟩
    rw [assembling] at hfr
    rw [hfr] at hopen
    cases hopen

theorem batchNew_asked (rc : RedisConn) : (batchNew rc).units.map RedisUnit.asked = rc.units.map RedisUnit.asked := by
  simp only [batchNew, List.map_append, List.map_map]
  conv_rhs => rw [← List.take_append_drop (rc.batchSeq0 - rc.headSeq) rc.units, List.map_append]
  rfl

theorem RedisHs.Plain.batch (h : s.Plain) : (s.mapRc batchNew).Plain := by
  refine ⟨?_, h.early⟩
  intro u hu
  simp only [RedisHs.mapRc, batchNew, List.mem_append, List.mem_map] at hu
  rcases hu with hu | ⟨u, hu, rfl⟩
  · exact h.units u (List.mem_of_mem_take hu)
  · have hplain := h.units u (List.mem_of_mem_drop hu)
    exact ⟨hplain.error, hplain.clientErr, hplain.queued⟩

theorem unitPush_asked (us : List RedisUnit) (u : RedisUnit) :
    (unitPush us u).map RedisUnit.asked = us.map RedisUnit.asked ++ [u.asked] := by
  rw [unitPush]
  split
  · next hnil => rw [hnil]; rfl
  · next hne =>
    obtain ⟨init, last, rfl⟩ := (List.eq_nil_or_concat' us).resolve_left hne
    simp [List.modifyLast_concat, markPipelined_asked]

theorem unitPush_plain (h : ∀ u ∈ us, RedisUnit.Plain u) (hu : u.Plain) : ∀ u' ∈ unitPush us u, u'.Plain := by
  rw [unitPush]
  split
  · intro u' hmem
    rw [List.mem_singleton.mp hmem]
    exact hu
  · next hne =>
    obtain ⟨init, last, rfl⟩ := (List.eq_nil_or_concat' us).resolve_left hne
    simp only [List.modifyLast_concat, List.forall_mem_append, List.forall_mem_singleton] at h ⊢
    exact ⟨⟨h.1, h.2.mark⟩, hu.mark⟩

def commandArgv (m : Msg) : LkRedisArgv × Option Nat := redisReadArgv m.type m.body lkRedisArgvLabels

def commandFlags (m : Msg) : List LkRedisC := lkRedisCmdFlags (lkRedisCmd (commandArgv m).1)

/-- A command that the server answers, on a connection that does not subscribe. -/
structure RedisAsks (m : Msg) : Prop where
  some : (commandArgv m).2 ≠ some 0
  repl : .repl ∉ commandFlags m
  monitor : .monitor ∉ commandFlags m
  subon : .subon ∉ commandFlags m

def commandAsked (m : Msg) : RedisAsked := (commandUnit m (commandArgv m).1 (commandArgv m).2).asked

def commandEnter (m : Msg) (batchFirst : Bool) (s : RedisHs) : RedisHs :=
  (if batchFirst then s.mapRc batchNew else s).mapRc fun rc =>
    { rc with
      sub := if .reset ∈ commandFlags m then false else rc.sub || .subon ∈ commandFlags m
      batchN := (rc.batchN + 1) % 2 ^ 32 }

theorem commandEnter_view (h : RedisAsks m) (hsub : s.rc.sub = false) (batchFirst : Bool) :
    (commandEnter m batchFirst s).view = s.view := by
  have hoff : (if .reset ∈ commandFlags m then false else s.rc.sub || decide (.subon ∈ commandFlags m)) = s.rc.sub := by
    simp [h.subon, hsub]
  cases batchFirst with
  | false => simp only [commandEnter, RedisHs.view, RedisHs.mapRc, Bool.false_eq_true, if_false, hoff]
  | true =>
    have hsame : (batchNew s.rc).sub = s.rc.sub := rfl
    simp only [commandEnter, RedisHs.view, RedisHs.mapRc, if_true, batchNew_asked, hsame, hoff]
    rfl

theorem RedisHs.Plain.enter (h : s.Plain) (m : Msg) (batchFirst : Bool) : (commandEnter m batchFirst s).Plain := by
  cases batchFirst with
  | false => exact ⟨h.units, h.early⟩
  | true =>
    have hbatch := h.batch
    exact ⟨hbatch.units, hbatch.early⟩

def commandPush (m : Msg) (s : RedisHs) : RedisHs :=
  s.mapRc fun rc =>
    let rc := match lkRedisSession (lkRedisCmd (commandArgv m).1) (commandArgv m).1 with
      | .user user => authPark rc rc.openSeq user
      | _ => rc
    { rc with degraded := false, units := unitPush rc.units (commandUnit m (commandArgv m).1 (commandArgv m).2) }

theorem commandPush_eq (m : Msg) (s : RedisHs) :
    ∃ user seq, commandPush m s = s.mapRc fun rc =>
      { rc with
        authUser := user, authSeq := seq, degraded := false
        units := unitPush rc.units (commandUnit m (commandArgv m).1 (commandArgv m).2) } := by
  simp only [commandPush, RedisHs.mapRc]
  split
  · exact ⟨_, _, rfl⟩
  · exact ⟨s.rc.authUser, s.rc.authSeq, rfl⟩

theorem commandPush_view (m : Msg) (s : RedisHs) :
    (commandPush m s).view = { s.view with units := s.view.units ++ [commandAsked m] } := by
  obtain ⟨user, seq, heq⟩ := commandPush_eq m s
  rw [heq]
  simp only [RedisHs.view, RedisHs.mapRc, unitPush_asked]
  rfl

theorem RedisHs.Plain.push (h : s.Plain) (m : Msg) : (commandPush m s).Plain := by
  obtain ⟨user, seq, heq⟩ := commandPush_eq m s
  rw [heq]
  exact ⟨unitPush_plain h.units (commandUnit_plain ..), h.early⟩

theorem redisCommand_eq (hnelem : (commandArgv m).2 ≠ some 0) (hrepl : .repl ∉ commandFlags m)
    (hmonitor : .monitor ∉ commandFlags m) (batchFirst : Bool) (s : RedisHs) :
    redisCommand cfg m batchFirst s =
      if lkRedisMaxInflight ≤ (commandEnter m batchFirst s).rc.units.length then
        ((commandEnter m batchFirst s).bump fun st =>
          { st with unitsDroppedOverflow := st.unitsDroppedOverflow + 1 }).mapRc fun rc =>
            { rc with owed := (rc.owed + 1) % 2 ^ 32 }
      else if (commandEnter m batchFirst s).rc.early = [] then commandPush m (commandEnter m batchFirst s)
      else earlyClaim cfg (commandPush m (commandEnter m batchFirst s)) := by
  rw [commandArgv] at hnelem
  rw [commandFlags, commandArgv] at hrepl hmonitor
  have hearly : (commandPush m (commandEnter m batchFirst s)).rc.early = (commandEnter m batchFirst s).rc.early := by
    obtain ⟨user, seq, heq⟩ := commandPush_eq m (commandEnter m batchFirst s)
    rw [heq]
    rfl
  rw [← hearly]
  simp only [redisCommand, if_neg hnelem, if_neg hrepl, if_neg hmonitor]
  rfl

theorem units_length_of_view {t : RedisHs} (h : t.view = s.view) : t.rc.units.length = s.rc.units.length := by
  have hlen := congrArg (List.length ∘ RedisView.units) h
  simpa [RedisHs.view] using hlen

theorem early_of_view {t : RedisHs} (h : t.view = s.view) : t.rc.early = [] ↔ s.rc.early = [] := by
  have hearly : t.rc.early.map RedisReply.said = s.rc.early.map RedisReply.said := congrArg RedisView.early h
  rw [← List.map_eq_nil_iff (f := RedisReply.said), hearly, List.map_eq_nil_iff]

theorem commandPush_early (m : Msg) (batchFirst : Bool) (s : RedisHs) :
    (commandPush m (commandEnter m batchFirst s)).rc.early = s.rc.early := by
  obtain ⟨user, seq, heq⟩ := commandPush_eq m (commandEnter m batchFirst s)
  rw [heq]
  cases batchFirst <;> rfl

section
variable (h : s.Plain) (hm : RedisAsks m) (hsub : s.rc.sub = false) (batchFirst : Bool)
include h hm hsub

theorem redisCommand_full (hfull : lkRedisMaxInflight ≤ s.rc.units.length) :
    (redisCommand cfg m batchFirst s).Plain ∧
      (redisCommand cfg m batchFirst s).view =
        { s.view with owed := (s.rc.owed + 1) % 2 ^ 32, overflow := s.view.overflow + 1 } := by
  have henter := commandEnter_view hm hsub batchFirst
  have hplain := h.enter m batchFirst
  rw [← units_length_of_view henter] at hfull
  rw [redisCommand_eq cfg hm.some hm.repl hm.monitor, if_pos hfull, ← henter]
  have howed : (commandEnter m batchFirst s).rc.owed = s.rc.owed := congrArg RedisView.owed henter
  rw [← howed]
  exact ⟨⟨hplain.units, hplain.early⟩, rfl⟩

theorem redisCommand_push (hroom : s.rc.units.length < lkRedisMaxInflight) (hearly : s.rc.early = []) :
    (redisCommand cfg m batchFirst s).Plain ∧
      (redisCommand cfg m batchFirst s).view = { s.view with units := s.view.units ++ [commandAsked m] } := by
  have henter := commandEnter_view hm hsub batchFirst
  rw [← units_length_of_view henter] at hroom
  rw [← early_of_view henter] at hearly
  rw [redisCommand_eq cfg hm.some hm.repl hm.monitor, if_neg (Nat.not_le_of_lt hroom), if_pos hearly, commandPush_view, henter]
  exact ⟨(h.enter m batchFirst).push m, rfl⟩

theorem redisCommand_claim (hunits : s.rc.units = []) (hearly : s.rc.early = r :: rs) :
    (redisCommand cfg m batchFirst s).Plain ∧
      (redisCommand cfg m batchFirst s).view =
        { s.view with
          early := rs.map RedisReply.said
          pairs := s.view.pairs ++ [(commandAsked m, r.said)] } := by
  have henter := commandEnter_view hm hsub batchFirst
  have hroom : ¬ lkRedisMaxInflight ≤ (commandEnter m batchFirst s).rc.units.length := by
    rw [units_length_of_view henter, hunits]
    decide
  have hheld : ¬ (commandEnter m batchFirst s).rc.early = [] := by
    rw [early_of_view henter, hearly]
    nofun
  rw [redisCommand_eq cfg hm.some hm.repl hm.monitor, if_neg hroom, if_neg hheld]
  have hpush := commandPush_view m (commandEnter m batchFirst s)
  have hplain := (h.enter m batchFirst).push m
  have hrs := commandPush_early m batchFirst s
  generalize commandPush m (commandEnter m batchFirst s) = t at hpush hplain hrs ⊢
  have hone : t.rc.units.map RedisUnit.asked = [commandAsked m] := by
    have hview := congrArg RedisView.units hpush
    rw [henter] at hview
    simpa [RedisHs.view, hunits] using hview
  obtain ⟨u, hu, hasked⟩ := List.map_eq_singleton_iff.mp hone
  rw [hearly] at hrs
  have hplainU : u.Plain := by
    apply hplain.units
    rw [hu]
    exact List.mem_singleton_self u
  have hplainR : r.Plain := by
    apply hplain.early
    rw [hrs]
    exact List.mem_cons_self ..
  have hrest : (t.mapRc fun rc => { rc with early := rs }).Plain := by
    refine ⟨hplain.units, ?_⟩
    intro r' hr'
    apply hplain.early
    rw [hrs]
    exact List.mem_cons_of_mem _ hr'
  have hclaim : earlyClaim cfg t = unitAnswer cfg (t.mapRc fun rc => { rc with early := rs }) u r := by
    simp only [earlyClaim, hrs, hu]
  rw [hclaim, unitAnswer_view cfg hplainU hplainR, hasked]
  refine ⟨hrest.answer cfg u r, ?_⟩
  rw [henter] at hpush
  have hpairs : redisPairs t.out = redisPairs s.out := congrArg RedisView.pairs hpush
  have howed : t.rc.owed = s.rc.owed := congrArg RedisView.owed hpush
  have hsubs : t.rc.sub = s.rc.sub := congrArg RedisView.sub hpush
  have hignore : t.flags.ignore = s.flags.ignore := congrArg RedisView.ignore hpush
  have hover : t.st.unitsDroppedOverflow = s.st.unitsDroppedOverflow := congrArg RedisView.overflow hpush
  simp only [RedisHs.view, RedisHs.mapRc, hu, hunits, hpairs, howed, hsubs, hignore, hover, List.map_cons, List.map_nil,
    List.tail_cons]

end

end

end Latkit
