import Latkit.RedisPairing

/-! The books of the units, over any set of connections: a unit that is opened is in flight until it is answered or
dropped, and is counted once when it goes. -/

namespace Latkit

def RedisStats.goneUnits (st : RedisStats) : Nat := st.queries + st.unitsDroppedResync + st.unitsDroppedClose

structure RedisBooks (s : RedisHs) (opened gone : Nat) (s' : RedisHs) : Prop where
  head : s'.rc.headSeq = s.rc.headSeq + gone
  tail : s'.rc.openSeq = s.rc.openSeq + opened
  counted : s'.st.goneUnits = s.st.goneUnits + gone
  told : (redisPairs s'.out).length + s.st.queries = (redisPairs s.out).length + s'.st.queries

structure RedisConn.Fits (rc : RedisConn) : Prop where
  inflight : rc.units.length ≤ lkRedisMaxInflight
  early : rc.early.length ≤ lkRedisMaxEarly

section
variable (cfg : LkRedisCfg) {s s' s₁ : RedisHs}

theorem RedisBooks.refl (s : RedisHs) : RedisBooks s 0 0 s := ⟨rfl, rfl, rfl, rfl⟩

theorem RedisBooks.trans (h : RedisBooks s n g s₁) (h' : RedisBooks s₁ n' g' s') : RedisBooks s (n + n') (g + g') s' := by
  refine ⟨?_, ?_, ?_, ?_⟩
  · rw [h'.head, h.head, Nat.add_assoc]
  · rw [h'.tail, h.tail, Nat.add_assoc]
  · rw [h'.counted, h.counted, Nat.add_assoc]
  · have htold := h.told
    have htold' := h'.told
    omega

theorem RedisBooks.quiet (hrc : s'.rc.headSeq = s.rc.headSeq ∧ s'.rc.units.length = s.rc.units.length)
    (hst : s'.st.goneUnits = s.st.goneUnits ∧ s'.st.queries = s.st.queries)
    (hout : redisPairs s'.out = redisPairs s.out) : RedisBooks s 0 0 s' := by
  refine ⟨hrc.1, ?_, hst.1, ?_⟩
  · rw [RedisConn.openSeq, RedisConn.openSeq, hrc.1, hrc.2]
    rfl
  · rw [hout, hst.2]

theorem RedisBooks.bump (s : RedisHs) (g : RedisStats → RedisStats)
    (hg : ∀ st, (g st).goneUnits = st.goneUnits ∧ (g st).queries = st.queries) : RedisBooks s 0 0 (s.bump g) :=
  .quiet ⟨rfl, rfl⟩ (hg s.st) rfl

theorem unitsDropAll_seq (rc : RedisConn) :
    (unitsDropAll cfg rc).headSeq = rc.openSeq ∧ (unitsDropAll cfg rc).units = [] ∧ (unitsDropAll cfg rc).Fits := by
  obtain ⟨se, hse⟩ := unitsDropAll_eq cfg rc
  rw [hse]
  exact ⟨rfl, rfl, Nat.zero_le _, Nat.zero_le _⟩

theorem RedisBooks.drop (hrc : s'.rc.headSeq = s.rc.openSeq ∧ s'.rc.units = [])
    (hst : s'.st.goneUnits = s.st.goneUnits + s.rc.units.length ∧ s'.st.queries = s.st.queries) (hout : s'.out = s.out) :
    RedisBooks s 0 s.rc.units.length s' := by
  refine ⟨hrc.1, ?_, hst.1, ?_⟩
  · rw [RedisConn.openSeq, hrc.1, hrc.2]
    rfl
  · rw [hout, hst.2]

theorem goneUnits_close (st : RedisStats) (n : Nat) :
    ({ st with unitsDroppedClose := st.unitsDroppedClose + n } : RedisStats).goneUnits = st.goneUnits + n :=
  (Nat.add_assoc ..).symm

theorem unitsExpire_books (now : Nat) (h : s.rc.Fits) :
    (∃ gone, RedisBooks s 0 gone (unitsExpire cfg now s)) ∧ (unitsExpire cfg now s).rc.Fits := by
  rw [unitsExpire]
  split
  · exact ⟨⟨0, .refl s⟩, h⟩
  · split
    · obtain ⟨hhead, hunits, hfits⟩ := unitsDropAll_seq cfg s.rc
      exact ⟨⟨_, .drop ⟨hhead, hunits⟩ ⟨goneUnits_close .., rfl⟩ rfl⟩, hfits⟩
    · exact ⟨⟨0, .refl s⟩, h⟩

theorem ignoreConn_books (s : RedisHs) :
    RedisBooks s 0 s.rc.units.length (ignoreConn cfg s) ∧ (ignoreConn cfg s).rc.Fits := by
  obtain ⟨hhead, hunits, hfits⟩ := unitsDropAll_seq cfg s.rc
  exact ⟨.drop ⟨hhead, hunits⟩ ⟨goneUnits_close .., rfl⟩ rfl, hfits⟩

theorem unitAnswer_books (hunits : s.rc.units = u :: us) (r : RedisReply) : RedisBooks s 0 1 (unitAnswer cfg s u r) := by
  obtain ⟨es, se, start, n, hes, heq⟩ := unitAnswer_eq cfg s u r
  rw [heq]
  refine ⟨rfl, ?_, ?_, ?_⟩
  · rw [RedisConn.openSeq, RedisConn.openSeq, hunits]
    simp only [List.tail_cons, List.length_cons]
    omega
  · simp only [unitEmit, RedisHs.bump, RedisHs.call, RedisStats.goneUnits]
    omega
  · have hlen : (redisPairs (s.out ++ es)).length = (redisPairs s.out).length + 1 := by
      have happ : redisPairs (s.out ++ es) = redisPairs s.out ++ redisPairs es := List.filterMap_append
      rw [happ, hes, List.length_append, List.length_singleton]
    simp only [unitEmit, RedisHs.bump, RedisHs.call]
    omega

theorem unitAnswer_fits (h : s.rc.Fits) (u : RedisUnit) (r : RedisReply) : (unitAnswer cfg s u r).rc.Fits := by
  obtain ⟨es, se, start, n, -, heq⟩ := unitAnswer_eq cfg s u r
  rw [heq]
  refine ⟨?_, h.early⟩
  rw [List.length_tail]
  exact Nat.le_trans (Nat.sub_le _ _) h.inflight

theorem redisOrphan_books (s : RedisHs) : RedisBooks s 0 0 (redisOrphan s) ∧ (redisOrphan s).rc = s.rc := by
  rw [redisOrphan]
  split
  · exact ⟨.refl s, rfl⟩
  · exact ⟨.quiet ⟨rfl, rfl⟩ ⟨rfl, rfl⟩ rfl, rfl⟩

theorem unitClose_books (h : s.rc.Fits) (fr : Option RedisFrame) (m : Msg) (endNs : Nat) :
    (∃ gone, RedisBooks s 0 gone (unitClose cfg fr m endNs s)) ∧ (unitClose cfg fr m endNs s).rc.Fits := by
  rw [unitClose]
  split
  · next u us hunits => exact ⟨⟨1, unitAnswer_books cfg hunits _⟩, unitAnswer_fits cfg h _ _⟩
  · split
    · exact ⟨⟨0, .quiet ⟨rfl, rfl⟩ ⟨rfl, rfl⟩ rfl⟩, h.inflight, h.early⟩
    · split
      · next hheld =>
        refine ⟨⟨0, .quiet ⟨rfl, rfl⟩ ⟨rfl, rfl⟩ rfl⟩, h.inflight, ?_⟩
        rw [RedisHs.mapRc, List.length_append, List.length_singleton]
        exact hheld.2
      · obtain ⟨hbooks, hrc⟩ := redisOrphan_books s
        exact ⟨⟨0, hbooks⟩, by rw [hrc]; exact h⟩

theorem redisReply_books (h : s.rc.Fits) (fr : Option RedisFrame) (m : Msg) (endNs : Nat) :
    (∃ gone, RedisBooks s 0 gone (redisReply cfg fr m endNs s)) ∧ (redisReply cfg fr m endNs s).rc.Fits := by
  have hsub : (s.mapRc fun rc => { rc with sub := true }).rc.Fits := ⟨h.inflight, h.early⟩
  have hquiet : RedisBooks s 0 0 (s.mapRc fun rc => { rc with sub := true }) := .quiet ⟨rfl, rfl⟩ ⟨rfl, rfl⟩ rfl
  rw [redisReply]
  dsimp only
  split
  · exact ⟨⟨0, .refl s⟩, h⟩
  · exact ⟨⟨0, .quiet ⟨rfl, rfl⟩ ⟨rfl, rfl⟩ rfl⟩, h⟩
  · split
    · obtain ⟨⟨gone, hbooks⟩, hfits⟩ := unitClose_books cfg hsub fr m endNs
      exact ⟨⟨_, hquiet.trans hbooks⟩, hfits⟩
    · exact ⟨⟨0, .quiet ⟨rfl, rfl⟩ ⟨rfl, rfl⟩ rfl⟩, hsub⟩
  · exact unitClose_books cfg h fr m endNs

theorem batchNew_length (rc : RedisConn) : (batchNew rc).units.length = rc.units.length := by
  simp only [batchNew, List.length_append, List.length_take, List.length_map, List.length_drop]
  omega

theorem commandEnter_books (m : Msg) (batchFirst : Bool) (h : s.rc.Fits) :
    RedisBooks s 0 0 (commandEnter m batchFirst s) ∧ (commandEnter m batchFirst s).rc.Fits ∧
      (commandEnter m batchFirst s).rc.units.length = s.rc.units.length := by
  cases batchFirst with
  | false => exact ⟨.quiet ⟨rfl, rfl⟩ ⟨rfl, rfl⟩ rfl, ⟨h.inflight, h.early⟩, rfl⟩
  | true =>
    have hlen : (commandEnter m true s).rc.units.length = s.rc.units.length := batchNew_length s.rc
    exact ⟨.quiet ⟨rfl, hlen⟩ ⟨rfl, rfl⟩ rfl, ⟨by rw [hlen]; exact h.inflight, h.early⟩, hlen⟩

theorem unitPush_length (us : List RedisUnit) (u : RedisUnit) : (unitPush us u).length = us.length + 1 := by
  have hasked := congrArg List.length (unitPush_asked us u)
  rwa [List.length_map, List.length_append, List.length_map, List.length_singleton] at hasked

theorem commandPush_books (m : Msg) (h : s.rc.Fits) (hroom : s.rc.units.length < lkRedisMaxInflight) :
    RedisBooks s 1 0 (commandPush m s) ∧ (commandPush m s).rc.Fits := by
  obtain ⟨user, seq, heq⟩ := commandPush_eq m s
  rw [heq]
  refine ⟨⟨rfl, ?_, rfl, rfl⟩, ?_, h.early⟩
  · simp only [RedisHs.mapRc, RedisConn.openSeq, unitPush_length]
    omega
  · simp only [RedisHs.mapRc, unitPush_length]
    omega

theorem earlyClaim_books (h : s.rc.Fits) :
    (∃ gone, RedisBooks s 0 gone (earlyClaim cfg s)) ∧ (earlyClaim cfg s).rc.Fits := by
  have hnone : (s.mapRc fun rc => { rc with early := [] }).rc.Fits := ⟨h.inflight, Nat.zero_le _⟩
  rw [earlyClaim]
  split
  · next r early u hearly hunits =>
    have htaken : RedisBooks s 0 0 (s.mapRc fun rc => { rc with early := early }) := .quiet ⟨rfl, rfl⟩ ⟨rfl, rfl⟩ rfl
    have hfits : (s.mapRc fun rc => { rc with early := early }).rc.Fits := by
      have hlen := h.early
      rw [hearly, List.length_cons] at hlen
      exact ⟨h.inflight, Nat.le_of_succ_le hlen⟩
    have hanswer := unitAnswer_books cfg (s := s.mapRc fun rc => { rc with early := early }) hunits r
    exact ⟨⟨_, htaken.trans hanswer⟩, unitAnswer_fits cfg hfits u r⟩
  · exact ⟨⟨0, .refl s⟩, h⟩
  · obtain ⟨hbooks, hrc⟩ := redisOrphan_books (s.mapRc fun rc => { rc with early := [] })
    have hquiet : RedisBooks s 0 0 (s.mapRc fun rc => { rc with early := [] }) := .quiet ⟨rfl, rfl⟩ ⟨rfl, rfl⟩ rfl
    refine ⟨⟨0, hquiet.trans hbooks⟩, ?_⟩
    rw [hrc]
    exact hnone

def opensUnit (dir : Dir) (m : Msg) (s : RedisHs) : Bool :=
  dir = .recv ∧ m.type ≠ lkRedisMsgNote ∧ (commandArgv m).2 ≠ some 0 ∧ .repl ∉ commandFlags m ∧
    .monitor ∉ commandFlags m ∧ (unitsExpire cfg m.ts s).rc.units.length < lkRedisMaxInflight

theorem redisCommand_books (m : Msg) (batchFirst : Bool) (h : s.rc.Fits) :
    (∃ gone, RedisBooks s (if (commandArgv m).2 ≠ some 0 ∧ .repl ∉ commandFlags m ∧ .monitor ∉ commandFlags m ∧
        s.rc.units.length < lkRedisMaxInflight then 1 else 0) gone (redisCommand cfg m batchFirst s)) ∧
      (redisCommand cfg m batchFirst s).rc.Fits := by
  by_cases hasks : (commandArgv m).2 ≠ some 0 ∧ .repl ∉ commandFlags m ∧ .monitor ∉ commandFlags m
  · obtain ⟨hnelem, hrepl, hmonitor⟩ := hasks
    obtain ⟨henter, hfits, hlen⟩ := commandEnter_books m batchFirst h
    rw [redisCommand_eq cfg hnelem hrepl hmonitor]
    by_cases hroom : s.rc.units.length < lkRedisMaxInflight
    · obtain ⟨hpush, hpushed⟩ := commandPush_books m hfits (by rw [hlen]; exact hroom)
      rw [if_pos ⟨hnelem, hrepl, hmonitor, hroom⟩, if_neg (by rw [hlen]; exact Nat.not_le_of_lt hroom)]
      split
      · exact ⟨⟨_, henter.trans hpush⟩, hpushed⟩
      · obtain ⟨⟨gone, hclaim⟩, hclaimed⟩ := earlyClaim_books cfg hpushed
        exact ⟨⟨_, (henter.trans hpush).trans hclaim⟩, hclaimed⟩
    · rw [if_neg (fun hall => hroom hall.2.2.2), if_pos (by rw [hlen]; exact Nat.not_lt.mp hroom)]
      have howed : RedisBooks (commandEnter m batchFirst s) 0 0 (((commandEnter m batchFirst s).bump fun st =>
          { st with unitsDroppedOverflow := st.unitsDroppedOverflow + 1 }).mapRc fun rc =>
            { rc with owed := (rc.owed + 1) % 2 ^ 32 }) := .quiet ⟨rfl, rfl⟩ ⟨rfl, rfl⟩ rfl
      exact ⟨⟨_, henter.trans howed⟩, hfits.inflight, hfits.early⟩
  · rw [if_neg (fun hall => hasks ⟨hall.1, hall.2.1, hall.2.2.1⟩)]
    have hbatch : RedisBooks s 0 0 (if batchFirst then s.mapRc batchNew else s) ∧
        (if batchFirst then s.mapRc batchNew else s).rc.Fits := by
      cases batchFirst with
      | false => exact ⟨.refl s, h⟩
      | true =>
        have hlen := batchNew_length s.rc
        exact ⟨.quiet ⟨rfl, hlen⟩ ⟨rfl, rfl⟩ rfl, hlen.trans_le h.inflight, h.early⟩
    obtain ⟨hignore, hignored⟩ := ignoreConn_books cfg (if batchFirst then s.mapRc batchNew else s)
    rw [commandFlags, commandArgv] at hasks
    simp only [redisCommand]
    split
    · exact ⟨⟨0, hbatch.1⟩, hbatch.2⟩
    · have hcount : ∀ g : RedisStats → RedisStats, (∀ st, (g st).goneUnits = st.goneUnits ∧ (g st).queries = st.queries) →
          ∃ gone, RedisBooks s 0 gone ((ignoreConn cfg (if batchFirst then s.mapRc batchNew else s)).bump g) :=
        fun g hg => ⟨_, hbatch.1.trans (hignore.trans (.bump _ g hg))⟩
      split
      · exact ⟨hcount _ fun _ => ⟨rfl, rfl⟩, hignored⟩
      · split
        · exact ⟨hcount _ fun _ => ⟨rfl, rfl⟩, hignored⟩
        · next hnelem hrepl hmonitor => exact absurd ⟨hnelem, hrepl, hmonitor⟩ hasks

theorem redisOnMsg_books (fr : Option RedisFrame) (dir : Dir) (m : Msg) (h : s.rc.Fits) :
    (∃ gone, RedisBooks s (if opensUnit cfg dir m s then 1 else 0) gone (redisOnMsg cfg fr dir m s)) ∧
      (redisOnMsg cfg fr dir m s).rc.Fits := by
  have hcounted : RedisBooks s 0 0 (s.bump fun st => { st with msgs := st.msgs + 1 }) := .quiet ⟨rfl, rfl⟩ ⟨rfl, rfl⟩ rfl
  rw [redisOnMsg]
  by_cases hnote : m.type = lkRedisMsgNote
  · rw [if_pos hnote, framerNote, if_neg (by simp [opensUnit, hnote])]
    split
    · exact ⟨⟨0, .quiet ⟨rfl, rfl⟩ ⟨rfl, rfl⟩ rfl⟩, h⟩
    · exact ⟨⟨0, hcounted⟩, h⟩
  · rw [if_neg hnote]
    cases dir with
    | recv =>
      have hsame : (unitsExpire cfg m.ts (s.bump fun st => { st with msgs := st.msgs + 1 })).rc.units =
          (unitsExpire cfg m.ts s).rc.units := by
        simp only [unitsExpire, RedisHs.bump]
        split
        · rfl
        · split <;> rfl
      obtain ⟨⟨gone, hexpire⟩, hfits⟩ := unitsExpire_books cfg m.ts (s := s.bump fun st => { st with msgs := st.msgs + 1 }) h
      obtain ⟨⟨gone', hcommand⟩, hfits'⟩ := redisCommand_books cfg m (fr.any fun fr => (fr.dir .recv).vCall) hfits
      have hopens : opensUnit cfg .recv m s = true ↔ (commandArgv m).2 ≠ some 0 ∧ .repl ∉ commandFlags m ∧
          .monitor ∉ commandFlags m ∧
          (unitsExpire cfg m.ts (s.bump fun st => { st with msgs := st.msgs + 1 })).rc.units.length < lkRedisMaxInflight := by
        simp [opensUnit, hnote, hsame]
      simp only [← hopens] at hcommand
      have hall := (hcounted.trans hexpire).trans hcommand
      rw [Nat.zero_add, Nat.zero_add] at hall
      exact ⟨⟨_, hall⟩, hfits'⟩
    | send =>
      have hno : opensUnit cfg .send m s = false := by simp [opensUnit]
      obtain ⟨⟨gone, hreply⟩, hfits⟩ := redisReply_books cfg (s := s.bump fun st => { st with msgs := st.msgs + 1 }) h fr m
        (fr.elim m.ts fun fr => max m.ts (fr.dir .send).lastTs)
      rw [hno]
      exact ⟨⟨_, hcounted.trans hreply⟩, hfits⟩

theorem redisOnResync_books (s : RedisHs) :
    RedisBooks s 0 s.rc.units.length (redisOnResync cfg s) ∧ (redisOnResync cfg s).rc.Fits := by
  obtain ⟨hhead, hunits, hfits⟩ := unitsDropAll_seq cfg s.rc
  refine ⟨.drop ⟨hhead, hunits⟩ ⟨?_, rfl⟩ rfl, hfits.inflight, hfits.early⟩
  simp only [redisOnResync, RedisHs.mapRc, RedisHs.bump, RedisStats.goneUnits]
  omega

def redisOnConnClose (s : RedisHs) : RedisHs :=
  (s.bump fun st => { st with unitsDroppedClose := st.unitsDroppedClose + s.rc.units.length }).mapRc (unitsDropAll cfg)

theorem redisOnConnClose_books (s : RedisHs) :
    RedisBooks s 0 s.rc.units.length (redisOnConnClose cfg s) ∧ (redisOnConnClose cfg s).rc.units = [] := by
  obtain ⟨hhead, hunits, -⟩ := unitsDropAll_seq cfg s.rc
  exact ⟨.drop ⟨hhead, hunits⟩ ⟨goneUnits_close .., rfl⟩ rfl, hunits⟩

end

/-- A unit is known by its connection, how often the connection's state was set up before, and its number. -/
abbrev UnitId (κ : Type) := κ × Nat × Nat

/-- The handler with all its connections. The last three fields are what an observer notes down: how often each state
was released, the units opened, and the units the heads of the queues have passed. -/
structure RedisWorld (κ : Type) where
  st : RedisStats := {}
  out : List RedisUpcall := []
  flags : κ → ConnFlags := fun _ => {}
  rcs : κ → Option RedisConn := fun _ => none
  lives : κ → Nat := fun _ => 0
  opened : List (UnitId κ) := []
  gone : List (UnitId κ) := []

/-- What a connection can bring; `alloc` says whether a state could be allocated if there is none yet, and its flags are
also set elsewhere. -/
inductive RedisOp where
  | msg (alloc : Bool) (fr : Option RedisFrame) (dir : Dir) (m : Msg)
  | resync (alloc : Bool)
  | close
  | flags (f : ConnFlags)

namespace RedisWorld
variable {κ : Type} [DecidableEq κ] (cfg : LkRedisCfg)

def connGet (w : RedisWorld κ) (k : κ) (alloc : Bool) : Option RedisConn :=
  match w.rcs k with
  | some rc => some rc
  | none => if alloc then some (redisConnGet cfg (w.flags k)) else none

def hs (w : RedisWorld κ) (k : κ) (rc : RedisConn) : RedisHs := { st := w.st, out := w.out, flags := w.flags k, rc := rc }

def put (w : RedisWorld κ) (k : κ) (s s' : RedisHs) (opens : Bool) : RedisWorld κ :=
  { w with
    st := s'.st
    out := s'.out
    flags := Function.update w.flags k s'.flags
    rcs := Function.update w.rcs k (some s'.rc)
    opened := w.opened ++ if opens then [(k, w.lives k, s.rc.openSeq)] else []
    gone := w.gone ++ (List.range' s.rc.headSeq (s'.rc.headSeq - s.rc.headSeq)).map fun q => (k, w.lives k, q) }

def step (w : RedisWorld κ) (k : κ) : RedisOp → RedisWorld κ
  | .msg alloc fr dir m =>
    match w.connGet cfg k alloc with
    | some rc => w.put k (w.hs k rc) (redisOnMsg cfg fr dir m (w.hs k rc)) (opensUnit cfg dir m (w.hs k rc))
    | none =>
      -- counted, and no more
      let s := (w.hs k {}).bump fun st => { st with msgs := st.msgs + 1 }
      { w with st := (if m.type = lkRedisMsgNote then framerNote m s else s).st }
  | .resync alloc =>
    match w.connGet cfg k alloc with
    | some rc => w.put k (w.hs k rc) (redisOnResync cfg (w.hs k rc)) false
    | none => { w with st := { w.st with resyncs := w.st.resyncs + 1 } }
  | .close =>
    match w.rcs k with
    | some rc =>
      { w.put k (w.hs k rc) (redisOnConnClose cfg (w.hs k rc)) false with
        rcs := Function.update w.rcs k none
        lives := Function.update w.lives k (w.lives k + 1) }
    | none => w
  | .flags f => { w with flags := Function.update w.flags k f }

def run (ops : List (κ × RedisOp)) : RedisWorld κ := ops.foldl (fun w op => w.step cfg op.1 op.2) {}

def inflight (w : RedisWorld κ) (k : κ) : Nat := (w.rcs k).elim 0 fun rc => rc.openSeq - rc.headSeq

def Passed (w : RedisWorld κ) : UnitId κ → Prop
  | (k, life, q) => life < w.lives k ∨ life = w.lives k ∧ ∃ rc, w.rcs k = some rc ∧ q < rc.headSeq

structure Kept (w : RedisWorld κ) : Prop where
  fits : ∀ k rc, w.rcs k = some rc → rc.Fits
  once : w.gone.Nodup
  passed : ∀ id ∈ w.gone, w.Passed id
  began : ∀ k rc, w.rcs k = some rc → ∀ q < rc.openSeq, (k, w.lives k, q) ∈ w.opened
  from_opened : w.gone ⊆ w.opened
  counted : w.gone.length = w.st.goneUnits
  told : (redisPairs w.out).length = w.st.queries

omit [DecidableEq κ] in
theorem connGet_cases {w : RedisWorld κ} (h : w.connGet cfg k alloc = some rc) :
    w.rcs k = some rc ∨ w.rcs k = none ∧ rc.headSeq = 0 ∧ rc.units = [] ∧ rc.early = [] := by
  rw [connGet] at h
  split at h
  · next hrc =>
    cases h
    exact .inl hrc
  · next hrc =>
    split at h
    · cases h
      exact .inr ⟨hrc, rfl, rfl, rfl⟩
    · cases h

section
variable {cfg : LkRedisCfg} {w : RedisWorld κ} {k : κ} {rc : RedisConn}

omit [DecidableEq κ] in
theorem Kept.connFits (h : w.Kept) (hrc : w.connGet cfg k alloc = some rc) : rc.Fits := by
  rcases connGet_cases cfg hrc with hsome | ⟨-, -, hunits, hearly⟩
  · exact h.fits k rc hsome
  · exact ⟨by rw [hunits]; exact Nat.zero_le _, by rw [hearly]; exact Nat.zero_le _⟩

theorem head_le_open (rc : RedisConn) : rc.headSeq ≤ rc.openSeq := Nat.le_add_right _ _

theorem Kept.put (h : w.Kept) (hrc : w.connGet cfg k alloc = some rc) {s' : RedisHs} (opens : Bool) {g : Nat}
    (hbooks : RedisBooks (w.hs k rc) (if opens then 1 else 0) g s') (hfits : s'.rc.Fits) :
    (w.put k (w.hs k rc) s' opens).Kept := by
  have hhead : s'.rc.headSeq = rc.headSeq + g := hbooks.head
  have htail : s'.rc.openSeq = rc.openSeq + if opens then 1 else 0 := hbooks.tail
  have hrcs : ∀ k' rc', (w.put k (w.hs k rc) s' opens).rcs k' = some rc' → k' = k ∧ rc' = s'.rc ∨ k' ≠ k ∧ w.rcs k' = some rc' := by
    intro k' rc' hrc'
    by_cases hk : k' = k
    · rw [hk] at hrc'
      simp only [RedisWorld.put, Function.update_self, Option.some.injEq] at hrc'
      exact .inl ⟨hk, hrc'.symm⟩
    · simp only [RedisWorld.put, Function.update_of_ne hk] at hrc'
      exact .inr ⟨hk, hrc'⟩
  have hbegan : ∀ k' rc', (w.put k (w.hs k rc) s' opens).rcs k' = some rc' → ∀ q < rc'.openSeq,
      (k', w.lives k', q) ∈ (w.put k (w.hs k rc) s' opens).opened := by
    intro k' rc' hrc' q hq
    rcases hrcs k' rc' hrc' with ⟨rfl, rfl⟩ | ⟨-, hold⟩
    · rw [htail] at hq
      by_cases hlt : q < rc.openSeq
      · rcases connGet_cases cfg hrc with hsome | ⟨-, hzero, hunits, -⟩
        · exact List.mem_append_left _ (h.began k' rc hsome q hlt)
        · rw [RedisConn.openSeq, hzero, hunits] at hlt
          exact absurd hlt (Nat.not_lt_zero q)
      · cases opens with
        | false => exact absurd hq hlt
        | true =>
          have hlast : q = rc.openSeq := by
            rw [if_pos rfl] at hq
            omega
          rw [hlast]
          exact List.mem_append_right _ List.mem_cons_self
    · exact List.mem_append_left _ (h.began k' rc' hold q hq)
  refine ⟨?_, ?_, ?_, hbegan, ?_, ?_, ?_⟩
  · intro k' rc' hrc'
    rcases hrcs k' rc' hrc' with ⟨-, rfl⟩ | ⟨-, hold⟩
    · exact hfits
    · exact h.fits k' rc' hold
  · refine List.nodup_append'.mpr ⟨h.once, ?_, ?_⟩
    · refine List.Nodup.map (fun q q' heq => ?_) List.nodup_range'
      simpa using heq
    · -- what has gone before was passed, and what goes now was not
      intro id hid hnew
      obtain ⟨q, hq, rfl⟩ := List.mem_map.mp hnew
      have hge : rc.headSeq ≤ q := (List.mem_range'_1.mp hq).1
      rcases h.passed _ hid with hlt | ⟨-, rc₀, hrc₀, hlt⟩
      · exact Nat.lt_irrefl _ hlt
      · rcases connGet_cases cfg hrc with hsome | ⟨hnone, -⟩
        · rw [hsome] at hrc₀
          cases hrc₀
          omega
        · rw [hnone] at hrc₀
          cases hrc₀
  · intro id hid
    rcases List.mem_append.mp hid with hid | hid
    · obtain ⟨k', life, q⟩ := id
      rcases h.passed _ hid with hlt | ⟨hlife, rc₀, hrc₀, hlt⟩
      · exact .inl hlt
      · refine .inr ⟨hlife, ?_⟩
        by_cases hk : k' = k
        · rw [hk] at hrc₀ ⊢
          rcases connGet_cases cfg hrc with hsome | ⟨hnone, -⟩
          · rw [hsome] at hrc₀
            cases hrc₀
            exact ⟨s'.rc, Function.update_self .., by omega⟩
          · rw [hnone] at hrc₀
            cases hrc₀
        · exact ⟨rc₀, (Function.update_of_ne hk ..).trans hrc₀, hlt⟩
    · obtain ⟨q, hq, rfl⟩ := List.mem_map.mp hid
      have hlt := (List.mem_range'_1.mp hq).2
      have hle : (w.hs k rc).rc.headSeq ≤ s'.rc.headSeq := by
        rw [hbooks.head]
        exact Nat.le_add_right _ _
      exact .inr ⟨rfl, s'.rc, Function.update_self .., by omega⟩
  · intro id hid
    rcases List.mem_append.mp hid with hid | hid
    · exact List.mem_append_left _ (h.from_opened hid)
    · obtain ⟨q, hq, rfl⟩ := List.mem_map.mp hid
      have hlt := (List.mem_range'_1.mp hq).2
      have hle : (w.hs k rc).rc.headSeq ≤ s'.rc.headSeq := by
        rw [hbooks.head]
        exact Nat.le_add_right _ _
      have hopen := head_le_open s'.rc
      exact hbegan k s'.rc (Function.update_self ..) q (by omega)
  · have hcounted : s'.st.goneUnits = w.st.goneUnits + g := hbooks.counted
    have hlen : s'.rc.headSeq - (w.hs k rc).rc.headSeq = g := by
      rw [hbooks.head]
      omega
    simp only [RedisWorld.put, List.length_append, List.length_map, List.length_range', hlen, h.counted, hcounted]
  · have htold : (redisPairs s'.out).length + w.st.queries = (redisPairs w.out).length + s'.st.queries := hbooks.told
    have hold := h.told
    change (redisPairs s'.out).length = s'.st.queries
    omega

omit [DecidableEq κ] in
theorem Kept.stats (h : w.Kept) (st : RedisStats) (hst : st.goneUnits = w.st.goneUnits ∧ st.queries = w.st.queries) :
    { w with st := st }.Kept :=
  ⟨h.fits, h.once, h.passed, h.began, h.from_opened, h.counted.trans hst.1.symm, h.told.trans hst.2.symm⟩

theorem Kept.close (h : w.Kept) (k : κ) :
    { w with rcs := Function.update w.rcs k none, lives := Function.update w.lives k (w.lives k + 1) }.Kept := by
  have hrcs : ∀ k' rc', Function.update w.rcs k none k' = some rc' → k' ≠ k ∧ w.rcs k' = some rc' := by
    intro k' rc' hrc'
    by_cases hk : k' = k
    · rw [hk, Function.update_self] at hrc'
      cases hrc'
    · rw [Function.update_of_ne hk] at hrc'
      exact ⟨hk, hrc'⟩
  refine ⟨fun k' rc' hrc' => h.fits k' rc' (hrcs k' rc' hrc').2, h.once, ?_, ?_, h.from_opened, h.counted, h.told⟩
  · rintro ⟨k', life, q⟩ hid
    by_cases hk : k' = k
    · left
      rw [hk]
      have hle : life ≤ w.lives k := by
        rw [← hk]
        rcases h.passed _ hid with hlt | ⟨hlife, -⟩
        · exact Nat.le_of_lt hlt
        · exact Nat.le_of_eq hlife
      simp only [Function.update_self]
      omega
    · rcases h.passed _ hid with hlt | ⟨hlife, rc₀, hrc₀, hlt⟩
      · exact .inl (by simp only [Function.update_of_ne hk]; exact hlt)
      · exact .inr ⟨by simp only [Function.update_of_ne hk]; exact hlife, rc₀, (Function.update_of_ne hk ..).trans hrc₀, hlt⟩
  · intro k' rc' hrc' q hq
    obtain ⟨hk, hold⟩ := hrcs k' rc' hrc'
    simp only [Function.update_of_ne hk]
    exact h.began k' rc' hold q hq

theorem Kept.step (h : w.Kept) (k : κ) (op : RedisOp) : (w.step cfg k op).Kept := by
  cases op with
  | msg alloc fr dir m =>
    rw [RedisWorld.step]
    split
    · next rc hrc =>
      obtain ⟨⟨g, hbooks⟩, hfits⟩ := redisOnMsg_books cfg (s := w.hs k rc) fr dir m (h.connFits hrc)
      exact h.put hrc _ hbooks hfits
    · refine h.stats _ ?_
      split
      · rw [framerNote]
        split <;> exact ⟨rfl, rfl⟩
      · exact ⟨rfl, rfl⟩
  | resync alloc =>
    rw [RedisWorld.step]
    split
    · next rc hrc =>
      obtain ⟨hbooks, hfits⟩ := redisOnResync_books cfg (w.hs k rc)
      exact h.put hrc false hbooks hfits
    · exact h.stats _ ⟨rfl, rfl⟩
  | close =>
    rw [RedisWorld.step]
    split
    · next rc hrc =>
      have hget : w.connGet cfg k true = some rc := by rw [RedisWorld.connGet, hrc]
      obtain ⟨hbooks, -⟩ := redisOnConnClose_books cfg (w.hs k rc)
      have hput := h.put hget false hbooks (unitsDropAll_seq cfg rc).2.2
      have hclose := hput.close k
      simp only [RedisWorld.put, Function.update_idem] at hclose ⊢
      exact hclose
    · exact h
  | flags f => exact ⟨h.fits, h.once, h.passed, h.began, h.from_opened, h.counted, h.told⟩

theorem put_inflight (s s' : RedisHs) (opens : Bool) :
    (w.put k s s' opens).inflight = Function.update w.inflight k (s'.rc.openSeq - s'.rc.headSeq) := by
  funext k'
  by_cases hk : k' = k
  · rw [hk, Function.update_self, inflight, RedisWorld.put]
    simp only [Function.update_self, Option.elim_some]
  · rw [Function.update_of_ne hk, inflight, RedisWorld.put]
    simp only [Function.update_of_ne hk, inflight]

def Balanced (S : Finset κ) (w : RedisWorld κ) : Prop := w.opened.length = w.st.goneUnits + ∑ k ∈ S, w.inflight k

theorem sum_update_add {S : Finset κ} (hk : k ∈ S) (f : κ → Nat) (n : Nat) :
    ∑ k' ∈ S, Function.update f k n k' + f k = n + ∑ k' ∈ S, f k' := by
  rw [Finset.sum_update_of_mem hk, ← Finset.add_sum_erase S f hk, Finset.sdiff_singleton_eq_erase]
  omega

theorem Balanced.put {S : Finset κ} (h : w.Balanced S) (hk : k ∈ S) (hrc : w.connGet cfg k alloc = some rc) {s' : RedisHs}
    (opens : Bool) (hbooks : RedisBooks (w.hs k rc) (if opens then 1 else 0) g s') :
    (w.put k (w.hs k rc) s' opens).Balanced S := by
  have hhead : s'.rc.headSeq = rc.headSeq + g := hbooks.head
  have htail : s'.rc.openSeq = rc.openSeq + if opens then 1 else 0 := hbooks.tail
  have hcounted : s'.st.goneUnits = w.st.goneUnits + g := hbooks.counted
  have hbefore : w.inflight k = rc.openSeq - rc.headSeq := by
    rcases connGet_cases cfg hrc with hsome | ⟨hnone, hzero, hunits, -⟩
    · rw [inflight, hsome, Option.elim_some]
    · rw [inflight, hnone, Option.elim_none, RedisConn.openSeq, hzero, hunits]
      rfl
  have hsum := sum_update_add hk w.inflight (s'.rc.openSeq - s'.rc.headSeq)
  have hle := head_le_open rc
  have hle' := head_le_open s'.rc
  have hopened : (w.put k (w.hs k rc) s' opens).opened.length = w.opened.length + if opens then 1 else 0 := by
    cases opens with
    | false => exact congrArg List.length (List.append_nil _)
    | true => exact List.length_append
  have hst : (w.put k (w.hs k rc) s' opens).st = s'.st := rfl
  rw [Balanced] at h ⊢
  rw [put_inflight, hopened, hst]
  omega

theorem Balanced.step {S : Finset κ} (h : w.Balanced S) (hkept : w.Kept) (hk : k ∈ S) (op : RedisOp) :
    (w.step cfg k op).Balanced S := by
  cases op with
  | msg alloc fr dir m =>
    rw [RedisWorld.step]
    split
    · next rc hrc =>
      obtain ⟨⟨g, hbooks⟩, -⟩ := redisOnMsg_books cfg (s := w.hs k rc) fr dir m (hkept.connFits hrc)
      exact h.put hk hrc _ hbooks
    · have hst : ∀ s : RedisHs, (if m.type = lkRedisMsgNote then framerNote m s else s).st.goneUnits = s.st.goneUnits := by
        intro s
        split
        · rw [framerNote]
          split <;> rfl
        · rfl
      rw [Balanced, hst]
      exact h
  | resync alloc =>
    rw [RedisWorld.step]
    split
    · next rc hrc => exact h.put hk hrc false (redisOnResync_books cfg (w.hs k rc)).1
    · exact h
  | close =>
    rw [RedisWorld.step]
    split
    · next rc hrc =>
      have hget : w.connGet cfg k true = some rc := by rw [RedisWorld.connGet, hrc]
      obtain ⟨hbooks, hunits⟩ := redisOnConnClose_books cfg (w.hs k rc)
      have hput := h.put hk hget false hbooks
      -- the queue is empty when the state goes
      have hnone : ∀ k', (({ w.put k (w.hs k rc) (redisOnConnClose cfg (w.hs k rc)) false with
            rcs := Function.update w.rcs k none, lives := Function.update w.lives k (w.lives k + 1) } : RedisWorld κ).inflight k') =
          (w.put k (w.hs k rc) (redisOnConnClose cfg (w.hs k rc)) false).inflight k' := by
        intro k'
        rw [put_inflight]
        by_cases hk' : k' = k
        · rw [hk', Function.update_self, RedisConn.openSeq, hunits, inflight]
          simp only [Function.update_self, Option.elim_none, List.length_nil, Nat.add_zero, Nat.sub_self]
        · rw [Function.update_of_ne hk', inflight]
          simp only [Function.update_of_ne hk', inflight]
      rw [Balanced] at hput ⊢
      simp only [hnone]
      exact hput
    · exact h
  | flags f => exact h

end

omit [DecidableEq κ] in
theorem kept_initial : ({} : RedisWorld κ).Kept :=
  ⟨nofun, List.nodup_nil, nofun, nofun, List.Subset.refl _, rfl, rfl⟩

theorem foldl_kept {S : Finset κ} (ops : List (κ × RedisOp)) (hops : ∀ op ∈ ops, op.1 ∈ S) {w : RedisWorld κ} (hkept : w.Kept)
    (hbalanced : w.Balanced S) :
    (ops.foldl (fun w op => w.step cfg op.1 op.2) w).Kept ∧ (ops.foldl (fun w op => w.step cfg op.1 op.2) w).Balanced S := by
  induction ops generalizing w with
  | nil => exact ⟨hkept, hbalanced⟩
  | cons op ops ih =>
    exact ih (fun op' hop' => hops op' (List.mem_cons_of_mem _ hop')) (hkept.step op.1 op.2)
      (hbalanced.step hkept (hops op List.mem_cons_self) op.2)

end RedisWorld

/-- Units are conserved over any set of connections: one opened has been answered, dropped at a resync, dropped at a
close or is in flight, and it leaves its queue once. -/
theorem redis_units_conserved {κ : Type} [DecidableEq κ] (cfg : LkRedisCfg) (ops : List (κ × RedisOp)) :
    let w := RedisWorld.run cfg ops
    w.opened.length = w.st.queries + w.st.unitsDroppedResync + w.st.unitsDroppedClose +
        ∑ k ∈ (ops.map Prod.fst).toFinset, w.inflight k ∧
      (∀ k, (w.rcs k).elim True fun rc => rc.headSeq ≤ rc.openSeq ∧ rc.openSeq - rc.headSeq ≤ lkRedisMaxInflight ∧
        rc.early.length ≤ lkRedisMaxEarly) ∧
      w.gone.Nodup ∧ w.gone ⊆ w.opened ∧
      w.gone.length = w.st.queries + w.st.unitsDroppedResync + w.st.unitsDroppedClose ∧
      (redisPairs w.out).length = w.st.queries := by
  intro w
  obtain ⟨hkept, hbalanced⟩ := RedisWorld.foldl_kept cfg (S := (ops.map Prod.fst).toFinset) ops
    (fun op hop => List.mem_toFinset.mpr (List.mem_map_of_mem hop)) RedisWorld.kept_initial
    (by simp [RedisWorld.Balanced, RedisWorld.inflight, RedisStats.goneUnits])
  refine ⟨hbalanced, fun k => ?_, hkept.once, hkept.from_opened, hkept.counted, hkept.told⟩
  cases hrc : w.rcs k with
  | none => exact trivial
  | some rc =>
    have hfits := hkept.fits k rc hrc
    refine ⟨RedisWorld.head_le_open rc, ?_, hfits.early⟩
    rw [RedisConn.openSeq, Nat.add_sub_cancel_left]
    exact hfits.inflight

end Latkit
