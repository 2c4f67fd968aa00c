import Latkit.Ledger
import Latkit.RedisQueue
import Latkit.Emission

namespace Latkit
open Ledger (Balanced)

/-! Runs of the handler, against the ledger of commands and replies in their order. -/

inductive RedisEvent where
  | msg (fr : Option RedisFrame) (dir : Dir) (m : Msg)
  | resync (dir : Dir)
  deriving DecidableEq, Repr

def redisStep (cfg : LkRedisCfg) (s : RedisHs) : RedisEvent → RedisHs
  | .msg fr dir m => redisOnMsg cfg fr dir m s
  | .resync _ => redisOnResync cfg s

def redisRun (cfg : LkRedisCfg) (s : RedisHs) (es : List RedisEvent) : RedisHs := Emission.run (redisStep cfg) s es

/-- The handler follows the ledger of the requests `as` and the answers `bs`. The oldest `k` pending
ones were given up, then come the units in flight, then those that found the ring full. -/
structure RedisTracks (k : Nat) (pairs : List (RedisAsked × RedisSaid)) (as : List (Option RedisAsked))
    (bs : List RedisSaid) (l : Ledger.State RedisAsked RedisSaid) (s : RedisHs) : Prop where
  plain : s.Plain
  sub : s.rc.sub = false
  balanced : Balanced l as bs
  pending : l.pending = List.replicate k none ++ s.view.units.map some ++ List.replicate s.rc.owed none
  ahead : l.ahead = s.view.early
  paired : s.view.pairs = pairs ++ l.paired
  dropped : k ≠ 0 → s.rc.units = [] ∧ s.rc.owed = 0

section
variable {cfg : LkRedisCfg} {s t : RedisHs} {k : Nat} {pairs : List (RedisAsked × RedisSaid)}
  {as : List (Option RedisAsked)} {bs : List RedisSaid} {l : Ledger.State RedisAsked RedisSaid}

theorem RedisTracks.same (h : RedisTracks k pairs as bs l s) (ht : t.Plain) (hview : t.view = s.view) :
    RedisTracks k pairs as bs l t := by
  have howed : t.rc.owed = s.rc.owed := congrArg RedisView.owed hview
  have hsub : t.rc.sub = s.rc.sub := congrArg RedisView.sub hview
  refine ⟨ht, hsub.trans h.sub, h.balanced, ?_, ?_, ?_, ?_⟩
  · rw [howed, hview]
    exact h.pending
  · rw [hview]
    exact h.ahead
  · rw [hview]
    exact h.paired
  · intro hk
    obtain ⟨hunits, hzero⟩ := h.dropped hk
    refine ⟨?_, howed.trans hzero⟩
    rw [← List.length_eq_zero_iff, units_length_of_view hview, hunits]
    rfl

theorem RedisTracks.none_ahead (h : RedisTracks k pairs as bs l s) (hunits : s.rc.units ≠ []) : l.ahead = [] := by
  apply h.balanced.excess.resolve_left
  rw [h.pending]
  simp [RedisHs.view, hunits]

theorem RedisTracks.full (h : RedisTracks 0 pairs as bs l s) (ht : t.Plain)
    (hview : t.view = { s.view with owed := (s.rc.owed + 1) % 2 ^ 32, overflow := s.view.overflow + 1 })
    (hcount : s.rc.owed + 1 < 2 ^ 32) (hunits : s.rc.units ≠ []) :
    RedisTracks 0 pairs (as ++ [none]) bs (Ledger.ask l none) t := by
  have howed : t.rc.owed = s.rc.owed + 1 := (congrArg RedisView.owed hview).trans (Nat.mod_eq_of_lt hcount)
  have hask : Ledger.ask l none = { l with pending := l.pending ++ [none] } := by
    rw [Ledger.ask, h.none_ahead hunits]
  refine ⟨ht, (congrArg RedisView.sub hview).trans h.sub, h.balanced.ask none, ?_, ?_, ?_, fun hk => absurd rfl hk⟩
  · rw [hask, howed, hview, List.replicate_succ', ← List.append_assoc]
    exact congrArg (· ++ [none]) h.pending
  · rw [hask, hview]
    exact h.ahead
  · rw [hask, hview]
    exact h.paired

theorem RedisTracks.push (h : RedisTracks 0 pairs as bs l s) (ht : t.Plain)
    (hview : t.view = { s.view with units := s.view.units ++ [a] }) (howed : s.rc.owed = 0)
    (hearly : s.rc.early = []) : RedisTracks 0 pairs (as ++ [some a]) bs (Ledger.ask l (some a)) t := by
  have hzero : t.rc.owed = 0 := (congrArg RedisView.owed hview).trans howed
  have hahead : l.ahead = [] := by
    rw [h.ahead, RedisHs.view, hearly]
    rfl
  have hask : Ledger.ask l (some a) = { l with pending := l.pending ++ [some a] } := by rw [Ledger.ask, hahead]
  have hpending := h.pending
  rw [howed] at hpending
  refine ⟨ht, (congrArg RedisView.sub hview).trans h.sub, h.balanced.ask (some a), ?_, ?_, ?_, fun hk => absurd rfl hk⟩
  · rw [hask, hzero, hview, hpending]
    simp
  · rw [hask, hview]
    exact h.ahead
  · rw [hask, hview]
    exact h.paired

theorem RedisTracks.claim (h : RedisTracks 0 pairs as bs l s) (ht : t.Plain) (hearly : s.rc.early = r :: rs)
    (hview : t.view =
      { s.view with early := rs.map RedisReply.said, pairs := s.view.pairs ++ [(a, r.said)] }) :
    RedisTracks 0 pairs (as ++ [some a]) bs (Ledger.ask l (some a)) t := by
  have hahead : l.ahead = r.said :: rs.map RedisReply.said := by
    rw [h.ahead, RedisHs.view, hearly]
    rfl
  have hask : Ledger.ask l (some a) =
      { l with ahead := rs.map RedisReply.said, paired := l.paired ++ [(a, r.said)] } := by
    rw [Ledger.ask, hahead]
    rfl
  have howed : t.rc.owed = s.rc.owed := congrArg RedisView.owed hview
  refine ⟨ht, (congrArg RedisView.sub hview).trans h.sub, h.balanced.ask (some a), ?_, ?_, ?_, fun hk => absurd rfl hk⟩
  · rw [hask, howed, hview]
    exact h.pending
  · rw [hask, hview]
  · rw [hask, hview, h.paired, List.append_assoc]

def commandRequest (m : Msg) (s : RedisHs) : Option RedisAsked :=
  if lkRedisMaxInflight ≤ s.rc.units.length then none else some (commandAsked m)

theorem RedisTracks.command (h : RedisTracks 0 pairs as bs l s) (cfg : LkRedisCfg) (hm : RedisAsks m) (batchFirst : Bool)
    (hroom : s.rc.owed ≠ 0 → lkRedisMaxInflight ≤ s.rc.units.length) (hcount : s.rc.owed + 1 < 2 ^ 32) :
    RedisTracks 0 pairs (as ++ [commandRequest m s]) bs (Ledger.ask l (commandRequest m s))
      (redisCommand cfg m batchFirst s) ∧
    (redisCommand cfg m batchFirst s).view.overflow = s.view.overflow + (commandRequest m s).isNone.toNat := by
  by_cases hfull : lkRedisMaxInflight ≤ s.rc.units.length
  · rw [commandRequest, if_pos hfull]
    obtain ⟨hplain, hview⟩ := redisCommand_full cfg h.plain hm h.sub batchFirst hfull
    have hunits : s.rc.units ≠ [] := by
      intro hnil
      rw [hnil] at hfull
      exact absurd hfull (by decide)
    refine ⟨h.full hplain hview hcount hunits, ?_⟩
    rw [hview]
    rfl
  · rw [commandRequest, if_neg hfull]
    have howed : s.rc.owed = 0 := by
      by_contra hne
      exact hfull (hroom hne)
    cases hearly : s.rc.early with
    | nil =>
      obtain ⟨hplain, hview⟩ := redisCommand_push cfg h.plain hm h.sub batchFirst (Nat.lt_of_not_le hfull) hearly
      refine ⟨h.push hplain hview howed hearly, ?_⟩
      rw [hview]
      rfl
    | cons r rs =>
      have hunits : s.rc.units = [] := by
        by_contra hne
        have hahead := h.none_ahead hne
        rw [h.ahead, RedisHs.view, hearly] at hahead
        cases hahead
      obtain ⟨hplain, hview⟩ := redisCommand_claim cfg h.plain hm h.sub batchFirst hunits hearly
      refine ⟨h.claim hplain hearly hview, ?_⟩
      rw [hview]
      rfl

theorem RedisTracks.late (h : RedisTracks (k + 1) pairs as bs l s) (hfr : assembling fr = false) (m : Msg) (endNs : Nat) :
    RedisTracks k pairs as (bs ++ [(replyVerdict m endNs).said]) (Ledger.answer l (replyVerdict m endNs).said)
      (unitClose cfg fr m endNs s) := by
  obtain ⟨hunits, howed⟩ := h.dropped (Nat.succ_ne_zero k)
  obtain ⟨hplain, hview⟩ := unitClose_orphan cfg h.plain hunits howed hfr m endNs
  have hpending := h.pending
  rw [List.replicate_succ, List.cons_append, List.cons_append] at hpending
  have hanswer : Ledger.answer l (replyVerdict m endNs).said =
      { l with pending := List.replicate k none ++ s.view.units.map some ++ List.replicate s.rc.owed none } := by
    rw [Ledger.answer, hpending]
    simp [Ledger.pair]
  have hzero : (unitClose cfg fr m endNs s).rc.owed = s.rc.owed := congrArg RedisView.owed hview
  refine ⟨hplain, (congrArg RedisView.sub hview).trans h.sub, h.balanced.answer _, ?_, ?_, ?_, ?_⟩
  · rw [hanswer, hview, hzero]
  · rw [hanswer, hview]
    exact h.ahead
  · rw [hanswer, hview]
    exact h.paired
  · intro _
    refine ⟨?_, hzero.trans howed⟩
    rw [← List.length_eq_zero_iff, units_length_of_view hview, hunits]
    rfl

theorem RedisTracks.front (h : RedisTracks 0 pairs as bs l s) (hunits : s.rc.units = u :: us)
    (fr : Option RedisFrame) (m : Msg) (endNs : Nat) :
    RedisTracks 0 pairs as (bs ++ [(replyVerdict m endNs).said]) (Ledger.answer l (replyVerdict m endNs).said)
      (unitClose cfg fr m endNs s) := by
  obtain ⟨hplain, hview⟩ := unitClose_front cfg h.plain hunits fr m endNs
  have hpending := h.pending
  simp only [RedisHs.view, hunits, List.map_cons, List.replicate_zero, List.nil_append, List.cons_append] at hpending
  have hanswer : Ledger.answer l (replyVerdict m endNs).said =
      { l with
        pending := (us.map RedisUnit.asked).map some ++ List.replicate s.rc.owed none
        paired := l.paired ++ [(u.asked, (replyVerdict m endNs).said)] } := by
    rw [Ledger.answer, hpending]
    rfl
  have howed : (unitClose cfg fr m endNs s).rc.owed = s.rc.owed := congrArg RedisView.owed hview
  refine ⟨hplain, (congrArg RedisView.sub hview).trans h.sub, h.balanced.answer _, ?_, ?_, ?_, fun hk => absurd rfl hk⟩
  · rw [hanswer, hview, howed]
    rfl
  · rw [hanswer, hview]
    exact h.ahead
  · rw [hanswer, hview, h.paired, List.append_assoc]

theorem RedisTracks.skipped (h : RedisTracks 0 pairs as bs l s) (hunits : s.rc.units = []) (howed : s.rc.owed ≠ 0)
    (fr : Option RedisFrame) (m : Msg) (endNs : Nat) :
    RedisTracks 0 pairs as (bs ++ [(replyVerdict m endNs).said]) (Ledger.answer l (replyVerdict m endNs).said)
      (unitClose cfg fr m endNs s) := by
  obtain ⟨hplain, hview⟩ := unitClose_owed cfg h.plain hunits howed fr m endNs
  obtain ⟨n, hn⟩ := Nat.exists_eq_succ_of_ne_zero howed
  have hpending := h.pending
  simp only [RedisHs.view, hunits, hn, List.replicate_succ, List.map_nil, List.replicate_zero, List.nil_append]
    at hpending
  have hanswer : Ledger.answer l (replyVerdict m endNs).said = { l with pending := List.replicate n none } := by
    rw [Ledger.answer, hpending]
    simp [Ledger.pair]
  have hleft : (unitClose cfg fr m endNs s).rc.owed = n := by
    rw [show (unitClose cfg fr m endNs s).rc.owed = s.rc.owed - 1 from congrArg RedisView.owed hview, hn]
    rfl
  refine ⟨hplain, (congrArg RedisView.sub hview).trans h.sub, h.balanced.answer _, ?_, ?_, ?_, fun hk => absurd rfl hk⟩
  · rw [hanswer, hview, hleft, RedisHs.view, hunits]
    rfl
  · rw [hanswer, hview]
    exact h.ahead
  · rw [hanswer, hview]
    exact h.paired

theorem RedisTracks.held (h : RedisTracks 0 pairs as bs l s) (hunits : s.rc.units = []) (howed : s.rc.owed = 0)
    (hearly : s.rc.early = []) (hfr : assembling fr = true) (m : Msg) (endNs : Nat) :
    RedisTracks 0 pairs as (bs ++ [(replyVerdict m endNs).said]) (Ledger.answer l (replyVerdict m endNs).said)
      (unitClose cfg fr m endNs s) := by
  have hshort : s.rc.early.length < lkRedisMaxEarly := by
    rw [hearly]
    decide
  obtain ⟨hplain, hview⟩ := unitClose_held cfg h.plain hunits howed hshort hfr m endNs
  have hpending : l.pending = [] := by
    rw [h.pending, RedisHs.view, hunits, howed]
    rfl
  have hanswer : Ledger.answer l (replyVerdict m endNs).said =
      { l with ahead := l.ahead ++ [(replyVerdict m endNs).said] } := by
    rw [Ledger.answer, hpending]
  have hzero : (unitClose cfg fr m endNs s).rc.owed = s.rc.owed := congrArg RedisView.owed hview
  refine ⟨hplain, (congrArg RedisView.sub hview).trans h.sub, h.balanced.answer _, ?_, ?_, ?_, fun hk => absurd rfl hk⟩
  · rw [hanswer, hview, hzero]
    exact h.pending
  · rw [hanswer, hview, h.ahead]
  · rw [hanswer, hview]
    exact h.paired

theorem RedisTracks.reply (h : RedisTracks k pairs as bs l s) (cfg : LkRedisCfg)
    (horder : bs.length < as.length ∨ bs.length = as.length ∧ assembling fr = true)
    (hlate : k ≠ 0 → assembling fr = false) (m : Msg) (endNs : Nat) :
    RedisTracks (k - 1) pairs as (bs ++ [(replyVerdict m endNs).said])
      (Ledger.answer l (replyVerdict m endNs).said) (unitClose cfg fr m endNs s) := by
  cases k with
  | succ k => exact h.late (hlate (Nat.succ_ne_zero k)) m endNs
  | zero =>
    cases hunits : s.rc.units with
    | cons u us => exact h.front hunits fr m endNs
    | nil =>
      by_cases howed : s.rc.owed = 0
      · have hcount := h.balanced.count
        have hpending : l.pending = [] := by
          rw [h.pending, RedisHs.view, hunits, howed]
          rfl
        rw [hpending, List.length_nil] at hcount
        have hfr : assembling fr = true := by
          rcases horder with hlt | ⟨-, hfr⟩
          · omega
          · exact hfr
        have hearly : s.rc.early = [] := by
          have hahead : l.ahead = [] := by
            rw [← List.length_eq_zero_iff]
            omega
          rw [h.ahead, RedisHs.view] at hahead
          exact List.map_eq_nil_iff.mp hahead
        exact h.held hunits howed hearly hfr m endNs
      · exact h.skipped hunits howed fr m endNs

theorem unitsForget_eq (cfg : LkRedisCfg) (us : List RedisUnit) (rc : RedisConn) :
    ∃ se, us.foldl (unitForget cfg) rc = { rc with session := se } := by
  induction us generalizing rc with
  | nil => exact ⟨rc.session, rfl⟩
  | cons u us ih =>
    obtain ⟨se, hse⟩ := unitForget_eq cfg rc u
    rw [List.foldl_cons, hse]
    exact ih { rc with session := se }

theorem unitsDropAll_eq (cfg : LkRedisCfg) (rc : RedisConn) : ∃ se, unitsDropAll cfg rc =
    { rc with
      session := se, headSeq := rc.openSeq, units := [], txnStart := 0, txnN := 0, owed := 0, early := []
      batchSeq0 := rc.openSeq, batchN := 0 } := by
  obtain ⟨se, hse⟩ := unitsForget_eq cfg rc.units rc
  refine ⟨se, ?_⟩
  rw [unitsDropAll, hse]
  rfl

theorem RedisTracks.dropAll (h : RedisTracks k pairs as bs l s) (hearly : s.rc.early = []) (ht : t.Plain)
    (hview : t.view = { s.view with units := [], owed := 0, early := [] }) :
    ∃ as₁, RedisTracks (k + s.rc.units.length + s.rc.owed) pairs as₁ bs (Ledger.giveUp l) t ∧
      List.Forall₂ Ledger.Stands as₁ as := by
  obtain ⟨as₁, hbalanced, hstands⟩ := h.balanced.giveUp
  have howed : t.rc.owed = 0 := congrArg RedisView.owed hview
  have hunits : t.rc.units = [] := List.map_eq_nil_iff.mp (congrArg RedisView.units hview)
  refine ⟨as₁, ⟨ht, (congrArg RedisView.sub hview).trans h.sub, hbalanced, ?_, ?_, ?_, fun _ => ⟨hunits, howed⟩⟩, hstands⟩
  · rw [hview, howed, Ledger.giveUp, h.pending]
    simp [RedisHs.view, Nat.add_assoc]
  · rw [hview, Ledger.giveUp, h.ahead, RedisHs.view, hearly]
    rfl
  · rw [hview]
    exact h.paired

theorem unitsDropAll_view (cfg : LkRedisCfg) (s : RedisHs) (st : RedisStats)
    (hst : st.unitsDroppedOverflow = s.st.unitsDroppedOverflow) (degraded : Bool) :
    let t : RedisHs := { s with st := st, rc := { unitsDropAll cfg s.rc with degraded := degraded } }
    t.Plain ∧ t.view = { s.view with units := [], owed := 0, early := [] } := by
  obtain ⟨se, hse⟩ := unitsDropAll_eq cfg s.rc
  rw [hse]
  refine ⟨⟨?_, ?_⟩, ?_⟩
  · exact fun _ hmem => absurd hmem List.not_mem_nil
  · exact fun _ hmem => absurd hmem List.not_mem_nil
  · simp only [RedisHs.view, hst, List.map_nil]

theorem RedisTracks.resync (h : RedisTracks k pairs as bs l s) (cfg : LkRedisCfg) (hearly : s.rc.early = []) :
    ∃ as₁, RedisTracks (k + s.rc.units.length + s.rc.owed) pairs as₁ bs (Ledger.giveUp l) (redisOnResync cfg s) ∧
      List.Forall₂ Ledger.Stands as₁ as := by
  obtain ⟨hplain, hview⟩ := unitsDropAll_view cfg s
    { s.st with resyncs := s.st.resyncs + 1, unitsDroppedResync := s.st.unitsDroppedResync + s.rc.units.length } rfl true
  exact h.dropAll hearly hplain hview

theorem RedisTracks.expire (h : RedisTracks k pairs as bs l s) (cfg : LkRedisCfg) (hunits : s.rc.units = u :: us)
    (hlt : u.tsStart < now) (hlong : lkRedisUnitTimeoutNs < now - u.tsStart) :
    ∃ as₁, RedisTracks (k + s.rc.units.length + s.rc.owed) pairs as₁ bs (Ledger.giveUp l) (unitsExpire cfg now s) ∧
      List.Forall₂ Ledger.Stands as₁ as := by
  have hearly : s.rc.early = [] := by
    have hahead := h.none_ahead (hunits ▸ List.cons_ne_nil u us)
    rw [h.ahead] at hahead
    exact List.map_eq_nil_iff.mp hahead
  have hstep : unitsExpire cfg now s =
      { s with
        st := { s.st with unitsDroppedClose := s.st.unitsDroppedClose + s.rc.units.length }
        rc := unitsDropAll cfg s.rc } := by
    simp only [unitsExpire, hunits, List.head?_cons]
    rw [if_pos ⟨hlt, hlong⟩]
    rfl
  obtain ⟨hplain, hview⟩ := unitsDropAll_view cfg s
    { s.st with unitsDroppedClose := s.st.unitsDroppedClose + s.rc.units.length } rfl (unitsDropAll cfg s.rc).degraded
  rw [hstep]
  exact h.dropAll hearly hplain hview

end

end Latkit
