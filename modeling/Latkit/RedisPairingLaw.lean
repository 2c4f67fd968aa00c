import Latkit.RedisPairing

namespace Latkit
open Ledger (matched)

/-! Which runs pair every command with its own reply. -/

namespace RedisEvent

def command : RedisEvent → Option Msg
  | .msg _ .recv m =>
    if m.type = lkRedisMsgNote ∨ (commandArgv m).2 = some 0 ∨ .repl ∈ commandFlags m ∨ .monitor ∈ commandFlags m then
      none
    else some m
  | _ => none

def reply : RedisEvent → Option RedisSaid
  | .msg fr .send m =>
    if m.type = lkRedisMsgNote ∨ m.type = redisTAttr then none
    else some (replyVerdict m (fr.elim m.ts fun fr => max m.ts fr.send.lastTs)).said
  | _ => none

def unsolicited : RedisEvent → Prop
  | .msg _ .recv m => .subon ∈ commandFlags m
  | .msg _ .send m => m.type = redisTPush
  | .resync _ => False

def assembling : RedisEvent → Bool
  | .msg fr _ _ => Latkit.assembling fr
  | .resync _ => false

def expires (s : RedisHs) : RedisEvent → Prop
  | .msg _ .recv m =>
    m.type ≠ lkRedisMsgNote ∧
      ∃ u ∈ s.rc.units.head?, u.tsStart < m.ts ∧ lkRedisUnitTimeoutNs < m.ts - u.tsStart
  | _ => False

def isResync : RedisEvent → Bool
  | .resync _ => true
  | _ => false

end RedisEvent

/-- Every step of a run meets `P`, which is told how many commands were sent and how many replies
came before it. -/
def RedisAlong (cfg : LkRedisCfg) (P : Nat → Nat → RedisHs → RedisEvent → Prop) :
    Nat → Nat → RedisHs → List RedisEvent → Prop
  | _, _, _, [] => True
  | asked, answered, s, e :: es =>
    P asked answered s e ∧
      RedisAlong cfg P (asked + e.command.isSome.toNat) (answered + e.reply.isSome.toNat) (redisStep cfg s e) es

/-- The server answers in order, and only what it is asked: each reply comes when a command is still
unanswered, at least one that is being assembled. -/
structure RedisOrderly (asked answered : Nat) (s : RedisHs) (e : RedisEvent) : Prop where
  watched : s.flags.ignore = false
  solicited : ¬ e.unsolicited
  ordered : e.reply.isSome → answered < asked ∨ answered = asked ∧ e.assembling = true

/-- The handler follows the ledger, or has given the connection up; the pairs are those of the order. -/
def RedisAt (k : Nat) (pairs : List (RedisAsked × RedisSaid)) (as : List (Option RedisAsked)) (bs : List RedisSaid)
    (s : RedisHs) : Prop :=
  (∃ l, RedisTracks k pairs as bs l s) ∨ s.flags.ignore = true ∧ s.view.pairs = pairs ++ matched as bs

section
variable {cfg : LkRedisCfg} {s t : RedisHs} {k : Nat} {pairs : List (RedisAsked × RedisSaid)}
  {as : List (Option RedisAsked)} {bs : List RedisSaid} {l : Ledger.State RedisAsked RedisSaid}

theorem RedisTracks.pairs_eq (h : RedisTracks k pairs as bs l s) : s.view.pairs = pairs ++ matched as bs := by
  rw [h.paired, h.balanced.paired]

theorem RedisAt.pairs_eq (h : RedisAt k pairs as bs s) : s.view.pairs = pairs ++ matched as bs := by
  rcases h with ⟨l, h⟩ | ⟨-, h⟩
  · exact h.pairs_eq
  · exact h

theorem unitsExpire_fresh (h : ¬ RedisEvent.expires s (.msg fr .recv m)) (hm : m.type ≠ lkRedisMsgNote) :
    unitsExpire cfg m.ts s = s := by
  rw [unitsExpire]
  split
  · rfl
  · next u hu =>
    rw [if_neg]
    rintro ⟨hlt, hlong⟩
    exact h ⟨hm, u, hu, hlt, hlong⟩

def batchEnter (batchFirst : Bool) (s : RedisHs) : RedisHs := if batchFirst then s.mapRc batchNew else s

theorem batchEnter_view (batchFirst : Bool) (s : RedisHs) : (batchEnter batchFirst s).view = s.view := by
  cases batchFirst with
  | false => rfl
  | true =>
    simp only [batchEnter, RedisHs.view, RedisHs.mapRc, if_true, batchNew_asked]
    rfl

theorem RedisHs.Plain.batchEnter (h : s.Plain) (batchFirst : Bool) : (batchEnter batchFirst s).Plain := by
  cases batchFirst with
  | false => exact h
  | true => exact h.batch

theorem redisCommand_empty (h : (commandArgv m).2 = some 0) (batchFirst : Bool) (s : RedisHs) :
    redisCommand cfg m batchFirst s = batchEnter batchFirst s := if_pos h

theorem redisCommand_ignored (cfg : LkRedisCfg) (hsome : (commandArgv m).2 ≠ some 0)
    (h : .repl ∈ commandFlags m ∨ .monitor ∈ commandFlags m) (batchFirst : Bool) (s : RedisHs) :
    ∃ st, st.unitsDroppedOverflow = s.st.unitsDroppedOverflow ∧
      redisCommand cfg m batchFirst s = { ignoreConn cfg (batchEnter batchFirst s) with st := st } := by
  by_cases hrepl : .repl ∈ commandFlags m
  · refine ⟨_, ?_, (if_neg hsome).trans (if_pos hrepl)⟩
    cases batchFirst <;> rfl
  · have hmonitor := h.resolve_left hrepl
    refine ⟨_, ?_, (if_neg hsome).trans ((if_neg hrepl).trans (if_pos hmonitor))⟩
    cases batchFirst <;> rfl

/-- What is asked of the handler before a command: nothing given up is still unanswered, and commands
that were counted as overflow are not overtaken. -/
structure RedisRoom (s : RedisHs) (e : RedisEvent) : Prop where
  fresh : ¬ e.expires s
  room : e.command.isSome → s.rc.owed ≠ 0 → lkRedisMaxInflight ≤ s.rc.units.length
  count : e.command.isSome → s.rc.owed + 1 < 2 ^ 32

def RedisEvent.requests (s : RedisHs) (e : RedisEvent) : List (Option RedisAsked) :=
  (e.command.map (commandRequest · s)).toList

theorem RedisTracks.value (h : RedisTracks k pairs as bs l s) (cfg : LkRedisCfg) (hnote : m.type ≠ lkRedisMsgNote)
    (hsub : .subon ∉ commandFlags m) (hroom : RedisRoom s (.msg fr .recv m))
    (hk : (RedisEvent.msg fr .recv m).command.isSome → k = 0) (batchFirst : Bool) :
    RedisAt k pairs (as ++ (RedisEvent.msg fr .recv m).requests s) bs (redisCommand cfg m batchFirst s) ∧
      (redisCommand cfg m batchFirst s).view.overflow =
        s.view.overflow + ((RedisEvent.msg fr .recv m).requests s).count none := by
  have hview := batchEnter_view batchFirst s
  by_cases hempty : (commandArgv m).2 = some 0
  · have hnone : (RedisEvent.msg fr .recv m).requests s = [] := by
      simp [RedisEvent.requests, RedisEvent.command, hempty]
    rw [hnone, List.append_nil, redisCommand_empty hempty, hview]
    exact ⟨.inl ⟨l, h.same (h.plain.batchEnter batchFirst) hview⟩, rfl⟩
  · by_cases hfeed : .repl ∈ commandFlags m ∨ .monitor ∈ commandFlags m
    · have hnone : (RedisEvent.msg fr .recv m).requests s = [] := by
        simp [RedisEvent.requests, RedisEvent.command, hfeed]
      obtain ⟨st, hst, heq⟩ := redisCommand_ignored cfg hempty hfeed batchFirst s
      rw [hnone, List.append_nil, heq]
      refine ⟨.inr ⟨rfl, ?_⟩, hst⟩
      rw [← h.pairs_eq, ← hview]
      rfl
    · rw [not_or] at hfeed
      have hcommand : (RedisEvent.msg fr .recv m).command = some m := by
        simp [RedisEvent.command, hnote, hempty, hfeed]
      have hsome : (RedisEvent.msg fr .recv m).command.isSome = true := by
        rw [hcommand]
        rfl
      have hrequests : (RedisEvent.msg fr .recv m).requests s = [commandRequest m s] := by
        rw [RedisEvent.requests, hcommand]
        rfl
      obtain rfl := hk hsome
      obtain ⟨htracks, hover⟩ := h.command cfg ⟨hempty, hfeed.1, hfeed.2, hsub⟩ batchFirst
        (hroom.room hsome) (hroom.count hsome)
      rw [hrequests]
      refine ⟨.inl ⟨_, htracks⟩, hover.trans ?_⟩
      cases commandRequest m s <;> rfl

theorem RedisTracks.frontend (h : RedisTracks k pairs as bs l s) (cfg : LkRedisCfg) (hsub : .subon ∉ commandFlags m)
    (hroom : RedisRoom s (.msg fr .recv m)) (hk : (RedisEvent.msg fr .recv m).command.isSome → k = 0) :
    RedisAt k pairs (as ++ (RedisEvent.msg fr .recv m).requests s) bs (redisOnMsg cfg fr .recv m s) ∧
      (redisOnMsg cfg fr .recv m s).view.overflow =
        s.view.overflow + ((RedisEvent.msg fr .recv m).requests s).count none := by
  have hcounted : RedisTracks k pairs as bs l (s.bump fun st => { st with msgs := st.msgs + 1 }) :=
    h.same ⟨h.plain.units, h.plain.early⟩ rfl
  by_cases hnote : m.type = lkRedisMsgNote
  · have hnone : (RedisEvent.msg fr .recv m).requests s = [] := by
      simp [RedisEvent.requests, RedisEvent.command, hnote]
    have hstep : (redisOnMsg cfg fr .recv m s).Plain ∧ (redisOnMsg cfg fr .recv m s).view = s.view := by
      simp only [redisOnMsg, if_pos hnote, framerNote]
      split
      · exact ⟨⟨h.plain.units, h.plain.early⟩, rfl⟩
      · exact ⟨⟨h.plain.units, h.plain.early⟩, rfl⟩
    rw [hnone, List.append_nil, hstep.2]
    exact ⟨.inl ⟨l, h.same hstep.1 hstep.2⟩, rfl⟩
  · have hfresh : ¬ RedisEvent.expires (s.bump fun st => { st with msgs := st.msgs + 1 }) (.msg fr .recv m) :=
      hroom.fresh
    simp only [redisOnMsg, if_neg hnote, unitsExpire_fresh hfresh hnote]
    exact hcounted.value cfg hnote hsub ⟨hfresh, hroom.room, hroom.count⟩ hk _

theorem unitClose_overflow (fr : Option RedisFrame) (m : Msg) (endNs : Nat) (s : RedisHs) :
    (unitClose cfg fr m endNs s).view.overflow = s.view.overflow := by
  rw [unitClose]
  split
  · next u us hunits =>
    obtain ⟨es, se, start, n, -, heq⟩ := unitAnswer_eq cfg s u (replyVerdict m endNs)
    rw [heq]
    rfl
  · split
    · rfl
    · split
      · rfl
      · rw [redisOrphan_view]

theorem RedisTracks.backend (h : RedisTracks k pairs as bs l s) (cfg : LkRedisCfg) (hpush : m.type ≠ redisTPush)
    (hordered : (RedisEvent.msg fr .send m).reply.isSome →
      bs.length < as.length ∨ bs.length = as.length ∧ assembling fr = true)
    (hlate : (RedisEvent.msg fr .send m).reply.isSome → k ≠ 0 → assembling fr = false) :
    (∃ k' l', k' ≤ k ∧ RedisTracks k' pairs as (bs ++ (RedisEvent.msg fr .send m).reply.toList) l'
        (redisOnMsg cfg fr .send m s)) ∧
      (redisOnMsg cfg fr .send m s).view.overflow = s.view.overflow := by
  have hcounted : RedisTracks k pairs as bs l (s.bump fun st => { st with msgs := st.msgs + 1 }) :=
    h.same ⟨h.plain.units, h.plain.early⟩ rfl
  by_cases hnote : m.type = lkRedisMsgNote
  · have hnone : (RedisEvent.msg fr .send m).reply = none := if_pos (.inl hnote)
    have hstep : (redisOnMsg cfg fr .send m s).Plain ∧ (redisOnMsg cfg fr .send m s).view = s.view := by
      simp only [redisOnMsg, if_pos hnote, framerNote]
      split
      · exact ⟨⟨h.plain.units, h.plain.early⟩, rfl⟩
      · exact ⟨⟨h.plain.units, h.plain.early⟩, rfl⟩
    rw [hnone, Option.toList_none, List.append_nil, hstep.2]
    exact ⟨⟨k, l, Nat.le_refl k, h.same hstep.1 hstep.2⟩, rfl⟩
  · simp only [redisOnMsg, if_neg hnote, redisReply]
    by_cases hattr : m.type = redisTAttr
    · have hnone : (RedisEvent.msg fr .send m).reply = none := if_pos (.inr hattr)
      have hkind : replyKind s.rc m = .attr := if_pos hattr
      simp only [hnone, RedisHs.bump, hkind, Option.toList_none, List.append_nil]
      exact ⟨⟨k, l, Nat.le_refl k, hcounted⟩, rfl⟩
    · have hreply : (RedisEvent.msg fr .send m).reply =
          some (replyVerdict m (fr.elim m.ts fun fr => max m.ts fr.send.lastTs)).said :=
        if_neg (not_or.mpr ⟨hnote, hattr⟩)
      have hkind : replyKind s.rc m = .reply := by
        simp only [replyKind, if_neg hattr, if_neg hpush, h.sub, Bool.false_eq_true, and_false, if_false]
      rw [hreply] at hordered hlate ⊢
      have htracks := hcounted.reply cfg (hordered rfl) (hlate rfl) m
        (fr.elim m.ts fun fr => max m.ts fr.send.lastTs)
      simp only [RedisHs.bump, hkind]
      refine ⟨⟨k - 1, _, Nat.sub_le k 1, htracks⟩, ?_⟩
      exact unitClose_overflow fr m _ _

def RequestOf (a : Option RedisAsked) (m : Msg) : Prop := a = none ∨ a = some (commandAsked m)

theorem requestOf_command (s : RedisHs) (e : RedisEvent) :
    List.Forall₂ RequestOf (e.requests s) e.command.toList := by
  rw [RedisEvent.requests]
  cases e.command with
  | none => exact .nil
  | some m =>
    apply List.Forall₂.cons _ .nil
    simp only [commandRequest]
    split
    · exact .inl rfl
    · exact .inr rfl

theorem filterMap_cons_toList (f : α → Option β) (a : α) (as : List α) :
    (a :: as).filterMap f = (f a).toList ++ as.filterMap f := by
  cases h : f a with
  | none => simp [h]
  | some b => simp [h]

theorem requests_length (s : RedisHs) (e : RedisEvent) : (e.requests s).length = e.command.isSome.toNat := by
  rw [RedisEvent.requests]
  cases e.command <;> rfl

theorem RedisTracks.message (h : RedisTracks 0 pairs as bs l s) (cfg : LkRedisCfg) (fr : Option RedisFrame) (dir : Dir) (m : Msg)
    (horderly : RedisOrderly as.length bs.length s (.msg fr dir m)) (hroom : RedisRoom s (.msg fr dir m)) :
    RedisAt 0 pairs (as ++ (RedisEvent.msg fr dir m).requests s) (bs ++ (RedisEvent.msg fr dir m).reply.toList)
        (redisOnMsg cfg fr dir m s) ∧
      (redisOnMsg cfg fr dir m s).view.overflow =
        s.view.overflow + ((RedisEvent.msg fr dir m).requests s).count none := by
  cases dir with
  | recv =>
    have hstep := h.frontend cfg horderly.solicited hroom fun _ => rfl
    have hreply : (RedisEvent.msg fr .recv m).reply = none := rfl
    rw [hreply, Option.toList_none, List.append_nil]
    exact hstep
  | send =>
    have hlate : (RedisEvent.msg fr .send m).reply.isSome → 0 ≠ 0 → assembling fr = false :=
      fun _ hne => absurd rfl hne
    obtain ⟨⟨k, l', hk, htracks⟩, hover⟩ := h.backend cfg horderly.solicited horderly.ordered hlate
    have hrequests : (RedisEvent.msg fr .send m).requests s = [] := rfl
    rw [hrequests, List.append_nil]
    obtain rfl := Nat.le_zero.mp hk
    exact ⟨.inl ⟨l', htracks⟩, hover⟩

theorem RedisAt.run (h : RedisAt 0 pairs as bs s) (hes : ∀ e ∈ es, RedisEvent.isResync e = false)
    (halong : RedisAlong cfg (fun asked answered s e => RedisOrderly asked answered s e ∧ RedisRoom s e)
      as.length bs.length s es) :
    ∃ as', List.Forall₂ RequestOf as' (es.filterMap RedisEvent.command) ∧
      (redisRun cfg s es).view.overflow = s.view.overflow + as'.count none ∧
      RedisAt 0 pairs (as ++ as') (bs ++ es.filterMap RedisEvent.reply) (redisRun cfg s es) := by
  induction es generalizing s as bs with
  | nil =>
    refine ⟨[], .nil, rfl, ?_⟩
    rw [List.filterMap_nil, List.append_nil, List.append_nil]
    exact h
  | cons e es ih =>
    obtain ⟨⟨horderly, hroom⟩, hrest⟩ := halong
    rcases h with ⟨l, h⟩ | ⟨hblind, -⟩
    · cases e with
      | resync dir => exact absurd (hes _ (List.mem_cons_self ..)) nofun
      | msg fr dir m =>
        obtain ⟨hat, hover⟩ := h.message cfg fr dir m horderly hroom
        have hlengths : as.length + (RedisEvent.msg fr dir m).command.isSome.toNat =
            (as ++ (RedisEvent.msg fr dir m).requests s).length := by
          rw [List.length_append, requests_length]
        have hreplies : bs.length + (RedisEvent.msg fr dir m).reply.isSome.toNat =
            (bs ++ (RedisEvent.msg fr dir m).reply.toList).length := by
          rw [List.length_append]
          cases (RedisEvent.msg fr dir m).reply <;> rfl
        rw [hlengths, hreplies] at hrest
        obtain ⟨as', hforall, hover', hend⟩ := ih hat (fun e he => hes e (List.mem_cons_of_mem _ he)) hrest
        have hstep := requestOf_command s (.msg fr dir m)
        refine ⟨(RedisEvent.msg fr dir m).requests s ++ as', ?_, ?_, ?_⟩
        · rw [filterMap_cons_toList]
          exact List.rel_append hstep hforall
        · rw [List.count_append, ← Nat.add_assoc, ← hover]
          exact hover'
        · rw [filterMap_cons_toList, ← List.append_assoc, ← List.append_assoc]
          exact hend
    · rw [horderly.watched] at hblind
      cases hblind

structure RedisIdle (s : RedisHs) : Prop where
  units : s.rc.units = []
  owed : s.rc.owed = 0
  early : s.rc.early = []
  sub : s.rc.sub = false

theorem RedisIdle.plain (h : RedisIdle s) : s.Plain := by
  refine ⟨?_, ?_⟩
  · rw [h.units]
    exact fun _ hmem => absurd hmem List.not_mem_nil
  · rw [h.early]
    exact fun _ hmem => absurd hmem List.not_mem_nil

theorem RedisIdle.tracks (h : RedisIdle s) : RedisTracks 0 (redisPairs s.out) [] [] {} s := by
  refine ⟨h.plain, h.sub, .nil, ?_, ?_, (List.append_nil _).symm, nofun⟩
  · rw [RedisHs.view, h.units, h.owed]
    rfl
  · rw [RedisHs.view, h.early]
    rfl

end

def pingEvent (len : Nat) : RedisEvent :=
  .msg none .recv { ts := 0, type := lkRedisMsgInline, len := len, body := [80, 73, 78, 71, 13, 10] }

def pongEvent (len : Nat) : RedisEvent :=
  .msg none .send { ts := 0, type := redisTSimple, len := len, body := [43, 79, 75, 13, 10] }

def pingAsked (len : Nat) : RedisAsked := ⟨0, len, "PING", 0, false⟩
def pongSaid (len : Nat) : RedisSaid := ⟨0, len, none, .none, false, false, false⟩

theorem ping_flags (len : Nat) :
    commandFlags { ts := 0, type := lkRedisMsgInline, len := len, body := [80, 73, 78, 71, 13, 10] } = [] := by
  have hcmd : lkRedisCmdFlags (lkRedisCmd (redisReadArgv lkRedisMsgInline [80, 73, 78, 71, 13, 10] lkRedisArgvLabels).1) =
      [] := by decide +kernel
  exact hcmd

theorem ping_asks (len : Nat) :
    RedisAsks { ts := 0, type := lkRedisMsgInline, len := len, body := [80, 73, 78, 71, 13, 10] } := by
  refine ⟨?_, ?_, ?_, ?_⟩
  · have hnone : (redisReadArgv lkRedisMsgInline [80, 73, 78, 71, 13, 10] lkRedisArgvLabels).2 = none := by decide
    rw [commandArgv, hnone]
    rintro ⟨⟩
  all_goals
    rw [ping_flags]
    exact List.not_mem_nil

theorem ping_asked (len : Nat) :
    commandAsked { ts := 0, type := lkRedisMsgInline, len := len, body := [80, 73, 78, 71, 13, 10] } = pingAsked len := by
  have hping : commandAsked { ts := 0, type := lkRedisMsgInline, body := [80, 73, 78, 71, 13, 10] } = pingAsked 0 := by
    decide +kernel
  exact congrArg (fun a : RedisAsked => { a with bytesIn := len }) hping

theorem pong_said (len : Nat) : (replyVerdict { ts := 0, type := redisTSimple, len := len, body := [43, 79, 75, 13, 10] } 0).said =
    pongSaid len := by
  have hpong : (replyVerdict { ts := 0, type := redisTSimple, body := [43, 79, 75, 13, 10] } 0).said = pongSaid 0 := by
    decide +kernel
  exact congrArg (fun b : RedisSaid => { b with bytesOut := len }) hpong

theorem ping_command (len : Nat) : (pingEvent len).command =
    some { ts := 0, type := lkRedisMsgInline, len := len, body := [80, 73, 78, 71, 13, 10] } := by
  have hasks := ping_asks len
  have hnote : lkRedisMsgInline ≠ lkRedisMsgNote := by decide
  simp [pingEvent, RedisEvent.command, hnote, hasks.some, hasks.repl, hasks.monitor]

theorem pong_reply (len : Nat) : (pongEvent len).reply = some (pongSaid len) := by
  have hplain : ¬ (redisTSimple = lkRedisMsgNote ∨ redisTSimple = redisTAttr) := by decide
  rw [← pong_said]
  simp only [pongEvent, RedisEvent.reply, if_neg hplain]
  rfl

theorem ping_counts (len asked : Nat) : asked + (pingEvent len).command.isSome.toNat = asked + 1 := by
  rw [ping_command]
  rfl

theorem pong_counts (len answered : Nat) : answered + (pongEvent len).reply.isSome.toNat = answered + 1 := by
  rw [pong_reply]
  rfl

theorem ping_fresh (len : Nat) (s : RedisHs) : ¬ (pingEvent len).expires s := by
  rintro ⟨-, u, -, hlt, -⟩
  exact Nat.not_lt_zero _ hlt

theorem ping_orderly (len asked answered : Nat) (hs : s.flags.ignore = false) :
    RedisOrderly asked answered s (pingEvent len) := by
  refine ⟨hs, ?_, nofun⟩
  intro hsub
  have hmem : LkRedisC.subon ∈ ([] : List LkRedisC) := by
    rw [← ping_flags len]
    exact hsub
  cases hmem

theorem pong_orderly {asked answered : Nat} (len : Nat) (hlt : answered < asked) (hs : s.flags.ignore = false) :
    RedisOrderly asked answered s (pongEvent len) := by
  refine ⟨hs, ?_, fun _ => .inl hlt⟩
  exact (by decide : redisTSimple ≠ redisTPush)

section
variable {s : RedisHs} {us : List RedisAsked} {pairs : List (RedisAsked × RedisSaid)}

structure RedisShows (s : RedisHs) (us : List RedisAsked) (owed : Nat) (pairs : List (RedisAsked × RedisSaid))
    (overflow : Nat) : Prop where
  plain : s.Plain
  view : s.view = ⟨us, owed, [], false, false, pairs, overflow⟩

theorem RedisShows.early (h : RedisShows s us owed pairs ovf) : s.rc.early = [] :=
  List.map_eq_nil_iff.mp (congrArg RedisView.early h.view)

theorem RedisShows.length (h : RedisShows s us owed pairs ovf) : s.rc.units.length = us.length := by
  have hunits : s.rc.units.map RedisUnit.asked = us := congrArg RedisView.units h.view
  rw [← hunits, List.length_map]

theorem ping_step (len : Nat) (s : RedisHs) : redisStep {} s (pingEvent len) =
    redisCommand {} { ts := 0, type := lkRedisMsgInline, len := len, body := [80, 73, 78, 71, 13, 10] } false
      (s.bump fun st => { st with msgs := st.msgs + 1 }) := by
  have hnote : ¬ lkRedisMsgInline = lkRedisMsgNote := by decide
  have hfresh := ping_fresh len (s.bump fun st => { st with msgs := st.msgs + 1 })
  simp only [redisStep, pingEvent, redisOnMsg, if_neg hnote]
  rw [unitsExpire_fresh hfresh hnote]
  rfl

theorem RedisShows.ping (h : RedisShows s us owed pairs ovf) (hroom : us.length < lkRedisMaxInflight) (len : Nat) :
    RedisShows (redisStep {} s (pingEvent len)) (us ++ [pingAsked len]) owed pairs ovf := by
  have hplain : (s.bump fun st => { st with msgs := st.msgs + 1 }).Plain := ⟨h.plain.units, h.plain.early⟩
  rw [← h.length] at hroom
  have hpush := redisCommand_push {} hplain (ping_asks len) (congrArg RedisView.sub h.view) false hroom h.early
  rw [ping_step]
  refine ⟨hpush.1, hpush.2.trans ?_⟩
  rw [ping_asked, show (s.bump fun st => { st with msgs := st.msgs + 1 }).view = s.view from rfl, h.view]

theorem RedisShows.overflow (h : RedisShows s us owed pairs ovf) (hfull : lkRedisMaxInflight ≤ us.length)
    (len : Nat) : RedisShows (redisStep {} s (pingEvent len)) us ((owed + 1) % 2 ^ 32) pairs (ovf + 1) := by
  have hplain : (s.bump fun st => { st with msgs := st.msgs + 1 }).Plain := ⟨h.plain.units, h.plain.early⟩
  rw [← h.length] at hfull
  have hcount := redisCommand_full {} hplain (ping_asks len) (congrArg RedisView.sub h.view) false hfull
  have howed : s.rc.owed = owed := congrArg RedisView.owed h.view
  rw [ping_step]
  refine ⟨hcount.1, hcount.2.trans ?_⟩
  rw [show (s.bump fun st => { st with msgs := st.msgs + 1 }).view = s.view from rfl, h.view]
  exact congrArg (fun n => (⟨us, (n + 1) % 2 ^ 32, [], false, false, pairs, ovf + 1⟩ : RedisView)) howed

theorem pong_step (len : Nat) (s : RedisHs) : redisStep {} s (pongEvent len) =
    unitClose {} none { ts := 0, type := redisTSimple, len := len, body := [43, 79, 75, 13, 10] } 0
      (s.bump fun st => { st with msgs := st.msgs + 1 }) := by
  have hnote : ¬ redisTSimple = lkRedisMsgNote := by decide
  have hkind : replyKind s.rc { ts := 0, type := redisTSimple, len := len, body := [43, 79, 75, 13, 10] } = .reply := by
    simp only [replyKind]
    rfl
  simp only [redisStep, pongEvent, redisOnMsg, if_neg hnote, redisReply, RedisHs.bump, hkind]
  rfl

theorem RedisShows.pong (h : RedisShows s (a :: us) owed pairs ovf) (len : Nat) :
    RedisShows (redisStep {} s (pongEvent len)) us owed (pairs ++ [(a, pongSaid len)]) ovf := by
  have hunits : s.rc.units.map RedisUnit.asked = a :: us := congrArg RedisView.units h.view
  obtain ⟨u, us', hfront, rfl, rfl⟩ := List.map_eq_cons_iff.mp hunits
  have hplain : (s.bump fun st => { st with msgs := st.msgs + 1 }).Plain := ⟨h.plain.units, h.plain.early⟩
  have hclose := unitClose_front {} hplain hfront none
    { ts := 0, type := redisTSimple, len := len, body := [43, 79, 75, 13, 10] } 0
  rw [pong_step]
  refine ⟨hclose.1, hclose.2.trans ?_⟩
  rw [pong_said, show (s.bump fun st => { st with msgs := st.msgs + 1 }).view = s.view from rfl, h.view]

theorem RedisShows.pairs_eq (h : RedisShows s us owed pairs ovf) : redisPairs s.out = pairs :=
  congrArg RedisView.pairs h.view

theorem RedisShows.watched (h : RedisShows s us owed pairs ovf) : s.flags.ignore = false :=
  congrArg RedisView.ignore h.view

end

theorem RedisAlong.append {asked answered : Nat} {s : RedisHs} {es : List RedisEvent}
    (h : RedisAlong cfg P asked answered s es)
    (h' : RedisAlong cfg P (asked + (es.filterMap RedisEvent.command).length)
      (answered + (es.filterMap RedisEvent.reply).length) (redisRun cfg s es) es') :
    RedisAlong cfg P asked answered s (es ++ es') := by
  induction es generalizing s asked answered with
  | nil => exact h'
  | cons e es ih =>
    refine ⟨h.1, ih h.2 ?_⟩
    have hcommands : asked + ((e :: es).filterMap RedisEvent.command).length =
        asked + e.command.isSome.toNat + (es.filterMap RedisEvent.command).length := by
      rw [filterMap_cons_toList, List.length_append, Nat.add_assoc]
      cases e.command <;> rfl
    have hreplies : answered + ((e :: es).filterMap RedisEvent.reply).length =
        answered + e.reply.isSome.toNat + (es.filterMap RedisEvent.reply).length := by
      rw [filterMap_cons_toList, List.length_append, Nat.add_assoc]
      cases e.reply <;> rfl
    rw [hcommands, hreplies] at h'
    exact h'

theorem shows_start : RedisShows {} [] 0 [] 0 := by
  have hidle : RedisIdle {} := ⟨rfl, rfl, rfl, rfl⟩
  exact ⟨hidle.plain, rfl⟩

end Latkit
