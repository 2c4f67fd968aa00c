import Latkit.RedisPairingLaw

namespace Latkit
open Ledger (matched)

/-! Pairing when the queue is dropped while replies are still to come. -/

/-- No command is sent while one that was given up is unanswered, no such answer comes while a command
is being assembled, and nothing is dropped that was answered early. -/
structure RedisPunctual (asked answered : Nat) (s : RedisHs) (e : RedisEvent) : Prop where
  fresh : e.command.isSome → ¬ e.expires s
  heard : e.command.isSome → asked ≤ answered + s.rc.units.length
  late : e.reply.isSome → answered + s.rc.units.length < asked → e.assembling = false
  unheld : e.isResync = true → s.rc.early = []

section
variable {cfg : LkRedisCfg} {s t : RedisHs} {k : Nat} {pairs : List (RedisAsked × RedisSaid)}
  {as : List (Option RedisAsked)} {bs : List RedisSaid} {l : Ledger.State RedisAsked RedisSaid}

theorem RedisTracks.count (h : RedisTracks k pairs as bs l s) :
    as.length + s.rc.early.length = bs.length + (k + s.rc.units.length + s.rc.owed) ∧
      (s.rc.early = [] ∨ k + s.rc.units.length + s.rc.owed = 0) := by
  have hcount := h.balanced.count
  have hpending : l.pending.length = k + s.rc.units.length + s.rc.owed := by
    rw [h.pending]
    simp [RedisHs.view, Nat.add_assoc]
  have hahead : l.ahead.length = s.rc.early.length := by
    rw [h.ahead]
    exact List.length_map _
  rw [hpending, hahead] at hcount
  refine ⟨hcount, ?_⟩
  rcases h.balanced.excess with hnil | hnil
  · right
    rw [← hpending, hnil]
    rfl
  · left
    rw [← List.length_eq_zero_iff, ← hahead, hnil]
    rfl

theorem RedisTracks.all_heard (h : RedisTracks k pairs as bs l s) (hle : as.length ≤ bs.length + s.rc.units.length) :
    k = 0 ∧ s.rc.owed = 0 := by
  obtain ⟨hcount, hearly | hzero⟩ := h.count
  · rw [hearly, List.length_nil] at hcount
    omega
  · omega

theorem RedisTracks.some_lost (h : RedisTracks k pairs as bs l s) (hk : k ≠ 0) :
    bs.length + s.rc.units.length < as.length := by
  obtain ⟨hcount, hearly | hzero⟩ := h.count
  · rw [hearly, List.length_nil] at hcount
    omega
  · omega

theorem RedisTracks.prompt (h : RedisTracks k pairs as bs l s) (cfg : LkRedisCfg)
    (horderly : RedisOrderly as.length bs.length s (.msg fr .recv m))
    (hpunctual : RedisPunctual as.length bs.length s (.msg fr .recv m))
    (hfresh : ¬ RedisEvent.expires s (.msg fr .recv m)) :
    RedisAt k pairs (as ++ (RedisEvent.msg fr .recv m).requests s) bs (redisOnMsg cfg fr .recv m s) := by
  have hroom : RedisRoom s (.msg fr .recv m) := by
    refine ⟨hfresh, ?_, ?_⟩
    · intro hsome hne
      exact absurd (h.all_heard (hpunctual.heard hsome)).2 hne
    · intro hsome
      rw [(h.all_heard (hpunctual.heard hsome)).2]
      decide
  exact (h.frontend cfg horderly.solicited hroom fun hsome => (h.all_heard (hpunctual.heard hsome)).1).1

theorem RedisTracks.expired (h : RedisTracks k pairs as bs l s) (cfg : LkRedisCfg)
    (horderly : RedisOrderly as.length bs.length s (.msg fr .recv m))
    (hnone : (RedisEvent.msg fr .recv m).command = none) (hexpires : RedisEvent.expires s (.msg fr .recv m)) :
    ∃ k' as₁, RedisAt k' pairs as₁ bs (redisOnMsg cfg fr .recv m s) ∧ List.Forall₂ Ledger.Stands as₁ as := by
  obtain ⟨hnote, u, hu, hlt, hlong⟩ := hexpires
  obtain ⟨us, hunits⟩ : ∃ us, s.rc.units = u :: us := by
    cases hus : s.rc.units with
    | nil =>
      rw [hus] at hu
      cases hu
    | cons v us =>
      rw [hus] at hu
      cases hu
      exact ⟨us, rfl⟩
  have hcounted : RedisTracks k pairs as bs l (s.bump fun st => { st with msgs := st.msgs + 1 }) :=
    h.same ⟨h.plain.units, h.plain.early⟩ rfl
  obtain ⟨as₁, htracks, hstands⟩ := hcounted.expire cfg hunits hlt hlong
  refine ⟨k + s.rc.units.length + s.rc.owed, as₁, ?_, hstands⟩
  have hlost : k + s.rc.units.length + s.rc.owed ≠ 0 := by
    rw [hunits, List.length_cons]
    omega
  obtain ⟨hempty, -⟩ := htracks.dropped hlost
  have hroom : RedisRoom (unitsExpire cfg m.ts (s.bump fun st => { st with msgs := st.msgs + 1 })) (.msg fr .recv m) := by
    refine ⟨?_, ?_, ?_⟩
    · rintro ⟨-, v, hv, -⟩
      rw [hempty] at hv
      cases hv
    · rw [hnone]
      exact nofun
    · rw [hnone]
      exact nofun
  have hk : (RedisEvent.msg fr .recv m).command.isSome → k + s.rc.units.length + s.rc.owed = 0 := by
    rw [hnone]
    exact nofun
  obtain ⟨hvalue, -⟩ := htracks.value cfg hnote horderly.solicited hroom hk (fr.any fun fr => fr.recv.vCall)
  rw [RedisEvent.requests, hnone, Option.map_none, Option.toList_none, List.append_nil] at hvalue
  simp only [redisOnMsg, if_neg hnote]
  exact hvalue

theorem RequestOf.stands (h : List.Forall₂ RequestOf as ms) (hstands : List.Forall₂ Ledger.Stands as₁ as) :
    List.Forall₂ RequestOf as₁ ms := by
  induction hstands generalizing ms with
  | nil => exact h
  | cons hstand _ ih =>
    cases h with
    | cons hrequest hrest =>
      refine .cons ?_ (ih hrest)
      rcases hstand with rfl | rfl
      · exact .inl rfl
      · exact hrequest

theorem RedisTracks.step (h : RedisTracks k pairs as bs l s) (cfg : LkRedisCfg) (hms : List.Forall₂ RequestOf as ms)
    (horderly : RedisOrderly as.length bs.length s e) (hpunctual : RedisPunctual as.length bs.length s e) :
    ∃ k' as', List.Forall₂ RequestOf as' (ms ++ e.command.toList) ∧
      RedisAt k' pairs as' (bs ++ e.reply.toList) (redisStep cfg s e) := by
  have hrequests : List.Forall₂ RequestOf (as ++ e.requests s) (ms ++ e.command.toList) :=
    List.rel_append hms (requestOf_command s e)
  match e with
  | .resync dir =>
    obtain ⟨as₁, htracks, hstands⟩ := h.resync cfg (hpunctual.unheld rfl)
    refine ⟨k + s.rc.units.length + s.rc.owed, as₁, ?_, .inl ⟨Ledger.giveUp l, ?_⟩⟩
    · exact (List.append_nil ms).symm ▸ RequestOf.stands hms hstands
    · exact (List.append_nil bs).symm ▸ htracks
  | .msg fr .send m =>
    have hlate : (RedisEvent.msg fr .send m).reply.isSome → k ≠ 0 → assembling fr = false :=
      fun hsome hk => hpunctual.late hsome (h.some_lost hk)
    obtain ⟨⟨k', l', -, htracks⟩, -⟩ := h.backend cfg horderly.solicited horderly.ordered hlate
    refine ⟨k', as, ?_, .inl ⟨l', htracks⟩⟩
    exact (List.append_nil ms).symm ▸ hms
  | .msg fr .recv m =>
    have hsilent : bs ++ (RedisEvent.msg fr .recv m).reply.toList = bs := List.append_nil bs
    rw [hsilent]
    by_cases hexpires : RedisEvent.expires s (.msg fr .recv m)
    · have hnone : (RedisEvent.msg fr .recv m).command = none := by
        rw [← Option.not_isSome_iff_eq_none]
        exact fun hsome => hpunctual.fresh hsome hexpires
      obtain ⟨k', as₁, hat, hstands⟩ := h.expired cfg horderly hnone hexpires
      refine ⟨k', as₁, ?_, hat⟩
      rw [hnone, Option.toList_none, List.append_nil]
      exact RequestOf.stands hms hstands
    · exact ⟨k, _, hrequests, h.prompt cfg horderly hpunctual hexpires⟩

theorem RedisAt.lossyRun (h : RedisAt k pairs as bs s) (hms : List.Forall₂ RequestOf as ms)
    (halong : RedisAlong cfg (fun asked answered s e => RedisOrderly asked answered s e ∧ RedisPunctual asked answered s e)
      ms.length bs.length s es) :
    ∃ k' as', List.Forall₂ RequestOf as' (ms ++ es.filterMap RedisEvent.command) ∧
      RedisAt k' pairs as' (bs ++ es.filterMap RedisEvent.reply) (redisRun cfg s es) := by
  induction es generalizing s k as bs ms with
  | nil =>
    refine ⟨k, as, ?_, ?_⟩
    · exact (List.append_nil ms).symm ▸ hms
    · exact (List.append_nil bs).symm ▸ h
  | cons e es ih =>
    obtain ⟨⟨horderly, hpunctual⟩, hrest⟩ := halong
    rcases h with ⟨l, h⟩ | ⟨hblind, -⟩
    · rw [← hms.length_eq] at horderly hpunctual
      obtain ⟨k', as', hms', hat⟩ := h.step cfg hms horderly hpunctual
      have hasked : ms.length + e.command.isSome.toNat = (ms ++ e.command.toList).length := by
        rw [List.length_append]
        cases e.command <;> rfl
      have hanswered : bs.length + e.reply.isSome.toNat = (bs ++ e.reply.toList).length := by
        rw [List.length_append]
        cases e.reply <;> rfl
      rw [hasked, hanswered] at hrest
      obtain ⟨k'', as'', hend, hat'⟩ := ih hat hms' hrest
      rw [filterMap_cons_toList, filterMap_cons_toList, ← List.append_assoc, ← List.append_assoc]
      exact ⟨k'', as'', hend, hat'⟩
    · rw [horderly.watched] at hblind
      cases hblind

end

/-- Pairing under loss: while no command is sent before those that were given up are answered, the
replies to them close nothing. -/
theorem redis_pairing_under_loss (cfg : LkRedisCfg) (s : RedisHs) (h : RedisIdle s) (es : List RedisEvent)
    (halong : RedisAlong cfg (fun asked answered s e => RedisOrderly asked answered s e ∧ RedisPunctual asked answered s e)
      0 0 s es) :
    ∃ as, List.Forall₂ RequestOf as (es.filterMap RedisEvent.command) ∧
      redisPairs (redisRun cfg s es).out = redisPairs s.out ++ matched as (es.filterMap RedisEvent.reply) := by
  obtain ⟨k, as, hforall, hat⟩ := RedisAt.lossyRun (.inl ⟨{}, h.tracks⟩) .nil halong
  exact ⟨as, hforall, hat.pairs_eq⟩
theorem RedisShows.resync (h : RedisShows s us owed pairs ovf) (dir : Dir) :
    RedisShows (redisStep {} s (.resync dir)) [] 0 pairs ovf := by
  obtain ⟨hplain, hview⟩ := unitsDropAll_view {} s
    { s.st with resyncs := s.st.resyncs + 1, unitsDroppedResync := s.st.unitsDroppedResync + s.rc.units.length } rfl true
  refine ⟨hplain, hview.trans ?_⟩
  rw [h.view]

theorem RedisShows.stray (h : RedisShows s [] 0 pairs ovf) (len : Nat) :
    RedisShows (redisStep {} s (pongEvent len)) [] 0 pairs ovf := by
  have hplain : (s.bump fun st => { st with msgs := st.msgs + 1 }).Plain := ⟨h.plain.units, h.plain.early⟩
  have hunits : s.rc.units = [] := List.map_eq_nil_iff.mp (congrArg RedisView.units h.view)
  have howed : s.rc.owed = 0 := congrArg RedisView.owed h.view
  have hfr : assembling none = false := rfl
  obtain ⟨hclose, hview⟩ := unitClose_orphan {} hplain hunits howed hfr
    { ts := 0, type := redisTSimple, len := len, body := [43, 79, 75, 13, 10] } 0
  rw [pong_step]
  exact ⟨hclose, hview.trans h.view⟩

theorem pong_punctual (len asked answered : Nat) (s : RedisHs) : RedisPunctual asked answered s (pongEvent len) :=
  ⟨nofun, nofun, fun _ _ => rfl, nofun⟩

theorem ping_punctual {asked answered : Nat} (len : Nat) (h : asked ≤ answered + s.rc.units.length) :
    RedisPunctual asked answered s (pingEvent len) :=
  ⟨fun _ => ping_fresh len s, fun _ => h, nofun, nofun⟩

theorem late_along (h : RedisShows s [] 0 [] 0) :
    RedisAlong {} (fun asked answered s e => RedisOrderly asked answered s e ∧ RedisPunctual asked answered s e)
      0 0 s [pingEvent 6, .resync .send, pongEvent 5, pingEvent 8, pongEvent 9] := by
  have h₁ := h.ping (by decide) 6
  have h₂ := h₁.resync .send
  have h₃ := h₂.stray 5
  have h₄ := h₃.ping (by decide) 8
  refine ⟨⟨ping_orderly 6 0 0 h.watched, ping_punctual 6 (Nat.zero_le _)⟩, ?_⟩
  rw [ping_counts]
  refine ⟨⟨⟨h₁.watched, nofun, nofun⟩, ⟨nofun, nofun, nofun, fun _ => h₁.early⟩⟩, ?_⟩
  refine ⟨⟨pong_orderly 5 Nat.zero_lt_one h₂.watched, pong_punctual 5 _ _ _⟩, ?_⟩
  rw [pong_counts]
  refine ⟨⟨ping_orderly 8 _ _ h₃.watched, ping_punctual 8 (Nat.le_add_right 1 _)⟩, ?_⟩
  rw [ping_counts]
  exact ⟨⟨pong_orderly 9 Nat.one_lt_two h₄.watched, pong_punctual 9 _ _ _⟩, trivial⟩

/-- The reply to a command that was given up comes before the next command. -/
theorem redis_pairing_under_loss_late :
    ∃ as, List.Forall₂ RequestOf as
        ([pingEvent 6, .resync .send, pongEvent 5, pingEvent 8, pongEvent 9].filterMap RedisEvent.command) ∧
      redisPairs (redisRun {} {} [pingEvent 6, .resync .send, pongEvent 5, pingEvent 8, pongEvent 9]).out =
        [] ++ matched as
          ([pingEvent 6, .resync .send, pongEvent 5, pingEvent 8, pongEvent 9].filterMap RedisEvent.reply) := by
  apply redis_pairing_under_loss {} {} ⟨rfl, rfl, rfl, rfl⟩
  exact late_along shows_start

theorem resync_run (h : RedisShows s [] 0 [] 0) :
    RedisAlong {} RedisOrderly 0 0 s [pingEvent 6, .resync .send, pingEvent 8, pongEvent 9] ∧
      redisPairs (redisRun {} s [pingEvent 6, .resync .send, pingEvent 8, pongEvent 9]).out =
        [(pingAsked 8, pongSaid 9)] := by
  have h₁ := h.ping (by decide) 6
  have h₂ := h₁.resync .send
  have h₃ := h₂.ping (by decide) 8
  have h₄ := h₃.pong 9
  refine ⟨?_, h₄.pairs_eq⟩
  refine ⟨ping_orderly 6 0 0 h.watched, ?_⟩
  rw [ping_counts]
  refine ⟨⟨h₁.watched, nofun, nofun⟩, ⟨ping_orderly 8 _ _ h₂.watched, ?_⟩⟩
  rw [ping_counts]
  exact ⟨pong_orderly 9 (by decide) h₃.watched, trivial⟩

/-- The reply to a command that was given up closes the unit of the next one. -/
theorem redis_pairing_resync :
    RedisAlong {} RedisOrderly 0 0 {} [pingEvent 6, .resync .send, pingEvent 8, pongEvent 9] ∧
      ([pingEvent 6, .resync .send, pingEvent 8, pongEvent 9].filterMap RedisEvent.command).map Msg.len = [6, 8] ∧
      [pingEvent 6, .resync .send, pingEvent 8, pongEvent 9].filterMap RedisEvent.reply = [pongSaid 9] ∧
      redisPairs (redisRun {} {} [pingEvent 6, .resync .send, pingEvent 8, pongEvent 9]).out =
        [(pingAsked 8, pongSaid 9)] := by
  obtain ⟨halong, hpairs⟩ := resync_run shows_start
  refine ⟨halong, ?_, ?_, hpairs⟩
  · decide +kernel
  · decide +kernel

end Latkit
