import Latkit.FrameSafe
import Latkit.RespMachine

namespace Latkit
open Checked (Turn Goes)

/-- The open levels of a value: each still owes an element. -/
structure StackOk (stack : List Nat) : Prop where
  depth : stack.length ≤ lkRedisMaxDepth
  owed : ∀ n ∈ stack, 1 ≤ n

def RedisDir.EolOk (d : RedisDir) : Prop := d.st = .bulk ∨ d.st = .bulkEol → 0 < d.eolLeft

structure SlabOk (f : Frame) (slab : Bool) : Prop where
  max : f.buf.length ≤ lkMsgBodyMax
  held : f.buf ≠ [] → slab = true

theorem StackOk.nil : StackOk [] := ⟨Nat.zero_le _, nofun⟩

theorem SlabOk.empty (h : f.buf = []) (slab : Bool) : SlabOk f slab := ⟨by rw [h]; exact Nat.zero_le _, fun hne => absurd h hne⟩

theorem RedisDir.eolOk_of {d : RedisDir} (hbulk : d.st ≠ .bulk) (heol : d.st ≠ .bulkEol) : d.EolOk :=
  fun h => (h.elim hbulk heol).elim

theorem StackOk.pop (h : StackOk stack) : ∃ stack', redisPop stack = some stack' ∧ StackOk stack' := by
  induction stack with
  | nil => exact ⟨[], rfl, .nil⟩
  | cons n stack ih =>
    have hn : 1 ≤ n := h.owed n List.mem_cons_self
    have hrest : StackOk stack := ⟨Nat.le_of_succ_le h.depth, fun m hm => h.owed m (List.mem_cons_of_mem n hm)⟩
    simp only [redisPop, Checked.sub_eq hn, Option.bind_eq_bind, Option.bind_some]
    split
    · next hleft =>
      refine ⟨_, rfl, h.depth, fun m hm => ?_⟩
      cases hm with
      | head => exact Nat.pos_of_ne_zero hleft
      | tail _ hm => exact hrest.owed m hm
    · exact ih hrest

namespace RespState
variable {s : RespState} {dir : Dir}

@[simp] theorem rd_setRd (s : RespState) (dir : Dir) (d : RedisDir) : rd (setRd s dir d) dir = d := by
  cases dir <;> rfl

theorem rd_setRd_ne (s : RespState) (d : RedisDir) (h : e ≠ dir) : rd (setRd s dir d) e = rd s e := by
  cases dir <;> cases e <;> first | exact absurd rfl h | rfl

theorem frame_setRd (s : RespState) (dir : Dir) (d : RedisDir) (e : Dir) : (setRd s dir d).c.frame e = s.c.frame e := by
  cases e <;> rfl

theorem rd_congr {s s' : RespState} (h : s'.c.frameState = s.c.frameState) (e : Dir) : rd s' e = rd s e := by
  rw [rd, rd, h]

/-- What holds of both directions between two steps; the CRLF of the direction `ex` may have come already. -/
structure Safe (ex : Option Dir) (s : RespState) : Prop where
  stack : ∀ d, StackOk (rd s d).stack
  eol : ∀ d, some d ≠ ex → (rd s d).EolOk
  slab : ∀ d, SlabOk (s.c.frame d) (s.slab d)

theorem Safe.loose (h : Safe none s) (dir : Dir) : Safe (some dir) s :=
  ⟨h.stack, fun d _ => h.eol d nofun, h.slab⟩

theorem Safe.of_frames {s s' : RespState} (h : Safe ex s) (hstate : s'.c.frameState = s.c.frameState)
    (hslab : ∀ d, SlabOk (s'.c.frame d) (s'.slab d)) : Safe ex s' :=
  ⟨fun d => by rw [rd_congr hstate]; exact h.stack d, fun d hd => by rw [rd_congr hstate]; exact h.eol d hd, hslab⟩

theorem Safe.setRd (h : Safe (some dir) s) (hstack : StackOk d.stack) : Safe (some dir) (setRd s dir d) := by
  refine ⟨fun e => ?_, fun e he => ?_, fun e => by rw [frame_setRd]; exact h.slab e⟩
  · by_cases hd : e = dir
    · rw [hd, rd_setRd]
      exact hstack
    · rw [rd_setRd_ne s d hd]
      exact h.stack e
  · rw [rd_setRd_ne s d fun hd => he (congrArg some hd)]
    exact h.eol e he

theorem Safe.settle (h : Safe (some dir) s) (heol : (rd s dir).EolOk) : Safe none s := by
  refine ⟨h.stack, fun e _ => ?_, h.slab⟩
  by_cases hd : e = dir
  · rw [hd]
    exact heol
  · exact h.eol e fun hsome => hd (Option.some.inj hsome)

theorem Safe.setRd_eol (h : Safe (some dir) s) (hstack : StackOk d.stack) (heol : d.EolOk) :
    Safe none (RespState.setRd s dir d) :=
  (h.setRd hstack).settle (by rwa [rd_setRd])

theorem Safe.mapRd (h : Safe none s) (hstack : d.stack = (rd s dir).stack) (hst : d.st = (rd s dir).st)
    (heol : d.eolLeft = (rd s dir).eolLeft) : Safe none (RespState.setRd s dir d) := by
  refine (h.loose dir).setRd_eol (by rw [hstack]; exact h.stack dir) ?_
  rw [RedisDir.EolOk, hst, heol]
  exact h.eol dir nofun

theorem Safe.put (h : Safe ex s) (hf : SlabOk f b) : Safe ex (s.put dir f b) := by
  refine h.of_frames (FConn.setFrame_frameState ..) fun e => ?_
  by_cases hd : e = dir
  · rw [hd, SlabState.put_frame, SlabState.put_slab]
    exact hf
  · have hold := h.slab e
    rwa [← SlabState.frame_setFrame_ne s.c f hd, ← Function.update_of_ne hd b s.slab] at hold

theorem Safe.upd (h : Safe ex s) (hf : SlabOk (g (s.c.frame dir)) (s.slab dir)) : Safe ex (s.upd dir g) := h.put hf

theorem Safe.bump (h : Safe ex s) (r : Reasm) : Safe ex { s with r } := ⟨h.stack, h.eol, h.slab⟩

theorem Safe.connFlags (h : Safe ex s) (g : ConnFlags → ConnFlags) : Safe ex (connFlags g s) :=
  h.of_frames rfl fun d => by rw [Latkit.connFlags, FConn.frame_mapFlags]; exact h.slab d

theorem Safe.of_bufs {s s' : RespState} (h : Safe ex s) (hstate : s'.c.frameState = s.c.frameState)
    (hbuf : ∀ d, (s'.c.frame d).buf = (s.c.frame d).buf) (hslab : s'.slab = s.slab) : Safe ex s' := by
  refine h.of_frames hstate fun d => ?_
  obtain ⟨hmax, hheld⟩ := h.slab d
  rw [hslab]
  exact ⟨by rw [hbuf]; exact hmax, by rw [hbuf]; exact hheld⟩

theorem Safe.emit (h : Safe ex s) (env : Env RedisFrame) (dir : Dir) (m : Msg) : Safe ex (redisEmit env dir m s) := by
  refine h.of_bufs ?_ (fun d => ?_) rfl
  · cases dir <;> rfl
  · cases dir <;> cases d <;> rfl

theorem Safe.bufGet (h : Safe ex s) (grant : Nat → Bool) (dir : Dir) : Safe ex (s.bufGet grant dir) := by
  rw [SlabState.bufGet]
  split
  · exact h
  · next hnone =>
    refine h.of_frames rfl fun e => ⟨(h.slab e).max, fun hbuf => ?_⟩
    have hheld := (h.slab e).held hbuf
    have hd : e ≠ dir := fun hd => hnone (hd ▸ hheld)
    exact (Function.update_of_ne hd (grant s.asked) s.slab).trans hheld

end RespState

def Reaches (x : Option RespState) : Prop := ∃ s, x = some s ∧ RespState.Safe none s

section
variable {env : Env RedisFrame} {grant : Nat → Bool} {dir : Dir} {s : RespState}
open RespState

theorem Reaches.of (h : Safe none s) : Reaches (some s) := ⟨s, rfl, h⟩

theorem bufPut_kept (h : Safe ex s) : Safe ex (bufPut dir s) := h.put (.empty rfl false)

theorem goScan_kept (h : Safe (some dir) s) : Safe none (goScan dir s) := by
  have hempty : ((bufPut dir s).c.frame dir).buf = [] := by rw [bufPut, SlabState.put_frame]
  have hdirty : Safe (some dir) ((bufPut dir s).upd dir fun f => { f with st := .dirty }) :=
    (bufPut_kept h).upd (.empty (f := { (bufPut dir s).c.frame dir with st := .dirty }) hempty _)
  exact hdirty.setRd_eol .nil (RedisDir.eolOk_of nofun nofun)

theorem noteScan_kept (h : Safe (some dir) s) (n : LkRedisNote) (ts : Nat) : Safe none (noteScan env dir n ts s) :=
  goScan_kept (h.emit env dir _)

theorem redisBadLen_kept (h : Safe (some dir) s) (ts : Nat) : Safe none (redisBadLen env dir ts s) :=
  noteScan_kept (h.bump _) .badLen ts

theorem slabFor_kept (h : Safe none s) (grant : Nat → Bool) (dir : Dir) :
    Safe none (slabFor grant dir s) ∧ ∀ e, rd (slabFor grant dir s) e = rd s e := by
  have hfresh := h.bufGet grant dir
  have hstate : (s.bufGet grant dir).c.frameState = s.c.frameState := by rw [SlabState.bufGet_c]
  rw [slabFor]
  split
  · exact ⟨h, fun _ => rfl⟩
  simp only
  split
  · exact ⟨hfresh.upd (.empty rfl _), rd_congr ((FConn.setFrame_frameState ..).trans hstate)⟩
  · exact ⟨hfresh, rd_congr hstate⟩

theorem stash_reaches (h : Safe none s) (p : List Byte) (stop : Nat) : Reaches (stash env grant dir p stop s) := by
  obtain ⟨hkept, hrd⟩ := slabFor_kept h grant dir
  rw [stash]
  split
  · exact .of h
  split
  · exact .of (h.mapRd rfl rfl rfl)
  simp only
  generalize slabFor grant dir s = s' at hkept hrd
  split
  · next hslab =>
    have hmax := (hkept.slab dir).max
    simp only [Checked.sub_eq hmax, Option.bind_eq_bind, Option.bind_some]
    generalize hq : (p.drop (rd s dir).cur).take _ = q
    have hlen : (s'.c.frame dir).buf.length + q.length ≤ lkMsgBodyMax := by
      rw [← hq, List.length_take]
      omega
    rw [SlabState.writable, if_pos ⟨hslab, hlen⟩, Option.bind_some]
    have hspill : Safe none (s'.upd dir (spill q)) :=
      hkept.upd ⟨by rw [spill, List.length_append]; exact hlen, fun _ => hslab⟩
    have hrd' : rd (s'.upd dir (spill q)) dir = rd s dir :=
      (rd_congr (FConn.setFrame_frameState ..) dir).trans (hrd dir)
    exact .of (hspill.mapRd (by rw [hrd']) (by rw [hrd']) (by rw [hrd']))
  · have hlost : Safe none (setRd s' dir { rd s dir with lostPrefix := true, cur := stop }) :=
      hkept.mapRd (by rw [hrd]) (by rw [hrd]) (by rw [hrd])
    exact .of (hlost.emit env dir _)

theorem prefixRelease_kept (h : Safe none s) (stop : Nat) : Safe none (prefixRelease dir stop s) :=
  (bufPut_kept h).mapRd rfl rfl rfl

theorem valueEmit_reaches (h : Safe none s) (p : Option (List Byte)) (stop endPos : Nat) :
    Reaches (valueEmit env grant dir p stop endPos s) := by
  have hbody : ∃ s' body, valueBody env grant dir p stop s = some (s', body) ∧ Safe none s' := by
    rw [valueBody]
    split
    · cases p with
      | none => exact ⟨s, _, rfl, h⟩
      | some p =>
        have hstash : Reaches (stash env grant dir p stop s) := stash_reaches h p stop
        obtain ⟨s', hs', hkept⟩ := hstash
        exact ⟨s', _, by simp only [Option.elim_some, hs', Option.bind_eq_bind, Option.bind_some]; rfl, hkept⟩
    · exact ⟨s, _, rfl, h⟩
  obtain ⟨s', body, hs', hkept⟩ := hbody
  simp only [valueEmit, hs', Option.bind_eq_bind, Option.bind_some]
  exact .of (prefixRelease_kept (hkept.emit env dir _) stop)

theorem valueDone_reaches (h : Safe (some dir) s) (p : Option (List Byte)) (stop endPos : Nat) :
    Reaches (valueDone env grant dir p stop endPos s) := by
  obtain ⟨stack, hpop, hstack⟩ := (h.stack dir).pop
  simp only [valueDone, hpop, Option.bind_eq_bind, Option.bind_some]
  have hkept : Safe none (setRd s dir { rd s dir with stack, st := .value }) :=
    h.setRd_eol hstack (RedisDir.eolOk_of nofun nofun)
  split
  · exact valueEmit_reaches hkept p stop endPos
  · exact .of hkept

theorem aggComplete_reaches (h : Safe none s) (p : List Byte) (stop elems ts : Nat) :
    Reaches (aggComplete env grant dir p stop elems ts s) := by
  rw [aggComplete]
  split
  · exact valueDone_reaches (h.loose dir) ..
  next helems =>
  split
  · exact .of (noteScan_kept (h.loose dir) .depth ts)
  · next hdepth =>
    have hstack : StackOk (elems :: (rd s dir).stack) := by
      refine ⟨Nat.lt_of_not_le hdepth, fun n hn => ?_⟩
      cases hn with
      | head => exact Nat.pos_of_ne_zero helems
      | tail _ hn => exact (h.stack dir).owed n hn
    exact .of ((h.loose dir).setRd_eol hstack (RedisDir.eolOk_of nofun nofun))

theorem lineComplete_reaches (h : Safe none s) (p : List Byte) (stop ts : Nat) :
    Reaches (lineComplete env grant dir p stop ts s) := by
  have hloose := h.loose dir
  rw [lineComplete]
  split
  · exact valueDone_reaches hloose ..
  split
  · exact .of (redisBadLen_kept hloose ts)
  split
  · split
    · exact .of (redisBadLen_kept hloose ts)
    · exact valueDone_reaches hloose ..
    · exact .of (hloose.setRd_eol (h.stack dir) fun _ => Nat.succ_pos 1)
  · split
    · exact .of (redisBadLen_kept hloose ts)
    · exact aggComplete_reaches h ..

def Feeds (i : Nat) (x : Option (RespState × Nat)) : Prop := ∃ s i', x = some (s, i') ∧ Safe none s ∧ i ≤ i'

theorem Feeds.of (h : Safe none s) (hi : i ≤ i') : Feeds i (some (s, i')) := ⟨s, i', rfl, h, hi⟩

theorem Feeds.mono (h : Feeds j x) (hi : i ≤ j) : Feeds i x := by
  obtain ⟨s, i', hx, hkept, hj⟩ := h
  exact ⟨s, i', hx, hkept, Nat.le_trans hi hj⟩

theorem Reaches.feeds (h : Reaches x) (i : Nat) : Feeds i (x.map (·, i)) := by
  obtain ⟨s, rfl, hkept⟩ := h
  exact .of hkept (Nat.le_refl i)

theorem byte_taken (i : Nat) (b : Byte) (rest : List Byte) : i + min 1 (b :: rest).length = i + 1 := by
  rw [List.length_cons]
  omega

theorem lineFeed_feeds (p : List Byte) (ts : Nat) (h : Safe none s) (i : Nat) (rest : List Byte) :
    Feeds (i + min 1 rest.length) (lineFeed env grant dir p ts i rest s) := by
  induction rest generalizing i s with
  | nil => exact .of h (Nat.le_refl i)
  | cons b rest ih =>
    rw [byte_taken, lineFeed]
    split
    · exact (lineComplete_reaches h p (i + 1) ts).feeds (i + 1)
    have hbyte : Safe none (setRd s dir ((rd s dir).lineByte b)) := h.mapRd rfl rfl rfl
    simp only
    split
    · exact .of (noteScan_kept (hbyte.loose dir) .lineTooBig ts) (Nat.le_refl _)
    · exact (ih hbyte (i + 1)).mono (Nat.le_add_right _ _)

theorem inlineComplete_reaches (h : Safe none s) (p : List Byte) (stop : Nat) :
    Reaches (inlineComplete env grant dir p stop s) := by
  have hdone : Reaches (if (rd s dir).inlineArg then valueEmit env grant dir (some p) stop ((rd s dir).cbase + stop) s
      else some (prefixRelease dir stop s)) := by
    split
    · exact valueEmit_reaches h ..
    · exact .of (prefixRelease_kept h stop)
  obtain ⟨s', hs', hkept⟩ := hdone
  simp only [inlineComplete, hs', Option.map_some]
  exact .of ((hkept.loose dir).setRd_eol (hkept.stack dir) (RedisDir.eolOk_of nofun nofun))

theorem inlineFeed_feeds (p : List Byte) (ts : Nat) (h : Safe none s) (i : Nat) (rest : List Byte) :
    Feeds (i + min 1 rest.length) (inlineFeed env grant dir p ts i rest s) := by
  induction rest generalizing i s with
  | nil => exact .of h (Nat.le_refl i)
  | cons b rest ih =>
    rw [byte_taken, inlineFeed]
    split
    · exact (inlineComplete_reaches h p (i + 1)).feeds (i + 1)
    have hbyte : Safe none (setRd s dir ((rd s dir).inlineByte b)) := h.mapRd rfl rfl rfl
    simp only
    split
    · exact .of (noteScan_kept (hbyte.loose dir) .inlineTooBig ts) (Nat.le_refl _)
    · exact (ih hbyte (i + 1)).mono (Nat.le_add_right _ _)

theorem eolFeed_feeds (p : List Byte) (ts : Nat) (h : Safe (some dir) s) (i : Nat) (rest : List Byte) :
    Feeds (i + min (rd s dir).eolLeft (min 1 rest.length)) (eolFeed env grant dir p ts i rest s) := by
  induction rest generalizing i s with
  | nil =>
    rw [eolFeed]
    split
    · exact ((valueDone_reaches h ..).feeds i).mono (by rw [List.length_nil]; omega)
    · next hleft => exact .of (h.settle fun _ => Nat.pos_of_ne_zero hleft) (by rw [List.length_nil]; omega)
  | cons b rest ih =>
    rw [eolFeed]
    split
    · next hleft => exact ((valueDone_reaches h ..).feeds i).mono (by rw [hleft]; omega)
    · have hone : i + min (rd s dir).eolLeft (min 1 (b :: rest).length) ≤ i + 1 := by omega
      have htaken : Safe (some dir) (setRd s dir ((rd s dir).eolTake 1)) := h.setRd (h.stack dir)
      simp only
      generalize (if (rd s dir).eolLeft = 2 then cr else lf) = want
      split
      · exact (Feeds.of (noteScan_kept htaken .bulkEol ts) (Nat.le_refl _)).mono hone
      · exact (ih htaken (i + 1)).mono (Nat.le_trans hone (Nat.le_add_right _ _))

theorem bulkTake_kept (h : Safe none s) (hst : (rd s dir).st = .bulk) (n : Nat) : Safe none (bulkTake dir n s).1 := by
  have hleft : 0 < (rd s dir).eolLeft := h.eol dir nofun (.inl hst)
  exact (h.loose dir).setRd_eol (h.stack dir) fun _ => hleft

def stalls : RedisFrSt → Nat
  | .scan => 2
  | .value | .bulk => 1
  | .line | .bulkEol | .inline => 0

theorem stalls_le (st : RedisFrSt) : stalls st ≤ 2 := by
  cases st <;> decide

/-- A turn takes a byte, or it is one of those that lead on to a turn that does. -/
def respRank (dir : Dir) (n : Nat) (s : RespState) (i : Nat) : Nat := 3 * (n - i) + stalls (rd s dir).st

theorem redisGoOn_goes (h : Safe none s) (hi : i < n) (hmove : i < i' ∨ i' = i ∧ stalls (rd s dir).st < stalls st) :
    Goes (Safe none) (respRank dir n) (3 * (n - i) + stalls st) (redisGoOn dir i st (s, i')) := by
  rw [redisGoOn]
  split
  · exact .ret h
  rw [if_neg]
  · refine .next h ?_
    have hle := stalls_le (rd s dir).st
    rw [respRank]
    omega
  · rintro ⟨hstay, hsame⟩
    rw [hsame] at hmove
    omega

theorem Feeds.goes (h : Feeds (i + 1) x) (hi : i < n) (st : RedisFrSt) :
    Goes (Safe none) (respRank dir n) (3 * (n - i) + stalls st) (x >>= redisGoOn dir i st) := by
  obtain ⟨s, i', rfl, hkept, hle⟩ := h
  exact redisGoOn_goes hkept hi (.inl hle)

theorem RedisDir.opens_keeps (d : RedisDir) (i : Nat) (b : Byte) (ts : Nat) :
    (d.opens i b ts).stack = d.stack ∧ (d.opens i b ts).st = d.st ∧ (d.opens i b ts).eolLeft = d.eolLeft := by
  rw [opens]
  split <;> exact ⟨rfl, rfl, rfl⟩

/-- A value starts: its type byte is taken, unless it is the first byte of an inline command. -/
theorem valueStart_kept (env : Env RedisFrame) (dir : Dir) (h : Safe none s) (i : Nat) (b : Byte) (ts : Nat) :
    ∃ s' i', valueStart env dir i b ts s = (s', i') ∧ Safe none s' ∧ (i < i' ∨ i' = i ∧ (rd s' dir).st = .inline) := by
  obtain ⟨hstack, hst, heol⟩ := (rd s dir).opens_keeps i b ts
  have hopened : StackOk ((rd s dir).opens i b ts).stack := by
    rw [hstack]
    exact h.stack dir
  rw [valueStart]
  split
  · exact ⟨_, _, rfl, h.mapRd rfl rfl rfl, .inl (Nat.lt_succ_self i)⟩
  simp only
  generalize (rd s dir).opens i b ts = d at hstack hst heol hopened
  split
  · split
    · exact ⟨_, _, rfl, (h.loose dir).setRd_eol hopened (RedisDir.eolOk_of nofun nofun), .inr ⟨rfl, by rw [rd_setRd]⟩⟩
    · exact ⟨_, _, rfl, noteScan_kept ((h.mapRd hstack hst heol).loose dir) .badType ts, .inl (Nat.lt_succ_self i)⟩
  · exact ⟨_, _, rfl, (h.loose dir).setRd_eol hopened (RedisDir.eolOk_of nofun nofun), .inl (Nat.lt_succ_self i)⟩

theorem doResync_kept (h : Safe ex s) (env : Env RedisFrame) (dir : Dir) : Safe ex (s.doResync env dir) := by
  have hput : Safe ex (s.put dir (resynced (s.c.frame dir)) false) := h.put (.empty rfl false)
  refine hput.of_bufs ?_ (fun d => ?_) rfl
  · rfl
  · cases dir <;> cases d <;> rfl

theorem redisTurn_goes (p : List Byte) (ts : Nat) (atCall : Bool) (h : Safe none s) (hi : i < p.length) :
    Goes (Safe none) (respRank dir p.length) (respRank dir p.length s i) (redisTurn env grant dir p ts atCall s i) := by
  have hone : i + min 1 (p.drop i).length = i + 1 := by rw [List.length_drop]; omega
  have heol := h.eol dir nofun
  rw [respRank, redisTurn]
  cases hst : (rd s dir).st with
  | value =>
    obtain ⟨s', i', hstart, hkept, hmove⟩ := valueStart_kept env dir h i (p.getD i 0) ts
    simp only [hstart]
    refine redisGoOn_goes hkept hi (hmove.imp_right fun hstay => ⟨hstay.1, ?_⟩)
    rw [hstay.2]
    decide
  | line => exact (hone ▸ lineFeed_feeds p ts h i (p.drop i)).goes hi .line
  | bulk =>
    simp only
    refine redisGoOn_goes (bulkTake_kept h hst _) hi ?_
    simp only [bulkTake, rd_setRd]
    by_cases hzero : (rd s dir).bulkLeft = 0
    · -- an empty payload takes nothing and leads on to its CRLF
      rw [hzero, Nat.zero_min, if_pos rfl]
      exact .inr ⟨rfl, Nat.zero_lt_one⟩
    · exact .inl (by omega)
  | bulkEol =>
    have hleft : 0 < (rd s dir).eolLeft := h.eol dir nofun (.inr hst)
    have hfeeds : Feeds (i + 1) (eolFeed env grant dir p ts i (p.drop i) s) :=
      (eolFeed_feeds p ts (h.loose dir) i (p.drop i)).mono (by omega)
    exact hfeeds.goes hi .bulkEol
  | inline => exact (hone ▸ inlineFeed_feeds p ts h i (p.drop i)).goes hi .inline
  | scan =>
    simp only
    split
    · have hkept := doResync_kept h env dir
      refine redisGoOn_goes ((hkept.loose dir).setRd_eol (hkept.stack dir) (RedisDir.eolOk_of nofun nofun)) hi ?_
      rw [rd_setRd]
      exact .inr ⟨rfl, Nat.one_lt_two⟩
    · exact .ret h

theorem frameGet_kept (h : Safe none s) (alloc : Bool) : Safe none (frameGet alloc s) := by
  rw [frameGet]
  split
  · next hnone =>
    refine ⟨fun d => ?_, fun d _ => ?_, fun d => ?_⟩
    · cases d <;> exact .nil
    · cases d <;> exact RedisDir.eolOk_of nofun nofun
    · have hslab := h.slab d
      cases d <;> exact hslab
  · exact h

theorem redisNoState_kept (h : Safe none s) (ts : Nat) : Safe none (redisNoState env dir ts s) :=
  (h.emit env dir _).connFlags _

theorem redisStreamBytes_reaches (h : Safe none s) (alloc : Bool) (p : List Byte) (ts : Nat) :
    Reaches (redisStreamBytes env grant dir alloc p ts s) := by
  have hget := frameGet_kept h alloc
  rw [redisStreamBytes]
  simp only
  generalize frameGet alloc s = s₀ at hget
  split
  · exact .of (redisNoState_kept hget ts)
  generalize decide ((s₀.c.frame dir).callPos = 0) = atCall
  have henter : Safe none (setRd s₀ dir ((rd s₀ dir).enter p.length ts atCall)) := hget.mapRd rfl rfl rfl
  generalize setRd s₀ dir ((rd s₀ dir).enter p.length ts atCall) = s₁ at henter
  split
  · exact .of ((henter.emit env dir _).connFlags _)
  generalize hs₂ : (if (s₁.c.frame dir).st = .dirty ∧ (rd s₁ dir).st ≠ .scan then goScan dir s₁ else s₁) = s₂
  have hstart : Safe none s₂ := by
    rw [← hs₂]
    split
    · exact goScan_kept (henter.loose dir)
    · exact henter
  have hfuel : respRank dir p.length s₂ 0 ≤ 3 * p.length + 2 := Nat.add_le_add_left (stalls_le _) _
  have hturns : ∃ s₃, Checked.loop (p.length - ·) (redisTurn env grant dir p ts atCall) (3 * p.length + 2) s₂ 0 = some s₃ ∧
      Safe none s₃ :=
    Checked.loop_goes (fun s i hs hi => redisTurn_goes p ts atCall hs (Nat.lt_of_sub_pos hi))
      (fun s i => by rw [respRank]; omega) hstart hfuel
  obtain ⟨s₃, hloop, hend⟩ := hturns
  simp only [hloop, Option.bind_eq_bind, Option.bind_some]
  split
  · exact stash_reaches hend p p.length
  · exact .of hend

theorem bulkHole_kept (env : Env RedisFrame) (grant : Nat → Bool) (dir : Dir) (h : Safe none s) (n : Nat) :
    ∃ s' n', bulkHole env grant dir n s = some (s', n') ∧ Safe none s' := by
  rw [bulkHole]
  generalize hpayload : (if (rd s dir).st = .bulk then _ else (s, n)) = x
  obtain ⟨s₁, n₁⟩ := x
  have hkept : Safe none s₁ := by
    split at hpayload
    · next hst =>
      cases hpayload
      exact bulkTake_kept h hst n
    · cases hpayload
      exact h
  simp only
  split
  · have htaken : Safe (some dir) (setRd s₁ dir ((rd s₁ dir).eolTake (min (rd s₁ dir).eolLeft n₁))) :=
      (hkept.loose dir).setRd (hkept.stack dir)
    split
    · obtain ⟨s', hs', hdone⟩ : Reaches (valueDone env grant dir none 0 _ _) := valueDone_reaches htaken ..
      exact ⟨s', _, by rw [hs']; rfl, hdone⟩
    · next hleft =>
      refine ⟨_, _, rfl, htaken.settle ?_⟩
      rw [rd_setRd]
      exact fun _ => Nat.pos_of_ne_zero hleft
  · exact ⟨_, _, rfl, hkept⟩

theorem redisStreamHole_reaches (h : Safe none s) (alloc : Bool) (n : Nat) :
    Reaches (redisStreamHole env grant dir alloc n s) := by
  have hget := frameGet_kept h alloc
  rw [redisStreamHole]
  simp only
  generalize frameGet alloc s = s₀ at hget
  split
  · exact .of (redisNoState_kept hget 0)
  split
  · exact .of hget
  have hcount : Safe none (setRd s₀ dir { rd s₀ dir with holes := (rd s₀ dir).holes + 1, off := (rd s₀ dir).off + n }) :=
    hget.mapRd rfl rfl rfl
  split
  · exact .of (goScan_kept (hcount.loose dir))
  split
  · exact .of hcount
  obtain ⟨s', n', hhole, hkept⟩ := bulkHole_kept env grant dir hcount n
  simp only [hhole, Option.bind_eq_bind, Option.bind_some]
  split
  · exact .of hkept
  · exact .of (goScan_kept (((hkept.emit env dir _).bump _).loose dir))

theorem RespState.Safe.markDirty (h : Safe none s) : Safe none s.markDirty := by
  have hsend : Safe none (s.upd .send fun f => { f with st := .dirty, resyncMatched := 0 }) :=
    h.upd ⟨(h.slab .send).max, (h.slab .send).held⟩
  have hrecv := hsend.slab .recv
  rw [SlabState.markDirty]
  exact hsend.upd ⟨hrecv.max, hrecv.held⟩

theorem RespState.Safe.zeroed (cookie : UInt64) : Safe none { c := { cookie } } := by
  refine ⟨fun d => ?_, fun d _ => ?_, fun d => ?_⟩
  · cases d <;> exact .nil
  · cases d <;> exact RedisDir.eolOk_of nofun nofun
  · cases d <;> exact .empty rfl false

theorem RespState.Safe.tlsReset (s : RespState) (midstream : Bool) : Safe none (s.tlsReset midstream) := by
  have hreset : Safe none { (s.put .send {} false).put .recv {} false with c.frameState := none } := by
    refine ⟨fun d => ?_, fun d _ => ?_, fun d => ?_⟩
    · cases d <;> exact .nil
    · cases d <;> exact RedisDir.eolOk_of nofun nofun
    · cases d <;> exact .empty rfl _
  rw [SlabState.tlsReset]
  cases midstream with
  | false => exact hreset
  | true => exact hreset.markDirty

theorem respAct_reaches (h : Safe none s) (a : RespAct) : Reaches (respAct env grant s a) := by
  cases a with
  | bytes dir callPos alloc p ts => exact redisStreamBytes_reaches (h.upd ⟨(h.slab dir).max, (h.slab dir).held⟩) alloc p ts
  | hole dir alloc n => exact redisStreamHole_reaches h alloc n
  | offAnomaly dir => exact .of ((h.put (.empty rfl false)).bump _)
  | markDirty => exact .of h.markDirty
  | tlsReset midstream => exact .of (.tlsReset s midstream)
  | setFlags fl => exact .of (h.connFlags _)

theorem respActs_reaches (h : Safe none s) (acts : List RespAct) : Reaches (respActs env grant s acts) := by
  induction acts generalizing s with
  | nil => exact .of h
  | cons a acts ih =>
    obtain ⟨s', hact, hkept⟩ : Reaches (respAct env grant s a) := respAct_reaches h a
    rw [respActs, List.foldlM_cons, hact]
    exact ih hkept

end

structure RespSafe (d : RedisDir) (f : Frame) (slab : Bool) : Prop where
  depth : d.stack.length ≤ lkRedisMaxDepth
  owed : ∀ n ∈ d.stack, 1 ≤ n
  max : f.buf.length ≤ lkMsgBodyMax
  held : f.buf.length ≠ 0 → slab = true

/-- Whatever bytes and holes a connection meets, and whatever else dirties it in between, the RESP framer gets through
each of its calls: no level of the stack is decremented below zero, no turn of the loop is parked with input left, and
both directions stay well formed. -/
theorem redisStream_safe (env : Env RedisFrame) (grant : Nat → Bool) (cookie : UInt64) (acts : List RespAct) :
    ∃ s, respActs env grant { c := { cookie } } acts = some s ∧
      ∀ dir, RespSafe (RespState.rd s dir) (s.c.frame dir) (s.slab dir) := by
  obtain ⟨s, hs, hkept⟩ : Reaches (respActs env grant { c := { cookie } } acts) := respActs_reaches (.zeroed cookie) acts
  refine ⟨s, hs, fun dir => ⟨(hkept.stack dir).depth, (hkept.stack dir).owed, (hkept.slab dir).max, fun hlen => ?_⟩⟩
  exact (hkept.slab dir).held fun hnil => hlen (by rw [hnil]; rfl)

end Latkit
