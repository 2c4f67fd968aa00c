import Latkit.HttpLoop

/-! What the messages of a direction say one after the other: a body and its end belong to a whole head, and the end
tells the length of the body. -/

namespace Latkit
open Chunked (Turn)

namespace HttpTrace

def isHead (m : Msg) : Bool := m.type == lkHttpMsgReq || m.type == lkHttpMsgResp

def isBody (m : Msg) : Bool := m.type == lkHttpMsgData || m.type == lkHttpMsgErrb || m.type == lkHttpMsgEnd

def dataLen (ms : List Msg) : Nat := ((ms.filter fun m => m.type == lkHttpMsgData).map Msg.len).sum

/-- The last head was whole, no end has followed it, and so many bytes of its body were told. -/
def Open (ms : List Msg) (k : Nat) : Prop :=
  ∃ before head since, ms = before ++ head :: since ∧ isHead head = true ∧ head.flags.bodyTrunc = false ∧
    (∀ m ∈ since, isHead m = false ∧ m.type ≠ lkHttpMsgEnd) ∧ dataLen since = k

/-- Every message of a body follows a whole head with no end in between, and an end tells how long the body was. -/
def WellTold (ms : List Msg) : Prop :=
  ∀ before m after, ms = before ++ m :: after → isBody m = true →
    ∃ k, Open before k ∧ (m.type = lkHttpMsgEnd → m.len = min k (2 ^ 32 - 1))

theorem WellTold.snoc (h : WellTold ms)
    (hm : isBody m = true → ∃ k, Open ms k ∧ (m.type = lkHttpMsgEnd → m.len = min k (2 ^ 32 - 1))) :
    WellTold (ms ++ [m]) := by
  intro before m' after heq hbody
  rcases List.eq_nil_or_concat after with rfl | ⟨after, x, rfl⟩
  · obtain ⟨rfl, hlast⟩ := List.append_inj' heq rfl
    cases hlast
    exact hm hbody
  · have hcut : ms ++ [m] = (before ++ m' :: after) ++ [x] := by
      rw [heq]
      simp
    obtain ⟨rfl, -⟩ := List.append_inj' hcut rfl
    exact h before m' after rfl hbody

theorem Open.head (ms : List Msg) (hm : isHead m = true) (hwhole : m.flags.bodyTrunc = false) : Open (ms ++ [m]) 0 :=
  ⟨ms, m, [], rfl, hm, hwhole, nofun, rfl⟩

theorem Open.snoc (h : Open ms k) (hm : isHead m = false) (hend : m.type ≠ lkHttpMsgEnd) :
    Open (ms ++ [m]) (k + if m.type = lkHttpMsgData then m.len else 0) := by
  obtain ⟨before, head, since, rfl, hhead, hwhole, hsince, rfl⟩ := h
  refine ⟨before, head, since ++ [m], by simp, hhead, hwhole, ?_, ?_⟩
  · intro x hx
    rcases List.mem_append.mp hx with hx | hx
    · exact hsince x hx
    · rw [List.mem_singleton.mp hx]
      exact ⟨hm, hend⟩
  · rw [dataLen, dataLen, List.filter_append, List.map_append, List.sum_append]
    by_cases hdata : m.type = lkHttpMsgData
    · simp [hdata]
    · simp [hdata]

end HttpTrace

open HttpTrace

section
variable (dir : Dir)

def stamped (m : Msg) (s : HttpFrame) : Msg :=
  { m with flags := { m.flags with afterResync := m.flags.afterResync || (s.d dir).afterResync } }

@[simp] theorem msgs_emit (m : Msg) (s : HttpFrame) : (httpEmit dir m s).msgs dir = s.msgs dir ++ [stamped dir m s] := by
  have hmsg : HttpEvent.msg? dir (.msg dir (stamped dir m s)) = some (stamped dir m s) := if_pos rfl
  have hout : (httpEmit dir m s).out = s.out ++ [.msg dir (stamped dir m s)] := by
    cases dir <;> rfl
  rw [HttpFrame.msgs, hout, List.filterMap_append, List.filterMap_cons, hmsg]
  rfl

def Idle (s : HttpFrame) : Prop := WellTold (s.msgs dir) ∧ (s.d dir).bodySeen = 0

def Telling (s : HttpFrame) : Prop :=
  WellTold (s.msgs dir) ∧ ∃ k, Open (s.msgs dir) k ∧ min k (2 ^ 32 - 1) = min (s.d dir).bodySeen (2 ^ 32 - 1)

def Told (s : HttpFrame) : Prop :=
  match (s.d dir).st with
  | .head | .scan => Idle dir s
  | .body | .chunk | .close => Telling dir s

end

section
variable {dir : Dir} {s s' : HttpFrame}

theorem Told.idle (h : Told dir s) (hst : (s.d dir).st = .head ∨ (s.d dir).st = .scan) : Idle dir s := by
  rw [Told] at h
  rcases hst with hst | hst
  · rwa [hst] at h
  · rwa [hst] at h

theorem Told.telling (h : Told dir s) (hst : (s.d dir).st = .body ∨ (s.d dir).st = .chunk ∨ (s.d dir).st = .close) :
    Telling dir s := by
  rw [Told] at h
  rcases hst with hst | hst | hst
  · rwa [hst] at h
  · rwa [hst] at h
  · rwa [hst] at h

theorem Idle.told (h : Idle dir s) (hst : (s.d dir).st = .head ∨ (s.d dir).st = .scan) : Told dir s := by
  rw [Told]
  rcases hst with hst | hst
  · rwa [hst]
  · rwa [hst]

theorem Telling.told (h : Telling dir s) (hst : (s.d dir).st = .body ∨ (s.d dir).st = .chunk ∨ (s.d dir).st = .close) :
    Told dir s := by
  rw [Told]
  rcases hst with hst | hst | hst
  · rwa [hst]
  · rwa [hst]
  · rwa [hst]

theorem Told.wellTold (h : Told dir s) : WellTold (s.msgs dir) := by
  rw [Told] at h
  split at h
  all_goals exact h.1

theorem Idle.same (h : Idle dir s) (hm : s'.msgs dir = s.msgs dir) (hd : (s'.d dir).bodySeen = (s.d dir).bodySeen) :
    Idle dir s' := by
  rw [Idle, hm, hd]
  exact h

theorem Telling.same (h : Telling dir s) (hm : s'.msgs dir = s.msgs dir)
    (hd : (s'.d dir).bodySeen = (s.d dir).bodySeen) : Telling dir s' := by
  rw [Telling, hm, hd]
  exact h

theorem Told.same (h : Told dir s) (hm : s'.msgs dir = s.msgs dir) (hst : (s'.d dir).st = (s.d dir).st)
    (hd : (s'.d dir).bodySeen = (s.d dir).bodySeen) : Told dir s' := by
  rw [Told, hst]
  rw [Told] at h
  split at h
  · exact h.same hm hd
  · exact h.same hm hd
  · exact h.same hm hd
  · exact h.same hm hd
  · exact h.same hm hd

theorem Idle.mapD (h : Idle dir s) (g : HttpDir → HttpDir) (hg : ∀ hd, (g hd).bodySeen = hd.bodySeen) :
    Idle dir (s.mapD dir g) := h.same (HttpFrame.msgs_mapD ..) (by rw [HttpFrame.d_mapD]; exact hg _)

theorem Telling.mapD (h : Telling dir s) (g : HttpDir → HttpDir) (hg : ∀ hd, (g hd).bodySeen = hd.bodySeen) :
    Telling dir (s.mapD dir g) := h.same (HttpFrame.msgs_mapD ..) (by rw [HttpFrame.d_mapD]; exact hg _)

theorem Told.mapD (h : Told dir s) (g : HttpDir → HttpDir) (hg : ∀ hd, (g hd).st = hd.st ∧ (g hd).bodySeen = hd.bodySeen) :
    Told dir (s.mapD dir g) :=
  h.same (HttpFrame.msgs_mapD ..) (by rw [HttpFrame.d_mapD]; exact (hg _).1) (by rw [HttpFrame.d_mapD]; exact (hg _).2)

theorem wellTold_emit (h : WellTold (s.msgs dir)) (hm : isBody m = false) : WellTold ((httpEmit dir m s).msgs dir) := by
  rw [msgs_emit]
  refine h.snoc fun hbody => ?_
  exact absurd (hbody.symm.trans hm) (by decide)

theorem Idle.emit (h : Idle dir s) (hm : isBody m = false) : Idle dir (httpEmit dir m s) :=
  ⟨wellTold_emit h.1 hm, by rw [httpEmit_d]; exact h.2⟩

theorem Idle.head (h : Idle dir s) (hhead : isHead m = true) (hbody : isBody m = false)
    (hwhole : m.flags.bodyTrunc = false) : Telling dir (httpEmit dir m s) := by
  refine ⟨wellTold_emit h.1 hbody, 0, ?_, ?_⟩
  · rw [msgs_emit]
    exact Open.head _ hhead hwhole
  · rw [httpEmit_d]
    dsimp only
    rw [h.2]

theorem not_end_of_not_body (hm : isBody m = false) : m.type ≠ lkHttpMsgEnd ∧ m.type ≠ lkHttpMsgData := by
  simp only [isBody, Bool.or_eq_false_iff, beq_eq_false_iff_ne] at hm
  exact ⟨hm.2, hm.1.1⟩

theorem Telling.emit (h : Telling dir s) (hhead : isHead m = false) (hbody : isBody m = false) :
    Telling dir (httpEmit dir m s) := by
  obtain ⟨htold, k, hopen, hk⟩ := h
  obtain ⟨hend, hdata⟩ := not_end_of_not_body hbody
  have hopen' := hopen.snoc (m := stamped dir m s) hhead hend
  rw [if_neg (show (stamped dir m s).type ≠ lkHttpMsgData from hdata)] at hopen'
  refine ⟨wellTold_emit htold hbody, k, ?_, ?_⟩
  · rw [msgs_emit]
    exact hopen'
  · rw [httpEmit_d]
    exact hk

theorem Telling.shown (h : Telling dir s) (hm : m.type = lkHttpMsgErrb) : Telling dir (httpEmit dir m s) := by
  obtain ⟨htold, k, hopen, hk⟩ := h
  have hend : (stamped dir m s).type ≠ lkHttpMsgEnd := by
    rw [show (stamped dir m s).type = lkHttpMsgErrb from hm]
    decide
  have hdata : (stamped dir m s).type ≠ lkHttpMsgData := by
    rw [show (stamped dir m s).type = lkHttpMsgErrb from hm]
    decide
  have hhead : isHead (stamped dir m s) = false := by
    rw [isHead, show (stamped dir m s).type = lkHttpMsgErrb from hm]
    decide
  have hopen' := hopen.snoc hhead hend
  rw [if_neg hdata] at hopen'
  refine ⟨?_, k, ?_, ?_⟩
  · rw [msgs_emit]
    exact htold.snoc fun _ => ⟨k, hopen, fun he => absurd he hend⟩
  · rw [msgs_emit]
    exact hopen'
  · rw [httpEmit_d]
    exact hk

theorem Telling.data (h : Telling dir s) (n ts : Nat) :
    Telling dir (httpEmit dir { ts := ts, type := lkHttpMsgData, len := min n (2 ^ 32 - 1) }
      (s.mapD dir fun hd => { hd with bodySeen := hd.bodySeen + n })) := by
  obtain ⟨htold, k, hopen, hk⟩ := h
  refine ⟨?_, k + min n (2 ^ 32 - 1), ?_, ?_⟩
  · rw [msgs_emit, HttpFrame.msgs_mapD]
    refine htold.snoc fun _ => ⟨k, hopen, fun he => ?_⟩
    exact absurd (show lkHttpMsgData = lkHttpMsgEnd from he) (by decide)
  · rw [msgs_emit, HttpFrame.msgs_mapD]
    exact hopen.snoc (m := stamped dir { ts := ts, type := lkHttpMsgData, len := min n (2 ^ 32 - 1) } _) rfl
      (show lkHttpMsgData ≠ lkHttpMsgEnd by decide)
  · rw [httpEmit_d, HttpFrame.d_mapD]
    dsimp only
    omega

theorem Telling.bodyAdd (h : Telling dir s) (src : Option (List Byte)) (n ts : Nat) :
    Telling dir (httpBodyAdd dir src n ts s) := by
  have hwant : Telling dir (s.mapD dir fun hd => { hd with errWant := false }) :=
    h.mapD _ fun _ => rfl
  rw [httpBodyAdd]
  split
  · exact h
  · cases src with
    | none => exact hwant.data n ts
    | some p =>
      dsimp only
      split
      · exact (hwant.shown rfl).data n ts
      · exact hwant.data n ts

theorem Telling.bodyEnd (h : Telling dir s) (ts : Nat) : Told dir (httpBodyEnd dir ts s) := by
  obtain ⟨htold, k, hopen, hk⟩ := h
  refine Idle.told ⟨?_, ?_⟩ (.inl (httpBodyEnd_st dir ts s))
  · rw [httpBodyEnd, HttpFrame.msgs_mapD, msgs_emit]
    exact htold.snoc fun _ => ⟨k, hopen, fun _ => hk.symm⟩
  · rw [httpBodyEnd, HttpFrame.d_mapD]

theorem Told.note (h : Told dir s) (n : LkHttpNote) (ts : Nat) : Told dir (httpNote dir n ts s) := by
  have hst : ((httpNote dir n ts s).d dir).st = (s.d dir).st := by
    rw [httpNote, httpEmit_d]
  rw [Told, hst]
  rw [Told] at h
  split at h
  · exact h.emit rfl
  · exact h.emit rfl
  · exact h.emit rfl rfl
  · exact h.emit rfl rfl
  · exact h.emit rfl rfl

theorem wellTold_goScan (h : WellTold (s.msgs dir)) : Told dir (httpGoScan dir s) := by
  refine Idle.told ⟨?_, ?_⟩ (.inr ?_)
  · rw [httpGoScan, HttpFrame.msgs_mapD]
    exact h
  · rw [httpGoScan, HttpFrame.d_mapD]
  · rw [httpGoScan, HttpFrame.d_mapD]

theorem wellTold_badHead (h : WellTold (s.msgs dir)) (n : LkHttpNote) (ts : Nat) : Told dir (httpBadHead dir n ts s) :=
  wellTold_goScan (wellTold_emit h rfl)

theorem Told.goBlind (h : Told dir s) (n : LkHttpNote) (ts : Nat) : Told dir (httpGoBlind dir n ts s) := by
  have hnote := h.note n ts
  cases dir <;> exact hnote.same rfl rfl rfl

theorem Idle.lf (h : Idle dir s) (lfOnly : Bool) (ts : Nat) : Idle dir (noteLf dir lfOnly ts s) := by
  have hset : Idle dir { s with lfNoted := true } := by
    cases dir <;> exact h.same rfl rfl
  rw [noteLf]
  split
  · exact hset.emit rfl
  · exact h

end

theorem Telling.push (h : Telling .recv s) (rq : HttpRq) (ts : Nat) : Telling .recv (pendPush rq ts s) := by
  have hset : Telling .recv { s with pendSkew := true } := h.same rfl rfl
  rw [pendPush]
  split
  · exact hset.emit rfl rfl
  · exact h.same rfl rfl

theorem Idle.pop (h : Idle dir s) : Idle dir (pendPop s).1 := h.same (pendPop_msgs s dir) (by rw [pendPop_d])

theorem Telling.enter (h : Telling dir s) (g : HttpDir → HttpDir) (hseen : ∀ hd, (g hd).bodySeen = hd.bodySeen)
    (hst : ∀ hd, (g hd).st = .body ∨ (g hd).st = .chunk ∨ (g hd).st = .close) : Told dir (s.mapD dir g) := by
  refine Telling.told (h.mapD g hseen) ?_
  rw [HttpFrame.d_mapD]
  exact hst _

theorem told_reqAccept (head method : List Byte) (fr : HttpFraming) (lfOnly : Bool) (ts : Nat) (h : Idle .recv s) :
    Told .recv (reqAccept head method fr lfOnly ts s) := by
  have hhead : Telling .recv (httpEmit .recv
      { ts := ((noteLf .recv lfOnly ts s).d .recv).headTs, type := lkHttpMsgReq, len := head.length, body := head }
      (noteLf .recv lfOnly ts s)) := (h.lf lfOnly ts).head rfl rfl rfl
  have hpush := hhead.push (reqMarks method fr.rq) ts
  rw [reqAccept]
  split
  · exact hpush.enter _ (fun _ => rfl) fun _ => .inr (.inl rfl)
  · split
    · exact hpush.enter _ (fun _ => rfl) fun _ => .inl rfl
    · exact hpush.bodyEnd ts

theorem told_respBody (fr : HttpFraming) (rq : HttpRq) (code ts : Nat) (h : Telling .send s) :
    Told .send (respBody fr rq code ts s) := by
  have hend := h.bodyEnd ts
  rw [respBody]
  split
  · exact hend.goBlind _ ts
  · split
    · exact hend
    · split
      · exact h.enter _ (fun _ => rfl) fun _ => .inr (.inl rfl)
      · split
        · exact h.enter _ (fun _ => rfl) fun _ => .inr (.inr rfl)
        · split
          · split
            · exact h.enter _ (fun _ => rfl) fun _ => .inl rfl
            · exact hend
          · exact h.enter _ (fun _ => rfl) fun _ => .inr (.inr rfl)

theorem told_respAccept (errBody : Bool) (head : List Byte) (code : Nat) (fr : HttpFraming) (lfOnly : Bool) (ts : Nat)
    (h : Idle .send s) (hst : (s.d .send).st = .head) : Told .send (respAccept errBody head code fr lfOnly ts s) := by
  have hlf := h.lf lfOnly ts
  have hhead : Telling .send (httpEmit .send
      { ts := ((noteLf .send lfOnly ts s).d .send).headTs, type := lkHttpMsgResp, len := head.length, body := head }
      (pendPop (noteLf .send lfOnly ts s)).1) := hlf.pop.head rfl rfl rfl
  rw [respAccept]
  split
  · exact (hhead.bodyEnd ts).goBlind _ ts
  · split
    · have hinter : Idle .send (httpEmit .send
          { ts := ((noteLf .send lfOnly ts s).d .send).headTs, type := lkHttpMsgInter, len := head.length, body := head }
          (noteLf .send lfOnly ts s)) := hlf.emit rfl
      refine Idle.told (hinter.mapD _ fun _ => rfl) (.inl ?_)
      rw [HttpFrame.d_mapD, httpEmit_d]
      dsimp only
      rw [noteLf_st, hst]
    · apply told_respBody
      exact hhead.mapD _ fun _ => rfl

section
variable (dir : Dir) (errBody : Bool)

theorem told_headComplete (head : List Byte) (ts : Nat) (h : Idle dir s) (hst : (s.d dir).st = .head) :
    Told dir (headComplete dir errBody head ts s) := by
  cases dir with
  | recv =>
    rcases reqComplete_cases head ts s with ⟨n, heq⟩ | ⟨-, heq⟩ | ⟨line, rl, fr, lfOnly, -, -, heq⟩
    all_goals rw [headComplete, heq]
    · exact wellTold_badHead h.1 n ts
    · exact (h.told (.inl hst)).goBlind _ ts
    · exact told_reqAccept head _ fr lfOnly ts h
  | send =>
    rcases respComplete_cases errBody head ts s with ⟨n, heq⟩ | ⟨line, code, minor, fr, lfOnly, -, -, heq⟩
    all_goals rw [headComplete, heq]
    · exact wellTold_badHead h.1 n ts
    · exact told_respAccept errBody head code fr lfOnly ts h hst

theorem idle_headBegun (p : List Byte) (ts : Nat) (h : Idle dir s) : Idle dir (headBegun dir p ts s) := by
  refine h.same (HttpFrame.msgs_setD ..) ?_
  rw [headBegun, HttpFrame.d_setD, headStart]
  split <;> rfl

theorem told_headFeed (p : List Byte) (ts : Nat) (h : Idle dir s) (hst : (s.d dir).st = .head) :
    Told dir (headFeed dir errBody p ts s).1 := by
  have hbegun := idle_headBegun dir p ts h
  have hst' : ((headBegun dir p ts s).d dir).st = .head := by
    rw [headBegun, HttpFrame.d_setD, headStart]
    split <;> exact hst
  rcases headFeed_cases dir errBody p ts s with ⟨-, heq⟩ | ⟨-, n, heq⟩ | ⟨-, -, heq⟩ | ⟨-, -, heq⟩
  all_goals rw [heq]
  · exact h.told (.inl hst)
  · exact wellTold_badHead hbegun.1 n ts
  · have hc := told_headComplete dir errBody ((s.d dir).buf ++ headBytes dir p ts s) ts hbegun hst'
    exact hc.mapD _ fun _ => ⟨rfl, rfl⟩
  · refine Idle.told (hbegun.mapD _ fun _ => rfl) (.inl ?_)
    rw [HttpFrame.d_mapD]
    exact hst'

theorem told_chunkTurn (b : Byte) (p : List Byte) (ts : Nat) (h : Telling dir s) (hst : (s.d dir).st = .chunk) :
    Told dir (chunkTurn dir b p ts s).1 := by
  have hset : ∀ hd : HttpDir, hd.st = .chunk → hd.bodySeen = (s.d dir).bodySeen → Told dir (s.setD dir hd) := by
    intro hd hch hseen
    refine Telling.told (h.same (HttpFrame.msgs_setD ..) ?_) (.inr (.inl ?_))
    · rw [HttpFrame.d_setD]
      exact hseen
    · rw [HttpFrame.d_setD]
      exact hch
  have hdone : Told dir (s.setD dir (chunkSizeDone (s.d dir))) := by
    apply hset
    all_goals
      rw [chunkSizeDone]
      split
    · exact hst
    · exact hst
    · rfl
    · rfl
  have hstay : Told dir s := h.told (.inr (.inl hst))
  have hbad := wellTold_badHead h.1 .chunkBad ts
  rw [chunkTurn]
  dsimp only
  split
  · split
    · split
      · exact hbad
      · exact hset _ hst rfl
    · split
      · exact hbad
      · split
        · exact hset _ hst rfl
        · split
          · exact hset _ hst rfl
          · split
            · exact hdone
            · exact hbad
  · split
    · exact hset _ hst rfl
    · split
      · exact hdone
      · exact hstay
  · split
    · exact hbad
    · exact hdone
  · obtain ⟨e, n, r, hadd⟩ := httpBodyAdd_d dir (some (b :: p)) (min (s.d dir).chunkLeft (b :: p).length) ts s
    refine Telling.told ((h.bodyAdd _ _ ts).mapD _ fun _ => rfl) (.inr (.inl ?_))
    rw [HttpFrame.d_mapD, hadd]
    exact hst
  · split
    · exact hstay
    · split
      · exact hset _ hst rfl
      · exact hbad
  · split
    · exact (h.same (HttpFrame.msgs_setD ..) (by rw [HttpFrame.d_setD])).bodyEnd ts
    · exact hset _ hst rfl

theorem told_chunkFeed (ts n : Nat) (p : List Byte) (h : Told dir s) : Told dir (chunkFeed dir ts n p s).1 := by
  induction n generalizing p s with
  | zero => exact h
  | succ n ih =>
    cases p with
    | nil => exact h
    | cons b p =>
      rw [chunkFeed]
      by_cases hst : (s.d dir).st = .chunk
      · rw [if_neg (not_not_intro hst)]
        exact ih _ (told_chunkTurn dir b p ts (h.telling (.inr (.inl hst))) hst)
      · rw [if_pos hst]
        exact h

theorem msgs_resync (s : HttpFrame) : (httpResync dir s).msgs dir = s.msgs dir := by
  cases dir <;> exact List.filterMap_append.trans (List.append_nil _)

theorem told_scanFeed (ts : Nat) (p : List Byte) (h : Idle dir s) (hst : (s.d dir).st = .scan) :
    Told dir (scanFeed dir errBody ts p s).1 := by
  induction p generalizing s with
  | nil => exact h.told (.inr hst)
  | cons b p ih =>
    rw [scanFeed]
    dsimp only
    split
    · have hhead : Idle dir (s.mapD dir fun hd => { hd with anchor := [], st := .head }) :=
        h.mapD _ fun _ => rfl
      apply told_headFeed
      · refine hhead.same (msgs_resync dir _) ?_
        cases dir <;> rfl
      · cases dir <;> rfl
    · apply ih
      · exact h.mapD _ fun _ => rfl
      · rw [HttpFrame.d_mapD]
        exact hst

theorem told_bodyTake (src : Option (List Byte)) (take ts : Nat) (h : Telling dir s) (hst : (s.d dir).st = .body) :
    Told dir (bodyTake dir src take ts s) := by
  have hadd : Telling dir ((httpBodyAdd dir src take ts s).mapD dir fun hd => { hd with bodyLeft := hd.bodyLeft - take }) :=
    (h.bodyAdd src take ts).mapD _ fun _ => rfl
  obtain ⟨e, n, r, heq⟩ := httpBodyAdd_d dir src take ts s
  rw [bodyTake]
  split
  · exact hadd.bodyEnd ts
  · refine hadd.told (.inl ?_)
    rw [HttpFrame.d_mapD, heq]
    exact hst

theorem told_closeAdd (src : Option (List Byte)) (n ts : Nat) (h : Telling dir s) (hst : (s.d dir).st = .close) :
    Told dir (httpBodyAdd dir src n ts s) := by
  obtain ⟨e, b, r, heq⟩ := httpBodyAdd_d dir src n ts s
  refine (h.bodyAdd src n ts).told (.inr (.inr ?_))
  rw [heq]
  exact hst

theorem told_turn (ts : Nat) (s : HttpFrame) (p : List Byte) (h : Told dir s) : Told dir (httpTurn dir errBody ts s p).left := by
  have hgo : ∀ st s' rest, (httpGoOn dir p st s' rest).left = s' := by
    intro st s' rest
    rw [httpGoOn]
    repeat' split
    all_goals rfl
  rw [httpTurn]
  split
  all_goals rw [hgo]
  · next hst => exact told_headFeed dir errBody p ts (h.idle (.inl hst)) hst
  · next hst => exact told_bodyTake dir _ _ ts (h.telling (.inl hst)) hst
  · exact told_chunkFeed dir ts _ p h
  · next hst => exact told_closeAdd dir _ _ ts (h.telling (.inr (.inr hst))) hst
  · next hst => exact told_scanFeed dir errBody ts p (h.idle (.inr hst)) hst

theorem told_run (ts : Nat) (p : List Byte) (h : Told dir s) : Told dir (Chunked.run (httpTurn dir errBody ts) s p) := by
  refine Chunked.run_keeps ?_ ?_ h p
  · intro s p s' hs ht
    have hturn := told_turn dir errBody ts s p hs
    rwa [ht] at hturn
  · intro s p s' rest hs ht
    have hturn := told_turn dir errBody ts s p hs
    rwa [ht] at hturn

theorem told_streamBytes (p : List Byte) (ts : Nat) (h : Told dir s) : Told dir (httpStreamBytes dir errBody p ts s) := by
  have hcalled : Told dir (called dir p.length ts s) :=
    h.mapD _ fun _ => ⟨rfl, rfl⟩
  have hundirtied : Told dir (undirtied dir (called dir p.length ts s)) := by
    rw [undirtied]
    split
    · exact wellTold_goScan hcalled.wellTold
    · exact hcalled
  rw [httpStreamBytes_eq]
  split
  · have hnote := hcalled.note .tls ts
    cases dir <;> exact hnote.same rfl rfl rfl
  · apply told_run
    rw [callOpened, unseen]
    split
    · next hbody =>
      have hnote := hundirtied.note .bodyUnseen ts
      refine Telling.bodyEnd (hnote.telling (.inl ?_)) ts
      rw [httpNote, httpEmit_d]
      exact hbody.2.1
    · exact hundirtied

theorem told_holed (n ts : Nat) (h : Told dir s) : Told dir (holed dir n ts s) := by
  have hhole : ∀ s, WellTold (HttpFrame.msgs s dir) → Told dir (headHole dir ts s) :=
    fun s hs => wellTold_goScan (wellTold_emit hs rfl)
  rw [holed]
  split
  · exact wellTold_goScan h.wellTold
  · split
    · apply hhole
      rw [headPrefix]
      split
      · exact h.wellTold
      · refine wellTold_emit h.wellTold ?_
        rw [isBody]
        dsimp only
        split <;> decide
    · next hst =>
      have htake := told_bodyTake dir none (min (s.d dir).bodyLeft n) ts (h.telling (.inl hst)) hst
      dsimp only
      split
      · exact htake
      · exact hhole _ htake.wellTold
    · exact wellTold_goScan (h.note _ ts).wellTold
    · next hst => exact told_closeAdd dir none n ts (h.telling (.inr (.inr hst))) hst
    · exact h.mapD _ fun _ => ⟨rfl, rfl⟩

theorem told_streamHole (n : Nat) (h : Told dir s) : Told dir (httpStreamHole dir n s) := by
  rw [httpStreamHole_eq]
  split
  · exact h
  · apply told_holed
    exact h.mapD _ fun _ => ⟨rfl, rfl⟩

end

theorem told_other (h : Told dir s) (hd : s'.d dir = s.d dir) (hm : s'.msgs dir = s.msgs dir) : Told dir s' :=
  h.same hm (by rw [hd]) (by rw [hd])

theorem told_input (errBody : Bool) (i : HttpInput) (h : ∀ dir, Told dir s) (dir : Dir) : Told dir (httpInput errBody s i) := by
  cases i with
  | bytes dir' p ts =>
    rcases Dir.eq_or_other dir' dir with rfl | rfl
    · exact told_streamBytes dir errBody p ts (h dir)
    · have hkeep := KeepsOther.streamBytes dir' errBody p ts s
      exact told_other (h _) (hkeep.other.trans (HttpFrame.d_setD_other ..)) (hkeep.msgs.trans (HttpFrame.msgs_mapD ..))
  | hole dir' n =>
    rcases Dir.eq_or_other dir' dir with rfl | rfl
    · exact told_streamHole dir n (h dir)
    · have hkeep := KeepsOther.streamHole dir' n s
      exact told_other (h _) hkeep.other hkeep.msgs
  | dirty dir' =>
    rcases Dir.eq_or_other dir' dir with rfl | rfl
    · exact (h dir).mapD _ fun _ => ⟨rfl, rfl⟩
    · exact told_other (h _) (HttpFrame.d_setD_other ..) (HttpFrame.msgs_mapD ..)
  | slab ok =>
    refine told_other (h dir) ?_ rfl
    cases dir <;> rfl

/-- Whatever reaches the framer, on one direction or both: a data, error or end message comes after a whole head with no
other head and no end in between, and an end tells the sum of the data since its head. -/
theorem http_messages_wellTold (errBody : Bool) (is : List HttpInput) (dir : Dir) :
    WellTold ((httpInputs errBody {} is).msgs dir) := by
  have hnone : WellTold [] := fun before m after h => absurd h (by simp)
  have hinit : ∀ dir, Told dir {} := by
    intro dir
    cases dir <;> exact ⟨hnone, rfl⟩
  have hall : ∀ (s : HttpFrame), (∀ dir, Told dir s) → ∀ dir, Told dir (httpInputs errBody s is) := by
    induction is with
    | nil => exact fun s hs => hs
    | cons i is ih => exact fun s hs => ih _ (told_input errBody i hs)
  exact (hall {} hinit dir).wellTold

end Latkit
