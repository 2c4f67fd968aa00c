import Latkit.HttpLengths

namespace Latkit

/-! What the loop over a call's bytes can do, turn by turn. -/

open Chunked (Turn)

section
variable (dir : Dir)

theorem httpBodyAdd_counts (src : Option (List Byte)) (ts : Nat) (s : HttpFrame) (hn : n ≠ 0) :
    (httpBodyAdd dir src n ts s).d dir =
      { s.d dir with errWant := false, bodySeen := (s.d dir).bodySeen + n, afterResync := false } := by
  rw [httpBodyAdd, if_neg hn]
  cases src with
  | none => simp only [httpEmit_d, HttpFrame.d_mapD]
  | some p =>
    dsimp only
    split
    · simp only [httpEmit_d, HttpFrame.d_mapD]
    · simp only [httpEmit_d, HttpFrame.d_mapD]

theorem httpBodyAdd_d (src : Option (List Byte)) (n ts : Nat) (s : HttpFrame) :
    ∃ e b r, (httpBodyAdd dir src n ts s).d dir = { s.d dir with errWant := e, bodySeen := b, afterResync := r } := by
  by_cases hn : n = 0
  · rw [httpBodyAdd, if_pos hn]
    exact ⟨_, _, _, rfl⟩
  · rw [httpBodyAdd_counts dir src ts s hn]
    exact ⟨_, _, _, rfl⟩

end

theorem pendPop_d (s : HttpFrame) (dir : Dir) : (pendPop s).1.d dir = s.d dir := by
  rw [pendPop]
  split
  · rfl
  · cases dir <;> rfl

theorem scanBlock_le (p : List Byte) (atline : Bool) : (scanBlock p atline).1 ≤ p.length := by
  induction p generalizing atline with
  | nil => exact Nat.le_refl 0
  | cons b p ih =>
    rw [scanBlock]
    split
    · split
      · simp
      · have := ih true
        simpa using this
    · have := ih (atline && b == cr)
      simpa using this

theorem scanBlock_pos (hp : p ≠ []) (atline : Bool) : 0 < (scanBlock p atline).1 := by
  cases p with
  | nil => exact absurd rfl hp
  | cons b p =>
    rw [scanBlock]
    split
    · split
      · exact Nat.one_pos
      · exact Nat.succ_pos _
    · exact Nat.succ_pos _

theorem strayEol_le (hd : HttpDir) (p : List Byte) : strayEol hd p ≤ p.length := by
  rw [strayEol]
  split
  · exact (List.takeWhile_prefix _).length_le
  · exact Nat.zero_le _

def headStart (ts : Nat) (hd : HttpDir) : HttpDir := if hd.buf = [] then { hd with headTs := ts, atline := true } else hd

def headCut (dir : Dir) (p : List Byte) (ts : Nat) (s : HttpFrame) : Nat × Bool × Bool :=
  scanBlock (p.drop (strayEol (s.d dir) p)) (headStart ts (s.d dir)).atline

def headBytes (dir : Dir) (p : List Byte) (ts : Nat) (s : HttpFrame) : List Byte :=
  (p.drop (strayEol (s.d dir) p)).take (headCut dir p ts s).1

def headBegun (dir : Dir) (p : List Byte) (ts : Nat) (s : HttpFrame) : HttpFrame :=
  s.setD dir { headStart ts (s.d dir) with atline := (headCut dir p ts s).2.1 }

@[simp] theorem headStart_buf (ts : Nat) (hd : HttpDir) : (headStart ts hd).buf = hd.buf := by
  rw [headStart]
  split <;> rfl

theorem headFeed_eq (dir : Dir) (errBody : Bool) (p : List Byte) (ts : Nat) (s : HttpFrame) :
    headFeed dir errBody p ts s =
      if strayEol (s.d dir) p = p.length then (s, strayEol (s.d dir) p)
      else if lkMsgBodyMax < (s.d dir).buf.length + (headCut dir p ts s).1 then
        (httpBadHead dir .headTooBig ts (headBegun dir p ts s), strayEol (s.d dir) p)
      else if (headCut dir p ts s).2.2 then
        ((headComplete dir errBody ((s.d dir).buf ++ headBytes dir p ts s) ts (headBegun dir p ts s)).mapD dir
            fun hd => { hd with buf := [] },
          strayEol (s.d dir) p + (headCut dir p ts s).1)
      else if (s.d dir).buf = [] ∧ ¬ s.slabOk then
        (httpBadHead dir .noMem ts (headBegun dir p ts s), strayEol (s.d dir) p)
      else
        ((headBegun dir p ts s).mapD dir fun hd => { hd with buf := (s.d dir).buf ++ headBytes dir p ts s },
          strayEol (s.d dir) p + (headCut dir p ts s).1) := by
  have hbuf := headStart_buf ts (s.d dir)
  have hslab : ∀ hd, (s.setD dir hd).slabOk = s.slabOk := by
    intro hd
    cases dir <;> rfl
  rw [headFeed]
  simp only [headBegun, headBytes, headCut]
  simp only [headStart] at hbuf ⊢
  simp only [hbuf, hslab]

theorem headFeed_cases (dir : Dir) (errBody : Bool) (p : List Byte) (ts : Nat) (s : HttpFrame) :
    (strayEol (s.d dir) p = p.length ∧ headFeed dir errBody p ts s = (s, p.length)) ∨
      (strayEol (s.d dir) p < p.length ∧ ∃ n, headFeed dir errBody p ts s =
        (httpBadHead dir n ts (headBegun dir p ts s), strayEol (s.d dir) p)) ∨
      (strayEol (s.d dir) p < p.length ∧ (headCut dir p ts s).2.2 = true ∧ headFeed dir errBody p ts s =
        ((headComplete dir errBody ((s.d dir).buf ++ headBytes dir p ts s) ts (headBegun dir p ts s)).mapD dir
            fun hd => { hd with buf := [] },
          strayEol (s.d dir) p + (headCut dir p ts s).1)) ∨
      (strayEol (s.d dir) p < p.length ∧ (headCut dir p ts s).2.2 = false ∧ headFeed dir errBody p ts s =
        ((headBegun dir p ts s).mapD dir fun hd => { hd with buf := (s.d dir).buf ++ headBytes dir p ts s },
          strayEol (s.d dir) p + (headCut dir p ts s).1)) := by
  have hle := strayEol_le (s.d dir) p
  rw [headFeed_eq]
  split
  · next hall => exact .inl ⟨hall, by rw [hall]⟩
  · next hall =>
    have hlt : strayEol (s.d dir) p < p.length := by omega
    right
    split
    · exact .inl ⟨hlt, _, rfl⟩
    · split
      · next hfin => exact .inr (.inl ⟨hlt, hfin, rfl⟩)
      · next hfin =>
        split
        · exact .inl ⟨hlt, _, rfl⟩
        · exact .inr (.inr ⟨hlt, by simpa using hfin, rfl⟩)

theorem headCut_pos (h : strayEol (s.d dir) p < p.length) : 0 < (headCut dir p ts s).1 := by
  apply scanBlock_pos
  rw [ne_eq, List.drop_eq_nil_iff]
  omega

theorem headFeed_moves (dir : Dir) (errBody : Bool) (ts : Nat) (s : HttpFrame) (hp : p ≠ []) :
    0 < (headFeed dir errBody p ts s).2 ∨ ((headFeed dir errBody p ts s).1.d dir).st = .scan := by
  rcases headFeed_cases dir errBody p ts s with ⟨-, heq⟩ | ⟨-, n, heq⟩ | ⟨hlt, -, heq⟩ | ⟨hlt, -, heq⟩
  all_goals rw [heq]
  · exact .inl (List.length_pos_iff.mpr hp)
  · exact .inr (httpBadHead_spec dir n ts _).1
  · exact .inl (Nat.add_pos_right _ (headCut_pos hlt))
  · exact .inl (Nat.add_pos_right _ (headCut_pos hlt))

theorem httpGoOn_next (h : httpGoOn dir p st s rest = .next s' rest') : s' = s ∧ rest' = rest ∧ s.ignore = false := by
  rw [httpGoOn] at h
  split at h
  · cases h
  · next hig =>
    split at h
    · cases h
    · cases h
      exact ⟨rfl, rfl, by simpa using hig⟩

def bodyTake (dir : Dir) (src : Option (List Byte)) (take ts : Nat) (s : HttpFrame) : HttpFrame :=
  let s := (httpBodyAdd dir src take ts s).mapD dir fun hd => { hd with bodyLeft := hd.bodyLeft - take }
  if (s.d dir).bodyLeft = 0 then httpBodyEnd dir ts s else s

section
variable (dir : Dir)

def called (n ts : Nat) (s : HttpFrame) : HttpFrame :=
  s.mapD dir fun hd => { hd with events := hd.events + 1, off := hd.off + n, lastTs := ts }

def undirtied (s : HttpFrame) : HttpFrame := if (s.d dir).dirty ∧ (s.d dir).st ≠ .scan then httpGoScan dir s else s

def unseen (p : List Byte) (ts : Nat) (s : HttpFrame) : HttpFrame :=
  if dir = .send ∧ (s.d dir).st = .body ∧ (s.d dir).bodySeen = 0 ∧ statusLineHead p then
    httpBodyEnd dir ts (httpNote dir .bodyUnseen ts s)
  else s

def callOpened (p : List Byte) (ts : Nat) (s : HttpFrame) : HttpFrame := unseen dir p ts (undirtied dir (called dir p.length ts s))

theorem httpStreamBytes_eq (errBody : Bool) (p : List Byte) (ts : Nat) (s : HttpFrame) :
    httpStreamBytes dir errBody p ts s =
      if tlsRecordHead dir ((called dir p.length ts s).d dir) p then
        { httpNote dir .tls ts (called dir p.length ts s) with tls := true }
      else Chunked.run (httpTurn dir errBody ts) (callOpened dir p ts s) p := rfl

def lost (n : Nat) (s : HttpFrame) : HttpFrame := s.mapD dir fun hd => { hd with holes := hd.holes + 1, off := hd.off + n }

def headHole (ts : Nat) (s : HttpFrame) : HttpFrame := httpGoScan dir (httpNote dir .headHole ts s)

def headPrefix (s : HttpFrame) : HttpFrame :=
  if (s.d dir).buf = [] then s
  else
    httpEmit dir
      { ts := (s.d dir).headTs, type := if dir = .recv then lkHttpMsgReq else lkHttpMsgResp, len := (s.d dir).buf.length
        body := (s.d dir).buf, flags := { bodyTrunc := true } } s

def holed (n ts : Nat) (s : HttpFrame) : HttpFrame :=
  if (s.d dir).dirty ∧ (s.d dir).st ≠ .scan then httpGoScan dir s
  else
    match (s.d dir).st with
    | .head => headHole dir ts (headPrefix dir s)
    | .body =>
      let take := min (s.d dir).bodyLeft n
      if n - take = 0 then bodyTake dir none take ts s else headHole dir ts (bodyTake dir none take ts s)
    | .chunk => httpGoScan dir (httpNote dir .chunkHole ts s)
    | .close => httpBodyAdd dir none n ts s
    | .scan => s.mapD dir fun hd => { hd with anchor := [] }

theorem httpStreamHole_eq (n : Nat) (s : HttpFrame) :
    httpStreamHole dir n s = if n = 0 then s else holed dir n ((lost dir n s).d dir).lastTs (lost dir n s) := rfl

end

def HttpDir.counts (hd : HttpDir) : Nat × Nat := (hd.events, hd.lastTs)

def HttpEvent.msg? (dir : Dir) : HttpEvent → Option Msg
  | .msg dir' m => if dir' = dir then some m else none
  | .resync _ => none

def HttpFrame.msgs (s : HttpFrame) (dir : Dir) : List Msg := s.out.filterMap (HttpEvent.msg? dir)

@[simp] theorem HttpFrame.msgs_setD (s : HttpFrame) (dir dir' : Dir) (hd : HttpDir) : (s.setD dir' hd).msgs dir = s.msgs dir := by
  cases dir' <;> rfl

@[simp] theorem HttpFrame.msgs_mapD (s : HttpFrame) (dir dir' : Dir) (g : HttpDir → HttpDir) :
    (s.mapD dir' g).msgs dir = s.msgs dir := HttpFrame.msgs_setD ..

theorem pendPop_msgs (s : HttpFrame) (dir : Dir) : (pendPop s).1.msgs dir = s.msgs dir := by
  rw [pendPop]
  split
  · rfl
  · rfl

/-- What is done with bytes of one direction leaves the other's machine and messages alone, and the count of calls. -/
structure KeepsOther (dir : Dir) (s s' : HttpFrame) : Prop where
  other : s'.d dir.other = s.d dir.other
  counts : (s'.d dir).counts = (s.d dir).counts
  msgs : s'.msgs dir.other = s.msgs dir.other

namespace KeepsOther

theorem refl (dir : Dir) (s : HttpFrame) : KeepsOther dir s s := ⟨rfl, rfl, rfl⟩

theorem trans (h : KeepsOther dir s s₁) (h' : KeepsOther dir s₁ s') : KeepsOther dir s s' :=
  ⟨h'.other.trans h.other, h'.counts.trans h.counts, h'.msgs.trans h.msgs⟩

theorem setD (dir : Dir) (hd : HttpDir) (s : HttpFrame) (h : hd.counts = (s.d dir).counts) : KeepsOther dir s (s.setD dir hd) :=
  ⟨HttpFrame.d_setD_other .., by rw [HttpFrame.d_setD]; exact h, HttpFrame.msgs_setD ..⟩

theorem mapD (dir : Dir) (g : HttpDir → HttpDir) (s : HttpFrame) (h : ∀ hd, (g hd).counts = hd.counts) :
    KeepsOther dir s (s.mapD dir g) := setD dir _ s (h _)

theorem emit (dir : Dir) (m : Msg) (s : HttpFrame) : KeepsOther dir s (httpEmit dir m s) := by
  cases dir <;> exact ⟨rfl, rfl, List.filterMap_append.trans (List.append_nil _)⟩

theorem goBlind (dir : Dir) (n : LkHttpNote) (ts : Nat) (s : HttpFrame) : KeepsOther dir s (httpGoBlind dir n ts s) := by
  have hnote : KeepsOther dir s (httpNote dir n ts s) := emit dir _ s
  cases dir <;> exact ⟨hnote.other, hnote.counts, hnote.msgs⟩

theorem goScan (dir : Dir) (s : HttpFrame) : KeepsOther dir s (httpGoScan dir s) := mapD dir _ s (by intro; rfl)

theorem badHead (dir : Dir) (n : LkHttpNote) (ts : Nat) (s : HttpFrame) : KeepsOther dir s (httpBadHead dir n ts s) :=
  (emit dir _ s).trans (goScan dir _)

theorem bodyEnd (dir : Dir) (ts : Nat) (s : HttpFrame) : KeepsOther dir s (httpBodyEnd dir ts s) :=
  (emit dir _ s).trans (mapD dir _ _ (by intro; rfl))

theorem bodyAdd (dir : Dir) (src : Option (List Byte)) (n ts : Nat) (s : HttpFrame) :
    KeepsOther dir s (httpBodyAdd dir src n ts s) := by
  rw [httpBodyAdd]
  split
  · exact refl dir s
  · cases src with
    | none => exact (mapD dir _ s (by intro; rfl)).trans ((mapD dir _ _ (by intro; rfl)).trans (emit dir _ _))
    | some p =>
      dsimp only
      split
      · exact (mapD dir _ s (by intro; rfl)).trans ((emit dir _ _).trans ((mapD dir _ _ (by intro; rfl)).trans (emit dir _ _)))
      · exact (mapD dir _ s (by intro; rfl)).trans ((mapD dir _ _ (by intro; rfl)).trans (emit dir _ _))

theorem bodyTake (dir : Dir) (src : Option (List Byte)) (take ts : Nat) (s : HttpFrame) :
    KeepsOther dir s (bodyTake dir src take ts s) := by
  have hleft := (bodyAdd dir src take ts s).trans (mapD dir (fun hd => { hd with bodyLeft := hd.bodyLeft - take }) _ (by intro; rfl))
  rw [Latkit.bodyTake]
  split
  · exact hleft.trans (bodyEnd ..)
  · exact hleft

theorem lf (dir : Dir) (lfOnly : Bool) (ts : Nat) (s : HttpFrame) : KeepsOther dir s (noteLf dir lfOnly ts s) := by
  have hnote : KeepsOther dir { s with lfNoted := true } (httpNote dir .lfOnly ts { s with lfNoted := true }) := emit dir _ _
  rw [noteLf]
  split
  · cases dir <;> exact ⟨hnote.other, hnote.counts, hnote.msgs⟩
  · exact refl dir s

theorem push (rq : HttpRq) (ts : Nat) (s : HttpFrame) : KeepsOther .recv s (pendPush rq ts s) := by
  have hnote : KeepsOther .recv { s with pendSkew := true } (httpNote .recv .pipelineOver ts { s with pendSkew := true }) :=
    emit .recv _ _
  rw [pendPush]
  split
  · exact ⟨hnote.other, hnote.counts, hnote.msgs⟩
  · exact ⟨rfl, rfl, rfl⟩

theorem pop (dir : Dir) (s : HttpFrame) : KeepsOther dir s (pendPop s).1 :=
  ⟨pendPop_d s _, by rw [pendPop_d], pendPop_msgs s _⟩

theorem reqAccept (head method : List Byte) (fr : HttpFraming) (lfOnly : Bool) (ts : Nat) (s : HttpFrame) :
    KeepsOther .recv s (reqAccept head method fr lfOnly ts s) := by
  have hpush := ((lf .recv lfOnly ts s).trans (emit .recv
    { ts := ((noteLf .recv lfOnly ts s).d .recv).headTs, type := lkHttpMsgReq, len := head.length, body := head } _)).trans
    (push (reqMarks method fr.rq) ts _)
  rw [Latkit.reqAccept]
  split
  · exact hpush.trans (mapD _ _ _ (by intro; rfl))
  · split
    · exact hpush.trans (mapD _ _ _ (by intro; rfl))
    · exact hpush.trans (bodyEnd ..)

theorem respBody (fr : HttpFraming) (rq : HttpRq) (code ts : Nat) (s : HttpFrame) :
    KeepsOther .send s (respBody fr rq code ts s) := by
  rw [Latkit.respBody]
  split
  · exact (bodyEnd .send ts s).trans (goBlind ..)
  · repeat' split
    all_goals first
      | exact bodyEnd .send ts s
      | exact mapD .send _ s (by intro; rfl)

theorem respAccept (errBody : Bool) (head : List Byte) (code : Nat) (fr : HttpFraming) (lfOnly : Bool) (ts : Nat)
    (s : HttpFrame) : KeepsOther .send s (respAccept errBody head code fr lfOnly ts s) := by
  have hlf := lf .send lfOnly ts s
  have hpop := hlf.trans (pop .send _)
  rw [Latkit.respAccept]
  split
  · exact hpop.trans ((emit .send _ _).trans ((bodyEnd .send ts _).trans (goBlind ..)))
  · split
    · exact hlf.trans ((emit .send _ _).trans (mapD _ _ _ (by intro; rfl)))
    · exact hpop.trans ((emit .send _ _).trans ((mapD .send _ _ (by intro; rfl)).trans (respBody ..)))

theorem headComplete (dir : Dir) (errBody : Bool) (head : List Byte) (ts : Nat) (s : HttpFrame) :
    KeepsOther dir s (headComplete dir errBody head ts s) := by
  cases dir with
  | recv =>
    rcases reqComplete_cases head ts s with ⟨n, heq⟩ | ⟨-, heq⟩ | ⟨line, rl, fr, lfOnly, -, -, heq⟩
    all_goals rw [Latkit.headComplete, heq]
    · exact badHead ..
    · exact goBlind ..
    · exact reqAccept ..
  | send =>
    rcases respComplete_cases errBody head ts s with ⟨n, heq⟩ | ⟨line, code, minor, fr, lfOnly, -, -, heq⟩
    all_goals rw [Latkit.headComplete, heq]
    · exact badHead ..
    · exact respAccept ..

theorem headFeed (dir : Dir) (errBody : Bool) (p : List Byte) (ts : Nat) (s : HttpFrame) :
    KeepsOther dir s (headFeed dir errBody p ts s).1 := by
  have hbegun : KeepsOther dir s (headBegun dir p ts s) := by
    refine setD dir _ s ?_
    rw [headStart]
    split
    · rfl
    · rfl
  rcases headFeed_cases dir errBody p ts s with ⟨-, heq⟩ | ⟨-, n, heq⟩ | ⟨-, -, heq⟩ | ⟨-, -, heq⟩
  all_goals rw [heq]
  · exact refl dir s
  · exact hbegun.trans (badHead ..)
  · dsimp only
    exact hbegun.trans ((headComplete ..).trans (mapD _ _ _ (by intro; rfl)))
  · dsimp only
    exact hbegun.trans (mapD _ _ _ (by intro; rfl))

theorem sizeDone (dir : Dir) (s : HttpFrame) : KeepsOther dir s (s.setD dir (chunkSizeDone (s.d dir))) := by
  refine setD dir _ s ?_
  rw [chunkSizeDone]
  split
  · rfl
  · rfl

theorem chunkTurn (dir : Dir) (b : Byte) (p : List Byte) (ts : Nat) (s : HttpFrame) :
    KeepsOther dir s (chunkTurn dir b p ts s).1 := by
  rw [Latkit.chunkTurn]
  dsimp only
  repeat' split
  all_goals first
    | exact badHead ..
    | exact sizeDone dir s
    | exact setD _ _ _ (by rfl)
    | exact refl dir s
    | exact (setD dir _ s (by rfl)).trans (bodyEnd ..)
    | skip
  dsimp only
  exact (bodyAdd dir _ _ ts s).trans (mapD _ _ _ (by intro; rfl))

theorem chunkFeed (dir : Dir) (ts n : Nat) (p : List Byte) (s : HttpFrame) : KeepsOther dir s (chunkFeed dir ts n p s).1 := by
  induction n generalizing p s with
  | zero => exact refl dir s
  | succ n ih =>
    cases p with
    | nil => exact refl dir s
    | cons b p =>
      rw [Latkit.chunkFeed]
      split
      · exact refl dir s
      · exact (chunkTurn dir b p ts s).trans (ih _ _)

theorem resync (dir : Dir) (s : HttpFrame) : KeepsOther dir s (httpResync dir s) := by
  cases dir <;> exact ⟨rfl, rfl, List.filterMap_append.trans (List.append_nil _)⟩

theorem scanFeed (dir : Dir) (errBody : Bool) (ts : Nat) (p : List Byte) (s : HttpFrame) :
    KeepsOther dir s (scanFeed dir errBody ts p s).1 := by
  induction p generalizing s with
  | nil => exact refl dir s
  | cons b p ih =>
    rw [Latkit.scanFeed]
    dsimp only
    split
    · exact (mapD dir _ s (by intro; rfl)).trans ((resync dir _).trans (headFeed ..))
    · exact (mapD dir _ s (by intro; rfl)).trans (ih _)

theorem turn (dir : Dir) (errBody : Bool) (ts : Nat) (s : HttpFrame) (p : List Byte) :
    KeepsOther dir s (httpTurn dir errBody ts s p).left := by
  have hgo : ∀ st s' rest, (httpGoOn dir p st s' rest).left = s' := by
    intro st s' rest
    rw [httpGoOn]
    repeat' split
    all_goals rfl
  rw [httpTurn]
  split
  all_goals rw [hgo]
  · exact headFeed ..
  · exact bodyTake ..
  · exact chunkFeed ..
  · exact bodyAdd ..
  · exact scanFeed ..

theorem run (dir : Dir) (errBody : Bool) (ts : Nat) (s : HttpFrame) (p : List Byte) :
    KeepsOther dir s (Chunked.run (httpTurn dir errBody ts) s p) := by
  refine Chunked.run_keeps ?_ ?_ (refl dir s) p
  · intro s₁ p s' h ht
    have hturn := turn dir errBody ts s₁ p
    rw [ht] at hturn
    exact h.trans hturn
  · intro s₁ p s' rest h ht
    have hturn := turn dir errBody ts s₁ p
    rw [ht] at hturn
    exact h.trans hturn

theorem callOpened (dir : Dir) (p : List Byte) (ts : Nat) (s : HttpFrame) :
    KeepsOther dir (called dir p.length ts s) (callOpened dir p ts s) := by
  have hundirtied : KeepsOther dir (called dir p.length ts s) (undirtied dir (called dir p.length ts s)) := by
    rw [undirtied]
    split
    · exact goScan ..
    · exact refl dir _
  rw [Latkit.callOpened, unseen]
  split
  · exact hundirtied.trans ((emit dir _ _).trans (bodyEnd ..))
  · exact hundirtied

theorem streamBytes (dir : Dir) (errBody : Bool) (p : List Byte) (ts : Nat) (s : HttpFrame) :
    KeepsOther dir (called dir p.length ts s) (httpStreamBytes dir errBody p ts s) := by
  have hnote : KeepsOther dir (called dir p.length ts s) (httpNote dir .tls ts (called dir p.length ts s)) := emit dir _ _
  rw [httpStreamBytes_eq]
  split
  · cases dir <;> exact ⟨hnote.other, hnote.counts, hnote.msgs⟩
  · exact (callOpened dir p ts s).trans (run ..)

theorem headHole (dir : Dir) (ts : Nat) (s : HttpFrame) : KeepsOther dir s (headHole dir ts s) :=
  (emit dir _ s).trans (goScan ..)

theorem headPrefix (dir : Dir) (s : HttpFrame) : KeepsOther dir s (headPrefix dir s) := by
  rw [Latkit.headPrefix]
  split
  · exact refl dir s
  · exact emit ..

theorem holed (dir : Dir) (n ts : Nat) (s : HttpFrame) : KeepsOther dir s (holed dir n ts s) := by
  rw [Latkit.holed]
  split
  · exact goScan ..
  · split
    · exact (headPrefix dir s).trans (headHole ..)
    · dsimp only
      split
      · exact bodyTake ..
      · exact (bodyTake dir none _ ts s).trans (headHole ..)
    · exact (emit dir _ s).trans (goScan ..)
    · exact bodyAdd ..
    · exact mapD _ _ _ (by intro; rfl)

theorem streamHole (dir : Dir) (n : Nat) (s : HttpFrame) : KeepsOther dir s (httpStreamHole dir n s) := by
  have hlost : KeepsOther dir s (lost dir n s) := mapD _ _ _ (by intro; rfl)
  rw [httpStreamHole_eq]
  split
  · exact refl dir s
  · exact hlost.trans (holed ..)

end KeepsOther

section
variable (dir : Dir)

end

/-- What reaches the framer: the bytes of a call, lost bytes, and a loss elsewhere that makes a direction dirty; the buffers
may run out and come back at any time. -/
inductive HttpInput where
  | bytes (dir : Dir) (p : List Byte) (ts : Nat)
  | hole (dir : Dir) (n : Nat)
  | dirty (dir : Dir)
  | slab (ok : Bool)
  deriving DecidableEq, Repr

def httpInput (errBody : Bool) (s : HttpFrame) : HttpInput → HttpFrame
  | .bytes dir p ts => httpStreamBytes dir errBody p ts s
  | .hole dir n => httpStreamHole dir n s
  | .dirty dir => s.mapD dir fun hd => { hd with dirty := true }
  | .slab ok => { s with slabOk := ok }

def httpInputs (errBody : Bool) (s : HttpFrame) (is : List HttpInput) : HttpFrame := is.foldl (httpInput errBody) s

theorem Dir.eq_or_other (dir dir' : Dir) : dir' = dir ∨ dir' = dir.other := by
  cases dir <;> cases dir' <;> decide

end Latkit
