import Latkit.FrameKeeps

namespace Latkit

/-- The stream framers leave the call counters to the reassembler. -/
structure StreamsKeepCall (env : Env φ) : Prop where
  bytes : ∀ proto r c dir p ts,
    ((env.streamBytes proto r c dir p ts).2.frame dir).call = (c.frame dir).call
  hole : ∀ proto r c dir n, ((env.streamHole proto r c dir n).2.frame dir).call = (c.frame dir).call

def SameCall (dir : Dir) (c c' : FConn φ) : Prop := (c'.frame dir).call = (c.frame dir).call

section
variable {env : Env φ}

theorem SameCall.keeps (ops : ProtoOps φ) (dir : Dir)
    (parseHdr : ∀ f g, ops.parseHdr dir f = some g → g.call = f.call)
    (resyncScan : ∀ f p, (ops.resyncScan dir f p).1.call = f.call)
    (preEmit : ∀ c m, SameCall dir c (ops.preEmit c dir m).1)
    (interceptBytes : ∀ r c p ts, SameCall dir c (ops.interceptBytes r c dir p ts).2.1)
    (interceptHole : ∀ c c', ops.interceptHole c dir = some c' → SameCall dir c c')
    (streamBytes : ∀ r c p ts, SameCall dir c (ops.streamBytes r c dir p ts).2)
    (streamHole : ∀ r c n, SameCall dir c (ops.streamHole r c dir n).2) :
    Keeps env ops dir (SameCall dir) where
  refl _ := rfl
  trans _ _ _ h h' := h'.trans h
  frame c f h := by
    rw [SameCall, FConn.frame_setFrame]
    exact h
  react c t := by rw [SameCall, FConn.frame_mapFlags]
  parseHdr := parseHdr
  resyncScan := resyncScan
  preEmit := preEmit
  interceptBytes := interceptBytes
  interceptHole := interceptHole
  streamBytes := streamBytes
  streamHole := streamHole

theorem pgPreEmit_call (c : FConn φ) (dir : Dir) (m : Msg) : SameCall dir c (pgPreEmit c dir m).1 := by
  simp only [pgPreEmit, SameCall]
  repeat' split
  all_goals simp [Frame.call]

theorem pgIntercept_call (env : Env φ) (dir : Dir) (r : Reasm) (c : FConn φ) (p : List Byte) (ts : Nat) :
    SameCall dir c (pgInterceptBytes env r c dir p ts).2.1 := by
  simp only [pgInterceptBytes, pgSslReply, deliver, SameCall]
  repeat' split
  all_goals simp [Frame.call]

theorem lkProtoPgOps_sameCall (env : Env φ) (dir : Dir) :
    Keeps env (lkProtoPgOps env) dir (SameCall dir) := by
  apply SameCall.keeps
  · intro f g h
    exact pgParseHdr_call h
  · exact pgResyncScan_call dir
  · intro c m
    exact pgPreEmit_call c dir m
  · exact pgIntercept_call env dir
  · intro c c' h
    simp only [lkProtoPgOps, pgInterceptHole] at h
    split at h <;> cases h
    simp [SameCall]
  · intros
    rfl
  · intros
    rfl

theorem myAuthDone_call (c : FConn φ) (dir : Dir) : SameCall dir c (myAuthDone c) := by
  cases dir <;> rfl

theorem myNoteCommand_call (c : FConn φ) (dir : Dir) : SameCall dir c (myNoteCommand c dir) := by
  simp only [myNoteCommand]
  split
  · exact myAuthDone_call c dir
  · rfl

theorem myPacket_call (c : FConn φ) (dir : Dir) (m : Msg) : SameCall dir c (myPacket c dir m).1 := by
  cases dir with
  | recv =>
    simp only [myPacket]
    split
    · simp only [myFirstPacket]
      repeat' split
      all_goals rfl
    · rfl
  | send =>
    simp only [myPacket]
    split
    · exact myAuthDone_call c .send
    · rfl

theorem lkProtoMyOps_sameCall (env : Env φ) (dir : Dir) :
    Keeps env lkProtoMyOps dir (SameCall dir) := by
  apply SameCall.keeps
  · intro f g h
    exact myParseHdr_call dir h
  · intros
    rfl
  · intro c m
    exact (myPacket_call _ dir _).trans (myNoteCommand_call c dir)
  · intros
    rfl
  · intro c c' h
    simp [lkProtoMyOps] at h
  · intros
    rfl
  · intros
    rfl

theorem streamOps_sameCall (hst : StreamsKeepCall env) (proto : Proto) (dir : Dir) :
    Keeps env (streamOps env proto) dir (SameCall dir) := by
  apply SameCall.keeps
  · intro f g h
    simp [streamOps] at h
  · intros
    rfl
  · intros
    rfl
  · intros
    rfl
  · intro c c' h
    simp [streamOps] at h
  · intro r c p ts
    exact hst.bytes proto r c dir p ts
  · intro r c n
    exact hst.hole proto r c dir n

theorem protoOps_sameCall (hst : StreamsKeepCall env) (dir : Dir) (proto : Proto) :
    Keeps env (protoOps env proto) dir (SameCall dir) := by
  cases proto with
  | pg => exact lkProtoPgOps_sameCall env dir
  | mysql => exact lkProtoMyOps_sameCall env dir
  | http => exact streamOps_sameCall hst .http dir
  | s3 => exact streamOps_sameCall hst .s3 dir
  | redis => exact streamOps_sameCall hst .redis dir

theorem framePrims_call (hst : StreamsKeepCall env) (dir : Dir) (s : Reasm × FConn φ)
    (ps : List Prim) : ((framePrims env dir s ps).2.frame dir).call = (s.2.frame dir).call := by
  apply framePrims_keeps (R := SameCall dir) (protoOps_sameCall hst dir)
  intro c
  rw [SameCall, FConn.pin_frame]

end

end Latkit
