import Latkit.FrameKeeps

namespace Latkit

def Stays (c c' : FConn φ) : Prop :=
  c'.cookie = c.cookie ∧ (c.flags.tls = true → c'.flags.tls = true)

structure KeepsTls (env : Env φ) : Prop where
  react : ∀ t fl, fl.tls = true → (env.react t fl).tls = true
  bytes : ∀ proto r c dir p ts, Stays c (env.streamBytes proto r c dir p ts).2
  hole : ∀ proto r c dir n, Stays c (env.streamHole proto r c dir n).2

theorem Stays.refl (c : FConn φ) : Stays c c := ⟨rfl, id⟩

theorem Stays.trans (h : Stays a b) (h' : Stays b c) : Stays a c :=
  ⟨h'.1.trans h.1, fun ht => h'.2 (h.2 ht)⟩

theorem Stays.setFrame (c : FConn φ) (dir : Dir) (f : Frame) : Stays c (c.setFrame dir f) := by
  refine ⟨c.setFrame_cookie dir f, ?_⟩
  rw [FConn.setFrame_flags]
  exact id

theorem Stays.mapFlags (c : FConn φ) {g : ConnFlags → ConnFlags}
    (h : c.flags.tls = true → (g c.flags).tls = true) : Stays c (c.mapFlags g) :=
  ⟨c.mapFlags_cookie g, h⟩

section
variable {env : Env φ}

theorem Stays.keeps (he : KeepsTls env) (ops : ProtoOps φ) (dir : Dir)
    (parseHdr : ∀ f g, ops.parseHdr dir f = some g → g.call = f.call)
    (resyncScan : ∀ f p, (ops.resyncScan dir f p).1.call = f.call)
    (preEmit : ∀ c m, Stays c (ops.preEmit c dir m).1)
    (interceptBytes : ∀ r c p ts, Stays c (ops.interceptBytes r c dir p ts).2.1)
    (interceptHole : ∀ c c', ops.interceptHole c dir = some c' → Stays c c')
    (streamBytes : ∀ r c p ts, Stays c (ops.streamBytes r c dir p ts).2)
    (streamHole : ∀ r c n, Stays c (ops.streamHole r c dir n).2) :
    Keeps env ops dir Stays where
  refl := Stays.refl
  trans _ _ _ := Stays.trans
  frame c f _ := Stays.setFrame c dir f
  react c t := Stays.mapFlags c (he.react t c.flags)
  parseHdr := parseHdr
  resyncScan := resyncScan
  preEmit := preEmit
  interceptBytes := interceptBytes
  interceptHole := interceptHole
  streamBytes := streamBytes
  streamHole := streamHole

theorem pgPreEmit_stays (c : FConn φ) (dir : Dir) (m : Msg) : Stays c (pgPreEmit c dir m).1 := by
  simp only [pgPreEmit]
  repeat' split
  all_goals simp_all [Stays]

theorem pgIntercept_stays (he : KeepsTls env) (dir : Dir) (r : Reasm) (c : FConn φ) (p : List Byte)
    (ts : Nat) : Stays c (pgInterceptBytes env r c dir p ts).2.1 := by
  have hr := he.react
  simp only [pgInterceptBytes, pgSslReply, deliver]
  repeat' split
  all_goals simp_all [Stays]

theorem lkProtoPgOps_stays (he : KeepsTls env) (dir : Dir) : Keeps env (lkProtoPgOps env) dir Stays := by
  apply Stays.keeps he
  · intro f g h
    exact pgParseHdr_call h
  · exact pgResyncScan_call dir
  · intro c m
    exact pgPreEmit_stays c dir m
  · exact pgIntercept_stays he dir
  · intro c c' h
    simp only [lkProtoPgOps, pgInterceptHole] at h
    split at h <;> cases h
    exact Stays.mapFlags c id
  · intro r c p ts
    exact Stays.refl c
  · intro r c n
    exact Stays.refl c

theorem myPreEmit_stays (c : FConn φ) (dir : Dir) (m : Msg) :
    Stays c (lkProtoMyOps.preEmit c dir m).1 := by
  simp only [lkProtoMyOps, myPreEmit, myNoteCommand, myPacket, myFirstPacket, myAuthDone]
  repeat' split
  all_goals simp_all [Stays]

theorem lkProtoMyOps_stays (he : KeepsTls env) (dir : Dir) : Keeps env lkProtoMyOps dir Stays := by
  apply Stays.keeps he
  · intro f g h
    exact myParseHdr_call dir h
  · intros
    rfl
  · intro c m
    exact myPreEmit_stays c dir m
  · intro r c p ts
    exact Stays.refl c
  · intro c c' h
    simp [lkProtoMyOps] at h
  · intro r c p ts
    exact Stays.refl c
  · intro r c n
    exact Stays.refl c

theorem streamOps_stays (he : KeepsTls env) (proto : Proto) (dir : Dir) :
    Keeps env (streamOps env proto) dir Stays := by
  apply Stays.keeps he
  · intro f g h
    simp [streamOps] at h
  · intros
    rfl
  · intro c m
    exact Stays.refl c
  · intro r c p ts
    exact Stays.refl c
  · intro c c' h
    simp [streamOps] at h
  · intro r c p ts
    exact he.bytes proto r c dir p ts
  · intro r c n
    exact he.hole proto r c dir n

theorem protoOps_stays (he : KeepsTls env) (dir : Dir) (proto : Proto) :
    Keeps env (protoOps env proto) dir Stays := by
  cases proto with
  | pg => exact lkProtoPgOps_stays he dir
  | mysql => exact lkProtoMyOps_stays he dir
  | http => exact streamOps_stays he .http dir
  | s3 => exact streamOps_stays he .s3 dir
  | redis => exact streamOps_stays he .redis dir

theorem framePrims_stays (he : KeepsTls env) (dir : Dir) (s : Reasm × FConn φ) (ps : List Prim) :
    Stays s.2 (framePrims env dir s ps).2 :=
  framePrims_keeps (protoOps_stays he dir) (fun _ => ⟨rfl, id⟩) s ps

theorem openCall_stays (he : KeepsTls env) (dir : Dir) (ev : EvData) (s : Reasm × FConn φ) :
    Stays s.2 (openCall env dir ev s).1.2 := by
  simp only [openCall]
  split
  · exact (framePrims_stays he dir s _).trans (Stays.setFrame _ dir _)
  · split
    · exact Stays.setFrame _ dir _
    · exact Stays.refl _

theorem alignChunk_stays (he : KeepsTls env) (dir : Dir) (ev : EvData) (s : Reasm × FConn φ) :
    Stays s.2 (alignChunk env dir ev s).1.2 := by
  simp only [alignChunk]
  split
  · split
    · exact (Stays.setFrame _ dir _).trans (Stays.setFrame _ dir _)
    · exact Stays.setFrame _ dir _
  · split
    · exact (framePrims_stays he dir s _).trans (Stays.setFrame _ dir _)
    · exact Stays.refl _

theorem boundaryResync_stays (he : KeepsTls env) (ops : ProtoOps φ) (dir : Dir) (ev : EvData)
    (s : Reasm × FConn φ) : Stays s.2 (boundaryResync env ops dir ev s).2 := by
  simp only [boundaryResync]
  split
  · exact (protoOps_stays he dir .pg).doResync (Stays.refl _) s.1
  · exact Stays.refl _

theorem lkReasmData_stays (he : KeepsTls env) (r : Reasm) (c : FConn φ) (dir : Dir) (ev : EvData) :
    Stays c (lkReasmData env r c dir ev).1.2 := by
  have hpin : Stays c c.pin := ⟨rfl, id⟩
  simp only [lkReasmData]
  split
  · exact hpin
  · apply hpin.trans
    apply (openCall_stays he dir ev (r, c.pin)).trans
    apply (alignChunk_stays he dir ev _).trans
    apply (boundaryResync_stays he _ dir ev _).trans
    apply (framePrims_stays he dir _ _).trans
    exact Stays.setFrame _ dir _

end

end Latkit
