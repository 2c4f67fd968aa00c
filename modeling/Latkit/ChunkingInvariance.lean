import Latkit.FrameWire

namespace Latkit

/-- Nothing irregular happened between two states: no header was rejected and the connection did not
turn to TLS or into a blind zone. -/
structure Clean (s s' : Reasm × FConn φ) : Prop where
  badLen : s'.1.st.badLen = s.1.st.badLen
  tlsConns : s'.1.st.tlsConns = s.1.st.tlsConns
  tls : s'.2.flags.tls = s.2.flags.tls
  ignore : s'.2.flags.ignore = s.2.flags.ignore

theorem Clean.flaws_eq (h : Clean s s') : flaws s' = flaws s := by
  simp only [flaws, h.badLen, h.tlsConns, h.tls, h.ignore]

theorem traceBodies_eraseTs (t : List SinkEvent) :
    traceBodies (t.map SinkEvent.eraseTs) = traceBodies t := by
  simp only [traceBodies, List.filterMap_map]
  congr 1
  funext e
  cases e <;> rfl

theorem AtHeader.eraseTs (h : AtHeader f m) : AtHeader f.eraseTs m :=
  ⟨⟨h.buf, h.fresh, h.closed, h.le⟩, h.st, h.hdr, h.cont⟩

theorem AtBoundary.msgCont (h : AtBoundary f) : f.msgCont = false := by
  rw [h.cont]
  by_contra hc
  simpa [lkMsgBodyMax] using h.closed (eq_true_of_ne_false hc)

section
variable {env : Env φ}

theorem feedBytes_pin (env : Env φ) (dir : Dir) (r : Reasm) (c : FConn φ)
    (xs : List (List Byte × Nat)) :
    (feedBytes env dir (r, c) xs).1 = (feedBytes env dir (r, c.pin) xs).1 ∧
      (feedBytes env dir (r, c) xs).2.frame dir = (feedBytes env dir (r, c.pin) xs).2.frame dir ∧
      (feedBytes env dir (r, c) xs).2.flags = (feedBytes env dir (r, c.pin) xs).2.flags := by
  cases xs with
  | nil => exact ⟨rfl, (c.pin_frame dir).symm, rfl⟩
  | cons x xs => exact ⟨rfl, rfl, rfl⟩

theorem connChunk_bodies (he : SinkOk env) (hc : c.MsgFramed) (hs : Framed (connOps env c) dir (r, c))
    (hat : AtBoundary (c.frame dir)) (x : List Byte) (ts : Nat) :
    Reports (r, c) (r, c) (frameChunk env (connOps env c) r c dir x ts) (streamBodies c dir x) := by
  rcases hc with hc | hc
  · have hops : connOps env c = lkProtoPgOps env := by rw [connOps, hc]; rfl
    rw [hops] at hs ⊢
    simp only [streamBodies, hc]
    split
    · next hr =>
      obtain ⟨rfl, hr⟩ := hr
      cases x with
      | nil =>
        rw [frameChunk_nil]
        exact .inr (List.append_nil _).symm
      | cons b x => exact pgChunk_reply_bodies he hs hr hat b x ts
    · next hr =>
      refine frameChunk_bodies he (lkProtoPgOps_lawful he) (pg_speaks env dir) hs ?_ hat
        ⟨rfl, hat.msgCont⟩ x ts
      intro hd
      simpa [hd] using hr
  · have hops : connOps env c = lkProtoMyOps := by rw [connOps, hc]; rfl
    rw [hops] at hs ⊢
    simp only [streamBodies, hc]
    exact frameChunk_bodies he lkProtoMyOps_lawful (my_speaks dir) hs trivial hat trivial x ts

/-- The framer sees a byte stream, not its chunks: two ways of cutting a stream that frames cleanly
hand over the same messages and leave the same state, and every body handed over is the first
`min size LK_MSG_BODY_MAX` bytes of its message. -/
theorem framing_chunking_invariant (he : SinkOk env) (dir : Dir) (r : Reasm) (c : FConn φ)
    (hc : c.MsgFramed) (hw : FrameWf (connOps env c) dir (c.frame dir)) (hslab : r.slabOk = true)
    (xs ys : List (List Byte × Nat)) (heq : xs.flatMap Prod.fst = ys.flatMap Prod.fst)
    (hclean : Clean (r, c) (feedBytes env dir (r, c) xs)) :
    let sx := feedBytes env dir (r, c) xs
    let sy := feedBytes env dir (r, c) ys
    sx.1.trace.map SinkEvent.eraseTs = sy.1.trace.map SinkEvent.eraseTs ∧
      (sx.2.frame dir).eraseTs = (sy.2.frame dir).eraseTs ∧
      (AtBoundary (c.frame dir) → traceBodies sx.1.trace =
        traceBodies r.trace ++ streamBodies c dir (xs.flatMap Prod.fst)) := by
  intro sx sy
  obtain ⟨Settled, hops⟩ := connOps_lawful he hc
  have hs : Framed (connOps env c.pin) dir (r, c.pin) := ⟨by rw [FConn.pin_frame]; exact hw, hslab⟩
  obtain ⟨hx1, hx2, hx3⟩ := feedBytes_pin env dir r c xs
  obtain ⟨hy1, hy2, -⟩ := feedBytes_pin env dir r c ys
  have hfl : flaws (feedBytes env dir (r, c.pin) xs) = flaws (r, c.pin) := by
    have h := hclean.flaws_eq
    simp only [flaws, hx1, hx3] at h
    exact h
  have hpin : (r, c.pin).2.ops = some (c.ops.getD .pg) := rfl
  have hcongr := feedBytes_congr he hops hs hpin heq hfl
  simp only [eraseTs, Prod.mk.injEq] at hcongr
  refine ⟨?_, ?_, fun hat => ?_⟩
  · simp only [sx, sy, hx1, hy1]
    exact congrArg Reasm.trace hcongr.1
  · have h := congrArg (FConn.frame · dir) hcongr.2
    simpa only [sx, sy, hx2, hy2, FConn.eraseTs_frame] using h
  · have hwhole := feedBytes_concat he hops hs hpin xs
    have hn : ¬ Flawed (r, c.pin) (feedBytes env dir (r, c.pin) xs) :=
      Nat.not_lt_of_le (Nat.le_of_eq hfl)
    have hwhole := hwhole.resolve_right fun h => hn h.1
    rw [eraseTs] at hwhole
    have hrep := connChunk_bodies (c := c.pin.eraseTs) he hc (hs.eraseTs hops)
      (by rw [FConn.eraseTs_frame, FConn.pin_frame]; exact hat.eraseTs) (xs.flatMap Prod.fst) 0
    have hbodies := hrep.resolve_left fun h => hn (by
      change Flawed _ (frameChunk env (connOps env c.pin) r.eraseTs _ dir _ 0) at h
      rw [← hwhole] at h
      exact h)
    change traceBodies (frameChunk env (connOps env c.pin) r.eraseTs _ dir _ 0).1.trace = _ at hbodies
    rw [← hwhole] at hbodies
    have hstream : streamBodies c.pin.eraseTs dir (xs.flatMap Prod.fst) =
        streamBodies c dir (xs.flatMap Prod.fst) := by
      cases dir <;> rfl
    simp only [Reasm.eraseTs, traceBodies_eraseTs, hstream] at hbodies
    simpa only [sx, hx1] using hbodies

end

def passiveEnv : Env Unit where
  react := fun _ fl => fl
  streamBytes := fun _ r c _ _ _ => (r, c)
  streamHole := fun _ r c _ _ => (r, c)

theorem passiveEnv_ok : SinkOk passiveEnv :=
  ⟨fun _ _ => rfl, fun _ _ => rfl, fun _ _ h => h, fun _ _ h => h⟩

/-- A ReadyForQuery and the first bytes of a DataRow, in one chunk and cut inside both headers. -/
theorem framing_chunking_invariant_ready :
    let xs := [([0x5a, 0, 0, 0, 5, 0x49, 0x44, 0, 0, 0, 6, 1, 2], 7)]
    let ys := [([0x5a, 0], 1), ([0, 0, 5], 2), ([0x49, 0x44, 0, 0], 3), ([0, 6, 1], 4), ([2], 5)]
    let sx := feedBytes passiveEnv .send ({}, { cookie := 1 }) xs
    let sy := feedBytes passiveEnv .send ({}, { cookie := 1 }) ys
    sx.1.trace.map SinkEvent.eraseTs = sy.1.trace.map SinkEvent.eraseTs ∧
      traceBodies sx.1.trace = [[0x49], [1, 2]] := by
  have h := framing_chunking_invariant passiveEnv_ok .send {} { cookie := 1 } (.inl rfl)
    (.header rfl (by decide) (.inr rfl)) rfl
    [([0x5a, 0, 0, 0, 5, 0x49, 0x44, 0, 0, 0, 6, 1, 2], 7)]
    [([0x5a, 0], 1), ([0, 0, 5], 2), ([0x49, 0x44, 0, 0], 3), ([0, 6, 1], 4), ([2], 5)] rfl
    ⟨by decide, by decide, by decide, by decide⟩
  refine ⟨h.1, ?_⟩
  rw [h.2.2 ⟨⟨rfl, fun _ => ⟨rfl, rfl⟩, nofun, Nat.le_refl _⟩, rfl, rfl, rfl⟩]
  decide

end Latkit
