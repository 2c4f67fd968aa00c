import Latkit.Anchor
import Latkit.ChunkingInvariance

namespace Latkit

/-! The backend of PostgreSQL leaves the dirty state behind the first ReadyForQuery it can see. -/

def readyStatuses : List Byte := ['I'.toUInt8, 'T'.toUInt8, 'E'.toUInt8]

def EndsReady (x : List Byte) : Prop := ∃ s ∈ readyStatuses, resyncPat ++ [s] <:+ x

structure FirstReady (x : List Byte) : Prop where
  ends : EndsReady x
  first : ∀ q, q <+: x → EndsReady q → q = x

theorem pgScanByte_eq (hm : m ≤ 5) (b : Byte) :
    pgScanByte m b =
      if m = 5 ∧ b ∈ readyStatuses then none else some (Anchor.step resyncPat m b) := by
  have hready : b ∈ readyStatuses ↔ b = 'I'.toUInt8 ∨ b = 'T'.toUInt8 ∨ b = 'E'.toUInt8 := by
    simp [readyStatuses]
  have hhead : resyncPat.head? = some b ↔ b = 'Z'.toUInt8 := by
    rw [eq_comm (a := b)]
    exact Option.some_inj
  simp only [pgScanByte, hready, Anchor.step]
  by_cases hlt : m < 5
  · have hget : resyncPat[m]? = some b ↔ b = resyncPat.getD m 0 := by
      rw [List.getD_eq_getElem?_getD, List.getElem?_eq_getElem hlt, Option.some_inj, eq_comm]
      rfl
    have hne : ¬ (m = 5 ∧ (b = 'I'.toUInt8 ∨ b = 'T'.toUInt8 ∨ b = 'E'.toUInt8)) :=
      fun h => Nat.ne_of_lt hlt h.1
    simp only [if_pos hlt, if_neg hne, hget, hhead]
  · obtain rfl : m = 5 := by omega
    have hnone : resyncPat[5]? = none := rfl
    rw [if_neg hlt]
    simp only [hnone, hhead, reduceCtorEq, if_false, true_and]

theorem resyncPat_first (i : Nat) (a : Byte) (ha : resyncPat.head? = some a) (hi : resyncPat[i]? = some a) :
    i = 0 := by
  obtain rfl := Option.some.inj ha
  have hlt : i < 5 := (List.getElem?_eq_some_iff.mp hi).1
  have hall : ∀ i < 5, resyncPat[i]? = some 'Z'.toUInt8 → i = 0 := by decide
  exact hall i hlt hi

theorem endsReady_concat (h : Anchor.Matched resyncPat m x) (b : Byte) :
    EndsReady (x ++ [b]) ↔ m = 5 ∧ b ∈ readyStatuses := by
  have hfull : resyncPat <:+ x ↔ m = 5 := by
    rw [h.full]
    simp [resyncPat]
  constructor
  · rintro ⟨s, hs, hend⟩
    rw [Anchor.suffix_concat, hfull] at hend
    exact ⟨hend.1, hend.2 ▸ hs⟩
  · rintro ⟨hm, hb⟩
    exact ⟨b, hb, (Anchor.suffix_concat ..).mpr ⟨hfull.mpr hm, rfl⟩⟩

theorem pgScan_spec (h : Anchor.Matched resyncPat m x) (hx : ∀ q, q <+: x → ¬ EndsReady q) (p : List Byte) :
    (∃ m', pgScan m p = (m', p.length, false) ∧ Anchor.Matched resyncPat m' (x ++ p) ∧
      ∀ q, q <+: x ++ p → ¬ EndsReady q) ∨
    ∃ p₁ p₂, p = p₁ ++ p₂ ∧ pgScan m p = (5, p₁.length, true) ∧ FirstReady (x ++ p₁) := by
  induction p generalizing m x with
  | nil =>
    left
    rw [List.append_nil]
    exact ⟨m, rfl, h, hx⟩
  | cons b p ih =>
    have hbyte := pgScanByte_eq h.le b
    by_cases hb : m = 5 ∧ b ∈ readyStatuses
    · right
      rw [if_pos hb] at hbyte
      have hscan : pgScan m (b :: p) = (5, 1, true) := by
        rw [pgScan, hbyte, ← hb.1]
      refine ⟨[b], p, rfl, hscan, (endsReady_concat h b).mpr hb, ?_⟩
      intro q hq hready
      obtain rfl | hq := List.prefix_concat_iff.mp hq
      · rfl
      · exact absurd hready (hx q hq)
    · rw [if_neg hb] at hbyte
      have hnext : ∀ q, q <+: x ++ [b] → ¬ EndsReady q := by
        intro q hq
        obtain rfl | hq := List.prefix_concat_iff.mp hq
        · rw [endsReady_concat h b]
          exact hb
        · exact hx q hq
      obtain ⟨m', hscan, hm', hq⟩ | ⟨p₁, p₂, rfl, hscan, hfirst⟩ := ih (h.step resyncPat_first b) hnext
      · left
        refine ⟨m', by simp only [pgScan, hbyte, hscan, List.length_cons], ?_, ?_⟩
        · rw [List.append_cons]
          exact hm'
        · rw [List.append_cons]
          exact hq
      · right
        refine ⟨b :: p₁, p₂, rfl, by simp only [pgScan, hbyte, hscan, List.length_cons], ?_⟩
        rw [List.append_cons]
        exact hfirst

/-- A chunk on a dirty backend that has seen `x`: it stays dirty, and nothing else changes, or the loop
goes on behind the ReadyForQuery. -/
theorem lkFrameBytes_dirty (env : Env φ) {c : FConn φ} (hpg : c.ops = some .pg)
    (hst : (c.frame .send).st = .dirty) (hssl : c.flags.sslReply = false)
    (h : Anchor.Matched resyncPat (c.frame .send).resyncMatched x) (hx : ∀ q, q <+: x → ¬ EndsReady q)
    (r : Reasm) (p : List Byte) (ts : Nat) :
    (∃ m, lkFrameBytes env r c .send p ts = (r, c.setFrame .send { c.frame .send with resyncMatched := m }) ∧
      Anchor.Matched resyncPat m (x ++ p) ∧ ∀ q, q <+: x ++ p → ¬ EndsReady q) ∨
    ∃ p₁ p₂, p = p₁ ++ p₂ ∧ FirstReady (x ++ p₁) ∧
      lkFrameBytes env r c .send p ts =
        Chunked.drive (frameTurn env (lkProtoPgOps env) c.flags .send ts) (2 * p.length)
          (doResync env r (c.setFrame .send { c.frame .send with resyncMatched := 5 }) .send) p₂ := by
  have hops : connOps env c = lkProtoPgOps env := by
    rw [connOps, hpg]
    rfl
  have hcall : lkFrameBytes env r c .send p ts = frameChunk env (lkProtoPgOps env) r c .send p ts := by
    rw [lkFrameBytes, hops, FConn.pin_of_some hpg]
    rfl
  by_cases hp : p = []
  · subst hp
    left
    refine ⟨(c.frame .send).resyncMatched, ?_, ?_, ?_⟩
    · rw [hcall, frameChunk_nil]
      rfl
    · rw [List.append_nil]
      exact h
    · rw [List.append_nil]
      exact hx
  have hkeep : (lkProtoPgOps env).interceptBytes r c .send p ts = (r, c, some p) :=
    pgIntercept_settled env r c .send p ts fun _ => hssl
  rw [hcall, frameChunk, if_neg hp, hkeep]
  dsimp only
  rw [Chunked.run, Chunked.drive_succ _ _ _ hp]
  have hturn : frameTurn env (lkProtoPgOps env) c.flags .send ts (r, c) p =
      dirtyTurn env (lkProtoPgOps env) .send r c p := by
    simp only [frameTurn, hst]
  obtain ⟨m, hscan, hm, hq⟩ | ⟨p₁, p₂, rfl, hscan, hfirst⟩ := pgScan_spec h hx p
  · left
    have hmiss : (lkProtoPgOps env).resyncScan .send (c.frame .send) p =
        ({ c.frame .send with resyncMatched := m }, p.length, false) := by
      simp only [lkProtoPgOps, pgResyncScan, ne_eq, not_true_eq_false, if_false, hscan]
    rw [hturn, dirtyTurn, hmiss]
    exact ⟨m, rfl, hm, hq⟩
  · right
    have hhit : (lkProtoPgOps env).resyncScan .send (c.frame .send) (p₁ ++ p₂) =
        ({ c.frame .send with resyncMatched := 5 }, p₁.length, true) := by
      simp only [lkProtoPgOps, pgResyncScan, ne_eq, not_true_eq_false, if_false, hscan]
    rw [hturn, dirtyTurn, hhit]
    refine ⟨p₁, p₂, rfl, hfirst, ?_⟩
    simp only [if_true, List.drop_left]

structure StillDirty (r : Reasm) (c : FConn φ) (s : Reasm × FConn φ) : Prop where
  reasm : s.1 = r
  flags : s.2.flags = c.flags
  frame : ∃ m, s.2.frame .send = { c.frame .send with resyncMatched := m }

/-- The loop goes on behind the ReadyForQuery, in the chunk that has its end. -/
def Resumes (env : Env φ) (r : Reasm) (c : FConn φ) (x : List Byte) (xs : List (List Byte × Nat))
    (s : Reasm × FConn φ) : Prop :=
  ∃ before p₁ p₂ ts later, xs = before ++ (p₁ ++ p₂, ts) :: later ∧ before.flatMap Prod.fst ++ p₁ = x ∧
    StillDirty r c (feedBytes env .send (r, c) before) ∧
    s = feedBytes env .send
      (Chunked.drive (frameTurn env (lkProtoPgOps env) c.flags .send ts) (2 * (p₁ ++ p₂).length)
        (doResync env r c.pin .send) p₂) later

theorem doResync_matched (env : Env φ) (r : Reasm) (c : FConn φ) (m : Nat) :
    doResync env r (c.setFrame .send { c.frame .send with resyncMatched := m }) .send =
      doResync env r c .send := rfl

theorem StillDirty.of_pin (h : StillDirty r c.pin s) : StillDirty r c s :=
  ⟨h.reasm, h.flags, h.frame⟩

theorem feedBytes_unpin (env : Env φ) (r : Reasm) (c : FConn φ) (h : xs ≠ []) :
    feedBytes env .send (r, c.pin) xs = feedBytes env .send (r, c) xs := by
  cases xs with
  | nil => exact absurd rfl h
  | cons e xs => rfl

theorem StillDirty.unpin {env : Env φ} (h : StillDirty r c (feedBytes env .send (r, c.pin) xs)) :
    StillDirty r c (feedBytes env .send (r, c) xs) := by
  cases xs with
  | nil => exact ⟨rfl, rfl, _, rfl⟩
  | cons e xs => exact h

theorem FirstReady.unique (hx : FirstReady x) (hy : FirstReady y) (hxs : x <+: s) (hys : y <+: s) :
    y = x := by
  obtain h | h := List.prefix_or_prefix_of_prefix hxs hys
  · exact (hy.first x h hx.ends).symm
  · exact hx.first y h hy.ends

theorem feedBytes_dirty (env : Env φ) {c : FConn φ} (hpg : c.ops = some .pg)
    (hst : (c.frame .send).st = .dirty) (hssl : c.flags.sslReply = false)
    (h : Anchor.Matched resyncPat (c.frame .send).resyncMatched x) (hx : ∀ q, q <+: x → ¬ EndsReady q)
    (r : Reasm) (xs : List (List Byte × Nat)) :
    ((∀ q, q <+: x ++ xs.flatMap Prod.fst → ¬ EndsReady q) ∧ StillDirty r c (feedBytes env .send (r, c) xs)) ∨
      ∃ y, y <+: xs.flatMap Prod.fst ∧ FirstReady (x ++ y) ∧
        Resumes env r c y xs (feedBytes env .send (r, c) xs) := by
  induction xs generalizing c x with
  | nil =>
    left
    rw [List.flatMap_nil, List.append_nil]
    exact ⟨hx, rfl, rfl, _, rfl⟩
  | cons e xs ih =>
    obtain ⟨p, ts⟩ := e
    obtain ⟨m, hcall, hm, hq⟩ | ⟨p₁, p₂, rfl, hfirst, hcall⟩ :=
      lkFrameBytes_dirty env hpg hst hssl h hx r p ts
    · have hnext := ih (c := c.setFrame .send { c.frame .send with resyncMatched := m }) hpg
        (by simpa using hst) hssl (by simpa using hm) hq
      rw [List.flatMap_cons, ← List.append_assoc, feedBytes, hcall]
      obtain ⟨hnone, hstill⟩ | ⟨y, hy, hfirst, before, p₁, p₂, ts', later, rfl, hbefore, hstill, hs⟩ := hnext
      · left
        obtain ⟨m', hm'⟩ := hstill.frame
        exact ⟨hnone, hstill.reasm, hstill.flags, m', hm'⟩
      · right
        refine ⟨p ++ y, (List.prefix_append_right_inj p).mpr hy, by rwa [← List.append_assoc],
          (p, ts) :: before, p₁, p₂, ts', later, rfl, ?_, ?_, ?_⟩
        · rw [List.flatMap_cons, List.append_assoc, hbefore]
        · obtain ⟨m', hm'⟩ := hstill.frame
          rw [feedBytes, hcall]
          exact ⟨hstill.reasm, hstill.flags, m', hm'⟩
        · rw [hs]
          rfl
    · right
      refine ⟨p₁, ?_, hfirst, [], p₁, p₂, ts, xs, rfl, rfl, ⟨rfl, rfl, _, rfl⟩, ?_⟩
      · rw [List.flatMap_cons, List.append_assoc]
        exact List.prefix_append ..
      · rw [feedBytes, hcall, doResync_matched, FConn.pin_of_some hpg]

/-- A freshly dirtied backend leaves the dirty state behind the first ReadyForQuery, and not before,
however the bytes are cut. -/
theorem pgResync_exact (env : Env φ) (r : Reasm) (c : FConn φ) (hpg : c.ops.getD .pg = .pg)
    (hst : (c.frame .send).st = .dirty) (hfresh : (c.frame .send).resyncMatched = 0)
    (hssl : c.flags.sslReply = false) (xs : List (List Byte × Nat)) :
    ((∀ q, q <+: xs.flatMap Prod.fst → ¬ EndsReady q) →
      StillDirty r c (feedBytes env .send (r, c) xs)) ∧
    ∀ x, x <+: xs.flatMap Prod.fst → FirstReady x → Resumes env r c x xs (feedBytes env .send (r, c) xs) := by
  have hpin : c.pin.ops = some .pg := congrArg some hpg
  have hnil : ∀ q, q <+: [] → ¬ EndsReady q := by
    rintro q hq ⟨s, -, hs⟩
    rw [List.prefix_nil.mp hq] at hs
    exact absurd (List.suffix_nil.mp hs) (by simp [resyncPat])
  have hmatched : Anchor.Matched resyncPat (c.pin.frame .send).resyncMatched [] := by
    rw [show (c.pin.frame .send).resyncMatched = 0 from hfresh]
    exact Anchor.Matched.nil resyncPat
  obtain ⟨hnone, hstill⟩ | ⟨y, hy, hfirst, before, p₁, p₂, ts, later, rfl, hbefore, hstill, hs⟩ :=
    feedBytes_dirty env hpin hst hssl hmatched hnil r xs
  · rw [List.nil_append] at hnone
    exact ⟨fun _ => hstill.of_pin.unpin, fun x hx hfx => absurd hfx.ends (hnone x hx)⟩
  · rw [List.nil_append] at hfirst
    constructor
    · intro hnone
      exact absurd hfirst.ends (hnone y hy)
    · intro x hx hfx
      rw [← hfx.unique hfirst hx hy]
      refine ⟨before, p₁, p₂, ts, later, rfl, hbefore, hstill.of_pin.unpin, ?_⟩
      rw [← feedBytes_unpin env r c (by simp), hs]
      rfl

def garbled : Reasm × FConn Unit :=
  feedBytes passiveEnv .send ({}, { cookie := 1 }) [([0x44, 0, 0, 0, 0], 1)]

theorem readyBytes_first : FirstReady [1, 0x5a, 0, 0, 0, 5, 0x49] := by
  have hall : ∀ q ∈ List.inits [1, 0x5a, 0, 0, 0, 5, 0x49],
      (∃ s ∈ readyStatuses, resyncPat ++ [s] <:+ q) → q = [1, 0x5a, 0, 0, 0, 5, 0x49] := by
    decide
  exact ⟨⟨0x49, by decide, [1], rfl⟩, fun q hq => hall q ((List.mem_inits ..).mpr hq)⟩

/-- The anchor is cut in three, and the DataRow behind it is framed. -/
theorem pgResync_exact_cut :
    Resumes passiveEnv garbled.1 garbled.2 [1, 0x5a, 0, 0, 0, 5, 0x49]
      [([1, 0x5a, 0], 2), ([0, 0], 3), ([5, 0x49, 0x44, 0, 0, 0, 4], 4)]
      (feedBytes passiveEnv .send garbled [([1, 0x5a, 0], 2), ([0, 0], 3), ([5, 0x49, 0x44, 0, 0, 0, 4], 4)]) := by
  have h := pgResync_exact passiveEnv garbled.1 garbled.2 rfl rfl rfl rfl
    [([1, 0x5a, 0], 2), ([0, 0], 3), ([5, 0x49, 0x44, 0, 0, 0, 4], 4)]
  exact h.2 _ ⟨[0x44, 0, 0, 0, 4], rfl⟩ readyBytes_first

/-- A backend that owes the answer to an SSLRequest takes the anchor's first byte for it. -/
theorem pgResync_ssl_reply :
    let s := feedBytes passiveEnv .recv garbled [([0, 0, 0, 8, 0x04, 0xd2, 0x16, 0x2f], 2)]
    (s.2.frame .send).st = .dirty ∧ (s.2.frame .send).resyncMatched = 0 ∧ s.2.flags.sslReply = true ∧
      EndsReady [0x5a, 0, 0, 0, 5, 0x49] ∧
      ((feedBytes passiveEnv .send s [([0x5a, 0, 0, 0, 5, 0x49], 3)]).2.frame .send).st = .dirty := by
  refine ⟨by decide, by decide, by decide, ⟨0x49, by decide, [], rfl⟩, by decide⟩

end Latkit
