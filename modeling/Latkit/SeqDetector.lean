import Latkit.ConnLookup

namespace Latkit

theorem seqLost_toNat (last seq : UInt32) :
    (seqLost last seq).toNat =
      if (last.toNat + 1) % 2 ^ 32 < seq.toNat then seq.toNat - (last.toNat + 1) % 2 ^ 32 else 0 := by
  have hadd : (last + 1).toNat = (last.toNat + 1) % 2 ^ 32 := UInt32.toNat_add last 1
  simp only [seqLost, gt_iff_lt, UInt32.lt_iff_toNat_lt, hadd]
  split
  · next h =>
    rw [UInt32.toNat_sub_of_le _ _ (by rw [UInt32.le_iff_toNat_le, hadd]; exact Nat.le_of_lt h), hadd]
  · rfl

theorem seqMax_toNat (last seq : UInt32) : (seqMax last seq).toNat = max last.toNat seq.toNat := by
  simp only [seqMax, gt_iff_lt, UInt32.lt_iff_toNat_lt]
  split <;> omega

inductive RawKind where
  | data
  | opened (tuple : Tuple) (synthetic : Bool)
  | close
  deriving DecidableEq, Repr

def rawEvent (t : ConnTable φ) (cookie : UInt64) (seq : UInt32) (ts : Nat) :
    RawKind → ConnTable φ × UInt32
  | .data =>
    let (t, _, lost) := t.lkConnTableData cookie seq ts
    (t, lost)
  | .opened tuple synthetic =>
    let (t, _, lost) := t.lkConnTableOpen cookie seq ts tuple synthetic
    (t, lost)
  | .close => t.lkConnTableClose cookie seq ts

/-- A delivered event of a connection, `gap` events having been lost right before it. -/
structure Arrival where
  gap : Nat
  ts : Nat
  kind : RawKind
  deriving DecidableEq, Repr

/-- The arrivals of a connection whose last delivered event was its `p`-th: the final table and the
losses reported. The kernel's counter is `p` modulo `2 ^ 32`. -/
def rawRun (cookie : UInt64) (t : ConnTable φ) (p : Nat) :
    List Arrival → ConnTable φ × List UInt32
  | [] => (t, [])
  | a :: as =>
    let (t, lost) := rawEvent t cookie (UInt32.ofNat (p + a.gap + 1)) a.ts a.kind
    let (t, losts) := rawRun cookie t (p + a.gap + 1) as
    (t, lost :: losts)

/-- No arrival lies behind the wrap of the counter, except that the last one may when the event
before it carried the largest sequence number. -/
def BeforeWrap : Nat → List Arrival → Prop
  | _, [] => True
  | p, a :: as =>
    (p + a.gap + 1 < 2 ^ 32 ∧ BeforeWrap (p + a.gap + 1) as) ∨ (p = 2 ^ 32 - 1 ∧ as = [])

theorem rawEvent_lost {t : ConnTable φ} (h : t.lookup cookie = some c) (seq : UInt32) (ts : Nat)
    (kind : RawKind) : (rawEvent t cookie seq ts kind).2 = seqLost c.lastSeq seq := by
  cases kind with
  | data => simp only [rawEvent, ConnTable.lkConnTableData, h, ConnTable.touch]
  | opened tuple synthetic => simp only [rawEvent, ConnTable.lkConnTableOpen, h, ConnTable.touch]
  | close => simp only [rawEvent, ConnTable.lkConnTableClose, h, ConnTable.touch, ConnTable.pushFront]

theorem rawEvent_lookup {t : ConnTable φ} (h : t.lookup cookie = some c) (seq : UInt32) (ts : Nat)
    {kind : RawKind} (hk : kind ≠ .close) :
    (rawEvent t cookie seq ts kind).1.lookup cookie = some (ConnTable.touched c seq ts) := by
  have ht := ConnTable.touch_lookup h seq ts
  cases kind with
  | data =>
    simp only [rawEvent, ConnTable.lkConnTableData, h]
    exact ht
  | opened tuple synthetic =>
    simp only [rawEvent, ConnTable.lkConnTableOpen, h]
    exact ht
  | close => exact absurd rfl hk

theorem seqLost_inside (hp : last.toNat = p) (hq : p + gap + 1 < 2 ^ 32) :
    (seqLost last (UInt32.ofNat (p + gap + 1))).toNat = gap ∧
      (seqMax last (UInt32.ofNat (p + gap + 1))).toNat = p + gap + 1 := by
  rw [seqLost_toNat, seqMax_toNat, UInt32.toNat_ofNat', hp, Nat.mod_eq_of_lt hq]
  rw [Nat.mod_eq_of_lt (by omega : p + 1 < 2 ^ 32)]
  refine ⟨?_, by omega⟩
  split <;> omega

theorem seqLost_wrapped (hp : last.toNat = p) (hp' : p < 2 ^ 32) (hq : 2 ^ 32 ≤ p + gap + 1)
    (hgap : gap < 2 ^ 31) :
    ((seqLost last (UInt32.ofNat (p + gap + 1))).toNat = gap ↔ p = 2 ^ 32 - 1) ∧
      (seqMax last (UInt32.ofNat (p + gap + 1))).toNat = p := by
  have hseq : (p + gap + 1) % 2 ^ 32 = p + gap + 1 - 2 ^ 32 := by omega
  rw [seqLost_toNat, seqMax_toNat, UInt32.toNat_ofNat', hp, hseq]
  refine ⟨?_, by omega⟩
  by_cases hmax : p = 2 ^ 32 - 1
  · have h0 : (p + 1) % 2 ^ 32 = 0 := by omega
    rw [h0]
    split <;> omega
  · rw [Nat.mod_eq_of_lt (by omega : p + 1 < 2 ^ 32)]
    split <;> omega

theorem seqLost_stuck (last : UInt32) (hp : last.toNat = 2 ^ 32 - 1) (hgap : gap < 2 ^ 31)
    (hgap' : gap' < 2 ^ 31) :
    (seqLost last (UInt32.ofNat (2 ^ 32 - 1 + gap + 1 + gap' + 1))).toNat ≠ gap' := by
  have hseq : (2 ^ 32 - 1 + gap + 1 + gap' + 1) % 2 ^ 32 = gap + gap' + 1 := by omega
  have h0 : (2 ^ 32 - 1 + 1) % 2 ^ 32 = 0 := rfl
  rw [seqLost_toNat, UInt32.toNat_ofNat', hp, hseq, h0, if_pos (by omega)]
  omega

theorem rawEvent_first {t : ConnTable φ} (hnew : t.lookup cookie = none) (halloc : t.allocOk = true)
    (seq : UInt32) (ts : Nat) {kind : RawKind} (hk : kind ≠ .close) :
    ∃ c, (rawEvent t cookie seq ts kind).1.lookup cookie = some c ∧ c.lastSeq = seq := by
  cases kind with
  | data =>
    simp only [rawEvent, ConnTable.lkConnTableData, hnew]
    exact ⟨_, ConnTable.create_lookup halloc seq ts fun _ => rfl, rfl⟩
  | opened tuple synthetic =>
    simp only [rawEvent, ConnTable.lkConnTableOpen, hnew]
    exact ⟨_, ConnTable.create_lookup halloc seq ts (ConnTable.opened_cookie _ _ _), rfl⟩
  | close => exact absurd rfl hk

theorem rawRun_exact_iff {t : ConnTable φ} (as : List Arrival) (h : t.lookup cookie = some c)
    (hp : c.lastSeq.toNat = p) (hgap : ∀ a ∈ as, a.gap < 2 ^ 31)
    (hclose : ∀ a ∈ as.dropLast, a.kind ≠ .close) :
    (rawRun cookie t p as).2.map UInt32.toNat = as.map Arrival.gap ↔ BeforeWrap p as := by
  induction as generalizing t c p with
  | nil => simp [rawRun, BeforeWrap]
  | cons a as ih =>
    obtain ⟨hg, hgap⟩ := List.forall_mem_cons.1 hgap
    have hp' : p < 2 ^ 32 := hp ▸ c.lastSeq.toNat_lt
    have hnext (hne : as ≠ []) : (rawEvent t cookie (UInt32.ofNat (p + a.gap + 1)) a.ts a.kind).1.lookup
        cookie = some (ConnTable.touched c (UInt32.ofNat (p + a.gap + 1)) a.ts) := by
      apply rawEvent_lookup h
      apply hclose a
      rw [List.dropLast_cons_of_ne_nil hne]
      exact List.mem_cons_self
    have hclose' : ∀ b ∈ as.dropLast, b.kind ≠ .close := by
      intro b hb
      apply hclose b
      rw [List.dropLast_cons_of_ne_nil (by rintro rfl; cases hb)]
      exact List.mem_cons_of_mem _ hb
    simp only [rawRun, List.map_cons, List.cons.injEq, rawEvent_lost h, BeforeWrap]
    by_cases hq : p + a.gap + 1 < 2 ^ 32
    · obtain ⟨hlost, hmax⟩ := seqLost_inside hp hq
      have hne : ¬ (p = 2 ^ 32 - 1 ∧ as = []) := by omega
      simp only [hlost, hq, hne, true_and, or_false]
      cases as with
      | nil => simp [rawRun, BeforeWrap]
      | cons b bs => exact ih (hnext (List.cons_ne_nil _ _)) hmax hgap hclose'
    · obtain ⟨hlost, hmax⟩ := seqLost_wrapped hp hp' (Nat.le_of_not_lt hq) hg
      simp only [hlost, hq, false_and, false_or]
      apply and_congr_right
      rintro rfl
      cases as with
      | nil => simp [rawRun]
      | cons b bs =>
        -- the stuck baseline misreports the second event behind the wrap
        have hstuck := seqLost_stuck _ hmax hg (hgap b List.mem_cons_self)
        simp only [rawRun, List.map_cons, List.cons.injEq, rawEvent_lost (hnext (List.cons_ne_nil _ _)),
          ConnTable.touched, hstuck, false_and, reduceCtorEq]

theorem rawRun_framing {t : ConnTable φ} (as : List Arrival) (h : t.lookup cookie = some c)
    (hp : c.lastSeq.toNat = p) (hw : BeforeWrap p as) (hgap : ∀ a ∈ as, a.gap = 0)
    (hclose : ∀ a ∈ as, a.kind ≠ .close) :
    ∃ c', (rawRun cookie t p as).1.lookup cookie = some c' ∧ c'.framing = c.framing := by
  induction as generalizing t c p with
  | nil => exact ⟨c, h, rfl⟩
  | cons a as ih =>
    obtain ⟨hg, hgap⟩ := List.forall_mem_cons.1 hgap
    obtain ⟨hk, hclose⟩ := List.forall_mem_cons.1 hclose
    have hnext := rawEvent_lookup h (UInt32.ofNat (p + a.gap + 1)) a.ts hk
    have hclean (hlost : (seqLost c.lastSeq (UInt32.ofNat (p + a.gap + 1))).toNat = a.gap) :
        (ConnTable.touched c (UInt32.ofNat (p + a.gap + 1)) a.ts).framing = c.framing := by
      have hzero : seqLost c.lastSeq (UInt32.ofNat (p + a.gap + 1)) = 0 :=
        UInt32.toNat_inj.1 (hlost.trans hg)
      simp only [ConnTable.touched, ConnTable.dirtyIf, hzero, if_true]
    rcases hw with ⟨hq, hw⟩ | ⟨hmax, rfl⟩
    · obtain ⟨hlost, hmax⟩ := seqLost_inside hp hq
      obtain ⟨c', hc', hf⟩ := ih hnext hmax hw hgap hclose
      exact ⟨c', hc', hf.trans (hclean hlost)⟩
    · refine ⟨_, hnext, hclean ?_⟩
      apply (seqLost_wrapped hp (by omega) (by omega) (by omega)).1.2 hmax

/-- The loss detector of the raw channel reports the number of missing events at every delivered event
exactly when the counter does not wrap under it; a connection that loses nothing is then never
dirtied. -/
theorem loss_detector_exact_iff {t : ConnTable φ} (hnew : t.lookup cookie = none)
    (halloc : t.allocOk = true) (start : UInt32) (ts : Nat) (first : RawKind) (hfirst : first ≠ .close)
    (as : List Arrival) (hgap : ∀ a ∈ as, a.gap < 2 ^ 31)
    (hclose : ∀ a ∈ as.dropLast, a.kind ≠ .close) :
    let t₁ := (rawEvent t cookie start ts first).1
    ((rawRun cookie t₁ start.toNat as).2.map UInt32.toNat = as.map Arrival.gap ↔
        BeforeWrap start.toNat as) ∧
      (BeforeWrap start.toNat as → (∀ a ∈ as, a.gap = 0) → (∀ a ∈ as, a.kind ≠ .close) →
        ((rawRun cookie t₁ start.toNat as).1.lookup cookie).map Conn.framing =
          (t₁.lookup cookie).map Conn.framing) := by
  obtain ⟨c, hc, hlast⟩ := rawEvent_first hnew halloc start ts hfirst
  have hp : c.lastSeq.toNat = start.toNat := by rw [hlast]
  refine ⟨rawRun_exact_iff as hc hp hgap hclose, ?_⟩
  intro hw hzero hopen
  obtain ⟨c', hc', hf⟩ := rawRun_framing as hc hp hw hzero hopen
  rw [hc', hc, Option.map_some, Option.map_some, hf]

/-- One data event up to the largest sequence number, then three lost behind the wrap and the close. -/
theorem loss_detector_exact_iff_close :
    (rawRun 1 (rawEvent ({} : ConnTable Unit) 1 0xfffffffe 5 (.opened {} false)).1 0xfffffffe
      [⟨0, 6, .data⟩, ⟨3, 7, .close⟩]).2.map UInt32.toNat = [0, 3] := by
  have h := (loss_detector_exact_iff (show ({} : ConnTable Unit).lookup 1 = none from rfl) rfl 0xfffffffe 5
    (.opened {} false) nofun [⟨0, 6, .data⟩, ⟨3, 7, .close⟩] (by decide) (by decide)).1
  exact h.2 (.inl ⟨by decide, .inr ⟨by decide, rfl⟩⟩)

/-- Nothing is lost, but the second event behind the wrap reports a loss and dirties the connection. -/
theorem loss_detector_wrap :
    let t := (rawEvent ({} : ConnTable Unit) 1 0xffffffff 5 (.opened {} false)).1
    let run := rawRun 1 t 0xffffffff [⟨0, 6, .data⟩, ⟨0, 7, .data⟩]
    run.2 = [0, 1] ∧
      (t.lookup 1).map (fun c => (c.framing.send.st, c.framing.recv.st)) = some (.header, .header) ∧
      (run.1.lookup 1).map (fun c => (c.framing.send.st, c.framing.recv.st)) = some (.dirty, .dirty) := by
  decide

end Latkit
