import Latkit.ConnLookup

namespace Latkit

/-! The idle sweep walks the list of the most recently touched entries from its end. -/

inductive TableEv where
  | connOpen (cookie : UInt64) (seq : UInt32) (ts : Nat) (tuple : Tuple) (synthetic : Bool)
  | data (cookie : UInt64) (seq : UInt32) (ts : Nat)
  | decrypted (cookie : UInt64) (seq : UInt32) (ts : Nat)
  | connClose (cookie : UInt64) (seq : UInt32) (ts : Nat)
  | sweep (now : Nat)
  deriving DecidableEq, Repr

def TableEv.ts : TableEv → Option Nat
  | connOpen _ _ ts _ _ => some ts
  | data _ _ ts => some ts
  | decrypted _ _ ts => some ts
  | connClose _ _ ts => some ts
  | sweep _ => none

namespace ConnTable

def step (t : ConnTable φ) : TableEv → ConnTable φ
  | .connOpen cookie seq ts tuple synthetic => (t.lkConnTableOpen cookie seq ts tuple synthetic).1
  | .data cookie seq ts => (t.lkConnTableData cookie seq ts).1
  | .decrypted cookie seq ts => (t.lkConnTableDataDecrypted cookie seq ts).1
  | .connClose cookie seq ts => (t.lkConnTableClose cookie seq ts).1
  | .sweep now => (t.lkConnTableSweep now).1

def run (t : ConnTable φ) (es : List TableEv) : ConnTable φ := es.foldl step t

/-- What a call can do to the entries: it removes some, and puts at most one, with its own cookie, in front. -/
structure Shifts (t t' : ConnTable φ) (ts : Option Nat) : Prop where
  timeout : t'.idleTimeoutNs = t.idleTimeoutNs
  conns : t'.conns.Sublist t.conns ∨ ∃ c l, t'.conns = c :: l ∧ l.Sublist t.conns ∧
    (∀ d ∈ l, d.cookie ≠ c.cookie) ∧ ts = some c.lastActivityNs

theorem Shifts.of_sublist {t t' : ConnTable φ} (hconns : t'.conns.Sublist t.conns)
    (htimeout : t'.idleTimeoutNs = t.idleTimeoutNs) : Shifts t t' ts := ⟨htimeout, .inl hconns⟩

@[simp] theorem countLost_conns (t : ConnTable φ) (lost : UInt32) : (t.countLost lost).conns = t.conns := by
  rw [countLost]
  split <;> rfl

@[simp] theorem countLost_timeout (t : ConnTable φ) (lost : UInt32) :
    (t.countLost lost).idleTimeoutNs = t.idleTimeoutNs := by
  rw [countLost]
  split <;> rfl

theorem Shifts.front (t : ConnTable φ) (lost : UInt32) (c : Conn φ) :
    Shifts t (((t.countLost lost).unlink c.cookie).pushFront c) (some c.lastActivityNs) := by
  refine ⟨countLost_timeout t lost, .inr ⟨c, t.conns.filter fun d => d.cookie != c.cookie, ?_, List.filter_sublist, ?_, rfl⟩⟩
  · rw [← countLost_conns t lost]
    rfl
  · intro d hd
    simpa using (List.mem_filter.mp hd).2

theorem Shifts.touch (t : ConnTable φ) (c : Conn φ) (seq : UInt32) (ts : Nat) :
    Shifts t (t.touch c seq ts).1 (some ts) := by
  have hfront := Shifts.front t (seqLost c.lastSeq seq) (touched c seq ts)
  have hcookie : (touched c seq ts).cookie = c.cookie := dirtyIf_cookie ..
  rwa [hcookie] at hfront

theorem Shifts.touchTls (t : ConnTable φ) (c : Conn φ) (seq : UInt32) (ts : Nat) :
    Shifts t (t.touchTls c seq ts).1 (some ts) := by
  have hfront := Shifts.front t (if c.tlsSeqSeen then seqLost c.tlsLastSeq seq else 0)
    { c with
      tlsSeqSeen := true
      tlsDropped := c.tlsDropped + if c.tlsSeqSeen then seqLost c.tlsLastSeq seq else 0
      framing := dirtyIf (if c.tlsSeqSeen then seqLost c.tlsLastSeq seq else 0) c.framing
      tlsLastSeq := if c.tlsSeqSeen then seqMax c.tlsLastSeq seq else seq
      lastActivityNs := ts }
  rw [Conn.cookie, dirtyIf_cookie] at hfront
  exact hfront

theorem destroy_conns (t : ConnTable φ) (c : Conn φ) : (t.destroy c).conns.Sublist t.conns := List.filter_sublist

theorem makeRoom_conns (t : ConnTable φ) :
    t.makeRoom.conns.Sublist t.conns ∧ t.makeRoom.idleTimeoutNs = t.idleTimeoutNs := by
  rw [makeRoom]
  split
  · split
    · exact ⟨destroy_conns .., rfl⟩
    · exact ⟨List.Sublist.refl _, rfl⟩
  · exact ⟨List.Sublist.refl _, rfl⟩

def Keeps (init : Conn φ → Conn φ) : Prop := ∀ c, (init c).cookie = c.cookie ∧ (init c).lastActivityNs = c.lastActivityNs

theorem Shifts.create {t : ConnTable φ} (hnone : t.lookup cookie = none) (seq : UInt32) (ts : Nat)
    {init : Conn φ → Conn φ} (hinit : Keeps init) : Shifts t (t.create cookie seq ts init).1 (some ts) := by
  obtain ⟨hsub, htimeout⟩ := makeRoom_conns t
  rw [ConnTable.create]
  split
  · obtain ⟨hcookie, hts⟩ := hinit { framing := { cookie }, lastSeq := seq, lastActivityNs := ts }
    refine ⟨htimeout, .inr ⟨_, _, rfl, hsub, ?_, congrArg some hts.symm⟩⟩
    intro d hd heq
    have hno := List.find?_eq_none.mp hnone d (hsub.subset hd)
    rw [heq, hcookie] at hno
    exact hno (beq_self_eq_true _)
  · exact .of_sublist hsub htimeout

theorem keeps_opened (ops : Option Proto) (tuple : Tuple) (synthetic : Bool) :
    Keeps (opened ops tuple synthetic : Conn φ → Conn φ) := by
  intro c
  cases synthetic <;> exact ⟨rfl, rfl⟩

theorem Shifts.close (t : ConnTable φ) (cookie : UInt64) (seq : UInt32) (ts : Nat) :
    Shifts t (t.lkConnTableClose cookie seq ts).1 (some ts) := by
  rw [lkConnTableClose]
  cases t.lookup cookie with
  | none => exact .of_sublist (List.Sublist.refl _) rfl
  | some c =>
    have htouch := Shifts.touch t c seq ts
    have hfront : (t.touch c seq ts).1.conns = touched c seq ts :: (t.conns.filter fun d => d.cookie != c.cookie) := by
      rw [← countLost_conns t (seqLost c.lastSeq seq)]
      rfl
    dsimp only
    rw [hfront]
    dsimp only
    refine .of_sublist ?_ htouch.timeout
    have hgone : ((t.touch c seq ts).1.destroy (touched c seq ts)).conns =
        (t.touch c seq ts).1.conns.filter fun d => d.cookie != (touched c seq ts).cookie := rfl
    rw [bump, hgone, hfront, List.filter_cons_of_neg (by simp)]
    exact List.filter_sublist.trans List.filter_sublist

theorem sweepTail_conns (now n : Nat) (t : ConnTable φ) :
    (sweepTail now n t).1.conns.Sublist t.conns ∧ (sweepTail now n t).1.idleTimeoutNs = t.idleTimeoutNs := by
  induction n generalizing t with
  | zero => exact ⟨List.Sublist.refl _, rfl⟩
  | succ n ih =>
    rw [sweepTail]
    split
    · exact ⟨List.Sublist.refl _, rfl⟩
    · split
      · obtain ⟨hsub, htimeout⟩ := ih ((t.destroy _).bump fun s => { s with evictedIdle := s.evictedIdle + 1 })
        exact ⟨hsub.trans (destroy_conns ..), htimeout⟩
      · exact ⟨List.Sublist.refl _, rfl⟩

theorem step_shifts (t : ConnTable φ) (e : TableEv) : Shifts t (t.step e) e.ts := by
  cases e with
  | connOpen cookie seq ts tuple synthetic =>
    rw [step, lkConnTableOpen]
    cases hlook : t.lookup cookie with
    | some c => exact .touch t c seq ts
    | none => exact .create hlook seq ts (keeps_opened _ tuple synthetic)
  | data cookie seq ts =>
    rw [step, lkConnTableData]
    cases hlook : t.lookup cookie with
    | some c => exact .touch t c seq ts
    | none => exact .create hlook seq ts fun c => ⟨rfl, rfl⟩
  | decrypted cookie seq ts =>
    rw [step, lkConnTableDataDecrypted]
    cases hlook : t.lookup cookie with
    | some c => exact .touchTls t c seq ts
    | none => exact .create hlook seq ts fun c => ⟨rfl, rfl⟩
  | connClose cookie seq ts => exact .close t cookie seq ts
  | sweep now =>
    obtain ⟨hsub, htimeout⟩ := sweepTail_conns now t.conns.length t
    exact .of_sublist hsub htimeout

def Distinct (t : ConnTable φ) : Prop := (t.conns.map Conn.cookie).Nodup

theorem Shifts.distinct {t t' : ConnTable φ} (h : Shifts t t' ts) (hd : t.Distinct) : t'.Distinct := by
  rcases h.conns with hsub | ⟨c, l, heq, hsub, hne, -⟩
  · exact hd.sublist (hsub.map _)
  · rw [Distinct, heq, List.map_cons, List.nodup_cons]
    refine ⟨?_, hd.sublist (hsub.map _)⟩
    intro hmem
    obtain ⟨d, hd, hcookie⟩ := List.mem_map.mp hmem
    exact hne d hd hcookie

theorem run_distinct {t : ConnTable φ} (hd : t.Distinct) (es : List TableEv) : (t.run es).Distinct := by
  induction es generalizing t with
  | nil => exact hd
  | cons e es ih => exact ih ((t.step_shifts e).distinct hd)

theorem sweepTail_eq {t : ConnTable φ} (hd : t.Distinct) (now n : Nat) (hn : t.conns.length ≤ n) :
    (sweepTail now n t).1.conns = t.conns.rdropWhile (t.idle now) := by
  induction n generalizing t with
  | zero =>
    have hnil := List.length_eq_zero_iff.mp (Nat.le_zero.mp hn)
    rw [sweepTail, hnil]
    rfl
  | succ n ih =>
    rw [sweepTail]
    rcases List.eq_nil_or_concat t.conns with hnil | ⟨l, c, heq⟩
    · rw [hnil, List.getLast?_nil]
      exact hnil
    · rw [List.concat_eq_append] at heq
      rw [heq, List.getLast?_concat]
      dsimp only
      by_cases hidle : t.idle now c = true
      · rw [if_pos hidle, List.rdropWhile_concat_pos _ _ _ hidle]
        rw [Distinct, heq, List.map_append, List.nodup_append] at hd
        have hconns : (t.destroy c).conns = l := by
          change t.conns.filter (fun d => d.cookie != c.cookie) = l
          rw [heq, List.filter_append, List.filter_cons_of_neg (by simp), List.filter_nil, List.append_nil,
            List.filter_eq_self]
          intro d hmem
          have hne := hd.2.2 d.cookie (List.mem_map_of_mem hmem) c.cookie (List.mem_singleton.mpr rfl)
          simpa using hne
        have hrest := ih (t := (t.destroy c).bump fun s => { s with evictedIdle := s.evictedIdle + 1 })
          (by change (List.map Conn.cookie (t.destroy c).conns).Nodup; rw [hconns]; exact hd.1)
          (by change (t.destroy c).conns.length ≤ n; rw [hconns]; rw [heq] at hn; simpa using hn)
        rw [hrest]
        change (t.destroy c).conns.rdropWhile _ = _
        rw [hconns]
        rfl
      · rw [if_neg hidle, heq, List.rdropWhile_concat_neg _ _ _ hidle]

theorem mem_rdropWhile (p : α → Bool) (l : List α) :
    (∀ x ∈ l, p x = false → x ∈ l.rdropWhile p) ∧
      ((∀ x ∈ l.rdropWhile p, p x = false) ↔ l.Pairwise fun x y => p x = true → p y = true) := by
  induction l using List.reverseRecOn with
  | nil => simp
  | append_singleton l a ih =>
    by_cases ha : p a = true
    · rw [List.rdropWhile_concat_pos _ _ _ ha, List.pairwise_append, ih.2]
      refine ⟨?_, fun h => ⟨h, List.pairwise_singleton _ _, fun x _ y hy _ => List.mem_singleton.mp hy ▸ ha⟩, fun h => h.1⟩
      intro x hx hno
      rcases List.mem_append.mp hx with hx | hx
      · exact ih.1 x hx hno
      · rw [List.mem_singleton.mp hx, ha] at hno
        cases hno
    · rw [List.rdropWhile_concat_neg _ _ _ ha, List.pairwise_append]
      refine ⟨fun x hx _ => hx, ?_, ?_⟩
      · intro hall
        have hl : ∀ x ∈ l, p x = false := fun x hx => hall x (List.mem_append_left _ hx)
        refine ⟨List.pairwise_of_forall_mem_list fun x hx y _ hp => ?_, List.pairwise_singleton _ _, fun x hx y _ hp => ?_⟩
        · rw [hl x hx] at hp
          cases hp
        · rw [hl x hx] at hp
          cases hp
      · rintro ⟨-, -, hlast⟩ x hx
        rcases List.mem_append.mp hx with hx | hx
        · by_contra hp
          exact ha (hlast x hx a (List.mem_singleton.mpr rfl) (by simpa using hp))
        · rw [List.mem_singleton.mp hx]
          simpa using ha

theorem idle_mono {t : ConnTable φ} (h : t.idle now c = true) (hle : d.lastActivityNs ≤ c.lastActivityNs)
    (hfit : c.lastActivityNs + t.idleTimeoutNs < 2 ^ 64) : t.idle now d = true := by
  have hfit' : d.lastActivityNs + t.idleTimeoutNs < 2 ^ 64 := by omega
  rw [idle, decide_eq_true_eq, Nat.mod_eq_of_lt hfit] at h
  rw [idle, decide_eq_true_eq, Nat.mod_eq_of_lt hfit']
  omega

structure Ordered (times : List Nat) (t : ConnTable φ) : Prop where
  sorted : t.conns.Pairwise fun c d => d.lastActivityNs ≤ c.lastActivityNs
  seen : ∀ c ∈ t.conns, c.lastActivityNs ∈ times

theorem Shifts.ordered {t t' : ConnTable φ} (h : Shifts t t' ts) (ho : Ordered times t)
    (hle : ∀ x ∈ times, ∀ y ∈ ts.toList, x ≤ y) : Ordered (times ++ ts.toList) t' := by
  rcases h.conns with hsub | ⟨c, l, heq, hsub, -, hts⟩
  · exact ⟨ho.sorted.sublist hsub, fun c hc => List.mem_append_left _ (ho.seen c (hsub.subset hc))⟩
  · subst hts
    constructor
    · rw [heq, List.pairwise_cons]
      exact ⟨fun d hd => hle _ (ho.seen d (hsub.subset hd)) _ (List.mem_singleton.mpr rfl), ho.sorted.sublist hsub⟩
    · intro d hd
      rw [heq] at hd
      rcases List.mem_cons.mp hd with rfl | hd
      · exact List.mem_append_right _ (List.mem_singleton.mpr rfl)
      · exact List.mem_append_left _ (ho.seen d (hsub.subset hd))

theorem run_ordered {t : ConnTable φ} (es : List TableEv) (ho : Ordered times t)
    (hrise : (times ++ es.filterMap TableEv.ts).Pairwise (· ≤ ·)) :
    Ordered (times ++ es.filterMap TableEv.ts) (t.run es) := by
  induction es generalizing t times with
  | nil =>
    rw [List.filterMap_nil, List.append_nil]
    exact ho
  | cons e es ih =>
    have hcons : times ++ (e :: es).filterMap TableEv.ts = (times ++ e.ts.toList) ++ es.filterMap TableEv.ts := by
      cases hts : e.ts <;> simp [hts]
    rw [hcons] at hrise ⊢
    refine ih ((t.step_shifts e).ordered ho ?_) hrise
    exact (List.pairwise_append.mp (List.pairwise_append.mp hrise).1).2.2

theorem run_timeout (t : ConnTable φ) (es : List TableEv) : (t.run es).idleTimeoutNs = t.idleTimeoutNs := by
  induction es generalizing t with
  | nil => rfl
  | cons e es ih => exact (ih (t.step e)).trans (t.step_shifts e).timeout

/-- The sweep removes idle entries only. It leaves none of them exactly if none stands in front of one that is not idle,
which holds if the times of the events never go back. -/
theorem lkConnTableSweep_exact (t : ConnTable φ) (hnew : t.conns = []) (es : List TableEv) (now : Nat) :
    (∀ c ∈ (t.run es).conns, (t.run es).idle now c = false → c ∈ ((t.run es).lkConnTableSweep now).1.conns) ∧
      (∀ c ∈ ((t.run es).lkConnTableSweep now).1.conns, c ∈ (t.run es).conns) ∧
      ((∀ c ∈ ((t.run es).lkConnTableSweep now).1.conns, (t.run es).idle now c = false) ↔
        (t.run es).conns.Pairwise fun c d => (t.run es).idle now c = true → (t.run es).idle now d = true) ∧
      ((es.filterMap TableEv.ts).Pairwise (· ≤ ·) →
        (∀ ts ∈ es.filterMap TableEv.ts, ts + t.idleTimeoutNs < 2 ^ 64) →
        (t.run es).conns.Pairwise fun c d => (t.run es).idle now c = true → (t.run es).idle now d = true) := by
  have hdistinct : (t.run es).Distinct := run_distinct (by rw [Distinct, hnew]; exact List.nodup_nil) es
  have hswept : ((t.run es).lkConnTableSweep now).1.conns = (t.run es).conns.rdropWhile ((t.run es).idle now) :=
    sweepTail_eq hdistinct now _ (Nat.le_refl _)
  obtain ⟨hkept, hclean⟩ := mem_rdropWhile ((t.run es).idle now) (t.run es).conns
  rw [hswept]
  refine ⟨hkept, fun c hc => (List.rdropWhile_prefix _ _).subset hc, hclean, ?_⟩
  intro hrise hfit
  have ho : Ordered [] t := by
    constructor
    · rw [hnew]
      exact List.Pairwise.nil
    · rw [hnew]
      exact fun c hc => absurd hc List.not_mem_nil
  have hrun := run_ordered es ho hrise
  refine hrun.sorted.imp_of_mem ?_
  intro c d hc _ hle hidle
  have hsum : c.lastActivityNs + (t.run es).idleTimeoutNs < 2 ^ 64 := by
    rw [run_timeout]
    exact hfit _ (hrun.seen c hc)
  exact idle_mono hidle hle hsum

def twoConns : ConnTable Unit := { maxConns := 8, idleTimeoutNs := 100 }

theorem lkConnTableSweep_exact_two :
    twoConns.conns = [] ∧ ∀ c ∈ ((twoConns.run [.data 1 0 5, .data 2 0 1000]).lkConnTableSweep 500).1.conns,
      (twoConns.run [.data 1 0 5, .data 2 0 1000]).idle 500 c = false := by
  obtain ⟨-, -, hiff, hrise⟩ := lkConnTableSweep_exact twoConns rfl [.data 1 0 5, .data 2 0 1000] 500
  exact ⟨rfl, hiff.mpr (hrise (by decide) (by decide))⟩

theorem lkConnTableSweep_stays :
    ∃ c ∈ ((twoConns.run [.data 2 0 1000, .data 1 0 5]).lkConnTableSweep 500).1.conns,
      c.lastActivityNs + 100 ≤ 500 := by
  decide +kernel

end ConnTable

end Latkit
