import Latkit.SeqSpaces
import Latkit.Unwinding

namespace Latkit

/-- The entry without what ciphertext moves: the raw cursors of an encrypted connection. -/
def Conn.low (c : Conn φ) : Conn φ := if c.tls then { c with lastSeq := 0, dropped := 0 } else c

def ConnTableStats.low (s : ConnTableStats) : ConnTableStats := { s with seqGaps := 0, lostEvents := 0 }

def ConnTable.low (t : ConnTable φ) : ConnTable φ :=
  { t with conns := t.conns.map Conn.low, st := t.st.low }

def Pipeline.low (p : Pipeline φ) : Pipeline φ := { p with conns := p.conns.low }

@[simp] theorem Conn.low_framing (c : Conn φ) : c.low.framing = c.framing := by
  simp only [low]
  split <;> rfl

@[simp] theorem Conn.low_cookie (c : Conn φ) : c.low.cookie = c.cookie :=
  congrArg FConn.cookie c.low_framing

theorem Conn.low_plain (h : Conn.tls c = false) : c.low = c := by
  simp [low, h]

theorem Conn.low_cases {c d : Conn φ} (h : c.low = d.low) :
    c = d ∨ c.tls = true ∧ d = { c with lastSeq := d.lastSeq, dropped := d.dropped } := by
  have hf : c.framing = d.framing := by rw [← c.low_framing, h, d.low_framing]
  have htls : c.tls = d.tls := congrArg (·.flags.tls) hf
  cases hc : c.tls with
  | false =>
    rw [low_plain hc, low_plain (htls.symm.trans hc)] at h
    exact .inl h
  | true =>
    simp only [low, hc, ← htls, if_true] at h
    obtain ⟨⟩ := c
    obtain ⟨⟩ := d
    simp_all

theorem Conn.low_setFraming {c d : Conn φ} (h : c.low = d.low) {f : FConn φ}
    (hf : c.tls = true → f.flags.tls = true) :
    ({ c with framing := f } : Conn φ).low = ({ d with framing := f } : Conn φ).low := by
  obtain rfl | ⟨htls, hd⟩ := low_cases h
  · rfl
  · rw [hd]
    simp [low, tls, hf htls]

namespace ConnTable

theorem low_lookup (t : ConnTable φ) (cookie : UInt64) :
    t.low.lookup cookie = (t.lookup cookie).map Conn.low := by
  simp only [lookup, low, List.find?_map]
  congr 2
  funext c
  simp

theorem low_bump (t : ConnTable φ) {g : ConnTableStats → ConnTableStats}
    (hg : ∀ s, (g s).low = g s.low) : (t.bump g).low = t.low.bump g := by
  simp only [bump, low, hg]

theorem low_unlink (t : ConnTable φ) (cookie : UInt64) : (t.unlink cookie).low = t.low.unlink cookie := by
  simp only [unlink, low, List.filter_map]
  congr 3
  funext c
  simp

theorem low_pushFront (t : ConnTable φ) (c : Conn φ) : (t.pushFront c).low = t.low.pushFront c.low := rfl

theorem low_countLost (t : ConnTable φ) (lost : UInt32) : (t.countLost lost).low = t.low := by
  simp only [countLost]
  split <;> rfl

theorem low_destroy (t : ConnTable φ) (c : Conn φ) : (t.destroy c).low = t.low.destroy c := by
  have h := low_unlink t c.cookie
  simp only [low, unlink, ConnTable.mk.injEq] at h
  simp only [destroy, unlink, low, h, ConnTableStats.low]

theorem destroy_congr (t : ConnTable φ) {c d : Conn φ} (hc : c.cookie = d.cookie)
    (hf : c.framing.flags = d.framing.flags) : t.destroy c = t.destroy d := by
  simp only [destroy, Conn.tls, hc, hf]
  rfl

theorem low_makeRoom (t : ConnTable φ) : t.makeRoom.low = t.low.makeRoom := by
  have hlast : t.low.conns.getLast? = t.conns.getLast?.map Conn.low := by
    simp [low, List.getLast?_map]
  simp only [makeRoom, hlast]
  cases t.conns.getLast? with
  | none => rfl
  | some c =>
    have hd : t.low.destroy c.low = t.low.destroy c :=
      destroy_congr _ c.low_cookie (congrArg FConn.flags c.low_framing)
    simp only [Option.map_some, hd]
    split
    · next hfull =>
      rw [if_pos (by exact hfull), ← low_destroy]
      rfl
    · next hfull => rw [if_neg (by exact hfull)]

theorem low_create (t : ConnTable φ) (cookie : UInt64) (seq : UInt32) (ts : Nat) {init : Conn φ → Conn φ}
    (hinit : ∀ c, (init c).tls = c.tls) :
    (t.create cookie seq ts init).1.low = (t.low.create cookie seq ts init).1 ∧
      (t.create cookie seq ts init).2 = (t.low.create cookie seq ts init).2 := by
  have hplain := Conn.low_plain (hinit { framing := { cookie }, lastSeq := seq, lastActivityNs := ts })
  have halloc : t.makeRoom.low.allocOk = t.makeRoom.allocOk := rfl
  simp only [create, ← low_makeRoom, halloc]
  split
  · rw [low_pushFront, hplain]
    exact ⟨rfl, rfl⟩
  · exact ⟨rfl, rfl⟩

section
variable {t u : ConnTable φ}

theorem low_lookup_cases (h : t.low = u.low) (cookie : UInt64) :
    t.lookup cookie = none ∧ u.lookup cookie = none ∨
      ∃ c d, t.lookup cookie = some c ∧ u.lookup cookie = some d ∧ c.low = d.low := by
  have hl : (t.lookup cookie).map Conn.low = (u.lookup cookie).map Conn.low := by
    rw [← low_lookup, h, low_lookup]
  cases hc : t.lookup cookie with
  | none =>
    rw [hc, Option.map_none, eq_comm, Option.map_eq_none_iff] at hl
    exact .inl ⟨rfl, hl⟩
  | some c =>
    rw [hc, Option.map_some, eq_comm, Option.map_eq_some_iff] at hl
    obtain ⟨d, hd, hlow⟩ := hl
    exact .inr ⟨c, d, rfl, hd, hlow.symm⟩

theorem low_touch (t : ConnTable φ) (c : Conn φ) (seq : UInt32) (ts : Nat) :
    (t.touch c seq ts).1.low = (t.low.unlink c.cookie).pushFront (touched c seq ts).low := by
  simp only [touch, low_pushFront, low_unlink, low_countLost]
  rfl

theorem low_touchTls (h : t.low = u.low) (hc : Conn.low c = Conn.low d) (seq : UInt32) (ts : Nat) :
    (t.touchTls c seq ts).1.low = (u.touchTls d seq ts).1.low := by
  have hcookie : c.cookie = d.cookie := by rw [← c.low_cookie, hc, d.low_cookie]
  simp only [touchTls, low_pushFront, low_unlink, low_countLost, h, hcookie]
  congr 1
  obtain rfl | ⟨htls, hd⟩ := Conn.low_cases hc
  · rfl
  · rw [hd]
    simp only [Conn.low, Conn.tls, dirtyIf_flags] at htls ⊢
    simp only [htls, if_true]

theorem low_lookup_plain (h : t.low = u.low)
    (hplain : ∀ c, t.lookup cookie = some c → c.tls = false) :
    t.lookup cookie = none ∧ u.lookup cookie = none ∨
      ∃ c, t.lookup cookie = some c ∧ u.lookup cookie = some c := by
  obtain hnone | ⟨c, d, hc, hd, hlow⟩ := low_lookup_cases h cookie
  · exact .inl hnone
  · obtain rfl | ⟨htls, _⟩ := Conn.low_cases hlow
    · exact .inr ⟨c, hc, hd⟩
    · rw [hplain c hc] at htls
      cases htls

theorem low_create_congr (h : t.low = u.low) (cookie : UInt64) (seq : UInt32) (ts : Nat)
    {init : Conn φ → Conn φ} (hinit : ∀ c, (init c).tls = c.tls) :
    (t.create cookie seq ts init).1.low = (u.create cookie seq ts init).1.low ∧
      (t.create cookie seq ts init).2 = (u.create cookie seq ts init).2 := by
  obtain ⟨ht, ht'⟩ := low_create t cookie seq ts hinit
  obtain ⟨hu, hu'⟩ := low_create u cookie seq ts hinit
  rw [ht, hu, ht', hu', h]
  exact ⟨rfl, rfl⟩

theorem low_data (h : t.low = u.low) (cookie : UInt64) (seq : UInt32) (ts : Nat)
    (hplain : ∀ c, t.lookup cookie = some c → c.tls = false) :
    (t.lkConnTableData cookie seq ts).1.low = (u.lkConnTableData cookie seq ts).1.low ∧
      (t.lkConnTableData cookie seq ts).2.1 = (u.lkConnTableData cookie seq ts).2.1 := by
  have hdflt : t.low.protoDflt = u.low.protoDflt := by rw [h]
  change t.protoDflt = u.protoDflt at hdflt
  obtain ⟨ht, hu⟩ | ⟨c, ht, hu⟩ := low_lookup_plain h hplain
  · simp only [lkConnTableData, ht, hu, hdflt]
    exact low_create_congr h cookie seq ts fun _ => rfl
  · simp only [lkConnTableData, ht, hu, low_touch, h]
    exact ⟨trivial, trivial⟩

theorem low_open (h : t.low = u.low) (cookie : UInt64) (seq : UInt32) (ts : Nat) (tuple : Tuple)
    (synthetic : Bool) (hplain : ∀ c, t.lookup cookie = some c → c.tls = false) :
    (t.lkConnTableOpen cookie seq ts tuple synthetic).1.low =
      (u.lkConnTableOpen cookie seq ts tuple synthetic).1.low := by
  have hproto : t.low.resolveProto tuple = u.low.resolveProto tuple := by rw [h]
  change t.resolveProto tuple = u.resolveProto tuple at hproto
  obtain ⟨ht, hu⟩ | ⟨c, ht, hu⟩ := low_lookup_plain h hplain
  · simp only [lkConnTableOpen, ht, hu, hproto]
    refine (low_create_congr h cookie seq ts ?_).1
    intro c
    cases synthetic <;> rfl
  · simp only [lkConnTableOpen, ht, hu, low_touch, h]

theorem low_dataDecrypted (h : t.low = u.low) (cookie : UInt64) (seq : UInt32) (ts : Nat) :
    (t.lkConnTableDataDecrypted cookie seq ts).1.low =
        (u.lkConnTableDataDecrypted cookie seq ts).1.low ∧
      (t.lkConnTableDataDecrypted cookie seq ts).2.1 =
        (u.lkConnTableDataDecrypted cookie seq ts).2.1 := by
  have hdflt : t.low.protoDflt = u.low.protoDflt := by rw [h]
  change t.protoDflt = u.protoDflt at hdflt
  obtain ⟨ht, hu⟩ | ⟨c, d, ht, hu, hlow⟩ := low_lookup_cases h cookie
  · simp only [lkConnTableDataDecrypted, ht, hu, hdflt]
    exact low_create_congr h cookie seq ts fun _ => rfl
  · simp only [lkConnTableDataDecrypted, ht, hu]
    exact ⟨low_touchTls h hlow seq ts, trivial⟩

theorem destroy_pushFront (t : ConnTable φ) (c : Conn φ) : (t.pushFront c).destroy c = t.destroy c := by
  simp [destroy, pushFront, unlink]

theorem close_eq {t : ConnTable φ} (h : t.lookup cookie = some c) (seq : UInt32) (ts : Nat) :
    (t.lkConnTableClose cookie seq ts).1 =
      (((t.countLost (seqLost c.lastSeq seq)).unlink c.cookie).destroy c).bump
        fun s => { s with closed := s.closed + 1 } := by
  have hcookie : (touched c seq ts).cookie = c.cookie := dirtyIf_cookie _ _
  have htouch : (t.touch c seq ts).1 =
      ((t.countLost (seqLost c.lastSeq seq)).unlink c.cookie).pushFront (touched c seq ts) := rfl
  have hfront : (t.touch c seq ts).1.conns =
      touched c seq ts :: ((t.countLost (seqLost c.lastSeq seq)).unlink c.cookie).conns := rfl
  simp only [lkConnTableClose, h, hfront]
  rw [htouch, destroy_pushFront, destroy_congr _ hcookie (dirtyIf_flags _ _)]

theorem low_close (h : t.low = u.low) (cookie : UInt64) (seq : UInt32) (ts : Nat) :
    (t.lkConnTableClose cookie seq ts).1.low = (u.lkConnTableClose cookie seq ts).1.low := by
  obtain ⟨ht, hu⟩ | ⟨c, d, ht, hu, hlow⟩ := low_lookup_cases h cookie
  · simp only [lkConnTableClose, ht, hu, h]
  · have hframing : c.framing = d.framing := by rw [← c.low_framing, hlow, d.low_framing]
    have hcookie : c.cookie = d.cookie := congrArg FConn.cookie hframing
    rw [close_eq ht, close_eq hu, low_bump, low_bump, low_destroy, low_destroy, low_unlink, low_unlink,
      low_countLost, low_countLost, h, hcookie, destroy_congr _ hcookie (congrArg FConn.flags hframing)]
    all_goals exact fun _ => rfl

theorem low_noteTlsDrop (t : ConnTable φ) (htls : Conn.tls c = true) (seq : UInt32) (ts : Nat) :
    (t.lkConnTableNoteTlsDrop c seq ts).low =
      ((t.low.bump fun s => { s with tlsSocketDropped := s.tlsSocketDropped + 1 }).unlink
        c.cookie).pushFront { c.low with lastActivityNs := ts } := by
  have htls' : Conn.tls { c with lastSeq := seqMax c.lastSeq seq, lastActivityNs := ts } = true := htls
  rw [lkConnTableNoteTlsDrop, low_pushFront, low_unlink, low_bump]
  · simp only [Conn.low, htls, htls', if_true]
  · exact fun _ => rfl

end

end ConnTable

namespace Pipeline
variable {env : Env φ} {p q : Pipeline φ}

theorem low_withConns (h : p.low = q.low) {t u : ConnTable φ} (ht : t.low = u.low) :
    (p.withConns t).low = (q.withConns u).low := by
  have hlow (p : Pipeline φ) (t : ConnTable φ) : (p.withConns t).low = p.low.withConns t.low := rfl
  rw [hlow, hlow, h, ht]

theorem low_conns (h : p.low = q.low) : p.conns.low = q.conns.low := congrArg Pipeline.conns h

theorem low_reasm (h : p.low = q.low) : p.reasm = q.reasm := by
  have hreasm : p.low.reasm = q.low.reasm := by rw [h]
  exact hreasm

theorem low_front_cases (h : p.low = q.low) :
    p.conns.conns = [] ∧ q.conns.conns = [] ∨
      ∃ c cs d ds, p.conns.conns = c :: cs ∧ q.conns.conns = d :: ds ∧ c.low = d.low ∧
        cs.map Conn.low = ds.map Conn.low := by
  have hmap : p.conns.conns.map Conn.low = q.conns.conns.map Conn.low :=
    congrArg ConnTable.conns (low_conns h)
  cases hp : p.conns.conns with
  | nil =>
    rw [hp, List.map_nil, eq_comm, List.map_eq_nil_iff] at hmap
    exact .inl ⟨rfl, hmap⟩
  | cons c cs =>
    rw [hp, List.map_cons, eq_comm, List.map_eq_cons_iff] at hmap
    obtain ⟨d, ds, hq, hc, hcs⟩ := hmap
    exact .inr ⟨c, cs, d, ds, rfl, hq, hc.symm, hcs.symm⟩

theorem low_mapFraming (h : p.low = q.low) {g : FConn φ → FConn φ}
    (hg : ∀ c ∈ p.conns.conns.head?, Stays c.framing (g c.framing)) :
    (p.mapFraming g).low = (q.mapFraming g).low := by
  have hlow (p : Pipeline φ) : (p.mapFraming g).low =
      { p.low with conns := { p.low.conns with conns := (p.mapFraming g).conns.conns.map Conn.low } } := rfl
  rw [hlow p, hlow q, h]
  obtain ⟨hp, hq⟩ | ⟨c, cs, d, ds, hp, hq, hc, hcs⟩ := low_front_cases h
  · simp only [mapFraming, ConnTable.mapFront, hp, hq]
  · have hframing : c.framing = d.framing := by rw [← c.low_framing, hc, d.low_framing]
    have hset := Conn.low_setFraming hc (hg c (by rw [hp]; rfl)).2
    rw [mapFraming_front hp, mapFraming_front hq, List.map_cons, List.map_cons, hcs, hset, hframing]

theorem low_reasmData (he : KeepsTls env) (h : p.low = q.low) (dir : Dir) (ev : EvData) :
    (p.reasmData env dir ev).low = (q.reasmData env dir ev).low := by
  obtain ⟨hp, hq⟩ | ⟨c, cs, d, ds, hp, hq, hc, hcs⟩ := low_front_cases h
  · simp only [reasmData, hp, hq, h]
  · have hframing : c.framing = d.framing := by rw [← c.low_framing, hc, d.low_framing]
    simp only [reasmData, hp, hq, low_reasm h, hframing]
    have hstays := lkReasmData_stays he q.reasm d.framing dir ev
    generalize (lkReasmData env q.reasm d.framing dir ev).1 = s at hstays
    have hmap : (p.mapFraming fun _ => s.2).low = (q.mapFraming fun _ => s.2).low := by
      apply low_mapFraming h
      intro c' hc'
      rw [hp] at hc'
      cases hc'
      rw [hframing]
      exact hstays
    have hlow (p : Pipeline φ) : ({ p with reasm := s.1 } : Pipeline φ).low = { p.low with reasm := s.1 } := rfl
    rw [hlow, hlow, hmap]

theorem low_frontTls (h : p.low = q.low) : p.frontTls = q.frontTls := by
  obtain ⟨hp, hq⟩ | ⟨c, cs, d, ds, hp, hq, hc, hcs⟩ := low_front_cases h
  · simp only [frontTls, hp, hq]
  · have hframing : c.framing = d.framing := by rw [← c.low_framing, hc, d.low_framing]
    simp only [frontTls, hp, hq, List.head?_cons, Option.any_some, Conn.tls, hframing]

theorem low_tlsOpen (h : p.low = q.low) (midstream : Bool) :
    (p.tlsOpen midstream).low = (q.tlsOpen midstream).low := by
  have hlow (p : Pipeline φ) : (p.tlsOpen midstream).low =
      { (p.mapFraming (lkConnTlsResetFraming midstream)).low with
        conns := (p.mapFraming (lkConnTlsResetFraming midstream)).low.conns.lkConnTableNoteTlsOpen } := rfl
  rw [hlow p, hlow q, low_mapFraming h fun c _ => tlsReset_stays midstream c.framing]

theorem low_feedPlain (he : KeepsTls env) (h : p.low = q.low) (hdr : EvHdr) (dir : Dir) (ev : EvData)
    (hplain : ∀ c, p.conns.lookup hdr.connId = some c → c.tls = false) :
    (p.feedPlain env hdr dir ev).1.low = (q.feedPlain env hdr dir ev).1.low := by
  obtain ⟨ht, hok⟩ := ConnTable.low_data (low_conns h) hdr.connId hdr.seq hdr.ts hplain
  have hconns := low_withConns h ht
  simp only [feedPlain, hok]
  split
  · have hdata := low_reasmData he hconns dir ev
    rw [low_frontTls hconns, low_frontTls hdata]
    split
    · exact low_tlsOpen hdata false
    · exact hdata
  · exact hconns

theorem low_feedDecrypted (he : KeepsTls env) (h : p.low = q.low) (hdr : EvHdr) (dir : Dir)
    (ev : EvData) : (p.feedDecrypted env hdr dir ev).1.low = (q.feedDecrypted env hdr dir ev).1.low := by
  obtain ⟨ht, hok⟩ := ConnTable.low_dataDecrypted (low_conns h) hdr.connId hdr.seq hdr.ts
  have hconns := low_withConns h ht
  simp only [feedDecrypted, hok]
  split
  · rw [low_frontTls hconns]
    split
    · apply low_reasmData he
      apply low_tlsOpen
      apply low_mapFraming hconns
      intro c _
      exact Stays.mapFlags c.framing fun _ => rfl
    · exact low_reasmData he hconns dir ev
  · exact hconns

end Pipeline

def ConnTable.flagged (t : ConnTable φ) (cookie : UInt64) : Bool := (t.lookup cookie).any Conn.tls

/-- Two events that are the same, or two socket events of a connection that is flagged as encrypted,
which may differ in sequence number and captured bytes. No open arrives for such a connection. -/
inductive Alike (p : Pipeline φ) : EvView → EvView → Prop where
  | same (v : EvView) (hopen : ∀ hdr tuple synthetic, v = .connOpen hdr tuple synthetic →
      p.conns.flagged hdr.connId = false) : Alike p v v
  | ciphertext (hdr : EvHdr) (seq : UInt32) (dir : Dir) (totalLen off : Nat) (xs ys : List Byte)
      (hflagged : p.conns.flagged hdr.connId = true) :
      Alike p (.data hdr dir totalLen off xs false) (.data { hdr with seq := seq } dir totalLen off ys false)

def routeStep (env : Env φ) (p : Pipeline φ) (v : EvView) : Pipeline φ := (p.lkPipelineFeed env v).1

theorem plain_of_not_flagged {t : ConnTable φ} (h : t.flagged cookie = false) :
    ∀ c, t.lookup cookie = some c → c.tls = false := by
  intro c hc
  simpa [ConnTable.flagged, hc] using h

theorem routeStep_flagged (env : Env φ) {p : Pipeline φ} (hdr : EvHdr)
    (h : p.conns.lookup hdr.connId = some c) (htls : c.tls = true) (dir : Dir) (totalLen off : Nat)
    (payload : List Byte) :
    routeStep env p (.data hdr dir totalLen off payload false) =
      p.withConns (p.conns.lkConnTableNoteTlsDrop c hdr.seq hdr.ts) := by
  simp [routeStep, Pipeline.lkPipelineFeed, h, htls]

theorem routeStep_consistent {env : Env φ} (he : KeepsTls env) {p q : Pipeline φ} (h : p.low = q.low)
    {v : EvView} (hv : Alike p v v) : (routeStep env p v).low = (routeStep env q v).low := by
  have hconns := Pipeline.low_conns h
  cases v with
  | connOpen hdr tuple synthetic =>
    cases hv with
    | same _ hopen =>
      apply Pipeline.low_withConns h
      apply ConnTable.low_open hconns
      exact plain_of_not_flagged (hopen hdr tuple synthetic rfl)
  | connClose hdr => exact Pipeline.low_withConns h (ConnTable.low_close hconns _ _ _)
  | data hdr dir totalLen off payload decrypted =>
    cases decrypted with
    | true =>
      have hroute (p : Pipeline φ) : routeStep env p (.data hdr dir totalLen off payload true) =
          (p.feedDecrypted env hdr dir ⟨hdr.ts, totalLen, off, payload, true⟩).1 := by
        simp only [routeStep, Pipeline.lkPipelineFeed, Bool.not_true, Bool.and_false]
        split <;> rfl
      rw [hroute, hroute]
      exact Pipeline.low_feedDecrypted he h hdr dir _
    | false =>
      have hroute {p : Pipeline φ} (hplain : ∀ c, p.conns.lookup hdr.connId = some c → c.tls = false) :
          routeStep env p (.data hdr dir totalLen off payload false) =
            (p.feedPlain env hdr dir ⟨hdr.ts, totalLen, off, payload, false⟩).1 := by
        simp only [routeStep, Pipeline.lkPipelineFeed]
        split
        · next c hc =>
          rw [hplain c hc]
          rfl
        · rfl
      obtain ⟨hp, hq⟩ | ⟨c, d, hp, hq, hlow⟩ := ConnTable.low_lookup_cases hconns hdr.connId
      · have hnone : ∀ c, p.conns.lookup hdr.connId = some c → c.tls = false := by simp [hp]
        rw [hroute hnone, hroute (by simp [hq])]
        exact Pipeline.low_feedPlain he h hdr dir _ hnone
      · have hframing : c.framing = d.framing := by rw [← c.low_framing, hlow, d.low_framing]
        have htls : c.tls = d.tls := congrArg (·.flags.tls) hframing
        have hcookie : c.cookie = d.cookie := congrArg FConn.cookie hframing
        cases hc : c.tls with
        | true =>
          rw [hc] at htls
          rw [routeStep_flagged env hdr hp hc, routeStep_flagged env hdr hq htls.symm]
          apply Pipeline.low_withConns h
          rw [ConnTable.low_noteTlsDrop _ hc, ConnTable.low_noteTlsDrop _ htls.symm, hconns, hlow, hcookie]
        | false =>
          have hplain : ∀ c, p.conns.lookup hdr.connId = some c → c.tls = false := by simpa [hp] using hc
          rw [hroute hplain, hroute (by simpa [hq, ← htls] using hc)]
          exact Pipeline.low_feedPlain he h hdr dir _ hplain
  | unknown => exact h
  | short => exact h

theorem routeStep_respects (env : Env φ) {p : Pipeline φ} (h : Alike p v w) :
    (routeStep env p v).low = (routeStep env p w).low := by
  cases h with
  | same => rfl
  | ciphertext hdr seq dir totalLen off xs ys hflagged =>
    cases hc : p.conns.lookup hdr.connId with
    | none => simp [ConnTable.flagged, hc] at hflagged
    | some c =>
      have htls : c.tls = true := by simpa [ConnTable.flagged, hc] using hflagged
      rw [routeStep_flagged env hdr hc htls, routeStep_flagged env { hdr with seq := seq } hc htls]
      apply Pipeline.low_withConns rfl
      rw [ConnTable.low_noteTlsDrop _ htls, ConnTable.low_noteTlsDrop _ htls]

theorem router_unwinds {env : Env φ} (he : KeepsTls env) :
    Unwinding.Unwinds (routeStep env) Pipeline.low Alike where
  consistent _ _ _ h hv := routeStep_consistent he h hv
  respects _ _ _ h := routeStep_respects env h
  right _ v w h := by
    cases h with
    | same _ hopen => exact .same _ hopen
    | ciphertext => exact .same _ (fun _ _ _ h => nomatch h)

theorem framing_of_low {p q : Pipeline φ} (h : p.low = q.low) (cookie : UInt64) :
    (p.conns.lookup cookie).map Conn.framing = (q.conns.lookup cookie).map Conn.framing := by
  obtain ⟨hp, hq⟩ | ⟨c, d, hp, hq, hlow⟩ := ConnTable.low_lookup_cases (Pipeline.low_conns h) cookie
  · rw [hp, hq]
  · rw [hp, hq, Option.map_some, Option.map_some, ← c.low_framing, hlow, d.low_framing]

/-- What ciphertext a flagged connection receives, and under which numbers, changes neither what the
sink is told of any connection nor any framing state. -/
theorem tls_router_noninterference {env : Env φ} (he : KeepsTls env) (p : Pipeline φ)
    (vs ws : List EvView) (h : Unwinding.Matched (routeStep env) Alike p vs ws) :
    (vs.foldl (routeStep env) p).reasm.trace = (ws.foldl (routeStep env) p).reasm.trace ∧
      ∀ cookie, ((vs.foldl (routeStep env) p).conns.lookup cookie).map Conn.framing =
        ((ws.foldl (routeStep env) p).conns.lookup cookie).map Conn.framing := by
  have hlow := (router_unwinds he).run_view rfl h
  exact ⟨congrArg Reasm.trace (Pipeline.low_reasm hlow), framing_of_low hlow⟩

def sslExchange : List EvView :=
  [.connOpen ⟨1, 0, 1⟩ {} false, .data ⟨1, 1, 2⟩ .recv 8 0 [0, 0, 0, 8, 4, 210, 22, 47] false,
    .data ⟨1, 2, 3⟩ .send 1 0 [83] false]

/-- Different ciphertext between the exchange and the close. -/
theorem tls_router_noninterference_close :
    let vs := sslExchange ++ [.data ⟨1, 3, 4⟩ .recv 90 0 [22, 3] false, .connClose ⟨1, 4, 5⟩]
    let ws := sslExchange ++ [.data ⟨1, 9, 4⟩ .recv 90 0 [23] false, .connClose ⟨1, 4, 5⟩]
    (vs.foldl (routeStep passiveEnv) ⟨{}, {}⟩).reasm.trace =
      (ws.foldl (routeStep passiveEnv) ⟨{}, {}⟩).reasm.trace := by
  apply (tls_router_noninterference passiveEnv_keepsTls ⟨{}, {}⟩ _ _ _).1
  refine ⟨.same _ ?_, .same _ (fun _ _ _ h => nomatch h), .same _ (fun _ _ _ h => nomatch h),
    .ciphertext ⟨1, 3, 4⟩ 9 .recv 90 0 [22, 3] [23] ?_, .same _ (fun _ _ _ h => nomatch h), trivial⟩
  · intro hdr tuple synthetic h
    cases h
    rfl
  · decide

/-- A second open is checked against the raw cursor that ciphertext moved: a gap before it dirties
the decrypted stream in one run and not in the other. -/
theorem tls_router_duplicate_open :
    let vs := sslExchange ++ [.data ⟨1, 3, 4⟩ .recv 90 0 [22, 3] false, .connOpen ⟨1, 10, 5⟩ {} false]
    let ws := sslExchange ++ [.data ⟨1, 9, 4⟩ .recv 90 0 [22, 3] false, .connOpen ⟨1, 10, 5⟩ {} false]
    (sslExchange.foldl (routeStep passiveEnv) ⟨{}, {}⟩).conns.flagged 1 = true ∧
      (((vs.foldl (routeStep passiveEnv) ⟨{}, {}⟩).conns.lookup 1).map fun c => c.framing.recv.st) =
        some .dirty ∧
      (((ws.foldl (routeStep passiveEnv) ⟨{}, {}⟩).conns.lookup 1).map fun c => c.framing.recv.st) =
        some .header := by
  decide

end Latkit
