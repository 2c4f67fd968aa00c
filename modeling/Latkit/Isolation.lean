import Latkit.SeqSpaces

namespace Latkit

def EvView.connId : EvView → Option UInt64
  | .connOpen hdr .. | .connClose hdr | .data hdr .. => some hdr.connId
  | .unknown | .short => none

namespace ConnTable

/-- The entry of `k` is as it was, or gone. -/
def Spares (k : UInt64) (t t' : ConnTable φ) : Prop := t'.lookup k = t.lookup k ∨ t'.lookup k = none

variable {t : ConnTable φ}

theorem Spares.trans {t t₁ t₂ : ConnTable φ} (h : Spares k t t₁) (h' : Spares k t₁ t₂) : Spares k t t₂ := by
  rcases h' with h' | h'
  · rwa [Spares, h']
  · exact .inr h'

theorem lookup_unlink_other (h : j ≠ k) : (t.unlink j).lookup k = t.lookup k := by
  rw [lookup, unlink, List.find?_filter]
  congr 1
  funext c
  by_cases hc : c.cookie = k <;> simp [hc, h.symm]

theorem destroy_spares (t : ConnTable φ) (x : Conn φ) (k : UInt64) : Spares k t (t.destroy x) := by
  by_cases hx : x.cookie = k
  · subst hx
    exact .inr (lookup_unlink_self t x.cookie)
  · exact .inl (lookup_unlink_other hx)

theorem makeRoom_spares (t : ConnTable φ) (k : UInt64) : Spares k t t.makeRoom := by
  rw [makeRoom]
  repeat' split
  · exact destroy_spares t _ k
  · exact .inl rfl
  · exact .inl rfl

theorem sweepTail_spares (now n : Nat) (t : ConnTable φ) (k : UInt64) : Spares k t (sweepTail now n t).1 := by
  induction n generalizing t with
  | zero => exact .inl rfl
  | succ n ih =>
    rw [sweepTail]
    split
    · exact .inl rfl
    · split
      · exact (destroy_spares t _ k).trans (ih _)
      · exact .inl rfl

theorem lookup_behind (h : t.conns = c :: cs) (hc : c.cookie ≠ k) : t.lookup k = cs.find? fun d => d.cookie == k := by
  rw [lookup, h, List.find?_cons_of_neg (by simpa using hc)]

structure Enters (j k : UInt64) (t : ConnTable φ) (r : ConnTable φ × Bool × UInt32) : Prop where
  spares : Spares k t r.1
  front : r.2.1 = true → ∃ c cs, r.1.conns = c :: cs ∧ c.cookie = j

theorem front_enters {c d : Conn φ} (hj : j ≠ k) (hd : d.cookie = j) (hc : c.cookie = j) (lost : UInt32) :
    Enters j k t (((t.countLost lost).unlink d.cookie).pushFront c, true, lost) := by
  refine ⟨.inl ?_, fun _ => ⟨c, _, rfl, hc⟩⟩
  rw [lookup_behind (c := c) rfl (by rwa [hc])]
  exact (lookup_unlink_other (by rwa [hd])).trans (lookup_countLost t lost k)

theorem create_enters (hj : j ≠ k) (seq : UInt32) (ts : Nat) (init : Conn φ → Conn φ)
    (hinit : ∀ c, (init c).cookie = c.cookie) :
    Enters j k t ((t.create j seq ts init).1, (t.create j seq ts init).2, 0) := by
  rw [create]
  split
  · refine ⟨(makeRoom_spares t k).trans (.inl ?_), fun _ => ⟨_, _, rfl, hinit _⟩⟩
    exact lookup_behind rfl (by rw [hinit]; exact hj)
  · exact ⟨makeRoom_spares t k, fun h => absurd h (by simp)⟩

theorem touch_enters (hj : j ≠ k) (hc : t.lookup j = some c) (seq : UInt32) (ts : Nat) :
    Enters j k t ((t.touch c seq ts).1, true, (t.touch c seq ts).2) := by
  refine front_enters hj (cookie_of_lookup hc) ?_ _
  exact (dirtyIf_cookie ..).trans (cookie_of_lookup hc)

theorem open_enters (hj : j ≠ k) (seq : UInt32) (ts : Nat) (tuple : Tuple) (synthetic : Bool) :
    Enters j k t (t.lkConnTableOpen j seq ts tuple synthetic) := by
  rw [lkConnTableOpen]
  split
  · next hc => exact touch_enters hj hc seq ts
  · exact create_enters hj seq ts _ (opened_cookie _ tuple synthetic)

theorem data_enters (hj : j ≠ k) (seq : UInt32) (ts : Nat) : Enters j k t (t.lkConnTableData j seq ts) := by
  rw [lkConnTableData]
  split
  · next hc => exact touch_enters hj hc seq ts
  · exact create_enters hj seq ts (adopted t.protoDflt) fun _ => rfl

theorem decrypted_enters (hj : j ≠ k) (seq : UInt32) (ts : Nat) :
    Enters j k t (t.lkConnTableDataDecrypted j seq ts) := by
  rw [lkConnTableDataDecrypted]
  split
  · next hc =>
    refine front_enters hj (cookie_of_lookup hc) ?_ _
    exact (dirtyIf_cookie ..).trans (cookie_of_lookup hc)
  · exact create_enters hj seq ts (fun c => { adopted t.protoDflt c with tlsSeqSeen := true, tlsLastSeq := seq }) fun _ => rfl

theorem close_spares (hj : j ≠ k) (seq : UInt32) (ts : Nat) : Spares k t (t.lkConnTableClose j seq ts).1 := by
  rw [lkConnTableClose]
  split
  · exact .inl rfl
  · next hc => exact (touch_enters hj hc seq ts).spares.trans (destroy_spares _ _ k)

end ConnTable

open ConnTable

variable {env : Env φ}

theorem Enters.kept {t' : ConnTable φ} (h : Enters j k t r) (hj : j ≠ k) (hr : r.1.conns = c :: cs)
    (hc : c.cookie = j) (ht' : t'.conns = c' :: cs) (hc' : c'.cookie = j) : Spares k t t' := by
  have hsame : t'.lookup k = r.1.lookup k := by
    rw [lookup_behind ht' (by rwa [hc']), lookup_behind hr (by rwa [hc])]
  rw [Spares, hsame]
  exact h.spares

theorem feedPlain_spares (he : KeepsTls env) (p : Pipeline φ) (hdr : EvHdr) (dir : Dir) (ev : EvData)
    (hj : hdr.connId ≠ k) : Spares k p.conns (p.feedPlain env hdr dir ev).1.conns := by
  have henters := data_enters (t := p.conns) hj hdr.seq hdr.ts
  by_cases hok : (p.conns.lkConnTableData hdr.connId hdr.seq hdr.ts).2.1 = true
  · obtain ⟨c, cs, hfront, hc⟩ := henters.front hok
    obtain ⟨f, hf, hconns⟩ := feedPlain_front he p hdr dir ev hfront hok
    exact Enters.kept henters hj hfront hc hconns (hf.1.trans hc)
  · simp only [Pipeline.feedPlain, hok]
    exact henters.spares

theorem feedDecrypted_spares (he : KeepsTls env) (p : Pipeline φ) (hdr : EvHdr) (dir : Dir) (ev : EvData)
    (hj : hdr.connId ≠ k) : Spares k p.conns (p.feedDecrypted env hdr dir ev).1.conns := by
  have henters := decrypted_enters (t := p.conns) hj hdr.seq hdr.ts
  by_cases hok : (p.conns.lkConnTableDataDecrypted hdr.connId hdr.seq hdr.ts).2.1 = true
  · obtain ⟨c, cs, hfront, hc⟩ := henters.front hok
    obtain ⟨f, hf, -, hconns⟩ := feedDecrypted_front he p hdr dir ev hfront hok
    exact Enters.kept henters hj hfront hc hconns (hf.trans hc)
  · simp only [Pipeline.feedDecrypted, hok]
    exact henters.spares

theorem feed_spares (he : KeepsTls env) (p : Pipeline φ) (hev : ev.connId ≠ some k) :
    Spares k p.conns (p.lkPipelineFeed env ev).1.conns := by
  cases ev with
  | connOpen hdr tuple synthetic =>
    exact (open_enters (fun h => hev (congrArg some h)) hdr.seq hdr.ts tuple synthetic).spares
  | connClose hdr => exact close_spares (fun h => hev (congrArg some h)) hdr.seq hdr.ts
  | data hdr dir totalLen off payload decrypted =>
    have hj : hdr.connId ≠ k := fun h => hev (congrArg some h)
    rw [Pipeline.lkPipelineFeed]
    repeat' split
    · rename_i c hc _
      have hcookie := cookie_of_lookup hc
      left
      refine (lookup_behind rfl ?_).trans (lookup_unlink_other (by rwa [hcookie]))
      exact fun h => hj (hcookie.symm.trans h)
    · exact feedDecrypted_spares he p hdr dir _ hj
    · exact feedPlain_spares he p hdr dir _ hj
    · exact feedDecrypted_spares he p hdr dir _ hj
    · exact feedPlain_spares he p hdr dir _ hj
  | unknown => exact .inl rfl
  | short => exact .inl rfl

/-- What other connections do, in any order and with sweeps in between, leaves the entry of a connection as it is:
framing, sequence cursors and flags. It can only make it go. -/
theorem pipeline_isolated (he : KeepsTls env) (p : Pipeline φ) (k : UInt64) (evs : List (EvView ⊕ Nat))
    (hevs : ∀ ev, .inl ev ∈ evs → ev.connId ≠ some k) :
    let q := evs.foldl (fun p : Pipeline φ => Sum.elim (fun ev => (p.lkPipelineFeed env ev).1)
      fun now => p.withConns (p.conns.lkConnTableSweep now).1) p
    q.conns.lookup k = p.conns.lookup k ∨ q.conns.lookup k = none := by
  induction evs generalizing p with
  | nil => exact .inl rfl
  | cons ev evs ih =>
    have hrest := fun p => ih p fun e he => hevs e (List.mem_cons_of_mem _ he)
    cases ev with
    | inl ev => exact (feed_spares he p (hevs ev List.mem_cons_self)).trans (hrest _)
    | inr now => exact (sweepTail_spares now p.conns.conns.length p.conns k).trans (hrest _)

def oneOfTwo : Pipeline Unit where
  conns := { conns := [{ framing := { cookie := 1 }, lastSeq := 0, lastActivityNs := 0 }], maxConns := 2, st := { active := 1 } }
  reasm := {}

theorem pipeline_isolated_two :
    let q := ((oneOfTwo.lkPipelineFeed passiveEnv (.data ⟨2, 0, 0⟩ .send 1 0 [0x51] false)).1.lkPipelineFeed passiveEnv
      (.connClose ⟨2, 1, 0⟩)).1
    oneOfTwo.conns.lookup 1 ≠ none ∧ (q.conns.lookup 1 = oneOfTwo.conns.lookup 1 ∨ q.conns.lookup 1 = none) :=
  ⟨by decide, pipeline_isolated passiveEnv_keepsTls oneOfTwo 1
    [.inl (.data ⟨2, 0, 0⟩ .send 1 0 [0x51] false), .inl (.connClose ⟨2, 1, 0⟩)] (by simp [EvView.connId])⟩

end Latkit
