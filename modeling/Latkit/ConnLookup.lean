import Latkit.ConnTable

namespace Latkit

namespace ConnTable

@[simp] theorem lookup_bump (t : ConnTable φ) (g : ConnTableStats → ConnTableStats) (cookie : UInt64) :
    (t.bump g).lookup cookie = t.lookup cookie := rfl

@[simp] theorem lookup_countLost (t : ConnTable φ) (lost : UInt32) (cookie : UInt64) :
    (t.countLost lost).lookup cookie = t.lookup cookie := by
  simp only [countLost]
  split <;> rfl

theorem lookup_pushFront (t : ConnTable φ) {c : Conn φ} (h : c.cookie = cookie) :
    (t.pushFront c).lookup cookie = some c := by
  simp [lookup, pushFront, h]

theorem cookie_of_lookup {t : ConnTable φ} (h : t.lookup cookie = some c) : c.cookie = cookie := by
  simpa using List.find?_some h

@[simp] theorem dirtyIf_cookie (lost : UInt32) (f : FConn φ) : (dirtyIf lost f).cookie = f.cookie := by
  simp only [dirtyIf]
  split <;> rfl

@[simp] theorem dirtyIf_flags (lost : UInt32) (f : FConn φ) :
    (dirtyIf lost f).flags = f.flags := by
  simp only [dirtyIf]
  split <;> rfl

def touched (c : Conn φ) (seq : UInt32) (ts : Nat) : Conn φ :=
  { c with
    dropped := c.dropped + seqLost c.lastSeq seq
    framing := dirtyIf (seqLost c.lastSeq seq) c.framing
    lastSeq := seqMax c.lastSeq seq
    lastActivityNs := ts }

theorem touch_lookup {t : ConnTable φ} (h : t.lookup cookie = some c) (seq : UInt32) (ts : Nat) :
    (t.touch c seq ts).1.lookup cookie = some (touched c seq ts) := by
  apply lookup_pushFront
  rw [← cookie_of_lookup h]
  exact dirtyIf_cookie _ _

theorem lookup_front {t : ConnTable φ} (h : t.conns = c :: cs) (hc : c.cookie = cookie) :
    t.lookup cookie = some c := by
  simp [ConnTable.lookup, h, hc]

theorem lookup_unlink_self (t : ConnTable φ) (cookie : UInt64) :
    (t.unlink cookie).lookup cookie = none := by
  simp [lookup, unlink]

theorem lookup_unlink_none {t : ConnTable φ} (h : t.lookup cookie = none) (k : UInt64) :
    (t.unlink k).lookup cookie = none := by
  simp only [lookup, unlink, List.find?_eq_none, List.mem_filter] at h ⊢
  intro c hc
  exact h c hc.1

theorem lookup_close {t : ConnTable φ} (h : t.lookup cookie = some c) (seq : UInt32) (ts : Nat) :
    (t.lkConnTableClose cookie seq ts).1.lookup cookie = none := by
  have hcookie : (touched c seq ts).cookie = cookie :=
    (dirtyIf_cookie _ _).trans (cookie_of_lookup h)
  simp only [lkConnTableClose, h]
  rw [← hcookie]
  exact lookup_unlink_self _ _

theorem lookup_makeRoom {t : ConnTable φ} (h : t.lookup cookie = none) :
    t.makeRoom.lookup cookie = none := by
  simp only [makeRoom]
  split
  · split
    · exact lookup_unlink_none h _
    · exact h
  · exact h

theorem lookup_noteTlsDrop {t : ConnTable φ} (h : t.lookup cookie = some c) (seq : UInt32)
    (ts : Nat) : (t.lkConnTableNoteTlsDrop c seq ts).lookup cookie =
      some { c with lastSeq := seqMax c.lastSeq seq, lastActivityNs := ts } := by
  have hcookie := cookie_of_lookup h
  exact lookup_pushFront _ hcookie

theorem makeRoom_allocOk (t : ConnTable φ) : t.makeRoom.allocOk = t.allocOk := by
  simp only [makeRoom]
  repeat' split
  all_goals rfl

theorem create_lookup {t : ConnTable φ} (halloc : t.allocOk = true) (seq : UInt32) (ts : Nat)
    {init : Conn φ → Conn φ} (hc : ∀ c, (init c).cookie = c.cookie) :
    (t.create cookie seq ts init).1.lookup cookie =
      some (init { framing := { cookie }, lastSeq := seq, lastActivityNs := ts }) := by
  simp only [create, makeRoom_allocOk, halloc, if_true]
  exact lookup_pushFront _ (hc _)

theorem opened_cookie (ops : Option Proto) (tuple : Tuple) (synthetic : Bool) (c : Conn φ) :
    (opened ops tuple synthetic c).cookie = c.cookie := by
  cases synthetic <;> rfl

theorem create_front {t : ConnTable φ} (halloc : t.allocOk = true) (cookie : UInt64) (seq : UInt32)
    (ts : Nat) (init : Conn φ → Conn φ) :
    (t.create cookie seq ts init).1.conns =
        init { framing := { cookie }, lastSeq := seq, lastActivityNs := ts } :: t.makeRoom.conns ∧
      (t.create cookie seq ts init).2 = true := by
  simp only [create, makeRoom_allocOk, halloc, if_true]
  exact ⟨rfl, trivial⟩

end ConnTable

end Latkit
