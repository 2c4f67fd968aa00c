import Latkit.MyHandler

namespace Latkit

/-- A reader depends only on the bytes that it takes. -/
def Reads (f : List Byte → Option (α × List Byte)) : Prop :=
  ∀ w a r, f w = some (a, r) → ∃ h, w = h ++ r ∧ ∀ r', f (h ++ r') = some (a, r')

theorem reads_fixed (k : Nat) (g : List Byte → Nat)
    (hg : ∀ h r r', h.length = k → g (h ++ r) = g (h ++ r')) :
    Reads fun w => if w.length < k then none else some (g w, w.drop k) := by
  intro w a r h
  by_cases hlen : w.length < k
  · simp only [if_pos hlen] at h
    cases h
  · simp only [if_neg hlen, Option.some.injEq, Prod.mk.injEq] at h
    obtain ⟨rfl, rfl⟩ := h
    have htake : (w.take k).length = k := by
      rw [List.length_take]
      omega
    refine ⟨w.take k, (List.take_append_drop k w).symm, ?_⟩
    intro r'
    have hgw := hg (w.take k) (w.drop k) r' htake
    rw [List.take_append_drop] at hgw
    dsimp only
    rw [if_neg (by rw [List.length_append]; omega), hgw, List.drop_left' htake]

theorem reads_u16 : Reads myWireGetU16 := by
  apply reads_fixed 2
  intro h r r' hlen
  obtain ⟨a, b, rfl⟩ := List.length_eq_two.mp hlen
  rfl

theorem reads_u24 : Reads myWireGetU24 := by
  apply reads_fixed 3
  intro h r r' hlen
  obtain ⟨a, b, c, rfl⟩ := List.length_eq_three.mp hlen
  rfl

theorem le32_append {h : List Byte} (hlen : 4 ≤ h.length) (r : List Byte) : le32 (h ++ r) = le32 h := by
  match h, hlen with
  | a :: b :: c :: d :: h, _ => rfl

theorem reads_u32 : Reads myWireGetU32 := by
  apply reads_fixed 4
  intro h r r' hlen
  rw [le32_append (by omega), le32_append (by omega)]

theorem reads_u64 : Reads myWireGetU64 := by
  apply reads_fixed 8
  intro h r r' hlen
  have hdrop (r : List Byte) : (h ++ r).drop 4 = h.drop 4 ++ r := List.drop_append_of_le_length (by omega)
  have hlen4 : 4 ≤ (h.drop 4).length := by
    rw [List.length_drop]
    omega
  rw [le64, le64, hdrop, hdrop, le32_append hlen4, le32_append hlen4, le32_append (by omega),
    le32_append (by omega)]

theorem reads_lenenc : Reads myWireGetLenenc := by
  intro w a r h
  cases w with
  | nil => cases h
  | cons b w =>
    rw [myWireGetLenenc] at h
    by_cases hbad : b = 0xfb ∨ b = 0xff
    · rw [if_pos hbad] at h
      cases h
    rw [if_neg hbad] at h
    by_cases h1 : b < 0xfb
    · rw [if_pos h1] at h
      cases h
      refine ⟨[b], rfl, fun r' => ?_⟩
      rw [List.singleton_append, myWireGetLenenc, if_neg hbad, if_pos h1]
    rw [if_neg h1] at h
    have hcons {f : List Byte → Option (Nat × List Byte)} (hf : Reads f) (hw : f w = some (a, r))
        (heq : ∀ w, myWireGetLenenc (b :: w) = f w) :
        ∃ h, b :: w = h ++ r ∧ ∀ r', myWireGetLenenc (h ++ r') = some (a, r') := by
      obtain ⟨hd, rfl, hr⟩ := hf w a r hw
      refine ⟨b :: hd, rfl, fun r' => ?_⟩
      rw [List.cons_append, heq, hr]
    by_cases h2 : b = 0xfc
    · rw [if_pos h2] at h
      refine hcons reads_u16 h fun w => ?_
      rw [myWireGetLenenc, if_neg hbad, if_neg h1, if_pos h2]
    rw [if_neg h2] at h
    by_cases h3 : b = 0xfd
    · rw [if_pos h3] at h
      refine hcons reads_u24 h fun w => ?_
      rw [myWireGetLenenc, if_neg hbad, if_neg h1, if_neg h2, if_pos h3]
    · rw [if_neg h3] at h
      refine hcons reads_u64 h fun w => ?_
      rw [myWireGetLenenc, if_neg hbad, if_neg h1, if_neg h2, if_neg h3]

theorem myWireCstring_inv (h : myWireCstring w = (true, s, r)) : w = s ++ 0 :: r ∧ 0 ∉ s := by
  by_cases hz : 0 ∈ w
  · obtain ⟨s', r', rfl, hs'⟩ := List.eq_append_cons_of_mem hz
    rw [myWireCstring, pgWireCstring_append hs'] at h
    cases h
    exact ⟨rfl, hs'⟩
  · rw [myWireCstring, pgWireCstring, if_neg (by simpa using hz)] at h
    cases h

def authPrefix (caps : Nat) (w : List Byte) : Option (Nat × List Byte) :=
  if myCapPluginAuthLenenc caps then myWireGetLenenc w
  else
    match w with
    | [] => none
    | al :: w => some (al.toNat, w)

theorem reads_authPrefix (caps : Nat) : Reads (authPrefix caps) := by
  intro w a r h
  cases hform : myCapPluginAuthLenenc caps with
  | true =>
    simp only [authPrefix, hform, if_true] at h ⊢
    exact reads_lenenc w a r h
  | false =>
    simp only [authPrefix, hform, Bool.false_eq_true, if_false] at h ⊢
    cases w with
    | nil => cases h
    | cons al w =>
      cases h
      exact ⟨[al], rfl, fun r' => rfl⟩

theorem skipAuth_eq (h : authPrefix caps w = some (n, r)) : skipAuth caps w = myWireSkip r (n % 2 ^ 32) := by
  cases hform : myCapPluginAuthLenenc caps with
  | true =>
    simp only [authPrefix, hform, if_true] at h
    simp only [skipAuth, hform, if_true, h]
  | false =>
    simp only [authPrefix, hform, Bool.false_eq_true, if_false] at h
    simp only [skipAuth, hform, Bool.false_eq_true, if_false]
    cases w with
    | nil => cases h
    | cons al w =>
      cases h
      dsimp only
      rw [Nat.mod_eq_of_lt (Nat.lt_trans al.toNat_lt (by decide))]

/-- Where a HandshakeResponse41 has its authentication response: the length it declares and the bytes
behind that. -/
def responseAuth (body : List Byte) : Option (Nat × List Byte) :=
  match myWireGetU32 body with
  | none => none
  | some (caps, w) =>
    match myWireGetU32 (w.drop 24) with
    | none => none
    | some (_, w) =>
      match myWireCstring w with
      | (true, _, w) => authPrefix caps w
      | _ => none

def changeUserAuth (body : List Byte) : Option (Nat × List Byte) :=
  match myWireCstring (body.drop 1) with
  | (true, _, al :: w) => some (al.toNat, w)
  | _ => none

/-- Bodies that are equal except in the bytes of the authentication response. -/
def AuthApart (auth : List Byte → Option (Nat × List Byte)) (b b' : List Byte) : Prop :=
  match auth b with
  | none => b' = b
  | some (n, w) => ∃ h w', b = h ++ w ∧ b' = h ++ w' ∧ w'.length = w.length ∧ w'.drop n = w.drop n

def MyConn.labels (pc : MyConn) : List Byte × List Byte × List Byte × Nat × Nat × Bool :=
  (pc.session.user, pc.session.database, pc.session.app, pc.caps, pc.mcaps, pc.capsKnown)

theorem responseAuth_parts (h : responseAuth body = some (n, w)) :
    ∃ c4 mid m4 user lp caps mcaps, mid.length = 24 ∧ 0 ∉ user ∧
      body = c4 ++ (mid ++ (m4 ++ (user ++ 0 :: (lp ++ w)))) ∧
      (∀ r, myWireGetU32 (c4 ++ r) = some (caps, r)) ∧ (∀ r, myWireGetU32 (m4 ++ r) = some (mcaps, r)) ∧
      ∀ r, authPrefix caps (lp ++ r) = some (n, r) := by
  rw [responseAuth] at h
  split at h
  · cases h
  next caps w₁ h₁ =>
    split at h
    · cases h
    next mcaps w₂ h₂ =>
      split at h
      · next user w₃ h₃ =>
        obtain ⟨c4, rfl, hc4⟩ := reads_u32 _ _ _ h₁
        obtain ⟨m4, hdrop, hm4⟩ := reads_u32 _ _ _ h₂
        obtain ⟨rfl, huser⟩ := myWireCstring_inv h₃
        obtain ⟨lp, rfl, hlp⟩ := reads_authPrefix caps _ _ _ h
        have hlen : (w₁.take 24).length = 24 := by
          have hpos := congrArg List.length hdrop
          rw [List.length_drop, List.length_append, List.length_append, List.length_cons] at hpos
          rw [List.length_take]
          omega
        refine ⟨c4, w₁.take 24, m4, user, lp, caps, mcaps, hlen, huser, ?_, hc4, hm4, hlp⟩
        rw [← hdrop, List.take_append_drop]
      · cases h

def MyConn.greeted (pc : MyConn) (cut : Bool) (caps mcaps : Nat) (user : List Byte) : MyConn :=
  { pc with
    caps
    capsKnown := true
    mcaps := if myCapMysql caps then 0 else mcaps
    sess := .auth
    session := { pc.session with complete := !cut, user := myCopyField 64 user } }

theorem handshakeResponse_auth {m : Msg} (h : responseAuth m.body = some (n, w)) (pc : MyConn) :
    ∃ hd pc', m.body = hd ++ w ∧ pc'.session.app = pc.session.app ∧
      ∀ w', handshakeResponse pc { m with body := hd ++ w' } =
        match myWireSkip w' (n % 2 ^ 32) with
        | none => pc'
        | some t => { pc' with session := responseTail (le32 m.body) t pc'.session } := by
  obtain ⟨c4, mid, m4, user, lp, caps, mcaps, hmid, huser, hbody, hc4, hm4, hlp⟩ := responseAuth_parts h
  have hcaps : caps = le32 m.body := by
    have hread := hc4 (mid ++ (m4 ++ (user ++ 0 :: (lp ++ w))))
    rw [← hbody, myWireGetU32] at hread
    split at hread
    · cases hread
    · rw [Option.some.injEq, Prod.mk.injEq] at hread
      exact hread.1.symm
  refine ⟨c4 ++ (mid ++ (m4 ++ (user ++ 0 :: lp))), pc.greeted m.flags.bodyTrunc caps mcaps user, ?_, rfl, ?_⟩
  · rw [hbody]
    simp only [List.append_assoc, List.cons_append]
  · intro w'
    have hassoc : c4 ++ (mid ++ (m4 ++ (user ++ 0 :: lp))) ++ w' =
        c4 ++ (mid ++ (m4 ++ (user ++ 0 :: (lp ++ w')))) := by
      simp only [List.append_assoc, List.cons_append]
    have hdrop (r : List Byte) : (mid ++ r).drop 24 = r := List.drop_left' hmid
    have hne : (user ++ 0 :: (lp ++ w')).isEmpty = false := by simp
    rw [handshakeResponse, hassoc]
    dsimp only
    rw [hc4]
    dsimp only
    rw [hdrop, hm4]
    dsimp only
    rw [hne, if_neg Bool.false_ne_true, responseLabels, myWireCstring, pgWireCstring_append huser]
    dsimp only
    rw [skipAuth_eq (hlp w'), ← hcaps]
    rfl

end Latkit
