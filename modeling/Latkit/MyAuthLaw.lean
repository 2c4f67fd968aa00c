import Latkit.MyAuth
import Latkit.MyGrammar

namespace Latkit

theorem myWireGetLenenc_shrinks (h : myWireGetLenenc w = some (n, r)) : r.length < w.length := by
  obtain ⟨hd, rfl, hr⟩ := reads_lenenc w n r h
  cases hd with
  | nil =>
    have hnil := hr []
    cases hnil
  | cons b hd =>
    rw [List.length_append, List.length_cons]
    omega

theorem myWireGetLenencStr_length (h : myWireGetLenencStr w = some (s, r)) :
    s.length + r.length < w.length := by
  rw [myWireGetLenencStr] at h
  split at h
  · cases h
  next n w' hn =>
    have hlt := myWireGetLenenc_shrinks hn
    split at h
    · cases h
    · cases h
      rw [← List.length_append, List.take_append_drop]
      exact hlt

theorem keyIs_length (h : keyIs key lit = true) : key.length = lit.toUTF8.toList.length := by
  rw [keyIs, beq_iff_eq] at h
  rw [h]

theorem attrPairs_short (fuel : Nat) (hp : Bool) (hw : w.length < 14) : attrPairs fuel w hp app = app := by
  induction fuel generalizing w hp with
  | zero => rfl
  | succ fuel ih =>
    rw [attrPairs]
    split
    · rfl
    split
    · rfl
    next key w₁ h₁ =>
      split
      · rfl
      next val w₂ h₂ =>
        have hl₁ := myWireGetLenencStr_length h₁
        have hl₂ := myWireGetLenencStr_length h₂
        have hkey (lit : String) (hlit : lit.toUTF8.toList.length = 12) : keyIs key lit = false := by
          rw [Bool.eq_false_iff]
          intro hk
          have hlen := (keyIs_length hk).trans hlit
          omega
        rw [hkey "program_name" (by decide +kernel), hkey "_client_name" (by decide +kernel)]
        exact ih hp (by omega)

theorem attrPairs_empty (fuel : Nat) (hp : Bool) (hw : w.length ≤ 14) : attrPairs fuel w hp [] = [] := by
  induction fuel generalizing w hp with
  | zero => rfl
  | succ fuel ih =>
    rw [attrPairs]
    split
    · rfl
    split
    · rfl
    next key w₁ h₁ =>
      split
      · rfl
      next val w₂ h₂ =>
        have hl₁ := myWireGetLenencStr_length h₁
        have hl₂ := myWireGetLenencStr_length h₂
        have hval (lit : String) (hlit : lit.toUTF8.toList.length = 12) (hk : keyIs key lit = true) :
            myCopyField 64 val = [] := by
          have hlen := (keyIs_length hk).trans hlit
          have hnil : val = [] := List.length_eq_zero_iff.mp (by omega)
          rw [hnil]
          rfl
        split
        · next hk =>
          rw [hval "program_name" (by decide +kernel) hk]
          exact ih true (by omega)
        split
        · next hk =>
          rw [Bool.and_eq_true, Bool.and_eq_true] at hk
          rw [hval "_client_name" (by decide +kernel) hk.1.1]
          exact ih hp (by omega)
        · exact ih hp (by omega)

theorem parseAttrs_unchanged (hw : w.length < 15 ∨ w.length < 16 ∧ app = []) : parseAttrs w app = app := by
  rw [parseAttrs]
  split
  · rfl
  next n r hn =>
    have hlt := myWireGetLenenc_shrinks hn
    rcases hw with hw | ⟨hw, rfl⟩
    · exact attrPairs_short _ _ (by omega)
    · exact attrPairs_empty _ _ (by omega)

def pluginRoom (caps : Nat) : Nat := (myCapPluginAuth caps).toNat

/-- Labels can depend on `n` bytes that are parsed as what follows the authentication response: one byte
is a database name, sixteen hold an attribute. -/
def Exposed (caps : Nat) (app : List Byte) (n : Nat) : Prop :=
  if myCapConnectWithDb caps then 1 ≤ n
  else myCapConnectAttrs caps = true ∧ (16 + pluginRoom caps ≤ n ∨ 15 + pluginRoom caps ≤ n ∧ app ≠ [])

theorem responseTail_unchanged (hdb : myCapConnectWithDb caps = false)
    (hw : myCapConnectAttrs caps = false ∨ w.length < 15 + pluginRoom caps ∨
      w.length < 16 + pluginRoom caps ∧ se.app = []) : responseTail caps w se = se := by
  have hattrs (w' : List Byte) (hlen : w'.length + pluginRoom caps ≤ w.length) :
      (if myCapConnectAttrs caps then { se with app := parseAttrs w' se.app } else se) = se := by
    cases hcap : myCapConnectAttrs caps with
    | false => rfl
    | true =>
      have happ : parseAttrs w' se.app = se.app := by
        apply parseAttrs_unchanged
        rcases hw with hw | hw | hw
        · rw [hw] at hcap
          cases hcap
        · exact .inl (by omega)
        · exact .inr ⟨by omega, hw.2⟩
      rw [if_pos rfl, happ]
  simp only [responseTail, hdb, Bool.false_eq_true, if_false, Bool.not_true]
  cases hplug : myCapPluginAuth caps with
  | false =>
    apply hattrs
    rw [pluginRoom, hplug]
    exact Nat.le_refl _
  | true =>
    simp only [if_true]
    rcases hc : myWireCstring w with ⟨have_, name, w'⟩
    cases have_ with
    | false => rfl
    | true =>
      obtain ⟨rfl, -⟩ := myWireCstring_inv hc
      apply hattrs
      rw [pluginRoom, hplug, List.length_append, List.length_cons, Bool.toNat_true]
      exact Nat.le_add_left _ _

theorem responseTail_fixed (h : ¬ Exposed caps se.app n) (hr : n = 0 ∨ r = [] ∨ 2 ^ 32 ≤ n)
    (hs : s.length = n) (hs' : s'.length = n) :
    responseTail caps (s ++ r) se = responseTail caps (s' ++ r) se := by
  rw [Exposed] at h
  by_cases h0 : n = 0
  · rw [List.length_eq_zero_iff.mp (hs.trans h0), List.length_eq_zero_iff.mp (hs'.trans h0)]
  cases hdb : myCapConnectWithDb caps with
  | true =>
    rw [hdb, if_pos rfl] at h
    omega
  | false =>
    rw [hdb, if_neg Bool.false_ne_true, not_and_or, not_or, not_and_or, not_not, Bool.not_eq_true] at h
    have hroom : pluginRoom caps ≤ 1 := Bool.toNat_le _
    have hfix {t : List Byte} (ht : t.length = n) : responseTail caps (t ++ r) se = se := by
      apply responseTail_unchanged hdb
      rcases h with h | ⟨h1, h2⟩
      · exact .inl h
      · have hr' : r = [] := by
          rcases hr with hr | hr | hr
          · exact absurd hr h0
          · exact hr
          · omega
        right
        rw [hr', List.append_nil, ht]
        rcases h2 with h2 | h2
        · exact .inl (by omega)
        · exact .inr ⟨by omega, h2⟩
    rw [hfix hs, hfix hs']

theorem myWireGetLenencStr_lenenc (h : v.length < 2 ^ 64) (r : List Byte) :
    myWireGetLenencStr (lenenc v.length ++ (v ++ r)) = some (v, r) := by
  rw [myWireGetLenencStr, myWireGetLenenc_lenenc h]
  dsimp only
  rw [if_neg (by rw [List.length_append]; omega), List.take_left, List.drop_left]

def AttrsEnd (w : List Byte) : Prop := w = [] ∨ ∃ r, w = 0xff :: r

theorem attrPairs_end (h : AttrsEnd w) (fuel : Nat) (hp : Bool) (app : List Byte) :
    attrPairs fuel w hp app = app := by
  cases fuel with
  | zero => rfl
  | succ fuel =>
    rcases h with rfl | ⟨r, rfl⟩
    · rfl
    · rfl

def programName : List Byte := "program_name".toUTF8.toList

def programAttr (v : List Byte) : List Byte := 0 :: (12 :: (programName ++ (lenenc v.length ++ v)))

theorem parseAttrs_programAttr (hv : v.length < 2 ^ 64) (h : AttrsEnd r) (app : List Byte) :
    parseAttrs (programAttr v ++ r) app = myCopyField 64 v := by
  have hname : programName.length = 12 := by decide +kernel
  have hkey := myWireGetLenencStr_lenenc (v := programName) (by omega) (lenenc v.length ++ (v ++ r))
  rw [hname] at hkey
  have hshape : programAttr v ++ r = 0 :: (lenenc 12 ++ (programName ++ (lenenc v.length ++ (v ++ r)))) := by
    simp only [programAttr, List.cons_append, List.append_assoc]
    rfl
  have hzero (w : List Byte) : myWireGetLenenc (0 :: w) = some (0, w) := rfl
  have hne (w : List Byte) : (lenenc 12 ++ w).isEmpty = false := rfl
  have hprog : keyIs programName "program_name" = true := beq_self_eq_true _
  have hfuel (w : List Byte) : (lenenc 12 ++ w).length = w.length + 1 := rfl
  rw [hshape, parseAttrs, hzero]
  dsimp only
  rw [hfuel, attrPairs, hne, if_neg Bool.false_ne_true, hkey]
  dsimp only
  rw [myWireGetLenencStr_lenenc hv]
  dsimp only
  rw [if_pos hprog]
  exact attrPairs_end h _ _ _

theorem programAttr_length (h : v.length < 0xfb) : (programAttr v).length = 15 + v.length := by
  have hname : programName.length = 12 := by decide +kernel
  simp only [programAttr, List.length_cons, List.length_append, hname, lenenc, if_pos h, List.length_nil]
  omega

theorem responseTail_database (hdb : myCapConnectWithDb caps = true) (w : List Byte) (se : Session) :
    (responseTail caps w se).database = myCopyField 64 (myWireCstring w).2.1 := by
  simp only [responseTail, hdb, if_true]
  split
  · rfl
  generalize (if myCapPluginAuth caps = true then myWireCstring (myWireCstring w).2.2
    else (true, [], (myWireCstring w).2.2)) = x
  split
  · rfl
  split
  · rfl
  · rfl

theorem myWireCstring_cons (hb : b ≠ 0) (w : List Byte) : ∃ y, (myWireCstring (b :: w)).2.1 = b :: y := by
  rw [myWireCstring, pgWireCstring]
  split
  · refine ⟨w.takeWhile (· != 0), ?_⟩
    have hkeep : (b != 0) = true := by simpa using hb
    change List.takeWhile (fun x => x != 0) (b :: w) = _
    rw [List.takeWhile_cons, if_pos hkeep]
  · exact ⟨w, rfl⟩

theorem responseTail_app (hdb : myCapConnectWithDb caps = false) (hattrs : myCapConnectAttrs caps = true)
    (w : List Byte) (se : Session) :
    (responseTail caps (List.replicate (pluginRoom caps) 0 ++ w) se).app = parseAttrs w se.app := by
  simp only [responseTail, hdb, hattrs, Bool.false_eq_true, if_false, if_true, Bool.not_true]
  cases hplug : myCapPluginAuth caps with
  | false =>
    rw [pluginRoom, hplug]
    rfl
  | true =>
    have hc : myWireCstring (0 :: w) = (true, [], w) := pgWireCstring_append (List.not_mem_nil) w
    rw [pluginRoom, hplug]
    change (if _ then _ else _ : Session).app = _
    rw [if_pos rfl]
    change (if (!(myWireCstring (0 :: w)).1) = true then se else
      { se with app := parseAttrs (myWireCstring (0 :: w)).2.2 se.app }).app = _
    rw [hc]
    rfl

theorem exposed_differs (h : Exposed caps se.app n) (hr : r = [] ∨ 2 ^ 32 ≤ n) :
    ∃ s s', s.length = n ∧ s'.length = n ∧
      ((responseTail caps (s ++ r) se).database, (responseTail caps (s ++ r) se).app) ≠
        ((responseTail caps (s' ++ r) se).database, (responseTail caps (s' ++ r) se).app) := by
  rw [Exposed] at h
  cases hdb : myCapConnectWithDb caps with
  | true =>
    rw [hdb, if_pos rfl] at h
    obtain ⟨k, rfl⟩ : ∃ k, n = k + 1 := ⟨n - 1, by omega⟩
    refine ⟨0 :: List.replicate k 0, 97 :: List.replicate k 0, by simp, by simp, ?_⟩
    intro heq
    rw [Prod.mk.injEq, responseTail_database hdb, responseTail_database hdb] at heq
    have hnil : (myWireCstring (0 :: List.replicate k 0 ++ r)).2.1 = [] :=
      congrArg (·.2.1) (pgWireCstring_append List.not_mem_nil (List.replicate k 0 ++ r))
    obtain ⟨y, hy⟩ := myWireCstring_cons (b := 97) (by decide) (List.replicate k 0 ++ r)
    rw [List.cons_append, List.cons_append] at heq
    rw [List.cons_append] at hnil
    rw [hnil, hy] at heq
    cases heq.1
  | false =>
    rw [hdb, if_neg Bool.false_ne_true] at h
    obtain ⟨hattrs, hroom⟩ := h
    have hp : pluginRoom caps ≤ 1 := Bool.toNat_le _
    have happ (v fill : List Byte) (hv : v.length < 2 ^ 64) (hend : AttrsEnd (fill ++ r)) :
        (responseTail caps (List.replicate (pluginRoom caps) 0 ++ (programAttr v ++ fill) ++ r) se).app =
          myCopyField 64 v := by
      rw [List.append_assoc, List.append_assoc, responseTail_app hdb hattrs, parseAttrs_programAttr hv hend]
    by_cases h16 : 16 + pluginRoom caps ≤ n
    · have hend : AttrsEnd (List.replicate (n - 16 - pluginRoom caps) 0xff ++ r) := by
        cases hk : n - 16 - pluginRoom caps with
        | zero =>
          left
          rcases hr with hr | hr
          · rw [hr]
            rfl
          · omega
        | succ k => exact .inr ⟨_, rfl⟩
      have hlen (b : Byte) : (List.replicate (pluginRoom caps) 0 ++ (programAttr [b] ++
          List.replicate (n - 16 - pluginRoom caps) 0xff)).length = n := by
        have hattr := programAttr_length (v := [b]) (by decide : 1 < 0xfb)
        simp only [List.length_append, List.length_replicate, hattr, List.length_singleton]
        omega
      refine ⟨_, _, hlen 97, hlen 98, ?_⟩
      intro heq
      rw [Prod.mk.injEq, happ [97] _ (by decide) hend, happ [98] _ (by decide) hend] at heq
      cases heq.2
    · obtain ⟨h15, hne⟩ := hroom.resolve_left h16
      have hr' : r = [] := hr.resolve_right (by omega)
      subst hr'
      refine ⟨List.replicate (pluginRoom caps) 0 ++ (programAttr [] ++ []),
        List.replicate (pluginRoom caps) 0 ++ 0xff :: List.replicate 14 0, ?_, ?_, ?_⟩
      · have hattr := programAttr_length (v := []) (by decide : 0 < 0xfb)
        simp only [List.length_append, List.length_replicate, hattr, List.length_nil]
        omega
      · simp only [List.length_append, List.length_replicate, List.length_cons]
        omega
      · intro heq
        rw [Prod.mk.injEq, happ [] [] (by decide) (.inl rfl), List.append_assoc _ (0xff :: _),
          responseTail_app hdb hattrs] at heq
        exact hne heq.2.symm

def unskipped (n : Nat) (w : List Byte) : Nat := min n w.length - n % 2 ^ 32

def Leaks (pc : MyConn) (body : List Byte) : Prop :=
  match responseAuth body with
  | none => False
  | some (n, w) => Exposed (le32 body) pc.session.app (unskipped n w)

theorem myWireSkip_apart (hk : n % 2 ^ 32 ≤ w.length) (hlen : w'.length = w.length)
    (hdrop : w'.drop n = w.drop n) :
    ∃ s, s.length = unskipped n w ∧ myWireSkip w' (n % 2 ^ 32) = some (s ++ w.drop n) := by
  have hmod := Nat.mod_le n (2 ^ 32)
  refine ⟨(w'.drop (n % 2 ^ 32)).take (unskipped n w), ?_, ?_⟩
  · rw [List.length_take, List.length_drop, hlen, unskipped]
    omega
  · rw [myWireSkip, if_neg (by omega)]
    have htail : (w'.drop (n % 2 ^ 32)).drop (unskipped n w) = w.drop n := by
      rw [List.drop_drop, unskipped, ← hdrop]
      by_cases hn : n ≤ w.length
      · rw [Nat.min_eq_left hn, Nat.add_sub_cancel' hmod]
      · rw [Nat.min_eq_right (by omega), Nat.add_sub_cancel' hk, List.drop_of_length_le (by omega),
          List.drop_of_length_le (by omega)]
    rw [← htail, List.take_append_drop]

theorem unskipped_rest (n : Nat) (w : List Byte) :
    unskipped n w = 0 ∨ w.drop n = [] ∨ 2 ^ 32 ≤ unskipped n w := by
  by_cases hn : n < w.length
  · rw [unskipped, Nat.min_eq_left (by omega)]
    omega
  · exact .inr (.inl (List.drop_of_length_le (by omega)))

theorem exists_apart (hk : n % 2 ^ 32 ≤ w.length) (hs : s.length = unskipped n w) :
    ∃ w', w'.length = w.length ∧ w'.drop n = w.drop n ∧
      myWireSkip w' (n % 2 ^ 32) = some (s ++ w.drop n) := by
  have hmod := Nat.mod_le n (2 ^ 32)
  have htake : (w.take (n % 2 ^ 32)).length = n % 2 ^ 32 := List.length_take_of_le hk
  have hlen : (w.take (n % 2 ^ 32) ++ (s ++ w.drop n)).length = w.length := by
    rw [List.length_append, List.length_append, htake, hs, List.length_drop, unskipped]
    omega
  refine ⟨w.take (n % 2 ^ 32) ++ (s ++ w.drop n), hlen, ?_, ?_⟩
  · by_cases hn : n ≤ w.length
    · have hhead : (w.take (n % 2 ^ 32) ++ s).length = n := by
        rw [List.length_append, htake, hs, unskipped]
        omega
      rw [← List.append_assoc, List.drop_left' hhead]
    · rw [List.drop_of_length_le (by omega), List.drop_of_length_le (by omega)]
  · rw [myWireSkip, if_neg (by omega), List.drop_left' htake]

theorem Exposed.pos (h : Exposed caps app n) : 1 ≤ n := by
  rw [Exposed] at h
  split at h
  · exact h
  · omega

theorem labels_session {pc : MyConn} {se se' : Session}
    (h : ({ pc with session := se } : MyConn).labels = ({ pc with session := se' } : MyConn).labels) :
    (se.database, se.app) = (se'.database, se'.app) :=
  congrArg (fun x => (x.2.1, x.2.2.1)) h

theorem handshake_labels_iff {m : Msg} (pc : MyConn) (h : responseAuth m.body = some (n, w)) :
    (∀ b, AuthApart responseAuth m.body b →
        (handshakeResponse pc { m with body := b }).labels = (handshakeResponse pc m).labels) ↔
      ¬ Exposed (le32 m.body) pc.session.app (unskipped n w) := by
  obtain ⟨hd, pc', hbody, happ, heval⟩ := handshakeResponse_auth h pc
  have hself : handshakeResponse pc m = handshakeResponse pc { m with body := hd ++ w } := by
    rw [← hbody]
  have hapart (b : List Byte) : AuthApart responseAuth m.body b ↔
      ∃ w', b = hd ++ w' ∧ w'.length = w.length ∧ w'.drop n = w.drop n := by
    rw [AuthApart, h]
    constructor
    · rintro ⟨hd', w', hb, hb', hlen, hdrop⟩
      have hsame : hd' = hd := List.append_cancel_right (hb.symm.trans hbody)
      exact ⟨w', hsame ▸ hb', hlen, hdrop⟩
    · rintro ⟨w', hb', hlen, hdrop⟩
      exact ⟨hd, w', hbody, hb', hlen, hdrop⟩
  rw [hself, ← happ]
  by_cases hk : n % 2 ^ 32 ≤ w.length
  · have hrest := unskipped_rest n w
    constructor
    · intro hall hexp
      have hr := hrest.resolve_left (Nat.ne_of_gt hexp.pos)
      obtain ⟨s, s', hs, hs', hne⟩ := exposed_differs hexp hr
      have hlabels {s : List Byte} (hs : s.length = unskipped n w) :
          ({ pc' with session := responseTail (le32 m.body) (s ++ w.drop n) pc'.session } : MyConn).labels =
            (handshakeResponse pc { m with body := hd ++ w }).labels := by
        obtain ⟨w', hlen, hdrop, hskip⟩ := exists_apart hk hs
        have hsame := hall _ ((hapart _).mpr ⟨w', rfl, hlen, hdrop⟩)
        rw [heval, hskip] at hsame
        exact hsame
      have hsame := (hlabels hs).trans (hlabels hs').symm
      exact hne (labels_session hsame)
    · intro hexp b hb
      obtain ⟨w', rfl, hlen, hdrop⟩ := (hapart b).mp hb
      obtain ⟨s, hs, hskip⟩ := myWireSkip_apart hk rfl rfl
      obtain ⟨s', hs', hskip'⟩ := myWireSkip_apart hk hlen hdrop
      rw [heval, heval, hskip, hskip']
      dsimp only
      rw [responseTail_fixed hexp hrest hs' hs]
  · have hnone {w' : List Byte} (hlen : w'.length = w.length) : myWireSkip w' (n % 2 ^ 32) = none := by
      rw [myWireSkip, if_pos (by omega)]
    refine iff_of_true ?_ ?_
    · intro b hb
      obtain ⟨w', rfl, hlen, -⟩ := (hapart b).mp hb
      rw [heval, heval, hnone hlen, hnone rfl]
    · intro hexp
      have hpos := hexp.pos
      rw [unskipped] at hpos
      omega

theorem changeUserAuth_parts (h : changeUserAuth body = some (n, w)) :
    ∃ b user al, body = b :: (user ++ 0 :: al :: w) ∧ 0 ∉ user ∧ n = al.toNat := by
  rw [changeUserAuth] at h
  split at h
  · next user al w' hc =>
    cases h
    obtain ⟨hdrop, huser⟩ := myWireCstring_inv hc
    cases body with
    | nil =>
      have hnil := congrArg List.length hdrop
      simp at hnil
    | cons b body => exact ⟨b, user, al, congrArg (b :: ·) hdrop, huser, rfl⟩
  · cases h

theorem mySessionChangeUser_apart (pc : MyConn) (m : Msg) (h : AuthApart changeUserAuth m.body b) :
    mySessionChangeUser pc { m with body := b } = mySessionChangeUser pc m := by
  rw [AuthApart] at h
  split at h
  · rw [h]
  next n w hauth =>
    obtain ⟨b₀, user, al, hbody, huser, rfl⟩ := changeUserAuth_parts hauth
    obtain ⟨hd, w', hhd, rfl, hlen, hdrop⟩ := h
    have hhead : hd = b₀ :: (user ++ [0, al]) := by
      apply List.append_cancel_right (hhd.symm.trans hbody |>.trans ?_)
      simp
    have hb : hd ++ w' = b₀ :: (user ++ 0 :: al :: w') := by
      rw [hhead]
      simp
    have hskip : myWireSkip w' al.toNat = myWireSkip w al.toNat := by
      rw [myWireSkip, myWireSkip, hlen, hdrop]
    have hcstr (w : List Byte) : myWireCstring ((b₀ :: (user ++ 0 :: al :: w)).drop 1) =
        (true, user, al :: w) := pgWireCstring_append huser (al :: w)
    have hne (w : List Byte) : (b₀ :: (user ++ 0 :: al :: w)).isEmpty = false := rfl
    rw [mySessionChangeUser, mySessionChangeUser, hb, hbody]
    simp only [hne, hcstr, hskip]

/-- The labels of a HandshakeResponse41 do not depend on its authentication response if and only if too
few of its bytes are left by the skip, whose length is narrowed to 32 bits, to be parsed as a label.
Those of a COM_CHANGE_USER never do. -/
theorem my_auth_noninterference (pc : MyConn) (m : Msg) :
    ((∀ b, AuthApart responseAuth m.body b →
        (handshakeResponse pc { m with body := b }).labels = (handshakeResponse pc m).labels) ↔
      ¬ Leaks pc m.body) ∧
    ∀ b, AuthApart changeUserAuth m.body b →
      mySessionChangeUser pc { m with body := b } = mySessionChangeUser pc m := by
  refine ⟨?_, fun b hb => mySessionChangeUser_apart pc m hb⟩
  cases h : responseAuth m.body with
  | none =>
    rw [Leaks, h]
    refine iff_of_true ?_ not_false
    intro b hb
    rw [AuthApart, h] at hb
    rw [hb]
  | some x =>
    obtain ⟨n, w⟩ := x
    rw [Leaks, h]
    exact handshake_labels_iff pc h

def authResponse (n : Nat) (auth : List Byte) : List Byte :=
  leBytes 4 (2 ^ 21 + 2 ^ 3) ++ (List.replicate 28 0 ++ ([117, 0] ++ (0xfe :: leBytes 8 n ++ auth)))

/-- Six bytes, declared as such, and a database behind them. -/
theorem my_auth_noninterference_declared :
    (handshakeResponse {} { ts := 0, body := authResponse 6 [1, 1, 1, 1, 1, 1, 100, 98, 0] }).labels =
      (handshakeResponse {} { ts := 0, body := authResponse 6 [2, 2, 2, 2, 2, 2, 100, 98, 0] }).labels := by
  apply (my_auth_noninterference {} { ts := 0, body := authResponse 6 [2, 2, 2, 2, 2, 2, 100, 98, 0] }).1.mpr
  · intro hleaks
    have hauth : responseAuth (authResponse 6 [2, 2, 2, 2, 2, 2, 100, 98, 0]) =
        some (6, [2, 2, 2, 2, 2, 2, 100, 98, 0]) := by decide +kernel
    simp only [Leaks, hauth] at hleaks
    exact absurd hleaks.pos (by decide)
  · exact ⟨authResponse 6 [], [1, 1, 1, 1, 1, 1, 100, 98, 0], by decide +kernel, by decide +kernel, rfl, rfl⟩

/-- A length of 4 GiB is narrowed to 0, and the response becomes the database. -/
theorem my_auth_narrowed_length :
    AuthApart responseAuth (authResponse (2 ^ 32) "secret".toUTF8.toList)
        (authResponse (2 ^ 32) "hidden".toUTF8.toList) ∧
      (handshakeResponse {} { ts := 0, body := authResponse (2 ^ 32) "secret".toUTF8.toList }).session.database =
        "secret".toUTF8.toList ∧
      (handshakeResponse {} { ts := 0, body := authResponse (2 ^ 32) "hidden".toUTF8.toList }).session.database =
        "hidden".toUTF8.toList := by
  refine ⟨?_, by decide +kernel, by decide +kernel⟩
  have hauth : responseAuth (authResponse (2 ^ 32) "secret".toUTF8.toList) =
      some (2 ^ 32, "secret".toUTF8.toList) := by decide +kernel
  rw [AuthApart, hauth]
  refine ⟨authResponse (2 ^ 32) [], "hidden".toUTF8.toList, ?_, ?_, ?_, ?_⟩
  · decide +kernel
  · decide +kernel
  · decide +kernel
  · have hdrop (l : List Byte) (hl : l.length ≤ 2 ^ 32) : l.drop (2 ^ 32) = [] := List.drop_of_length_le hl
    rw [hdrop _ (by decide +kernel), hdrop _ (by decide +kernel)]

end Latkit
