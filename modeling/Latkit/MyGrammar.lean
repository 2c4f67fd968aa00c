import Latkit.MyHandler

namespace Latkit

def leBytes : Nat → Nat → List Byte
  | 0, _ => []
  | k + 1, n => UInt8.ofNat n :: leBytes k (n / 256)

def lenenc (n : Nat) : List Byte :=
  if n < 0xfb then [UInt8.ofNat n]
  else if n < 2 ^ 16 then 0xfc :: leBytes 2 n
  else if n < 2 ^ 24 then 0xfd :: leBytes 3 n
  else 0xfe :: leBytes 8 n

theorem leBytes_length (k n : Nat) : (leBytes k n).length = k := by
  induction k generalizing n with
  | zero => rfl
  | succ k ih => simp [leBytes, ih]

theorem le16_leBytes (n : Nat) (w : List Byte) : le16 (leBytes 2 n ++ w) = n % 2 ^ 16 := by
  simp only [leBytes, le16, List.cons_append, List.nil_append, List.getD_cons_zero,
    List.getD_cons_succ, UInt8.toNat_ofNat']
  omega

theorem le24_leBytes (n : Nat) (w : List Byte) : le24 (leBytes 3 n ++ w) = n % 2 ^ 24 := by
  simp only [leBytes, le24, List.cons_append, List.nil_append, List.getD_cons_zero,
    List.getD_cons_succ, UInt8.toNat_ofNat']
  omega

theorem le64_leBytes (n : Nat) (w : List Byte) : le64 (leBytes 8 n ++ w) = n % 2 ^ 64 := by
  simp only [leBytes, le64, le32, le24, List.cons_append, List.nil_append, List.drop_succ_cons,
    List.drop_zero, List.getD_cons_zero, List.getD_cons_succ, UInt8.toNat_ofNat']
  omega

theorem myWireGetU16_leBytes (h : n < 2 ^ 16) (w : List Byte) :
    myWireGetU16 (leBytes 2 n ++ w) = some (n, w) := by
  have hlen : ¬ (leBytes 2 n ++ w).length < 2 := by
    rw [List.length_append, leBytes_length]
    omega
  rw [myWireGetU16, if_neg hlen, le16_leBytes, Nat.mod_eq_of_lt h]
  rfl

theorem myWireGetLenenc_lenenc (h : n < 2 ^ 64) (w : List Byte) :
    myWireGetLenenc (lenenc n ++ w) = some (n, w) := by
  rw [lenenc]
  split
  · next h1 =>
    have hn : (UInt8.ofNat n).toNat = n := by
      rw [UInt8.toNat_ofNat']
      omega
    have hne (k : Nat) (hk : n ≠ k) (hlt : k < 256) : UInt8.ofNat n ≠ UInt8.ofNat k := by
      intro he
      have ht := congrArg UInt8.toNat he
      rw [hn, UInt8.toNat_ofNat'] at ht
      omega
    have hlt : UInt8.ofNat n < 0xfb := by
      rw [UInt8.lt_iff_toNat_lt, hn]
      exact h1
    have hfb : ¬ (UInt8.ofNat n = 0xfb ∨ UInt8.ofNat n = 0xff) := by
      rw [not_or]
      exact ⟨hne 0xfb (by omega) (by decide), hne 0xff (by omega) (by decide)⟩
    rw [List.singleton_append, myWireGetLenenc, if_neg hfb, if_pos hlt, hn]
  · split
    · next h2 =>
      rw [List.cons_append, myWireGetLenenc, if_neg (by decide), if_neg (by decide), if_pos rfl]
      exact myWireGetU16_leBytes h2 w
    · split
      · next h3 =>
        have hlen : ¬ (leBytes 3 n ++ w).length < 3 := by simp [leBytes_length]
        rw [List.cons_append, myWireGetLenenc, if_neg (by decide), if_neg (by decide), if_neg (by decide),
          if_pos rfl, myWireGetU24, if_neg hlen, le24_leBytes, Nat.mod_eq_of_lt h3]
        rfl
      · have hlen : ¬ (leBytes 8 n ++ w).length < 8 := by simp [leBytes_length]
        rw [List.cons_append, myWireGetLenenc, if_neg (by decide), if_neg (by decide), if_neg (by decide),
          if_neg (by decide), myWireGetU64, if_neg hlen, le64_leBytes, Nat.mod_eq_of_lt h]
        rfl

end Latkit
