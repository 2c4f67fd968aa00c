import Mathlib

/-! Texts in UTF-8 as lists of bytes, and where they may be cut. -/

namespace Utf8

def Text (bs : List UInt8) : Prop := ∃ cs : List Char, bs = cs.flatMap String.utf8EncodeChar

def isCont (b : UInt8) : Bool := b &&& 0xC0 = 0x80

def trail (b : UInt8) : Nat := if b < 0x80 then 0 else if b < 0xE0 then 1 else if b < 0xF0 then 2 else 3

theorem isCont_low (h : b < 0x80) : isCont b = false := by
  have hall : ∀ b : Fin 256, UInt8.ofFin b < 0x80 → isCont (UInt8.ofFin b) = false := by decide +kernel
  exact hall b.toFin h

theorem not_low_of_isCont (h : isCont b = true) : ¬ b < 0x80 := by
  intro hlow
  rw [isCont_low hlow] at h
  cases h

theorem isCont_map (ns : List Nat) : ∀ d ∈ ns.map fun n => UInt8.ofNat (n % 64 + 128), isCont d = true := by
  have hall : ∀ m < 64, isCont (UInt8.ofNat (m + 128)) = true := by decide +kernel
  intro d hd
  obtain ⟨n, -, rfl⟩ := List.mem_map.mp hd
  exact hall _ (Nat.mod_lt _ (by decide))

/-- The first byte of a character says how many follow, and those are not first bytes. -/
theorem encode_shape (c : Char) : ∃ b t, String.utf8EncodeChar c = b :: t ∧ isCont b = false ∧ t.length = trail b ∧
    ∀ d ∈ t, isCont d = true := by
  have hone : ∀ n ≤ 127, isCont (UInt8.ofNat n) = false ∧ 0 = trail (UInt8.ofNat n) := by decide +kernel
  have htwo : ∀ n < 32, isCont (UInt8.ofNat (n + 192)) = false ∧ 1 = trail (UInt8.ofNat (n + 192)) := by decide +kernel
  have hthree : ∀ n < 16, isCont (UInt8.ofNat (n + 224)) = false ∧ 2 = trail (UInt8.ofNat (n + 224)) := by decide +kernel
  have hfour : ∀ n < 8, isCont (UInt8.ofNat (n + 240)) = false ∧ 3 = trail (UInt8.ofNat (n + 240)) := by decide +kernel
  rw [String.utf8EncodeChar]
  split
  · next h => exact ⟨_, _, rfl, (hone _ h).1, (hone _ h).2, fun d hd => by cases hd⟩
  · split
    · obtain ⟨hb, ht⟩ := htwo _ (Nat.mod_lt (c.val.toNat / 64) (by decide))
      exact ⟨_, _, rfl, hb, ht, isCont_map [c.val.toNat]⟩
    · split
      · obtain ⟨hb, ht⟩ := hthree _ (Nat.mod_lt (c.val.toNat / 4096) (by decide))
        exact ⟨_, _, rfl, hb, ht, isCont_map [c.val.toNat / 64, c.val.toNat]⟩
      · obtain ⟨hb, ht⟩ := hfour _ (Nat.mod_lt (c.val.toNat / 262144) (by decide))
        exact ⟨_, _, rfl, hb, ht, isCont_map [c.val.toNat / 4096, c.val.toNat / 64, c.val.toNat]⟩

theorem encode_low (h : b < 0x80) : String.utf8EncodeChar (Char.ofNat b.toNat) = [b] := by
  have hall : ∀ b : Fin 256, UInt8.ofFin b < 0x80 →
      String.utf8EncodeChar (Char.ofNat (UInt8.ofFin b).toNat) = [UInt8.ofFin b] := by decide +kernel
  exact hall b.toFin h

theorem Text.nil : Text [] := ⟨[], rfl⟩

theorem Text.append (ha : Text a) (hb : Text b) : Text (a ++ b) := by
  obtain ⟨cs, rfl⟩ := ha
  obtain ⟨ds, rfl⟩ := hb
  exact ⟨cs ++ ds, List.flatMap_append.symm⟩

theorem Text.char (c : Char) : Text (String.utf8EncodeChar c) := ⟨[c], (List.flatMap_singleton ..).symm⟩

theorem Text.cons (hb : b < 0x80) (h : Text bs) : Text (b :: bs) := by
  have hone := Text.char (Char.ofNat b.toNat)
  rw [encode_low hb] at hone
  exact hone.append h

theorem Text.low {bs : List UInt8} (h : bs.all (· < 0x80) = true) : Text bs := by
  induction bs with
  | nil => exact Text.nil
  | cons b bs ih =>
    rw [List.all_cons, Bool.and_eq_true, decide_eq_true_eq] at h
    exact Text.cons h.1 (ih h.2)

/-- A text is taken apart into low bytes and characters without any. -/
theorem Text.induct {P : List UInt8 → Prop} (hnil : P [])
    (hlow : ∀ b bs, b < 0x80 → Text bs → P bs → P (b :: bs))
    (hhigh : ∀ c bs, (∀ d ∈ String.utf8EncodeChar c, ¬ d < 0x80) → Text bs → P bs → P (String.utf8EncodeChar c ++ bs))
    (h : Text bs) : P bs := by
  obtain ⟨cs, rfl⟩ := h
  induction cs with
  | nil => exact hnil
  | cons c cs ih =>
    rw [List.flatMap_cons]
    obtain ⟨b, t, hc, -, hlen, hcont⟩ := encode_shape c
    by_cases hb : b < 0x80
    · rw [trail, if_pos hb, List.length_eq_zero_iff] at hlen
      rw [hc, hlen]
      exact hlow b _ hb ⟨cs, rfl⟩ ih
    · refine hhigh c _ ?_ ⟨cs, rfl⟩ ih
      intro d hd
      rw [hc] at hd
      rcases List.mem_cons.mp hd with rfl | hd
      · exact hb
      · exact not_low_of_isCont (hcont d hd)

theorem Text.head (h : Text (b :: bs)) : isCont b = false := by
  obtain ⟨cs, hcs⟩ := h
  cases cs with
  | nil => cases hcs
  | cons c cs =>
    obtain ⟨b', t, hc, hb, -⟩ := encode_shape c
    rw [List.flatMap_cons, hc] at hcs
    cases hcs
    exact hb

theorem Text.split (h : Text (a ++ b)) (hb : ∀ d ∈ b.head?, isCont d = false) : Text a ∧ Text b := by
  obtain ⟨cs, hcs⟩ := h
  induction cs generalizing a with
  | nil =>
    obtain ⟨rfl, rfl⟩ := List.append_eq_nil_iff.mp hcs
    exact ⟨Text.nil, Text.nil⟩
  | cons c cs ih =>
    rw [List.flatMap_cons, List.append_eq_append_iff] at hcs
    rcases hcs with ⟨x, hx, rfl⟩ | ⟨x, rfl, hrest⟩
    · obtain ⟨d, t, hc, -, -, hcont⟩ := encode_shape c
      cases a with
      | nil => exact ⟨Text.nil, c :: cs, by rw [List.flatMap_cons, hx]; rfl⟩
      | cons d' a =>
        rw [hc] at hx
        injection hx with _ ht
        -- a part of the character left behind starts with a byte that is not first
        cases x with
        | nil => exact ⟨⟨[c], by simp_all⟩, cs, rfl⟩
        | cons e x =>
          have he := hcont e (by rw [ht]; simp)
          rw [hb e rfl] at he
          cases he
    · obtain ⟨hx, hrest⟩ := ih hrest.symm
      exact ⟨(Text.char c).append hx, hrest⟩

theorem Text.cancel (ha : Text a) (h : Text (a ++ b)) : Text b := by
  obtain ⟨cs, rfl⟩ := ha
  obtain ⟨ds, hds⟩ := h
  induction cs generalizing ds with
  | nil => exact ⟨ds, hds⟩
  | cons c cs ih =>
    obtain ⟨b, t, hc, -, hlen, -⟩ := encode_shape c
    cases ds with
    | nil => simp [hc] at hds
    | cons d ds =>
      obtain ⟨b', t', hd, -, hlen', -⟩ := encode_shape d
      rw [List.flatMap_cons, List.flatMap_cons, hc, hd, List.append_assoc, List.cons_append, List.cons_append] at hds
      injection hds with hb hds
      subst hb
      obtain ⟨-, hrest⟩ := List.append_inj hds (hlen.trans hlen'.symm)
      exact ih ds hrest

theorem Text.cut (h : Text (a ++ d :: b)) (hd : isCont d = true) : ¬ Text a := by
  intro ha
  have hrest := (ha.cancel h).head
  rw [hd] at hrest
  cases hrest

theorem Text.around (h : Text (a ++ q :: b)) (hq : q < 0x80) : Text a ∧ Text b := by
  have hcut := h.split (b := q :: b) (by rintro d ⟨⟩; exact isCont_low hq)
  exact ⟨hcut.1, (Text.cons hq Text.nil).cancel hcut.2⟩

theorem Text.tail (h : Text bs) (hhead : ∀ b ∈ bs.head?, b < 0x80) : Text bs.tail := by
  cases bs with
  | nil => exact Text.nil
  | cons b bs => exact (h.around (a := []) (hhead b rfl)).2

theorem Text.tail_any (h : Text p) (hp : p.head?.any f = true) (hf : ∀ b, f b = true → b < 0x80) : Text p.tail := by
  refine h.tail fun b hb => hf b ?_
  rw [Option.mem_def.mp hb] at hp
  exact hp

theorem Text.tail_eq (h : Text p) (hp : p.head? = some b) (hb : b < 0x80) : Text p.tail := by
  refine h.tail fun d hd => ?_
  rw [Option.mem_def.mp hd] at hp
  cases hp
  exact hb

theorem Text.span (h : Text bs) (hp : ∀ b, p b = false → b < 0x80) : Text (bs.takeWhile p) ∧ Text (bs.dropWhile p) := by
  refine Text.split (by rw [List.takeWhile_append_dropWhile]; exact h) ?_
  intro d hd
  have hstop := List.head?_dropWhile_not p bs
  rw [Option.mem_def.mp hd] at hstop
  exact isCont_low (hp d (by simpa using hstop))

theorem Text.dropWhile_low (h : Text bs) (hp : ∀ b, p b = true → b < 0x80) : Text (bs.dropWhile p) := by
  have hrun : Text (bs.takeWhile p) :=
    Text.low (List.all_eq_true.mpr fun b hb => decide_eq_true (hp b (List.all_eq_true.mp List.all_takeWhile b hb)))
  exact hrun.cancel (by rw [List.takeWhile_append_dropWhile]; exact h)

theorem Text.map (h : Text bs) (hlow : ∀ b, b < 0x80 → f b < 0x80) (hhigh : ∀ b, ¬ b < 0x80 → f b = b) :
    Text (bs.map f) := by
  refine Text.induct (P := fun bs => Text (bs.map f)) Text.nil ?_ ?_ h
  · intro b bs hb _ ih
    exact Text.cons (hlow b hb) ih
  · intro c bs hc _ ih
    rw [List.map_append, List.map_congr_left (fun d hd => hhigh d (hc d hd)), List.map_id']
    exact (Text.char c).append ih

theorem Text.filter (h : Text bs) (hp : ∀ b, p b = false → b < 0x80) : Text (bs.filter p) := by
  refine Text.induct (P := fun bs => Text (bs.filter p)) Text.nil ?_ ?_ h
  · intro b bs hb _ ih
    rw [List.filter_cons]
    split
    · exact Text.cons hb ih
    · exact ih
  · intro c bs hc _ ih
    rw [List.filter_append, List.filter_eq_self.mpr]
    · exact (Text.char c).append ih
    · intro d hd
      by_contra hpd
      exact hc d hd (hp d (by simpa using hpd))

theorem Text.pieces (h : Text ([q].intercalate bss)) (hq : q < 0x80) : ∀ bs ∈ bss, Text bs := by
  induction bss with
  | nil => exact fun _ hbs => by cases hbs
  | cons bs bss ih =>
    cases bss with
    | nil =>
      intro x hx
      rw [List.mem_singleton.mp hx]
      simpa using h
    | cons bs' bss =>
      rw [List.intercalate_cons_cons, List.append_assoc] at h
      obtain ⟨hbs, hrest⟩ := h.around hq
      intro x hx
      rcases List.mem_cons.mp hx with rfl | hx
      · exact hbs
      · exact ih hrest x hx

end Utf8
