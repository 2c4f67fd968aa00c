import Latkit.NormRedact

namespace Latkit
open Delimited (IsField ends_nil ends_cons mapFields mapFields_last mapFields_more mapFields_id mapFields_alike
  mapFields_mapFields key behind behind_cases key_append_behind scan_plain scan_valued Alike)

/-! The three walks over a query string read the same fields. -/

def Secret (f : List Byte) : Prop := behind isEq f ≠ [] ∧ keyIsSecret (key isEq f) = true

instance : DecidablePred Secret := fun _ => inferInstanceAs (Decidable (_ ∧ _))

def mapSecret (g : List Byte → List Byte) (f : List Byte) : List Byte :=
  if Secret f then key isEq f ++ '='.toUInt8 :: g (behind isEq f).tail else f

theorem isEq_cases (f : List Byte) : behind isEq f = [] ∨ ∃ v, behind isEq f = '='.toUInt8 :: v := by
  rcases behind_cases isEq f with hnil | ⟨e, v, he, hv⟩
  · exact .inl hnil
  · rw [isEq, beq_iff_eq] at he
    exact .inr ⟨v, by rw [hv, he]⟩

section
variable {f rest v : List Byte} (hf : IsField isSep f) (hrest : Delimited.Ends isSep rest)
include hf hrest

theorem field_plain (h : behind isEq f = []) :
    (f ++ rest).takeWhile inKey = f ∧ (f ++ rest).dropWhile inKey = rest ∧ rest.head? ≠ some '='.toUInt8 := by
  obtain ⟨htake, hdrop⟩ := scan_plain hf hrest h
  exact ⟨htake, hdrop, hrest.head_ne (by decide)⟩

theorem field_valued (h : behind isEq f = '='.toUInt8 :: v) :
    (f ++ rest).takeWhile inKey = key isEq f ∧ (f ++ rest).dropWhile inKey = '='.toUInt8 :: (v ++ rest) ∧
      (v ++ rest).takeWhile (!isSep ·) = v ∧ (v ++ rest).dropWhile (!isSep ·) = rest := scan_valued hf hrest h

theorem neededLoop_field (hne : f ++ rest ≠ []) :
    neededLoop (f ++ rest) = (decide (Secret f) || neededLoop rest.tail) := by
  rw [neededLoop, if_neg hne]
  dsimp only
  rcases isEq_cases f with hnil | ⟨v, hv⟩
  · obtain ⟨htake, hdrop, hhead⟩ := field_plain hf hrest hnil
    rw [hdrop, if_neg hhead]
    simp [Secret, hnil]
  · obtain ⟨htake, hdrop, hvalue, htail⟩ := field_valued hf hrest hv
    have hskip : ('='.toUInt8 :: (v ++ rest)).dropWhile (!isSep ·) = rest := by
      rw [List.dropWhile_cons_of_pos (by decide), htail]
    rw [htake, hdrop, List.head?_cons, if_pos rfl, hskip]
    simp [Secret, hv]

def stars (v : List Byte) : List Byte := v.map fun _ => '*'.toUInt8

theorem inplaceLoop_field (hne : f ++ rest ≠ []) :
    inplaceLoop (f ++ rest) = mapSecret stars f ++ rest.take 1 ++ inplaceLoop rest.tail := by
  rw [inplaceLoop, if_neg hne]
  dsimp only
  rcases isEq_cases f with hnil | ⟨v, hv⟩
  · obtain ⟨htake, hdrop, hhead⟩ := field_plain hf hrest hnil
    rw [htake, hdrop, if_neg hhead]
    simp [mapSecret, Secret, hnil]
  · obtain ⟨htake, hdrop, hvalue, htail⟩ := field_valued hf hrest hv
    have hsplit := key_append_behind isEq f
    rw [hv] at hsplit
    rw [htake, hdrop, List.head?_cons, if_pos rfl, List.tail_cons, hvalue, htail]
    by_cases hsecret : keyIsSecret (key isEq f) = true
    · simp [mapSecret, Secret, hv, hsecret, stars]
    · simp [mapSecret, Secret, hv, hsecret, hsplit]

theorem redactLoop_field (hne : f ++ rest ≠ []) (outcap : Nat) (w : List Byte) :
    redactLoop outcap (f ++ rest) (w.take outcap) =
      redactLoop outcap rest.tail
        ((w ++ mapSecret (fun _ => lkRedactMark) f ++ rest.take 1).take outcap) := by
  rw [redactLoop, if_neg hne]
  dsimp only
  rcases isEq_cases f with hnil | ⟨v, hv⟩
  · obtain ⟨htake, hdrop, hhead⟩ := field_plain hf hrest hnil
    rw [htake, hdrop, if_neg hhead, put_take, put_take]
    simp [mapSecret, Secret, hnil]
  · obtain ⟨htake, hdrop, hvalue, htail⟩ := field_valued hf hrest hv
    have hsplit := key_append_behind isEq f
    rw [hv] at hsplit
    rw [htake, hdrop, List.head?_cons, if_pos rfl, List.tail_cons, hvalue, htail, put_take, put_take, put_take, put_take]
    by_cases hsecret : keyIsSecret (key isEq f) = true
    · simp [mapSecret, Secret, hv, hsecret]
    · have hkept : mapSecret (fun _ => lkRedactMark) f = f := if_neg fun h => hsecret h.2
      rw [if_neg hsecret, hkept, List.append_assoc w, List.append_assoc w, List.append_assoc (key isEq f),
        List.singleton_append, hsplit]

end

theorem neededLoop_eq (q : List Byte) : neededLoop q = (q.splitOnP isSep).any fun f => decide (Secret f) := by
  induction q using Delimited.induct isSep with
  | last f hf =>
    rw [List.splitOnP_eq_singleton hf]
    by_cases hnil : f = []
    · rw [hnil]
      decide +kernel
    · have hfield := neededLoop_field hf ends_nil (by simpa using hnil)
      rw [List.append_nil, List.tail_nil, neededLoop_nil] at hfield
      rw [hfield]
      rfl
  | more f s rest hf hs ih =>
    rw [neededLoop_field hf (ends_cons hs rest) (by simp), List.tail_cons, ih,
      List.splitOnP_append_cons_of_forall_mem hf s hs, List.any_cons]

theorem inplaceLoop_eq (q : List Byte) : inplaceLoop q = mapFields isSep (mapSecret stars) q := by
  induction q using Delimited.induct isSep with
  | last f hf =>
    rw [mapFields_last _ hf]
    by_cases hnil : f = []
    · rw [hnil]
      decide +kernel
    · have hfield := inplaceLoop_field hf ends_nil (by simpa using hnil)
      rw [List.append_nil, List.tail_nil, inplaceLoop_nil] at hfield
      rw [hfield]
      simp
  | more f s rest hf hs ih =>
    rw [mapFields_more _ hf hs, inplaceLoop_field hf (ends_cons hs rest) (by simp), List.tail_cons, ih]
    simp

theorem redactLoop_eq (outcap : Nat) (q w : List Byte) : redactLoop outcap q (w.take outcap) =
    (w ++ mapFields isSep (mapSecret fun _ => lkRedactMark) q).take outcap := by
  induction q using Delimited.induct isSep generalizing w with
  | last f hf =>
    rw [mapFields_last _ hf]
    by_cases hnil : f = []
    · rw [hnil, redactLoop_nil, show mapSecret (fun _ => lkRedactMark) [] = [] by decide +kernel, List.append_nil]
    · have hfield := redactLoop_field hf ends_nil (by simpa using hnil) outcap w
      rw [List.append_nil, List.tail_nil, redactLoop_nil, List.take_nil, List.append_nil] at hfield
      exact hfield
  | more f s rest hf hs ih =>
    rw [mapFields_more _ hf hs, redactLoop_field hf (ends_cons hs rest) (by simp), List.tail_cons, ih]
    simp

def mapQuery (g : List Byte → List Byte) (t : List Byte) : List Byte :=
  match t.dropWhile (· != '?'.toUInt8) with
  | [] => t
  | c :: q => t.takeWhile (· != '?'.toUInt8) ++ c :: mapFields isSep g q

def queryFields (t : List Byte) : List (List Byte) := (t.dropWhile (· != '?'.toUInt8)).tail.splitOnP isSep

theorem path_scan (hpath : '?'.toUInt8 ∉ path) (q : List Byte) :
    (path ++ '?'.toUInt8 :: q).takeWhile (· != '?'.toUInt8) = path ∧
      (path ++ '?'.toUInt8 :: q).dropWhile (· != '?'.toUInt8) = '?'.toUInt8 :: q := by
  have hkeep : ∀ b ∈ path, (b != '?'.toUInt8) = true := fun b hb => bne_iff_ne.mpr fun heq => hpath (heq ▸ hb)
  rw [List.takeWhile_append_of_pos hkeep, List.dropWhile_append_of_pos hkeep]
  simp

theorem target_cases (t : List Byte) :
    t.dropWhile (· != '?'.toUInt8) = [] ∧ t.takeWhile (· != '?'.toUInt8) = t ∨
      ∃ path q, '?'.toUInt8 ∉ path ∧ t = path ++ '?'.toUInt8 :: q := by
  by_cases hmem : '?'.toUInt8 ∈ t
  · obtain ⟨path, q, rfl, hpath⟩ := List.eq_append_cons_of_mem hmem
    exact .inr ⟨path, q, hpath, rfl⟩
  · have hkeep : ∀ b ∈ t, (b != '?'.toUInt8) = true := fun b hb => bne_iff_ne.mpr fun heq => hmem (heq ▸ hb)
    have hdrop : t.dropWhile (· != '?'.toUInt8) = [] := List.dropWhile_eq_nil_iff.mpr hkeep
    have htake : t.takeWhile (· != '?'.toUInt8) = t := List.takeWhile_eq_self_iff.mpr hkeep
    exact .inl ⟨hdrop, htake⟩

theorem mapQuery_query (g : List Byte → List Byte) (hpath : '?'.toUInt8 ∉ path) (q : List Byte) :
    mapQuery g (path ++ '?'.toUInt8 :: q) = path ++ '?'.toUInt8 :: mapFields isSep g q := by
  obtain ⟨htake, hdrop⟩ := path_scan hpath q
  rw [mapQuery, hdrop, htake]

theorem mapQuery_path (g : List Byte → List Byte) (h : t.dropWhile (· != '?'.toUInt8) = []) : mapQuery g t = t := by
  rw [mapQuery, h]

theorem lkUrlRedact_eq (t : List Byte) (outcap : Nat) :
    lkUrlRedact t outcap = (mapQuery (mapSecret fun _ => lkRedactMark) t).take outcap := by
  have hpath := put_take outcap [] (t.takeWhile (· != '?'.toUInt8))
  rw [List.take_nil, List.nil_append] at hpath
  rw [lkUrlRedact, mapQuery, hpath]
  rcases target_cases t with ⟨hdrop, htake⟩ | ⟨path, q, hmem, rfl⟩
  · rw [hdrop, htake]
  · obtain ⟨htake, hdrop⟩ := path_scan hmem q
    rw [hdrop, htake]
    dsimp only
    rw [put_take, redactLoop_eq, List.append_assoc, List.singleton_append]

theorem lkUrlRedactInplace_eq (t : List Byte) : lkUrlRedactInplace t = mapQuery (mapSecret stars) t := by
  rw [lkUrlRedactInplace, mapQuery]
  cases t.dropWhile (· != '?'.toUInt8) with
  | nil => rfl
  | cons c q =>
    dsimp only
    rw [inplaceLoop_eq]

theorem lkUrlRedactNeeded_eq (t : List Byte) :
    lkUrlRedactNeeded t = (queryFields t).any fun f => decide (Secret f) := by
  rw [lkUrlRedactNeeded, queryFields]
  cases t.dropWhile (· != '?'.toUInt8) with
  | nil => decide +kernel
  | cons c q => exact neededLoop_eq q

/-- The same field, the value of a sensitive key aside. -/
def SameOpen (f f' : List Byte) : Prop := f = f' ∨ Secret f ∧ Secret f' ∧ key isEq f = key isEq f'

def SameTarget (t t' : List Byte) : Prop :=
  ∃ path q q', '?'.toUInt8 ∉ path ∧ t = path ++ '?'.toUInt8 :: q ∧ t' = path ++ '?'.toUInt8 :: q' ∧
    Alike isSep SameOpen q q'

theorem mark_sameOpen (h : SameOpen f f') : mapSecret (fun _ => lkRedactMark) f = mapSecret (fun _ => lkRedactMark) f' := by
  rcases h with rfl | ⟨hf, hf', hkey⟩
  · rfl
  · rw [mapSecret, mapSecret, if_pos hf, if_pos hf', hkey]

theorem mapQuery_sameTarget (h : SameTarget t t') :
    mapQuery (mapSecret fun _ => lkRedactMark) t = mapQuery (mapSecret fun _ => lkRedactMark) t' := by
  obtain ⟨path, q, q', hpath, rfl, rfl, halike⟩ := h
  have hsame := mapFields_alike (g := mapSecret fun _ => lkRedactMark) (fun _ _ => mark_sameOpen) halike
  rw [mapQuery_query _ hpath, mapQuery_query _ hpath, hsame]

theorem mapQuery_open (g : List Byte → List Byte) (h : ∀ f ∈ queryFields t, ¬ Secret f) : mapQuery (mapSecret g) t = t := by
  rw [mapQuery]
  cases hdrop : t.dropWhile (· != '?'.toUInt8) with
  | nil => rfl
  | cons c q =>
    have hsame : mapFields isSep (mapSecret g) q = q := by
      apply mapFields_id
      intro f hf
      apply if_neg
      apply h
      rw [queryFields, hdrop]
      exact hf
    dsimp only
    rw [hsame, ← hdrop]
    exact List.takeWhile_append_dropWhile

theorem secret_valued (h : Secret f) (v : List Byte) :
    key isEq (key isEq f ++ '='.toUInt8 :: v) = key isEq f ∧
      behind isEq (key isEq f ++ '='.toUInt8 :: v) = '='.toUInt8 :: v ∧ Secret (key isEq f ++ '='.toUInt8 :: v) := by
  have hkeep : ∀ b ∈ key isEq f, (!isEq b) = true := fun b hb => List.mem_takeWhile_imp (p := (!isEq ·)) hb
  have hkey : key isEq (key isEq f ++ '='.toUInt8 :: v) = key isEq f := by
    rw [key, List.takeWhile_append_of_pos hkeep, List.takeWhile_cons_of_neg (by decide), List.append_nil]
  have hbehind : behind isEq (key isEq f ++ '='.toUInt8 :: v) = '='.toUInt8 :: v := by
    rw [behind, List.dropWhile_append_of_pos hkeep, List.dropWhile_cons_of_neg (by decide)]
  refine ⟨hkey, hbehind, ?_, ?_⟩
  · rw [hbehind]
    exact List.cons_ne_nil _ _
  · rw [hkey]
    exact h.2

theorem mark_mark (f : List Byte) :
    mapSecret (fun _ => lkRedactMark) (mapSecret (fun _ => lkRedactMark) f) = mapSecret (fun _ => lkRedactMark) f := by
  by_cases h : Secret f
  · obtain ⟨hkey, -, hsecret⟩ := secret_valued h lkRedactMark
    rw [mapSecret.eq_def _ f, if_pos h, mapSecret, if_pos hsecret, hkey]
  · rw [mapSecret.eq_def _ f, if_neg h, mapSecret, if_neg h]

theorem mark_field (hf : IsField isSep f) : IsField isSep (mapSecret (fun _ => lkRedactMark) f) := by
  rw [mapSecret]
  split
  · intro b hb
    rw [List.mem_append, List.mem_cons] at hb
    rcases hb with hb | rfl | hb
    · exact hf.key isEq b hb
    · decide
    · have hmark : ∀ b ∈ lkRedactMark, isSep b = false := by decide +kernel
      exact hmark b hb
  · exact hf

theorem mapQuery_mark (t : List Byte) :
    mapQuery (mapSecret fun _ => lkRedactMark) (mapQuery (mapSecret fun _ => lkRedactMark) t) =
      mapQuery (mapSecret fun _ => lkRedactMark) t := by
  rcases target_cases t with ⟨hdrop, -⟩ | ⟨path, q, hmem, rfl⟩
  · rw [mapQuery_path _ hdrop, mapQuery_path _ hdrop]
  · have hmark : mapSecret (fun _ => lkRedactMark) ∘ mapSecret (fun _ => lkRedactMark) =
        mapSecret (fun _ => lkRedactMark) := funext mark_mark
    rw [mapQuery_query _ hmem, mapQuery_query _ hmem, mapFields_mapFields (fun _ => mark_field), hmark]

def Unclipped (t : List Byte) (outcap : Nat) : Prop := ∀ more, lkUrlRedact t (outcap + more) = lkUrlRedact t outcap

theorem Unclipped.eq (h : Unclipped t outcap) : lkUrlRedact t outcap = mapQuery (mapSecret fun _ => lkRedactMark) t := by
  rw [← h (mapQuery (mapSecret fun _ => lkRedactMark) t).length, lkUrlRedact_eq]
  exact List.take_of_length_le (Nat.le_add_left _ _)

/-- The redactor of targets: values of sensitive keys do not reach the output, nothing else is changed,
redacting twice is redacting once, and in place it overwrites just the same values. -/
theorem url_redaction :
    (∀ t t' outcap, SameTarget t t' → lkUrlRedact t outcap = lkUrlRedact t' outcap) ∧
      (∀ t outcap, lkUrlRedactNeeded t = false → t.length ≤ outcap → lkUrlRedact t outcap = t) ∧
      (∀ t outcap outcap', Unclipped t outcap → (lkUrlRedact t outcap).length ≤ outcap' →
        lkUrlRedact (lkUrlRedact t outcap) outcap' = lkUrlRedact t outcap) ∧
      ∀ t, lkUrlRedactInplace t = mapQuery (mapSecret stars) t := by
  refine ⟨?_, ?_, ?_, lkUrlRedactInplace_eq⟩
  · intro t t' outcap h
    rw [lkUrlRedact_eq, lkUrlRedact_eq, mapQuery_sameTarget h]
  · intro t outcap hneeded hlen
    rw [lkUrlRedactNeeded_eq, List.any_eq_false] at hneeded
    rw [lkUrlRedact_eq, mapQuery_open _ (fun f hf => by simpa using hneeded f hf), List.take_of_length_le hlen]
  · intro t outcap outcap' hwhole hlen
    rw [hwhole.eq] at hlen ⊢
    rw [lkUrlRedact_eq, mapQuery_mark, List.take_of_length_le hlen]

/-- Two tokens of different length, a target without any, and a target redacted twice. -/
theorem url_redaction_token :
    lkUrlRedact "/a?Token=x&b=1".toUTF8.toList 9 = lkUrlRedact "/a?Token=yyyy&b=1".toUTF8.toList 9 ∧
      lkUrlRedact "/a?b=1".toUTF8.toList 6 = "/a?b=1".toUTF8.toList ∧
      lkUrlRedact (lkUrlRedact "/a?sig=x".toUTF8.toList 10) 10 = lkUrlRedact "/a?sig=x".toUTF8.toList 10 ∧
      lkUrlRedactInplace "/a?sig=xy;b=z".toUTF8.toList = "/a?sig=**;b=z".toUTF8.toList := by
  have hlaw := url_redaction
  refine ⟨?_, ?_, ?_, ?_⟩
  · apply hlaw.1
    refine ⟨"/a".toUTF8.toList, "Token=x&b=1".toUTF8.toList, "Token=yyyy&b=1".toUTF8.toList, ?_, ?_, ?_, ?_, ?_⟩
    · decide +kernel
    · decide +kernel
    · decide +kernel
    · decide +kernel
    · have hsplit : "Token=x&b=1".toUTF8.toList.splitOnP isSep = ["Token=x".toUTF8.toList, "b=1".toUTF8.toList] := by
        decide +kernel
      have hsplit' : "Token=yyyy&b=1".toUTF8.toList.splitOnP isSep =
          ["Token=yyyy".toUTF8.toList, "b=1".toUTF8.toList] := by decide +kernel
      rw [hsplit, hsplit']
      refine .cons (.inr ?_) (.cons (.inl rfl) .nil)
      decide +kernel
  · apply hlaw.2.1
    · decide +kernel
    · decide +kernel
  · apply hlaw.2.2.1
    · intro more
      rw [lkUrlRedact_eq, lkUrlRedact_eq,
        show mapQuery (mapSecret fun _ => lkRedactMark) "/a?sig=x".toUTF8.toList = "/a?sig=***".toUTF8.toList by
          decide +kernel]
      rw [List.take_of_length_le (by rw [show "/a?sig=***".toUTF8.toList.length = 10 by decide +kernel]; omega)]
      decide +kernel
    · decide +kernel
  · rw [hlaw.2.2.2]
    decide +kernel

end Latkit
