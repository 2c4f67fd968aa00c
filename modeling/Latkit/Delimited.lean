import Mathlib

/-! Texts of fields between separators, each a key or a key and a value. -/

namespace Delimited

section
variable {α : Type} {sep : α → Bool} {P : List α → Prop} {g h : List α → List α} {f q rest : List α}

theorem tail_dropWhile_lt (p : α → Bool) (hq : q ≠ []) (hrest : rest <:+ q) : (rest.dropWhile p).tail.length < q.length := by
  have hdrop := (List.dropWhile_suffix p (l := rest)).length_le
  have hle := hrest.length_le
  have hpos := List.length_pos_iff.mpr hq
  rw [List.length_tail]
  omega

def IsField (sep : α → Bool) (f : List α) : Prop := ∀ a ∈ f, sep a = false

def Ends (sep : α → Bool) (rest : List α) : Prop := ∀ a ∈ rest.head?, sep a = true

theorem ends_nil : Ends sep [] := nofun

theorem ends_cons (hs : sep s = true) (rest : List α) : Ends sep (s :: rest) := by
  intro a ha
  cases ha
  exact hs

theorem takeWhile_field (sep : α → Bool) (q : List α) : IsField sep (q.takeWhile (!sep ·)) := by
  intro a ha
  have hkeep := List.mem_takeWhile_imp ha
  simpa using hkeep

theorem induct (sep : α → Bool) (last : ∀ f, IsField sep f → P f)
    (more : ∀ f s rest, IsField sep f → sep s = true → P rest → P (f ++ s :: rest)) (q : List α) : P q := by
  have hsplit := List.takeWhile_append_dropWhile (p := (!sep ·)) (l := q)
  have hfield := takeWhile_field sep q
  cases hrest : q.dropWhile (!sep ·) with
  | nil =>
    rw [hrest, List.append_nil] at hsplit
    rw [← hsplit]
    exact last _ hfield
  | cons s rest =>
    have hs : sep s = true := by
      have hhead := List.head?_dropWhile_not (!sep ·) q
      rw [hrest] at hhead
      simpa using hhead
    have hshort : rest.length < q.length := by
      rw [← hsplit, hrest, List.length_append, List.length_cons]
      omega
    rw [hrest] at hsplit
    rw [← hsplit]
    exact more _ s rest hfield hs (induct sep last more rest)
termination_by q.length

def mapFields (sep : α → Bool) (g : List α → List α) (q : List α) : List α :=
  (List.zipWith (· ++ ·) ((q.splitOnP sep).map g) ((q.filter sep).map ([·]) ++ [[]])).flatten

theorem filter_field (hf : IsField sep f) : f.filter sep = [] :=
  List.filter_eq_nil_iff.mpr fun a ha => by simp [hf a ha]

theorem mapFields_last (g : List α → List α) (hf : IsField sep f) : mapFields sep g f = g f := by
  simp [mapFields, List.splitOnP_eq_singleton hf, filter_field hf]

theorem mapFields_more (g : List α → List α) (hf : IsField sep f) (hs : sep s = true) (rest : List α) :
    mapFields sep g (f ++ s :: rest) = g f ++ s :: mapFields sep g rest := by
  simp [mapFields, List.splitOnP_append_cons_of_forall_mem hf s hs, filter_field hf, hs]

theorem mapFields_id (hg : ∀ f ∈ q.splitOnP sep, g f = f) : mapFields sep g q = q := by
  rw [mapFields, List.map_congr_left hg, List.map_id']
  exact List.splitOnP_spec q

/-- Field by field, the same text up to `R`. -/
def Alike (sep : α → Bool) (R : List α → List α → Prop) (q q' : List α) : Prop :=
  q.filter sep = q'.filter sep ∧ List.Forall₂ R (q.splitOnP sep) (q'.splitOnP sep)

theorem mapFields_alike {R : List α → List α → Prop} (hR : ∀ f f', R f f' → g f = g f') (h : Alike sep R q q') :
    mapFields sep g q = mapFields sep g q' := by
  have hmap : (q.splitOnP sep).map g = (q'.splitOnP sep).map g := by
    rw [← List.forall₂_eq_eq_eq, List.forall₂_map_left_iff, List.forall₂_map_right_iff]
    exact h.2.imp hR
  rw [mapFields, mapFields, hmap, h.1]

theorem mapFields_mapFields (hg : ∀ f, IsField sep f → IsField sep (g f)) (h : List α → List α) (q : List α) :
    mapFields sep h (mapFields sep g q) = mapFields sep (h ∘ g) q := by
  induction q using induct sep with
  | last f hf => rw [mapFields_last g hf, mapFields_last h (hg f hf), mapFields_last _ hf, Function.comp]
  | more f s rest hf hs ih => rw [mapFields_more g hf hs, mapFields_more h (hg f hf) hs, mapFields_more _ hf hs, ih,
      Function.comp]

variable {eq : α → Bool}

def key (eq : α → Bool) (f : List α) : List α := f.takeWhile (!eq ·)
def behind (eq : α → Bool) (f : List α) : List α := f.dropWhile (!eq ·)

theorem key_append_behind (eq : α → Bool) (f : List α) : key eq f ++ behind eq f = f := List.takeWhile_append_dropWhile

theorem IsField.key (hf : IsField sep f) (eq : α → Bool) : IsField sep (key eq f) :=
  fun a ha => hf a ((List.takeWhile_sublist _).subset ha)

theorem IsField.behind (hf : IsField sep f) (eq : α → Bool) : IsField sep (behind eq f) :=
  fun a ha => hf a ((List.dropWhile_sublist _).subset ha)

theorem scan_key (eq : α → Bool) (hf : IsField sep f) (hrest : Ends sep rest) :
    (f ++ rest).takeWhile (fun a => !eq a && !sep a) = key eq f ∧
      (f ++ rest).dropWhile (fun a => !eq a && !sep a) = behind eq f ++ rest := by
  induction f with
  | nil =>
    cases rest with
    | nil => exact ⟨rfl, rfl⟩
    | cons s rest =>
      have hs : sep s = true := hrest s rfl
      simp [Delimited.key, Delimited.behind, hs]
  | cons a f ih =>
    have ha : sep a = false := hf a (List.mem_cons_self ..)
    have htail := ih fun b hb => hf b (List.mem_cons_of_mem a hb)
    cases heq : eq a with
    | true => simp [Delimited.key, Delimited.behind, heq]
    | false => simpa [Delimited.key, Delimited.behind, heq, ha] using htail

theorem scan_field (hf : IsField sep f) (hrest : Ends sep rest) :
    (f ++ rest).takeWhile (!sep ·) = f ∧ (f ++ rest).dropWhile (!sep ·) = rest := by
  have hkeep : ∀ a ∈ f, (!sep a) = true := fun a ha => by rw [hf a ha]; rfl
  rw [List.takeWhile_append_of_pos hkeep, List.dropWhile_append_of_pos hkeep]
  cases rest with
  | nil => simp
  | cons s rest =>
    have hs : sep s = true := hrest s rfl
    simp [hs]

theorem behind_cases (eq : α → Bool) (f : List α) :
    behind eq f = [] ∨ ∃ e v, eq e = true ∧ behind eq f = e :: v := by
  cases hrest : behind eq f with
  | nil => exact .inl rfl
  | cons e v =>
    right
    have hhead := List.head?_dropWhile_not (!eq ·) f
    rw [show f.dropWhile (!eq ·) = e :: v from hrest] at hhead
    exact ⟨e, v, by simpa using hhead, rfl⟩

theorem key_eq_self (h : behind eq f = []) : key eq f = f := by
  have hsplit := key_append_behind eq f
  rw [h, List.append_nil] at hsplit
  exact hsplit

theorem key_append (h : behind eq f ≠ []) (g : List α) :
    key eq (f ++ g) = key eq f ∧ behind eq (f ++ g) = behind eq f ++ g := by
  induction f with
  | nil => exact absurd rfl h
  | cons a f ih =>
    cases heq : eq a with
    | true => simp [key, behind, heq]
    | false =>
      have hf : behind eq f ≠ [] := by simpa [behind, heq] using h
      simpa [key, behind, heq] using ih hf

theorem scan_plain (hf : IsField sep f) (hrest : Ends sep rest) (h : behind eq f = []) :
    (f ++ rest).takeWhile (fun a => !eq a && !sep a) = f ∧ (f ++ rest).dropWhile (fun a => !eq a && !sep a) = rest := by
  obtain ⟨htake, hdrop⟩ := scan_key eq hf hrest
  rw [key_eq_self h] at htake
  rw [h] at hdrop
  exact ⟨htake, hdrop⟩

theorem scan_valued (hf : IsField sep f) (hrest : Ends sep rest) (h : behind eq f = e :: v) :
    (f ++ rest).takeWhile (fun a => !eq a && !sep a) = key eq f ∧
      (f ++ rest).dropWhile (fun a => !eq a && !sep a) = e :: (v ++ rest) ∧
      (v ++ rest).takeWhile (!sep ·) = v ∧ (v ++ rest).dropWhile (!sep ·) = rest := by
  obtain ⟨htake, hdrop⟩ := scan_key eq hf hrest
  have hv : IsField sep v := by
    intro b hb
    apply hf.behind eq
    rw [h]
    exact List.mem_cons_of_mem _ hb
  rw [h] at hdrop
  exact ⟨htake, hdrop, (scan_field hv hrest).1, (scan_field hv hrest).2⟩

theorem Ends.head_ne [DecidableEq α] {e : α} (hrest : Ends sep rest) (he : sep e = false) : rest.head? ≠ some e := by
  intro hhead
  rw [hrest e hhead] at he
  cases he

end

end Delimited
