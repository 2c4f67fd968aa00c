import Mathlib

/-! A doubly linked list through pointer fields of its nodes. -/

namespace DList

structure Links where
  head : Option Nat := none
  tail : Option Nat := none
  prev : Nat → Option Nat := fun _ => none
  next : Nat → Option Nat := fun _ => none

def Links.setPrev (d : Links) : Option Nat → Option Nat → Links
  | some a, p => { d with prev := Function.update d.prev a p }
  | none, p => { d with tail := p }

def Links.setNext (d : Links) : Option Nat → Option Nat → Links
  | some a, n => { d with next := Function.update d.next a n }
  | none, n => { d with head := n }

/-- The neighbours of `s` are joined; at an end of the list it is the list's own pointer that moves. -/
def Links.unlink (d : Links) (s : Nat) : Links := (d.setNext (d.prev s) (d.next s)).setPrev (d.next s) (d.prev s)

def Links.pushFront (d : Links) (s : Nat) : Links :=
  let d' : Links := { d with prev := Function.update d.prev s none, next := Function.update d.next s d.head }
  let d' : Links := match d.head with
    | some h => { d' with prev := Function.update d'.prev h (some s) }
    | none => d'
  { d' with head := some s, tail := d.tail.or (some s) }

def Seg (d : Links) (p : Option Nat) : List Nat → Option Nat → Prop
  | [], _ => True
  | a :: l, n => d.prev a = p ∧ d.next a = l.head?.or n ∧ Seg d (some a) l n

/-- The pointers say the list `l`, forwards and backwards. -/
structure Linked (d : Links) (l : List Nat) : Prop where
  head : d.head = l.head?
  tail : d.tail = l.getLast?
  seg : Seg d none l none
  nodup : l.Nodup

theorem Seg.append (h : Seg d p (xs ++ ys) n) : Seg d p xs (ys.head?.or n) ∧ Seg d (xs.getLast?.or p) ys n := by
  induction xs generalizing p with
  | nil => exact ⟨trivial, h⟩
  | cons a xs ih =>
    obtain ⟨hprev, hnext, hrest⟩ := h
    obtain ⟨hxs, hys⟩ := ih hrest
    refine ⟨⟨hprev, ?_, hxs⟩, ?_⟩
    · cases xs <;> exact hnext
    · cases xs with
      | nil => exact hys
      | cons b xs => simpa [List.getLast?_cons] using hys

theorem Seg.join (hxs : Seg d p xs (ys.head?.or n)) (hys : Seg d (xs.getLast?.or p) ys n) : Seg d p (xs ++ ys) n := by
  induction xs generalizing p with
  | nil => exact hys
  | cons a xs ih =>
    obtain ⟨hprev, hnext, hrest⟩ := hxs
    refine ⟨hprev, ?_, ih hrest ?_⟩
    · cases xs <;> exact hnext
    · cases xs with
      | nil => exact hys
      | cons b xs => simpa [List.getLast?_cons] using hys

theorem Seg.congr (h : Seg d p l n) (hprev : ∀ a ∈ l, d'.prev a = d.prev a) (hnext : ∀ a ∈ l, d'.next a = d.next a) :
    Seg d' p l n := by
  induction l generalizing p with
  | nil => trivial
  | cons a l ih =>
    obtain ⟨hp, hn, hrest⟩ := h
    exact ⟨(hprev a List.mem_cons_self).trans hp, (hnext a List.mem_cons_self).trans hn,
      ih hrest (fun b hb => hprev b (List.mem_cons_of_mem a hb)) fun b hb => hnext b (List.mem_cons_of_mem a hb)⟩

theorem Seg.setPrev (h : Seg d p l n) (hnodup : l.Nodup) (p' : Option Nat) : Seg (d.setPrev l.head? p') p' l n := by
  cases l with
  | nil => trivial
  | cons a l =>
    obtain ⟨-, hn, hrest⟩ := h
    have ha := (List.nodup_cons.mp hnodup).1
    refine ⟨Function.update_self .., hn, hrest.congr (fun b hb => Function.update_of_ne ?_ ..) fun _ _ => rfl⟩
    rintro rfl
    exact ha hb

theorem Seg.setNext (h : Seg d p l n) (hnodup : l.Nodup) (n' : Option Nat) : Seg (d.setNext l.getLast? n') p l n' := by
  induction l generalizing p with
  | nil => trivial
  | cons a l ih =>
    obtain ⟨hp, hn, hrest⟩ := h
    obtain ⟨ha, hl⟩ := List.nodup_cons.mp hnodup
    cases l with
    | nil => exact ⟨hp, Function.update_self .., trivial⟩
    | cons b l =>
      have hlast : (a :: b :: l).getLast? = (b :: l).getLast? := List.getLast?_cons_cons
      rw [hlast]
      refine ⟨?_, ?_, ih hrest hl⟩
      · rw [List.getLast?_eq_some_getLast (List.cons_ne_nil b l)]
        exact hp
      · rw [List.getLast?_eq_some_getLast (List.cons_ne_nil b l)]
        refine (Function.update_of_ne ?_ ..).trans hn
        intro heq
        exact ha (heq ▸ List.getLast_mem _)

theorem setPrev_next (d : Links) (o p : Option Nat) : (d.setPrev o p).next = d.next := by
  cases o <;> rfl

theorem setNext_prev (d : Links) (o n : Option Nat) : (d.setNext o n).prev = d.prev := by
  cases o <;> rfl

theorem setPrev_prev_ne (d : Links) {o p : Option Nat} (h : o ≠ some a) : (d.setPrev o p).prev a = d.prev a := by
  cases o with
  | none => rfl
  | some b => exact Function.update_of_ne (fun heq => h (congrArg some heq.symm)) ..

theorem setNext_next_ne (d : Links) {o n : Option Nat} (h : o ≠ some a) : (d.setNext o n).next a = d.next a := by
  cases o with
  | none => rfl
  | some b => exact Function.update_of_ne (fun heq => h (congrArg some heq.symm)) ..

theorem Linked.pushFront (h : Linked d l) (hs : s ∉ l) : Linked (d.pushFront s) (s :: l) := by
  have hne : ∀ a ∈ l, a ≠ s := fun a ha heq => hs (heq ▸ ha)
  refine ⟨rfl, ?_, ?_, List.nodup_cons.mpr ⟨hs, h.nodup⟩⟩
  · rw [List.getLast?_cons, ← h.tail]
    cases htail : d.tail <;> simp [Links.pushFront, htail]
  · have hmid : Seg { d with prev := Function.update d.prev s none, next := Function.update d.next s d.head } none l none :=
      h.seg.congr (fun a ha => Function.update_of_ne (hne a ha) ..) fun a ha => Function.update_of_ne (hne a ha) ..
    have hset := hmid.setPrev h.nodup (some s)
    have hhead := h.head
    cases l with
    | nil =>
      rw [List.head?_nil] at hhead
      refine ⟨?_, ?_, trivial⟩
      · simp [Links.pushFront, hhead]
      · simp [Links.pushFront, hhead]
    | cons a l =>
      rw [List.head?_cons] at hhead
      have has : s ≠ a := fun heq => hs (heq ▸ List.mem_cons_self)
      refine ⟨?_, ?_, hset.congr (fun b _ => ?_) fun b _ => ?_⟩
      · simp only [Links.pushFront, hhead]
        rw [Function.update_of_ne has, Function.update_self]
      · simp only [Links.pushFront, hhead, Function.update_self, List.head?_cons, Option.some_or]
      · simp only [Links.pushFront, hhead, Links.setPrev, List.head?_cons]
      · simp only [Links.pushFront, hhead, Links.setPrev, List.head?_cons]

theorem Linked.unlink (h : Linked d (xs ++ s :: ys)) : Linked (d.unlink s) (xs ++ ys) := by
  obtain ⟨hhead, htail, hseg, hnodup⟩ := h
  obtain ⟨hxs, hprev, hnext, hys⟩ := hseg.append
  have hdrop : (xs ++ ys).Nodup := hnodup.sublist (List.Sublist.append_left (List.sublist_cons_self s ys) xs)
  obtain ⟨hnxs, hnys, hdisj⟩ := List.nodup_append'.mp hdrop
  rw [Option.or_none] at hprev hnext
  -- the last of `xs` and the first of `ys` are the neighbours, or the list's own pointers
  have hxs' := hxs.setNext hnxs ys.head?
  have hys' := hys.setPrev hnys xs.getLast?
  have hunlink : d.unlink s = (d.setNext xs.getLast? ys.head?).setPrev ys.head? xs.getLast? := by
    rw [Links.unlink, hprev, hnext]
  have hfirst : ∀ a ∈ xs, ys.head? ≠ some a := fun a ha heq => hdisj ha (List.mem_of_head? heq)
  have hlast : ∀ a ∈ ys, xs.getLast? ≠ some a := fun a ha heq => hdisj (List.mem_of_getLast? heq) ha
  rw [hunlink]
  refine ⟨?_, ?_, Seg.join ?_ ?_, hdrop⟩
  · cases xs with
    | nil => cases ys <;> rfl
    | cons a xs =>
      rw [List.getLast?_eq_some_getLast (List.cons_ne_nil a xs)]
      cases ys <;> exact hhead
  · cases ys with
    | nil => rw [List.append_nil]; rfl
    | cons b ys =>
      rw [List.getLast?_append_of_ne_nil _ (List.cons_ne_nil b ys)]
      rw [List.getLast?_append_of_ne_nil _ (List.cons_ne_nil s _), List.getLast?_cons_cons] at htail
      cases hlast : xs.getLast? <;> exact htail
  · rw [Option.or_none]
    refine hxs'.congr (fun a ha => setPrev_prev_ne _ (hfirst a ha)) fun a _ => ?_
    rw [setPrev_next]
  · rw [Option.or_none]
    refine hys'.congr (fun a _ => ?_) fun a ha => ?_
    · cases ys.head? with
      | none => simp only [Links.setPrev, setNext_prev]
      | some b => simp only [Links.setPrev, setNext_prev]
    · rw [setPrev_next, setNext_next_ne _ (hlast a ha), setPrev_next]

theorem Linked.moveFront (h : Linked d l) (hs : s ∈ l) :
    ∃ l', Linked ((d.unlink s).pushFront s) (s :: l') ∧ (s :: l').Perm l ∧ l'.Sublist l ∧ s ∉ l' := by
  obtain ⟨xs, ys, rfl⟩ := List.append_of_mem hs
  have hfront : (s :: (xs ++ ys)).Nodup := List.perm_middle.nodup_iff.mp h.nodup
  have hnot := (List.nodup_cons.mp hfront).1
  exact ⟨xs ++ ys, h.unlink.pushFront hnot, List.perm_middle.symm, List.Sublist.append_left (List.sublist_cons_self s ys) xs, hnot⟩

end DList
