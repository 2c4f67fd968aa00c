import Mathlib

/-! Filters that read a sequence one item at a time, hold some items back and drop others. -/

namespace Sieve

structure Stage (α σ : Type) where
  push : σ → α → List α × σ
  finish : σ → List α

def Stage.run (m : Stage α σ) : σ → List α → List α
  | s, [] => m.finish s
  | s, t :: x => (m.push s t).1 ++ m.run (m.push s t).2 x

section
variable {m : Stage α σ} {s : σ} {t : α} {x y : List α}

def Stage.Passes (m : Stage α σ) (s : σ) (t : α) : Prop :=
  (m.push s t).1 ++ m.finish (m.push s t).2 = m.finish s ++ [t]

def Stage.Quiet (m : Stage α σ) : σ → List α → Prop
  | _, [] => True
  | s, t :: x => m.Passes s t ∧ m.Quiet (m.push s t).2 x

theorem Stage.Quiet.run (h : m.Quiet s x) : m.run s x = m.finish s ++ x := by
  induction x generalizing s with
  | nil => exact (List.append_nil _).symm
  | cons t x ih =>
    obtain ⟨hpass, hrest⟩ := h
    rw [Stage.run, ih hrest, ← List.append_assoc, hpass, List.append_assoc, List.singleton_append]

theorem Stage.Quiet.left (h : m.Quiet s (x ++ y)) : m.Quiet s x := by
  induction x generalizing s with
  | nil => trivial
  | cons t x ih => exact ⟨h.1, ih h.2⟩

def Stage.after (m : Stage α σ) : σ → List α → σ
  | s, [] => s
  | s, t :: x => m.after (m.push s t).2 x

theorem Stage.after_concat (m : Stage α σ) (s : σ) (x : List α) (t : α) :
    m.after s (x ++ [t]) = (m.push (m.after s x) t).2 := by
  induction x generalizing s with
  | nil => rfl
  | cons u x ih => exact ih (m.push s u).2

theorem Stage.Quiet.append (h : m.Quiet s x) (h' : m.Quiet (m.after s x) y) : m.Quiet s (x ++ y) := by
  induction x generalizing s with
  | nil => exact h'
  | cons t x ih => exact ⟨h.1, ih h.2 h'⟩

theorem Stage.Quiet.right (h : m.Quiet s (x ++ y)) : m.Quiet (m.after s x) y := by
  induction x generalizing s with
  | nil => exact h
  | cons t x ih => exact ih h.2

/-- How a stage that collapses repeats treats an item: it drops the item and what it holds, holds the item
too, or sets all of it free. `release s` is the state before the stage began to hold. -/
inductive Stage.Treats (m : Stage α σ) (release : σ → σ) (s : σ) (t : α) : Prop where
  | drop (hout : (m.push s t).1 = []) (hstate : (m.push s t).2 = release s)
  | hold (hout : (m.push s t).1 = []) (hfinish : m.finish (m.push s t).2 = m.finish s ++ [t])
      (hstate : release (m.push s t).2 = release s)
  | free (hout : (m.push s t).1 = m.finish s ++ [t]) (hfinish : m.finish (m.push s t).2 = [])
      (hstate : release (m.push s t).2 = (m.push s t).2)

structure Stage.Collapses (m : Stage α σ) (release : σ → σ) (Inv : σ → Prop) : Prop where
  treats : ∀ s t, Inv s → m.Treats release s t
  keeps : ∀ s t, Inv s → Inv (m.push s t).2
  settled : ∀ s, release (release s) = release s
  empty : ∀ s, m.finish (release s) = []
  refill : ∀ s y, Inv s → m.Quiet s y → m.Quiet (release s) (m.finish s ++ y)

theorem Stage.Collapses.quiet {release : σ → σ} {Inv : σ → Prop} (hm : m.Collapses release Inv) (hs : Inv s)
    (x : List α) : m.Quiet (release s) (m.run s x) := by
  induction x generalizing s with
  | nil =>
    have hrefill := hm.refill s [] hs trivial
    rwa [List.append_nil] at hrefill
  | cons t x ih =>
    have hnext := ih (hm.keeps s t hs)
    rw [Stage.run]
    cases hm.treats s t hs with
    | drop hout hstate =>
      rw [hstate, hm.settled] at hnext
      rwa [hout, hstate, List.nil_append]
    | hold hout _ hstate =>
      rw [hstate] at hnext
      rwa [hout, List.nil_append]
    | free hout hfinish hstate =>
      rw [hstate] at hnext
      rw [hout, List.append_assoc, List.singleton_append]
      apply hm.refill s _ hs
      refine ⟨?_, hnext⟩
      rw [Stage.Passes, hout, hfinish, List.append_nil]

theorem Stage.Collapses.sublist {release : σ → σ} {Inv : σ → Prop} (hm : m.Collapses release Inv) (hs : Inv s)
    (x : List α) : (m.run s x).Sublist (m.finish s ++ x) := by
  induction x generalizing s with
  | nil =>
    rw [List.append_nil]
    exact List.Sublist.refl _
  | cons t x ih =>
    have hnext := ih (hm.keeps s t hs)
    rw [Stage.run]
    cases hm.treats s t hs with
    | drop hout hstate =>
      rw [hstate, hm.empty, List.nil_append] at hnext
      rw [hout, hstate, List.nil_append]
      exact hnext.trans ((List.sublist_cons_self t x).trans (List.sublist_append_right _ _))
    | hold hout hfinish _ =>
      rw [hfinish, List.append_assoc, List.singleton_append] at hnext
      rwa [hout, List.nil_append]
    | free hout hfinish _ =>
      rw [hfinish, List.nil_append] at hnext
      rw [hout, List.append_assoc, List.singleton_append]
      exact (hnext.cons_cons t).append_left _

end

end Sieve
