import Mathlib

/-! Requests and answers that belong together by their order alone. A request may be given up: its
answer then belongs to nobody. -/

namespace Ledger

/-- What was asked and has no answer yet, the answers that came first, and the pairs made. -/
structure State (α β : Type) where
  pending : List (Option α) := []
  ahead : List β := []
  paired : List (α × β) := []
  deriving DecidableEq, Repr

section
variable {α β : Type}

def pair (a : Option α) (b : β) : List (α × β) := (a.map (·, b)).toList

def ask (l : State α β) (a : Option α) : State α β :=
  match l.ahead with
  | [] => { l with pending := l.pending ++ [a] }
  | b :: ahead => { l with ahead := ahead, paired := l.paired ++ pair a b }

def answer (l : State α β) (b : β) : State α β :=
  match l.pending with
  | [] => { l with ahead := l.ahead ++ [b] }
  | a :: pending => { l with pending := pending, paired := l.paired ++ pair a b }

def giveUp (l : State α β) : State α β := { l with pending := List.replicate l.pending.length none }

def matched (as : List (Option α)) (bs : List β) : List (α × β) := (as.zip bs).flatMap fun (a, b) => pair a b

theorem matched_snoc (h : as.length = bs.length) (a : Option α) (b : β) :
    matched (as ++ [a]) (bs ++ [b]) = matched as bs ++ pair a b := by
  simp [matched, List.zip_append h]

theorem zip_append_self (h : as.length = bs.length) (h' : as' = [] ∨ bs' = []) :
    (as ++ as' : List α).zip (bs ++ bs' : List β) = as.zip bs := by
  rw [List.zip_append h]
  cases h' with
  | inl h' => rw [h', List.zip_nil_left, List.append_nil]
  | inr h' => rw [h', List.zip_nil_right, List.append_nil]

/-- The ledger holds what one of its two sides has in excess, and the pairs are those of the order. -/
structure Balanced (l : State α β) (as : List (Option α)) (bs : List β) : Prop where
  split : ∃ as' bs', as = as' ++ l.pending ∧ bs = bs' ++ l.ahead ∧ as'.length = bs'.length ∧
    l.paired = matched as' bs'
  excess : l.pending = [] ∨ l.ahead = []

theorem Balanced.nil : Balanced ({} : State α β) [] [] := ⟨⟨[], [], rfl, rfl, rfl, rfl⟩, .inl rfl⟩

theorem Balanced.paired (h : Balanced l as bs) : l.paired = matched as (bs : List β) := by
  obtain ⟨as', bs', rfl, rfl, hlen, hpaired⟩ := h.split
  rw [hpaired, matched, matched, zip_append_self hlen h.excess]

theorem Balanced.count (h : Balanced l as bs) :
    (as : List (Option α)).length + l.ahead.length = (bs : List β).length + l.pending.length := by
  obtain ⟨as', bs', rfl, rfl, hlen, -⟩ := h.split
  rw [List.length_append, List.length_append]
  omega

theorem Balanced.ask (h : Balanced l as (bs : List β)) (a : Option α) : Balanced (ask l a) (as ++ [a]) bs := by
  obtain ⟨as', bs', rfl, rfl, hlen, hpaired⟩ := h.split
  obtain ⟨pending, ahead, paired⟩ := l
  cases ahead with
  | nil =>
    refine ⟨⟨as', bs', ?_, rfl, hlen, hpaired⟩, .inr rfl⟩
    exact List.append_assoc ..
  | cons b ahead =>
    have hnil : pending = [] := h.excess.resolve_right (List.cons_ne_nil b ahead)
    subst hnil
    refine ⟨⟨as' ++ [a], bs' ++ [b], ?_, ?_, ?_, ?_⟩, .inl rfl⟩
    · simp [Ledger.ask]
    · simp [Ledger.ask]
    · simp [hlen]
    · rw [matched_snoc hlen, ← hpaired]
      rfl

theorem Balanced.answer (h : Balanced l as (bs : List β)) (b : β) :
    Balanced (answer l b) (as : List (Option α)) (bs ++ [b]) := by
  obtain ⟨as', bs', rfl, rfl, hlen, hpaired⟩ := h.split
  obtain ⟨pending, ahead, paired⟩ := l
  cases pending with
  | nil =>
    refine ⟨⟨as', bs', rfl, ?_, hlen, hpaired⟩, .inl rfl⟩
    exact List.append_assoc ..
  | cons a pending =>
    have hnil : ahead = [] := h.excess.resolve_left (List.cons_ne_nil a pending)
    subst hnil
    refine ⟨⟨as' ++ [a], bs' ++ [b], ?_, ?_, ?_, ?_⟩, .inr rfl⟩
    · simp [Ledger.answer]
    · simp [Ledger.answer]
    · simp [hlen]
    · rw [matched_snoc hlen, ← hpaired]
      rfl

def Stands (a : Option α) (a₀ : Option α) : Prop := a = none ∨ a = a₀

theorem Balanced.giveUp (h : Balanced l as (bs : List β)) :
    ∃ as₁, Balanced (giveUp l) as₁ bs ∧ List.Forall₂ Stands as₁ (as : List (Option α)) := by
  obtain ⟨as', bs', rfl, rfl, hlen, hpaired⟩ := h.split
  refine ⟨as' ++ List.replicate l.pending.length none, ⟨⟨as', bs', rfl, rfl, hlen, hpaired⟩, ?_⟩, ?_⟩
  · rcases h.excess with hnil | hnil
    · left
      simp [Ledger.giveUp, hnil]
    · exact .inr hnil
  · apply List.rel_append
    · exact List.forall₂_same.mpr fun a _ => .inr rfl
    · apply List.forall₂_iff_get.mpr
      refine ⟨List.length_replicate, ?_⟩
      intro i hi _
      left
      simp

end

end Ledger
