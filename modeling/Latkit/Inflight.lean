import Mathlib

/-! A queue of requests in flight: the oldest ones already answered, then those still open. -/

namespace Inflight

structure UnitRing (α : Type) where
  closed : List α := []
  opened : List α := []
  deriving DecidableEq, Repr

namespace UnitRing
variable {α β : Type}

def all (r : UnitRing α) : List α := r.closed ++ r.opened

def count (r : UnitRing α) : Nat := r.closed.length + r.opened.length

def current (r : UnitRing α) : Option α := r.opened.head?

def push (r : UnitRing α) (a : α) : UnitRing α := { r with opened := r.opened ++ [a] }

def pushAll (r : UnitRing α) (as : List α) : UnitRing α := { r with opened := r.opened ++ as }

def map (f : α → β) (r : UnitRing α) : UnitRing β := ⟨r.closed.map f, r.opened.map f⟩

def modify (g : α → α) (r : UnitRing α) : UnitRing α := { r with opened := r.opened.modifyHead g }

def close (g : α → α) (r : UnitRing α) : UnitRing α :=
  match r.opened with
  | [] => r
  | a :: as => ⟨r.closed ++ [g a], as⟩

def abort (g h : α → α) (r : UnitRing α) : UnitRing α :=
  match r.opened with
  | [] => r
  | a :: as => ⟨r.closed ++ g a :: as.map h, []⟩

@[simp] theorem pushAll_nil (r : UnitRing α) : r.pushAll [] = r := by
  simp [pushAll]

@[simp] theorem pushAll_singleton (r : UnitRing α) (a : α) : r.pushAll [a] = r.push a := rfl

@[simp] theorem push_pushAll (r : UnitRing α) (a : α) (as : List α) :
    (r.push a).pushAll as = r.pushAll (a :: as) := by
  simp [push, pushAll]

theorem count_push (r : UnitRing α) (a : α) : (r.push a).count = r.count + 1 := by
  simp [count, push, Nat.add_assoc]

theorem all_map (f : α → β) (r : UnitRing α) : (r.map f).all = r.all.map f := by
  simp [all, map]

theorem count_map (f : α → β) (r : UnitRing α) : (r.map f).count = r.count := by
  simp [count, map]

theorem map_congr {f g : α → β} {r : UnitRing α} (hfg : ∀ a ∈ r.all, f a = g a) : r.map f = r.map g := by
  simp only [map, UnitRing.mk.injEq]
  constructor <;> apply List.map_congr_left <;> intro a ha <;> apply hfg
  · exact List.mem_append_left _ ha
  · exact List.mem_append_right _ ha

theorem map_map_congr {f : α → γ} {g : β → γ} {h : α → β} {r : UnitRing α}
    (hfg : ∀ a ∈ r.all, g (h a) = f a) : (r.map h).map g = r.map f := by
  rw [← map_congr hfg]
  simp [map]

def Forall (P : α → Prop) (r : UnitRing α) : Prop := ∀ a ∈ r.all, P a

section
variable {P : α → Prop}

theorem Forall.push {r : UnitRing α} (h : r.Forall P) (ha : P a) : (r.push a).Forall P := by
  intro b hb
  simp only [all, UnitRing.push, List.mem_append, List.mem_singleton] at hb
  obtain hb | hb | rfl := hb
  · exact h b (List.mem_append_left _ hb)
  · exact h b (List.mem_append_right _ hb)
  · exact ha

theorem Forall.modify {r : UnitRing α} (h : r.Forall P) {g : α → α} (hg : ∀ a, P a → P (g a)) :
    (r.modify g).Forall P := by
  obtain ⟨closed, _ | ⟨b, bs⟩⟩ := r
  · exact h
  · simp only [Forall, all, UnitRing.modify, List.modifyHead_cons, List.forall_mem_append,
      List.forall_mem_cons] at h ⊢
    exact ⟨h.1, hg b h.2.1, h.2.2⟩

theorem Forall.close {r : UnitRing α} (h : r.Forall P) {g : α → α} (hg : ∀ a, P a → P (g a)) :
    (r.close g).Forall P := by
  obtain ⟨closed, _ | ⟨b, bs⟩⟩ := r
  · exact h
  · simp only [Forall, all, UnitRing.close, List.forall_mem_append, List.forall_mem_singleton,
      List.forall_mem_cons] at h ⊢
    exact ⟨⟨h.1, hg b h.2.1⟩, h.2.2⟩

theorem Forall.abort {r : UnitRing α} (h : r.Forall P) {g k : α → α} (hg : ∀ a, P a → P (g a))
    (hk : ∀ a, P a → P (k a)) : (r.abort g k).Forall P := by
  obtain ⟨closed, _ | ⟨b, bs⟩⟩ := r
  · exact h
  · simp only [Forall, all, UnitRing.abort, List.append_nil, List.forall_mem_append, List.forall_mem_cons,
      List.forall_mem_map] at h ⊢
    exact ⟨h.1, hg b h.2.1, fun a ha => hk a (h.2.2 a ha)⟩

theorem Forall.map {r : UnitRing α} {Q : β → Prop} (h : r.Forall P) {f : α → β} (hf : ∀ a, P a → Q (f a)) :
    (r.map f).Forall Q := by
  intro b hb
  rw [all_map, List.mem_map] at hb
  obtain ⟨a, ha, rfl⟩ := hb
  exact hf a (h a ha)

end

theorem modify_pushAll (g : α → α) {r : UnitRing α} (h : r.opened ≠ []) (as : List α) :
    (r.pushAll as).modify g = (r.modify g).pushAll as := by
  obtain ⟨closed, _ | ⟨b, bs⟩⟩ := r
  · exact absurd rfl h
  · rfl

theorem close_pushAll (g : α → α) {r : UnitRing α} (h : r.opened ≠ []) (as : List α) :
    (r.pushAll as).close g = (r.close g).pushAll as := by
  obtain ⟨closed, _ | ⟨b, bs⟩⟩ := r
  · exact absurd rfl h
  · rfl

theorem current_pushAll {r : UnitRing α} (h : r.opened ≠ []) (as : List α) :
    (r.pushAll as).current = r.current := by
  obtain ⟨closed, _ | ⟨b, bs⟩⟩ := r
  · exact absurd rfl h
  · rfl

theorem map_push (f : α → β) (r : UnitRing α) (a : α) : (r.push a).map f = (r.map f).push (f a) := by
  simp [map, push]

theorem map_modify {f : α → β} {g : α → α} {g' : β → β} (h : ∀ a, f (g a) = g' (f a)) (r : UnitRing α) :
    (r.modify g).map f = (r.map f).modify g' := by
  obtain ⟨closed, _ | ⟨b, bs⟩⟩ := r
  · rfl
  · simp [map, modify, h]

theorem map_modify_self {f : α → β} {g : α → α} (h : ∀ a, f (g a) = f a) (r : UnitRing α) :
    (r.modify g).map f = r.map f := by
  obtain ⟨closed, _ | ⟨b, bs⟩⟩ := r
  · rfl
  · simp [map, modify, h]

section
variable {f : α → β} {g : α → α}

theorem all_modify (h : ∀ a, f (g a) = f a) (r : UnitRing α) : (r.modify g).all.map f = r.all.map f := by
  obtain ⟨closed, _ | ⟨b, bs⟩⟩ := r
  · rfl
  · simp [all, modify, h]

theorem all_close (h : ∀ a, f (g a) = f a) (r : UnitRing α) : (r.close g).all.map f = r.all.map f := by
  obtain ⟨closed, _ | ⟨b, bs⟩⟩ := r
  · rfl
  · simp [all, close, h]

theorem all_abort {k : α → α} (h : ∀ a, f (g a) = f a) (hk : ∀ a, f (k a) = f a) (r : UnitRing α) :
    (r.abort g k).all.map f = r.all.map f := by
  obtain ⟨closed, _ | ⟨b, bs⟩⟩ := r
  · rfl
  · simp [all, abort, h, hk, Function.comp_def]

end

theorem map_close {f : α → β} {g : α → α} {g' : β → β} (h : ∀ a, f (g a) = g' (f a)) (r : UnitRing α) :
    (r.close g).map f = (r.map f).close g' := by
  obtain ⟨closed, _ | ⟨b, bs⟩⟩ := r
  · rfl
  · simp [map, close, h]

theorem map_abort {f : α → β} {g h : α → α} {g' h' : β → β} (hg : ∀ a, f (g a) = g' (f a))
    (hh : ∀ a, f (h a) = h' (f a)) (r : UnitRing α) : (r.abort g h).map f = (r.map f).abort g' h' := by
  obtain ⟨closed, _ | ⟨b, bs⟩⟩ := r
  · rfl
  · simp [map, abort, hg, hh, Function.comp_def]

end UnitRing

end Inflight
