import Latkit.CgroupMatch

/-! What the cgroup globs mean, and where `cg_glob_match` departs from it. -/

namespace Latkit
open Wildcard Delimited
variable {star : Option (List Byte)}

/-- Within a segment, a star takes any run of characters, a question mark one, anything else itself. -/
def SegFits (p c : Byte) : Prop := p = anyChar ∨ p = c
def SegGlob : List Byte → List Byte → Prop := Aligned starChar SegFits

/-- The part of the pattern between the remembered star and the cursor has no star. -/
def SinceStar (star : Option (List Byte)) (pat : List Byte) (n : Nat) : Prop :=
  ∀ q ∈ star, ∃ read, q = read ++ pat ∧ read.length = n ∧ starChar ∉ read

theorem SinceStar.rest (h : SinceStar star pat n) (hq : q ∈ star) (hs : SegGlob q t) :
    n ≤ t.length ∧ SegGlob pat (t.drop n) := by
  obtain ⟨read, rfl, rfl, hread⟩ := h q hq
  exact Aligned.drop hs hread

theorem SinceStar.start (q : List Byte) : SinceStar (some q) q 0 := by
  intro q' hq'
  cases hq'
  exact ⟨[], rfl, rfl, List.not_mem_nil⟩

theorem SinceStar.read (h : SinceStar star pat n) (hc : c ≠ starChar)
    (hhead : pat.head? = some anyChar ∨ pat.head? = some c) : SinceStar star pat.tail (n + 1) := by
  intro q hq
  obtain ⟨read, rfl, rfl, hread⟩ := h q hq
  cases pat with
  | nil => rcases hhead with h | h <;> cases h
  | cons p pat =>
    have hp : p ≠ starChar := by
      rcases hhead with he | he
      · cases he
        decide
      · cases he
        exact hc
    refine ⟨read ++ [p], by simp, by simp, ?_⟩
    intro hmem
    rcases List.mem_append.mp hmem with hmem | hmem
    · exact hread hmem
    · exact hp (List.mem_singleton.mp hmem).symm

def IsSegs (ss : List (List Byte)) : Prop := ∀ s ∈ ss, s ≠ [] ∧ IsField isSlash s

theorem IsSegs.tail (hs : IsSegs (s :: ss)) : IsSegs ss := fun t ht => hs t (List.mem_cons_of_mem s ht)

theorem IsSegs.drop (hs : IsSegs ss) (k : Nat) : IsSegs (ss.drop k) := fun s h => hs s (List.mem_of_mem_drop h)

end Latkit
