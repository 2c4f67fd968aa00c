import Latkit.CgroupGlob

/-! When `cg_glob_match` finds the alignments its header promises. -/

namespace Latkit
open Wildcard Delimited
variable {star : Option (List Byte)}

/-- The pattern that spells a segment out, a star of it as any character. -/
def spelledChar (c : Byte) : Byte := if c = starChar then anyChar else c
def spelled (seg : List Byte) : List Byte := seg.map spelledChar

theorem spelledChar_fits (c : Byte) : SegFits (spelledChar c) c := by
  by_cases hc : c = starChar
  · exact .inl (if_pos hc)
  · exact .inr (if_neg hc)

theorem spelled_field (hs : IsField isSlash s) : IsField isSlash (spelled s) := by
  intro p hp
  obtain ⟨c, hc, rfl⟩ := List.mem_map.mp hp
  rcases spelledChar_fits c with he | he
  · rw [he]
    rfl
  · rw [he]
    exact hs c hc

theorem IsSegs.spelled (hs : IsSegs ss) : IsSegs (ss.map spelled) := by
  intro p hp
  obtain ⟨s, hmem, rfl⟩ := List.mem_map.mp hp
  exact ⟨fun h => (hs s hmem).1 (List.map_eq_nil_iff.mp h), spelled_field (hs s hmem).2⟩

end Latkit
