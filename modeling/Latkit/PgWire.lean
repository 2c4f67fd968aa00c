import Latkit.PgFrame

namespace Latkit

/-! The bounded cursor over a captured body is the list of its unread bytes. A getter that runs out
leaves nothing to read. -/

def pgWireGetU8 : List Byte → Option (Byte × List Byte)
  | [] => none
  | b :: w => some (b, w)

def pgWireGetU32 (w : List Byte) : Option (Nat × List Byte) :=
  if w.length < 4 then none else some (be32 w, w.drop 4)

def pgWireCstring (w : List Byte) : Bool × List Byte × List Byte :=
  if w.contains 0 then (true, w.takeWhile (· != 0), (w.dropWhile (· != 0)).drop 1)
  else (false, w, [])

theorem pgWireCstring_append {s : List Byte} (h : 0 ∉ s) (rest : List Byte) :
    pgWireCstring (s ++ 0 :: rest) = (true, s, rest) := by
  have hs : ∀ b ∈ s, (b != 0) = true := by
    intro b hb
    simp only [bne_iff_ne]
    rintro rfl
    exact h hb
  simp [pgWireCstring, List.takeWhile_append_of_pos hs, List.dropWhile_append_of_pos hs]

end Latkit
