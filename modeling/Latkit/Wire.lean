import Mathlib

namespace Wire

/-- A length-prefixed wire format. In phase `ph` a header of `hdrSize ph` symbols tells the length of
the fragment behind it and whether the message goes on after that fragment. -/
structure Grammar (π β : Type) where
  hdrSize : π → Nat
  read : π → List β → Option (Nat × Bool)
  next : π → List β → π

/-- A message on the wire: the length of its body, the part of the body the stream holds, and whether
that part is enough for a reader who keeps the first symbols of every body. -/
structure Packet (β : Type) where
  size : Nat := 0
  body : List β := []
  due : Bool := false

def Packet.add (keep : Nat) (m : Packet β) (len : Nat) (frag : List β) : Packet β where
  size := m.size + len
  body := m.body ++ frag
  due := min (m.size + len) keep ≤ (m.body ++ frag).length && (len == 0 || !frag.isEmpty)

/-- The packets of a stream that stands at a header, `m` holding the fragments already read. -/
def Grammar.packets (g : Grammar π β) (keep : Nat) :
    Nat → π → Packet β → List β → List (Packet β)
  | 0, _, _, _ => []
  | fuel + 1, ph, m, x =>
    if x.length < g.hdrSize ph then []
    else
      match g.read ph (x.take (g.hdrSize ph)) with
      | none => []
      | some (len, more) =>
        let rest := x.drop (g.hdrSize ph)
        let m := m.add keep len (rest.take len)
        if more then g.packets keep fuel ph m (rest.drop len)
        else m :: g.packets keep fuel (g.next ph (m.body.take keep)) {} (rest.drop len)

def Packet.kept (keep : Nat) (m : Packet β) : List β := m.body.take (min m.size keep)

def Grammar.bodies (g : Grammar π β) (keep fuel : Nat) (ph : π) (m : Packet β) (x : List β) :
    List (List β) :=
  ((g.packets keep fuel ph m x).filter Packet.due).map (Packet.kept keep)

def Grammar.fragBodies (g : Grammar π β) (keep fuel : Nat) (ph : π) (m : Packet β) (len : Nat)
    (more : Bool) (rest : List β) : List (List β) :=
  let m := m.add keep len (rest.take len)
  if more then g.bodies keep fuel ph m (rest.drop len)
  else (if m.due then [m.kept keep] else []) ++
    g.bodies keep fuel (g.next ph (m.body.take keep)) {} (rest.drop len)

section
variable {g : Grammar π β} {keep : Nat}

theorem Grammar.bodies_short (h : x.length < g.hdrSize ph) (fuel : Nat) (m : Packet β) :
    g.bodies keep fuel ph m x = [] := by
  cases fuel <;> simp [Grammar.bodies, Grammar.packets, h]

theorem Grammar.bodies_read (hl : ¬ x.length < g.hdrSize ph)
    (hr : g.read ph (x.take (g.hdrSize ph)) = some (len, more)) (fuel : Nat) (m : Packet β) :
    g.bodies keep (fuel + 1) ph m x =
      g.fragBodies keep fuel ph m len more (x.drop (g.hdrSize ph)) := by
  simp only [Grammar.bodies, Grammar.packets, hl, if_false, hr, Grammar.fragBodies]
  cases more with
  | true => rfl
  | false =>
    simp only [Bool.false_eq_true, if_false, List.filter_cons]
    split <;> rfl

theorem Packet.add_body_le {m : Packet β} (h : m.body.length ≤ m.size) (keep len : Nat) (x : List β) :
    (m.add keep len (x.take len)).body.length ≤ (m.add keep len (x.take len)).size := by
  simp only [Packet.add, List.length_append, List.length_take]
  omega

theorem Packet.kept_eq {m : Packet β} (h : m.body.length ≤ m.size) (keep : Nat) :
    m.kept keep = m.body.take keep := by
  rw [Packet.kept]
  rcases Nat.le_total m.size keep with hk | hk
  · rw [Nat.min_eq_left hk, List.take_of_length_le h, List.take_of_length_le (by omega)]
  · rw [Nat.min_eq_right hk]

end

end Wire
