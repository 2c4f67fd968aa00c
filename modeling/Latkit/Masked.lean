import Mathlib

namespace Wire

/-- A symbol on the wire and whether the observer lost it. -/
structure Cell (β : Type) where
  sym : β
  lost : Bool := false
  deriving DecidableEq, Repr

def Cell.seen (x : Cell β) : Option β := if x.lost then none else some x.sym

/-- The symbols an observer has of a stream before the first one it lost. -/
def captured : List (Option β) → List β
  | some b :: z => b :: captured z
  | _ => []

/-- How headers are read: `read` takes what the message's last header told, if the message goes on,
and the symbols of the new one. -/
structure Reader (χ β : Type) where
  size : Nat
  read : Option χ → List β → Option χ
  len : χ → Nat
  more : χ → Bool

section
variable (rd : Reader χ β) (keep : Nat) (note : χ → List β → ν)

mutual

/-- A well-framed stream with losses in its bodies only. It stands before a header; `K` is the header
and the kept part of an unfinished message. The last index lists what a reader who keeps `keep`
symbols of every body still has to report. -/
inductive Ahead : Option (χ × List β) → List (Option β) → List ν → Prop
  | done : Ahead none [] []
  | frag (hr : rd.read (K.map Prod.fst) hdr = some h) (hs : hdr.length = rd.size)
      (hl : body.length = rd.len h)
      (hz : Behind h ((K.map Prod.snd).getD ((captured body).take keep)) z out) :
      Ahead K (hdr.map some ++ (body ++ z)) out

/-- The same behind a fragment whose message has kept `k`. -/
inductive Behind : χ → List β → List (Option β) → List ν → Prop
  | more (hm : rd.more h = true) (hz : Ahead (some (h, k)) z out) : Behind h k z out
  | last (hm : rd.more h = false) (hz : Ahead none z out) : Behind h k z (note h k :: out)

end

end

@[simp] theorem captured_nil : captured ([] : List (Option β)) = [] := rfl

@[simp] theorem captured_some_append (p : List β) (z : List (Option β)) :
    captured (p.map some ++ z) = p ++ captured z := by
  induction p with
  | nil => rfl
  | cons b p ih => simp only [List.map_cons, List.cons_append, captured, ih]

theorem captured_take (z : List (Option β)) (n : Nat) : captured (z.take n) = (captured z).take n := by
  induction z generalizing n with
  | nil => simp
  | cons x z ih =>
    cases n with
    | zero => simp
    | succ n =>
      cases x with
      | none => rfl
      | some b => simp only [List.take_succ_cons, captured, ih]

theorem captured_lost {body z y : List (Option β)} (h : body ++ z = none :: y) (hne : body ≠ []) :
    captured body = [] := by
  cases body with
  | nil => exact absurd rfl hne
  | cons b body =>
    obtain ⟨rfl, -⟩ := List.cons.inj h
    rfl

theorem captured_seen (body : List (Cell β)) :
    captured (body.map Cell.seen) = (body.takeWhile fun x => !x.lost).map Cell.sym := by
  induction body with
  | nil => rfl
  | cons x body ih =>
    cases hx : x.lost with
    | true => simp [Cell.seen, hx, captured]
    | false => simp [Cell.seen, hx, captured, ih]

theorem take_of_append_eq {p : List β} {body y z : List (Option β)}
    (h : p.map some ++ y = body ++ z) (n : Nat) (hp : n ≤ p.length) (hb : n ≤ body.length) :
    body = (p.take n).map some ++ body.drop n ∧
      (p.drop n).map some ++ y = body.drop n ++ z := by
  have htake := congrArg (List.take n) h
  rw [List.take_append_of_le_length (by simpa using hp), List.take_append_of_le_length hb] at htake
  have hdrop := congrArg (List.drop n) h
  rw [List.drop_append_of_le_length (by simpa using hp), List.drop_append_of_le_length hb] at hdrop
  rw [List.map_take, htake, List.take_append_drop, List.map_drop]
  exact ⟨rfl, hdrop⟩

theorem drop_append_comm {a b y z : List β} (h : a ++ y = b ++ z) :
    a.drop b.length ++ y = b.drop a.length ++ z := by
  obtain ⟨c, rfl, rfl⟩ | ⟨c, rfl, rfl⟩ := List.append_eq_append_iff.1 h
  · rw [List.drop_of_length_le (by simp), List.drop_left]
    rfl
  · rw [List.drop_of_length_le (l := b) (by simp), List.drop_left]
    rfl

/-- A stream standing inside a header: it ends there only at a boundary, and otherwise the rest of the
header is there. -/
theorem Ahead.cases_header {rd : Reader χ β} {note : χ → List β → ν}
    (h : Ahead rd keep note K (h₀.map some ++ z) out) (hlt : h₀.length < rd.size) :
    (h₀ = [] ∧ z = [] ∧ K = none ∧ out = []) ∨
      ∃ h₁ hd body y, h₁ ≠ [] ∧ z = h₁.map some ++ (body ++ y) ∧
        (h₀ ++ h₁).length = rd.size ∧ rd.read (K.map Prod.fst) (h₀ ++ h₁) = some hd ∧
        body.length = rd.len hd ∧
        Behind rd keep note hd ((K.map Prod.snd).getD ((captured body).take keep)) y out := by
  generalize hx : h₀.map some ++ z = x at h
  cases h with
  | done =>
    obtain ⟨h₁, h₂⟩ := List.append_eq_nil_iff.1 hx
    exact .inl ⟨List.map_eq_nil_iff.1 h₁, h₂, rfl, rfl⟩
  | @frag hdr hd y _ _ body hr hs hl hz =>
    have hle : h₀.length ≤ hdr.length := by omega
    obtain ⟨he, hrest⟩ := take_of_append_eq hx h₀.length (Nat.le_refl _) (by simpa using hle)
    have hhdr : hdr = h₀ ++ hdr.drop h₀.length := by
      rw [List.take_length, ← List.map_drop, ← List.map_append] at he
      exact (List.map_inj_right fun _ _ => Option.some.inj).1 he
    refine .inr ⟨hdr.drop h₀.length, hd, body, y, ?_, ?_, ?_, ?_, hl, hz⟩
    · intro hnil
      have := congrArg List.length hnil
      simp only [List.length_drop, List.length_nil] at this
      omega
    · rw [List.map_drop, ← hrest, List.drop_length]
      rfl
    · rw [← hhdr, hs]
    · rw [← hhdr, hr]

end Wire
