import Latkit.Spans

/-! What a drain of the span ring emits, over every interleaving of observations and drains. -/

namespace Latkit.Spans

theorem readAt_writeAt (arena : Nat → Byte) (addr : Nat) (bytes : List Byte) :
    readAt (writeAt arena addr bytes) addr bytes.length = bytes := by
  apply List.ext_getElem
  · simp [readAt]
  · intro i _ hi
    simp [readAt, writeAt, hi]

theorem readAt_writeAt_of_disjoint (h : addr + len ≤ addr' ∨ addr' + bytes.length ≤ addr) (arena : Nat → Byte) :
    readAt (writeAt arena addr' bytes) addr len = readAt arena addr len := by
  apply List.map_congr_left
  intro i hi
  have hlt := List.mem_range.mp hi
  exact if_neg (by omega)

structure Holds (s : LkSpans) (slot : Nat) (mine : Own) : Prop where
  body : (s.ring slot).body = some mine.body
  text : (s.ring slot).text = mine.text.map fun t => (slot * s.cfg.textMax, t.length)
  http : (s.ring slot).http = mine.http.map fun _ => slot
  fits : ∀ t ∈ mine.text, t.length ≤ s.cfg.textMax
  stored : ∀ t ∈ mine.text, readAt s.textArena (slot * s.cfg.textMax) t.length = t
  attrs : ∀ h ∈ mine.http, s.httpArena slot = some h

def Own.parts (mine : Own) : Option SpanBody × Option (List Byte) × Option SpanHttp := (some mine.body, mine.text, mine.http)

theorem Holds.seen (h : Holds s slot mine) : (seen s slot).own = mine.parts := by
  refine Prod.ext h.body (Prod.ext ?_ ?_)
  · change (s.ring slot).text.map _ = mine.text
    rw [h.text]
    cases hm : mine.text with
    | none => rfl
    | some t => exact congrArg some (h.stored t hm)
  · change (s.ring slot).http.bind _ = mine.http
    rw [h.http]
    cases hm : mine.http with
    | none => rfl
    | some a => exact h.attrs a hm

theorem Holds.of_eq (h : Holds s slot mine) (hcfg : s'.cfg = s.cfg) (hring : s'.ring slot = s.ring slot)
    (htext : s'.textArena = s.textArena) (hhttp : s'.httpArena = s.httpArena) : Holds s' slot mine := by
  constructor
  · rw [hring]
    exact h.body
  · rw [hring, hcfg]
    exact h.text
  · rw [hring]
    exact h.http
  · rw [hcfg]
    exact h.fits
  · rw [htext, hcfg]
    exact h.stored
  · rw [hhttp]
    exact h.attrs

theorem place_holds (s : LkSpans) (slot : Nat) (ids : SpanIds) (hfits : ∀ t ∈ mine.text, t.length ≤ s.cfg.textMax) :
    Holds (place s slot ids mine) slot mine := by
  have hring : (place s slot ids mine).ring slot = _ := Function.update_self ..
  refine ⟨by rw [hring], by rw [hring]; rfl, by rw [hring], hfits, ?_, ?_⟩
  · intro t ht
    rw [Option.mem_def] at ht
    simp only [place, ht]
    exact readAt_writeAt _ _ _
  · intro h hh
    rw [Option.mem_def] at hh
    simp only [place, hh]
    exact Function.update_self ..

theorem slots_disjoint {slot slot' len len' n : Nat} (hne : slot ≠ slot') (hlen : len ≤ n) (hlen' : len' ≤ n) :
    slot * n + len ≤ slot' * n ∨ slot' * n + len' ≤ slot * n := by
  rcases Nat.lt_or_gt_of_ne hne with hlt | hlt
  · have hmul := Nat.mul_le_mul_right n hlt
    rw [Nat.succ_mul] at hmul
    omega
  · have hmul := Nat.mul_le_mul_right n hlt
    rw [Nat.succ_mul] at hmul
    omega

theorem Holds.place (h : Holds s slot mine) (hne : slot ≠ slot') (ids : SpanIds)
    (hfits : ∀ t ∈ other.text, t.length ≤ s.cfg.textMax) : Holds (place s slot' ids other) slot mine := by
  have hring : (Spans.place s slot' ids other).ring slot = s.ring slot := Function.update_of_ne hne ..
  refine ⟨by rw [hring]; exact h.body, by rw [hring]; exact h.text, by rw [hring]; exact h.http, h.fits, ?_, ?_⟩
  · intro t ht
    have hread := h.stored t ht
    cases ho : other.text with
    | none =>
      simp only [Spans.place, ho]
      exact hread
    | some u =>
      simp only [Spans.place, ho]
      rw [readAt_writeAt_of_disjoint (slots_disjoint hne (h.fits t ht) (hfits u ho))]
      exact hread
  · intro a ha
    have hattrs := h.attrs a ha
    cases ho : other.http with
    | none =>
      simp only [Spans.place, ho]
      exact hattrs
    | some b =>
      simp only [Spans.place, ho]
      rw [Function.update_of_ne hne]
      exact hattrs

structure Queued (s : LkSpans) (queue : List Own) : Prop where
  count : s.count = queue.length
  room : queue.length ≤ lkSpanBuf
  head : s.head < lkSpanBuf
  holds : ∀ i mine, queue[i]? = some mine → Holds s ((s.head + i) % lkSpanBuf) mine

theorem slot_ne (hi : i < j) (hj : j < lkSpanBuf) (head : Nat) : (head + i) % lkSpanBuf ≠ (head + j) % lkSpanBuf := by
  rw [lkSpanBuf] at *
  omega

theorem Queued.push (h : Queued s queue) (hroom : queue.length < lkSpanBuf) (ids : SpanIds)
    (hfits : ∀ t ∈ mine.text, t.length ≤ s.cfg.textMax) (hcfg : s'.cfg = s.cfg) (hhead : s'.head = s.head)
    (hcount : s'.count = s.count + 1) (hring : s'.ring = (place s ((s.head + s.count) % lkSpanBuf) ids mine).ring)
    (htext : s'.textArena = (place s ((s.head + s.count) % lkSpanBuf) ids mine).textArena)
    (hhttp : s'.httpArena = (place s ((s.head + s.count) % lkSpanBuf) ids mine).httpArena) :
    Queued s' (queue ++ [mine]) := by
  have hlen := h.count
  refine ⟨by rw [hcount, hlen, List.length_append]; rfl, by rw [List.length_append]; exact hroom, hhead ▸ h.head, ?_⟩
  intro i other hi
  rw [hhead]
  refine Holds.of_eq (s := place s ((s.head + s.count) % lkSpanBuf) ids mine) ?_ hcfg (by rw [hring]) htext hhttp
  rcases Nat.lt_trichotomy i queue.length with hlt | heq | hgt
  · rw [List.getElem?_append_left hlt] at hi
    refine (h.holds i other hi).place ?_ ids hfits
    rw [hlen]
    exact slot_ne hlt hroom s.head
  · rw [heq, List.getElem?_concat_length] at hi
    cases hi
    rw [heq, hlen]
    exact place_holds s _ ids hfits
  · rw [List.getElem?_eq_none (by rw [List.length_append]; exact hgt)] at hi
    cases hi

theorem Queued.pop (h : Queued s (mine :: queue)) : Queued { s with
    ring := Function.update s.ring s.head { s.ring s.head with text := none }
    head := (s.head + 1) % lkSpanBuf
    count := s.count - 1 } queue := by
  have hroom := h.room
  rw [List.length_cons] at hroom
  refine ⟨by rw [h.count]; rfl, Nat.le_of_succ_le hroom, Nat.mod_lt _ (by decide), ?_⟩
  intro i other hi
  have hlt : i < queue.length := (List.getElem?_eq_some_iff.mp hi).1
  have hslot : ((s.head + 1) % lkSpanBuf + i) % lkSpanBuf = (s.head + (i + 1)) % lkSpanBuf := by
    rw [Nat.mod_add_mod, Nat.add_right_comm, Nat.add_assoc]
  have hne : (s.head + (i + 1)) % lkSpanBuf ≠ s.head := by
    have hdiff := slot_ne (Nat.succ_pos i) (show i + 1 < lkSpanBuf by omega) s.head
    rw [Nat.add_zero, Nat.mod_eq_of_lt h.head] at hdiff
    exact hdiff.symm
  change Holds _ (((s.head + 1) % lkSpanBuf + i) % lkSpanBuf) other
  rw [hslot]
  exact (h.holds (i + 1) other hi).of_eq rfl (Function.update_of_ne hne ..) rfl rfl

inductive SpanEv where
  | query (o : Obs)
  | drain

def since (evs : List SpanEv) : List Obs :=
  evs.foldl (fun before ev => match ev with | .query o => before ++ [o] | .drain => []) []

def spansDue (cfg : SpansCfg) (obs : List Obs) : List Own :=
  ((obs.filter (shouldSample cfg)).take lkSpanBuf).map (own cfg)

structure Kept (cfg : SpansCfg) (obs : List Obs) (st : LkSpans × Nat) : Prop where
  cfg_eq : st.1.cfg = cfg
  queued : Queued st.1 (spansDue cfg obs)
  account : st.1.sampledTotal = UInt64.ofNat st.2 + st.1.droppedTotal + UInt64.ofNat st.1.count

end Latkit.Spans
