import Latkit.ChunkingInvariance
import Latkit.FrameCall

namespace Latkit

def EvData.stop (ev : EvData) : Nat := ev.off + ev.payload.length

/-- One call of a direction, as it arrives: chunks of one `total_len` at increasing offsets, anything
between and behind them uncaptured. -/
structure Call where
  total : Nat
  chunks : List EvData
  fits : total < 2 ^ 32
  same : ∀ ev ∈ chunks, ev.totalLen = total
  inside : ∀ ev ∈ chunks, ev.stop ≤ total
  ordered : chunks.Pairwise fun a b => a.off < b.off ∧ a.stop ≤ b.off
  starts : chunks.head?.map EvData.off = some 0

def Call.Inward (call : Call) : Prop := ∀ ev ∈ call.chunks.tail, ev.off < call.total

def byteAt (evs : List EvData) (i : Nat) : Option Byte :=
  (evs.find? fun ev => ev.off ≤ i && i < ev.stop).bind fun ev => ev.payload[i - ev.off]?

def Call.cells (call : Call) : List (Option Byte) := (List.range call.total).map (byteAt call.chunks)

def gapPrims (pos off : Nat) : List Prim := if off > pos then [.hole (off - pos)] else []

def dataPrims (ev : EvData) : List Prim :=
  if ev.payload = [] then [] else [.bytes ev.payload ev.ts]

/-- The primitives that make up the rest of a call from `pos` on, its tail being one hole. -/
def partsFrom (total : Nat) : Nat → List EvData → List Prim
  | pos, [] => gapPrims pos total
  | pos, ev :: evs => gapPrims pos ev.off ++ dataPrims ev ++ partsFrom total ev.stop evs

def Call.parts (call : Call) : List Prim := partsFrom call.total 0 call.chunks

def Frame.pending (f : Frame) : List Prim := gapPrims f.callPos f.callTotal

/-- A run of data events of one direction, and everything handed to the framer on the way. -/
def lkReasmRun (env : Env φ) (dir : Dir) :
    Reasm × FConn φ → List EvData → (Reasm × FConn φ) × List Prim
  | s, [] => (s, [])
  | s, ev :: evs =>
    let (s, ps) := lkReasmData env s.1 s.2 dir ev
    let (s, qs) := lkReasmRun env dir s evs
    (s, ps ++ qs)

def ConnFlags.plain (fl : ConnFlags) : Bool := !(fl.cancel || fl.ignore || fl.tls)

/-- No event of the run finds the connection in a TLS, cancel or ignore state. -/
def PlainRun (env : Env φ) (dir : Dir) : Reasm × FConn φ → List EvData → Prop
  | _, [] => True
  | s, ev :: evs => s.2.flags.plain = true ∧ PlainRun env dir (lkReasmData env s.1 s.2 dir ev).1 evs

/-- The call of size `total` is accounted for up to `pos`; at its end the counters are cleared. -/
def Accounted (total pos : Nat) (f : Frame) : Prop :=
  f.call = if pos < total then (pos, total) else (0, 0)

theorem Accounted.pending (h : Accounted total pos f) : f.pending = gapPrims pos total := by
  have hpend : f.pending = gapPrims f.call.1 f.call.2 := rfl
  rw [hpend, h]
  split
  · rfl
  · next hle => simp [gapPrims, hle]

section
variable {env : Env φ}

theorem openCall_first (env : Env φ) (dir : Dir) (s : Reasm × FConn φ)
    (h0 : ev.off = 0) :
    (openCall env dir ev s).2 = (s.2.frame dir).pending ∧
      ((openCall env dir ev s).1.2.frame dir).call = (0, ev.totalLen) := by
  simp only [openCall, h0, if_true, updFrame_frame]
  exact ⟨rfl, rfl⟩

theorem openCall_next (dir : Dir) (h0 : ev.off ≠ 0) (hc : (s.2.frame dir).callTotal ≠ 0) :
    openCall env dir ev s = (s, []) := by
  simp only [openCall, h0, hc, if_false]

theorem alignChunk_gap (hst : StreamsKeepCall env) (dir : Dir) (s : Reasm × FConn φ)
    (hc : (s.2.frame dir).call = (pos, ev.totalLen)) (hpos : pos ≤ ev.off)
    (hstop : ev.stop ≤ ev.totalLen) :
    (alignChunk env dir ev s).2 = gapPrims pos ev.off ∧
      ((alignChunk env dir ev s).1.2.frame dir).call = (ev.off, ev.totalLen) := by
  obtain ⟨hp, ht⟩ := Prod.mk.inj hc
  have hok : ¬ (ev.totalLen ≠ (s.2.frame dir).callTotal ∨ ev.off < (s.2.frame dir).callPos ∨
      ev.off + ev.payload.length > ev.totalLen) := by
    rw [hp, ht]
    simp only [EvData.stop] at hstop
    omega
  rw [alignChunk, if_neg hok, hp, gapPrims]
  split
  · refine ⟨rfl, ?_⟩
    have hk := framePrims_call hst dir s [.hole (ev.off - pos)]
    rw [updFrame_frame, Frame.call, ← ht]
    exact Prod.ext rfl (Prod.mk.inj hk).2
  · next hle =>
    obtain rfl : pos = ev.off := by omega
    exact ⟨rfl, hc⟩

theorem boundaryResync_call (ops : ProtoOps φ) (dir : Dir) (ev : EvData) (s : Reasm × FConn φ) :
    ((boundaryResync env ops dir ev s).2.frame dir).call = (s.2.frame dir).call := by
  simp only [boundaryResync]
  split
  · simp only [doResync, deliver, FConn.frame_mapFlags, updFrame_frame]
    rfl
  · rfl

theorem closeChunk_accounted (hc : f.call = (ev.off, ev.totalLen)) (hfits : ev.totalLen < 2 ^ 32)
    (hstop : ev.stop ≤ ev.totalLen) : Accounted ev.totalLen ev.stop (closeChunk ev f) := by
  obtain ⟨-, ht⟩ := Prod.mk.inj hc
  have hmod : (ev.off + ev.payload.length) % 2 ^ 32 = ev.stop := Nat.mod_eq_of_lt (by
    simp only [EvData.stop] at hstop
    omega)
  simp only [closeChunk, hmod, ht, Accounted]
  by_cases hlt : ev.stop < ev.totalLen
  · rw [if_neg (Nat.not_le_of_lt hlt), if_pos hlt]
    rfl
  · rw [if_pos (Nat.le_of_not_lt hlt), if_neg hlt]
    rfl

theorem lkReasmData_spec (hst : StreamsKeepCall env) (dir : Dir) (r : Reasm) (c : FConn φ)
    (hplain : c.flags.plain = true) (hfits : ev.totalLen < 2 ^ 32) (hstop : ev.stop ≤ ev.totalLen)
    (hopen : ((openCall env dir ev (r, c.pin)).1.2.frame dir).call = (pos, ev.totalLen))
    (hpos : pos ≤ ev.off) :
    (lkReasmData env r c dir ev).2 =
        (openCall env dir ev (r, c.pin)).2 ++ gapPrims pos ev.off ++ dataPrims ev ∧
      Accounted ev.totalLen ev.stop ((lkReasmData env r c dir ev).1.2.frame dir) := by
  have hgate : (c.pin.flags.cancel || c.pin.flags.ignore || (c.pin.flags.tls && !ev.decrypted)) =
      false := by
    simp only [ConnFlags.plain, Bool.not_eq_true', Bool.or_eq_false_iff] at hplain
    simp [hplain]
  simp only [lkReasmData, hgate, Bool.false_eq_true, if_false]
  obtain ⟨hgap, hcall⟩ := alignChunk_gap hst dir _ hopen hpos hstop
  refine ⟨by rw [hgap]; rfl, ?_⟩
  rw [updFrame_frame]
  apply closeChunk_accounted _ hfits hstop
  rw [framePrims_call hst, boundaryResync_call]
  exact hcall

theorem lkReasmData_first (hst : StreamsKeepCall env) (dir : Dir) (r : Reasm) (c : FConn φ)
    (hplain : c.flags.plain = true) (hfits : ev.totalLen < 2 ^ 32) (hstop : ev.stop ≤ ev.totalLen)
    (h0 : ev.off = 0) :
    (lkReasmData env r c dir ev).2 = (c.frame dir).pending ++ (gapPrims 0 ev.off ++ dataPrims ev) ∧
      Accounted ev.totalLen ev.stop ((lkReasmData env r c dir ev).1.2.frame dir) := by
  obtain ⟨htail, hcall⟩ := openCall_first env dir (r, c.pin) h0
  have h := lkReasmData_spec hst dir r c hplain hfits hstop hcall (Nat.zero_le _)
  rw [htail, List.append_assoc] at h
  rw [← c.pin_frame dir]
  exact h

theorem lkReasmData_next (hst : StreamsKeepCall env) (dir : Dir) (r : Reasm) (c : FConn φ)
    (hplain : c.flags.plain = true) (hfits : ev.totalLen < 2 ^ 32) (hstop : ev.stop ≤ ev.totalLen)
    (hacc : Accounted ev.totalLen pos (c.frame dir)) (hpos : pos ≤ ev.off) (h0 : ev.off ≠ 0)
    (hlt : ev.off < ev.totalLen) :
    (lkReasmData env r c dir ev).2 = gapPrims pos ev.off ++ dataPrims ev ∧
      Accounted ev.totalLen ev.stop ((lkReasmData env r c dir ev).1.2.frame dir) := by
  have hcall : (c.pin.frame dir).call = (pos, ev.totalLen) := by
    rw [c.pin_frame, hacc, if_pos (by omega)]
  have hopen : openCall env dir ev (r, c.pin) = ((r, c.pin), []) := by
    apply openCall_next dir h0
    rw [show (c.pin.frame dir).callTotal = ev.totalLen from (Prod.mk.inj hcall).2]
    omega
  have h := lkReasmData_spec hst dir r c hplain hfits hstop (by rw [hopen]; exact hcall) hpos
  rw [hopen] at h
  exact h

theorem lkReasmRun_chunks (hst : StreamsKeepCall env) (dir : Dir) (evs : List EvData)
    (s : Reasm × FConn φ) (hplain : PlainRun env dir s evs) (hfits : total < 2 ^ 32)
    (hsame : ∀ ev ∈ evs, ev.totalLen = total) (hin : ∀ ev ∈ evs, ev.stop ≤ total)
    (hord : evs.Pairwise fun a b => a.off < b.off ∧ a.stop ≤ b.off)
    (hlt : ∀ ev ∈ evs, ev.off < total) (hpos : ∀ ev ∈ evs, ev.off ≠ 0 ∧ pos ≤ ev.off)
    (hacc : Accounted total pos (s.2.frame dir)) :
    (lkReasmRun env dir s evs).2 ++ ((lkReasmRun env dir s evs).1.2.frame dir).pending =
      partsFrom total pos evs := by
  induction evs generalizing s pos with
  | nil => exact hacc.pending
  | cons ev evs ih =>
    obtain ⟨h0, hle⟩ := hpos ev List.mem_cons_self
    obtain rfl := hsame ev List.mem_cons_self
    obtain ⟨hbehind, hord⟩ := List.pairwise_cons.1 hord
    obtain ⟨hhand, hacc'⟩ := lkReasmData_next hst dir s.1 s.2 hplain.1 hfits (hin ev List.mem_cons_self)
      hacc hle h0 (hlt ev List.mem_cons_self)
    have hrest := ih _ hplain.2 (fun e he => hsame e (List.mem_cons_of_mem _ he))
      (fun e he => hin e (List.mem_cons_of_mem _ he)) hord
      (fun e he => hlt e (List.mem_cons_of_mem _ he))
      (fun e he => ⟨Nat.ne_of_gt (Nat.lt_of_le_of_lt (Nat.zero_le _) (hbehind e he).1), (hbehind e he).2⟩)
      hacc'
    simp only [lkReasmRun, partsFrom, ← hrest, hhand, List.append_assoc]

theorem lkReasmRun_call (hst : StreamsKeepCall env) (dir : Dir) (s : Reasm × FConn φ) (call : Call)
    (hin : call.Inward) (hplain : PlainRun env dir s call.chunks) :
    (lkReasmRun env dir s call.chunks).2 ++
        ((lkReasmRun env dir s call.chunks).1.2.frame dir).pending =
      (s.2.frame dir).pending ++ call.parts := by
  obtain ⟨total, chunks, hfits, hsame, hinside, hord, hstarts⟩ := call
  cases chunks with
  | nil => cases hstarts
  | cons ev evs =>
    have h0 : ev.off = 0 := Option.some.inj hstarts
    obtain rfl := hsame ev List.mem_cons_self
    obtain ⟨hbehind, hord⟩ := List.pairwise_cons.1 hord
    obtain ⟨hhand, hacc⟩ := lkReasmData_first hst dir s.1 s.2 hplain.1 hfits
      (hinside ev List.mem_cons_self) h0
    have hrest := lkReasmRun_chunks hst dir evs _ hplain.2 hfits
      (fun e he => hsame e (List.mem_cons_of_mem _ he))
      (fun e he => hinside e (List.mem_cons_of_mem _ he)) hord hin
      (fun e he => ⟨Nat.ne_of_gt (Nat.lt_of_le_of_lt (Nat.zero_le _) (hbehind e he).1), (hbehind e he).2⟩)
      hacc
    simp only [lkReasmRun, Call.parts, partsFrom, ← hrest, hhand, List.append_assoc]

theorem lkReasmRun_append (dir : Dir) (s : Reasm × FConn φ) (xs ys : List EvData) :
    lkReasmRun env dir s (xs ++ ys) =
      ((lkReasmRun env dir (lkReasmRun env dir s xs).1 ys).1,
        (lkReasmRun env dir s xs).2 ++ (lkReasmRun env dir (lkReasmRun env dir s xs).1 ys).2) := by
  induction xs generalizing s with
  | nil => rfl
  | cons ev xs ih => simp only [List.cons_append, lkReasmRun, ih, List.append_assoc]

theorem PlainRun.append (h : PlainRun env dir s (xs ++ ys)) :
    PlainRun env dir s xs ∧ PlainRun env dir (lkReasmRun env dir s xs).1 ys := by
  induction xs generalizing s with
  | nil => exact ⟨trivial, h⟩
  | cons ev xs ih =>
    obtain ⟨hx, hy⟩ := ih h.2
    exact ⟨⟨h.1, hx⟩, hy⟩

theorem closeChunk_counted (ev : EvData) (f : Frame) :
    (closeChunk ev f).callPos ≤ (closeChunk ev f).callTotal := by
  simp only [closeChunk]
  split
  · exact Nat.le_refl _
  · next h => exact Nat.le_of_lt (Nat.lt_of_not_le h)

theorem lkReasmData_counted (dir : Dir) (r : Reasm) (c : FConn φ) (ev : EvData)
    (h : (c.frame dir).callPos ≤ (c.frame dir).callTotal) :
    ((lkReasmData env r c dir ev).1.2.frame dir).callPos ≤
      ((lkReasmData env r c dir ev).1.2.frame dir).callTotal := by
  simp only [lkReasmData]
  split
  · rw [c.pin_frame]
    exact h
  · rw [updFrame_frame]
    exact closeChunk_counted ev _

theorem lkReasmRun_counted (dir : Dir) (s : Reasm × FConn φ) (evs : List EvData)
    (h : (s.2.frame dir).callPos ≤ (s.2.frame dir).callTotal) :
    ((lkReasmRun env dir s evs).1.2.frame dir).callPos ≤
      ((lkReasmRun env dir s evs).1.2.frame dir).callTotal := by
  induction evs generalizing s with
  | nil => exact h
  | cons ev evs ih => exact ih _ (lkReasmData_counted dir s.1 s.2 ev h)

end

theorem gapPrims_seen (pos off : Nat) :
    (gapPrims pos off).flatMap Prim.seen = List.replicate (off - pos) none := by
  simp only [gapPrims]
  split
  · simp [Prim.seen]
  · next h => simp [Nat.sub_eq_zero_of_le (Nat.le_of_not_lt h)]

theorem dataPrims_seen (ev : EvData) : (dataPrims ev).flatMap Prim.seen = ev.payload.map some := by
  simp only [dataPrims]
  split
  · next h => simp [h]
  · simp [Prim.seen]

theorem byteAt_before (h : ∀ ev ∈ evs, i < ev.off) : byteAt evs i = none := by
  have hnone : evs.find? (fun ev => ev.off ≤ i && i < ev.stop) = none := by
    rw [List.find?_eq_none]
    intro ev hev
    simp [Nat.not_le_of_lt (h ev hev)]
  rw [byteAt, hnone]
  rfl

theorem byteAt_in (h : ev.off ≤ i) (h' : i < ev.stop) : byteAt (ev :: evs) i = ev.payload[i - ev.off]? := by
  simp [byteAt, h, h']

theorem byteAt_behind (h : ev.stop ≤ i) : byteAt (ev :: evs) i = byteAt evs i := by
  simp [byteAt, Nat.not_lt_of_le h]

theorem partsFrom_seen (evs : List EvData) (hle : pos ≤ total) (hin : ∀ ev ∈ evs, ev.stop ≤ total)
    (hord : evs.Pairwise fun a b => a.off < b.off ∧ a.stop ≤ b.off) (hpos : ∀ ev ∈ evs, pos ≤ ev.off) :
    (partsFrom total pos evs).flatMap Prim.seen =
      (List.range' pos (total - pos)).map (byteAt evs) := by
  induction evs generalizing pos with
  | nil =>
    rw [partsFrom, gapPrims_seen]
    have hnone : byteAt [] = fun _ => none := rfl
    rw [hnone, List.map_const', List.length_range']
  | cons ev evs ih =>
    obtain ⟨hbehind, hord⟩ := List.pairwise_cons.1 hord
    have hoff := hpos ev List.mem_cons_self
    have hstop := hin ev List.mem_cons_self
    have hlen : ev.stop = ev.off + ev.payload.length := rfl
    have hrest := ih hstop (fun e he => hin e (List.mem_cons_of_mem _ he)) hord
      (fun e he => (hbehind e he).2)
    have hsplit : List.range' pos (total - pos) = List.range' pos (ev.off - pos) ++
        (List.range' ev.off ev.payload.length ++ List.range' ev.stop (total - ev.stop)) := by
      obtain ⟨d, hd⟩ := Nat.exists_eq_add_of_le hoff
      rw [hlen, List.range'_append_1, hd, Nat.add_sub_cancel_left, List.range'_append_1]
      congr 1
      omega
    rw [partsFrom, List.flatMap_append, List.flatMap_append, gapPrims_seen, dataPrims_seen, hrest,
      hsplit, List.map_append, List.map_append, List.append_assoc]
    congr 1
    · rw [eq_comm, List.eq_replicate_iff]
      refine ⟨by simp, ?_⟩
      intro b hb
      obtain ⟨i, hi, rfl⟩ := List.mem_map.1 hb
      rw [List.mem_range'_1] at hi
      apply byteAt_before
      intro e he
      rcases List.mem_cons.1 he with rfl | he
      · omega
      · have := (hbehind e he).1
        omega
    congr 1
    · apply List.ext_getElem
      · simp
      · intro i h₁ h₂
        rw [List.length_map] at h₁
        rw [List.getElem_map, List.getElem_map, List.getElem_range', byteAt_in (by omega) (by omega)]
        simp [h₁]
    · apply List.map_congr_left
      intro i hi
      rw [List.mem_range'_1] at hi
      exact (byteAt_behind hi.1).symm

theorem Call.parts_seen (call : Call) : call.parts.flatMap Prim.seen = call.cells := by
  rw [Call.parts, partsFrom_seen call.chunks (Nat.zero_le _) call.inside call.ordered
    (fun _ _ => Nat.zero_le _), Nat.sub_zero, ← List.range_eq_range']
  rfl

/-- Call accounting: what is handed to the framer, followed by the tail still pending, is what was
pending before followed by the calls' intervals, each byte once and in order, with the tail of a call
as one hole before the next call; `call_pos` never passes `call_total`. -/
theorem call_accounting {env : Env φ} (hst : StreamsKeepCall env) (dir : Dir) (s : Reasm × FConn φ)
    (hcount : (s.2.frame dir).callPos ≤ (s.2.frame dir).callTotal) (calls : List Call)
    (hin : ∀ call ∈ calls, call.Inward) (hplain : PlainRun env dir s (calls.flatMap Call.chunks)) :
    (lkReasmRun env dir s (calls.flatMap Call.chunks)).2 ++
        ((lkReasmRun env dir s (calls.flatMap Call.chunks)).1.2.frame dir).pending =
      (s.2.frame dir).pending ++ calls.flatMap Call.parts ∧
    (∀ call ∈ calls, call.parts.flatMap Prim.seen = call.cells) ∧
    ∀ k, ((lkReasmRun env dir s ((calls.flatMap Call.chunks).take k)).1.2.frame dir).callPos ≤
      ((lkReasmRun env dir s ((calls.flatMap Call.chunks).take k)).1.2.frame dir).callTotal := by
  refine ⟨?_, fun call _ => call.parts_seen, fun k => lkReasmRun_counted dir s _ hcount⟩
  clear hcount
  induction calls generalizing s with
  | nil => exact (List.append_nil _).symm
  | cons call calls ih =>
    obtain ⟨hcall, hcalls⟩ := List.forall_mem_cons.1 hin
    rw [List.flatMap_cons] at hplain
    obtain ⟨hp, hps⟩ := hplain.append
    have hone := lkReasmRun_call hst dir s call hcall hp
    have hrest := ih _ hcalls hps
    rw [List.flatMap_cons, lkReasmRun_append, List.append_assoc, hrest, ← List.append_assoc, hone,
      List.flatMap_cons, List.append_assoc]

def twoCalls : List Call :=
  [⟨9, [⟨1, 9, 0, [1, 2], false⟩, ⟨2, 9, 4, [5], false⟩], by decide, by decide, by decide, by decide, rfl⟩,
    ⟨1, [⟨3, 1, 0, [7], false⟩], by decide, by decide, by decide, by decide, rfl⟩]

theorem passiveEnv_keepsCall : StreamsKeepCall passiveEnv :=
  ⟨fun _ _ _ _ _ _ => rfl, fun _ _ _ _ _ => rfl⟩

theorem call_accounting_two_calls :
    (lkReasmRun passiveEnv .recv ({}, { cookie := 1, ops := some .mysql })
        (twoCalls.flatMap Call.chunks)).2 =
      [.bytes [1, 2] 1, .hole 2, .bytes [5] 2, .hole 4, .bytes [7] 3] := by
  have h := (call_accounting passiveEnv_keepsCall .recv
    ({}, { cookie := 1, ops := some .mysql }) (Nat.le_refl _) twoCalls
    (by simp [twoCalls, Call.Inward]) ⟨by decide, by decide, by decide, trivial⟩).1
  have hpend : ((lkReasmRun passiveEnv .recv ({}, { cookie := 1, ops := some .mysql })
      (twoCalls.flatMap Call.chunks)).1.2.frame .recv).pending = [] := by decide
  rw [hpend, List.append_nil] at h
  rw [h]
  decide

/-- An empty chunk at the very end of a call that is already accounted for opens the call anew: its
one byte is handed over a second time, as a hole. -/
theorem call_accounting_empty_end_chunk :
    ∃ call : Call, call.total = 1 ∧ ¬ call.Inward ∧
      PlainRun passiveEnv .recv ({}, { cookie := 1 }) call.chunks ∧
      (lkReasmRun passiveEnv .recv ({}, { cookie := 1 }) call.chunks).2 =
        [.bytes [7] 1, .hole 1] ∧
      call.cells = [some 7] := by
  refine ⟨⟨1, [⟨1, 1, 0, [7], false⟩, ⟨2, 1, 1, [], false⟩], by decide, by decide, by decide, by decide,
    rfl⟩, rfl, ?_, ⟨by decide, by decide, trivial⟩, by decide, by decide⟩
  simp [Call.Inward]

end Latkit
