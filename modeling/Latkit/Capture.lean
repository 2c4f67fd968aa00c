import Latkit.CallAccounting

/-! The kernel's side of a call: a chain of data events cut out of the caller's segments, and what the framer makes of
it. Sizes are of 32 bits and do not wrap. -/

namespace Latkit

def lkChunkSmall : Nat := 256
def lkChunkFull : Nat := 4096
def lkMaxSegs : Nat := 8
def lkMaxChunks : Nat := 8
def lkCapHeadersLimit : Nat := 64

/-- A segment of the caller's memory. -/
structure LkSeg where
  null : Bool := false
  bytes : List Byte
  deriving DecidableEq, Repr

/-- What becomes of a chunk: it is sent, with an empty payload if its page is gone, or the ring has no room for it. -/
inductive ChunkFate where
  | sent
  | unread
  | lost
  deriving DecidableEq, Repr

structure LkConnState where
  seq : UInt32 := 0
  dropped : UInt32 := 0
  gapPending : Bool := false
  deriving DecidableEq, Repr

structure CapEv where
  seq : UInt32
  trunc : Bool
  gap : Bool
  data : EvData
  deriving DecidableEq, Repr

/-- A chunk takes its number before its room in the ring; `src` is what there is to read at its base. -/
def emitChunk (st : LkConnState) (ts total off : Nat) (null : Bool) (src : List Byte) (trunc : Bool) (chunkSz : Nat)
    (fate : ChunkFate) : LkConnState × Option CapEv :=
  if fate = .lost then ({ seq := st.seq + 1, dropped := st.dropped + 1, gapPending := true }, none)
  else
    let payload := if null ∨ fate = .unread then [] else src.take chunkSz
    ({ st with seq := st.seq + 1, gapPending := false },
      some
        { seq := st.seq
          trunc := trunc || (payload = [] && total ≠ 0)
          gap := st.gapPending
          data := { ts, totalLen := total, off, payload, decrypted := false } })

/-- The first segment with bytes left. -/
def seekSeg : Nat → List LkSeg → Nat × List LkSeg
  | _, [] => (0, [])
  | soff, seg :: segs => if soff < seg.bytes.length then (soff, seg :: segs) else seekSeg 0 segs

def chunkLoop (ts : Nat → Nat) (fate : Nat → ChunkFate) (total : Nat) (trunc : Bool) :
    Nat → LkConnState → Nat → List LkSeg → Nat → Nat → LkConnState × List CapEv
  | 0, st, _, _, _, _ => (st, [])
  | n + 1, st, soff, segs, pos, budget =>
    if budget = 0 then (st, [])
    else
      match seekSeg soff segs with
      | (_, []) => (st, [])
      | (soff, seg :: segs) =>
        let src := (seg.bytes.drop soff).take budget
        let chunkSz := if src.length ≤ lkChunkSmall then lkChunkSmall else lkChunkFull
        match emitChunk st (ts n) total pos seg.null src trunc chunkSz (fate n) with
        | (st, none) => (st, [])
        | (st, some ev) =>
          let done := ev.data.payload.length
          if done = 0 then (st, [ev])
          else
            let (st, evs) := chunkLoop ts fate total trunc n st (soff + done) (seg :: segs) (pos + done) (budget - done)
            (st, ev :: evs)

/-- One send or receive call, and what the kernel finds when it captures it: the port's budget, whether the connection
is cut to its headers, whether a cursor is free, and the clock and the fate of each chunk. -/
structure SysCall where
  total : Nat
  segs : List LkSeg
  capBudget : Nat
  headers : Bool := false
  cursor : Bool := true
  ts : Nat → Nat := fun _ => 0
  fate : Nat → ChunkFate := fun _ => .sent
  fits : total < 2 ^ 32

def SysCall.captured (call : SysCall) : List LkSeg := call.segs.take lkMaxSegs

def SysCall.budget (call : SysCall) : Nat :=
  let budget := if call.headers ∧ lkCapHeadersLimit < call.capBudget then lkCapHeadersLimit else call.capBudget
  min (min budget call.total) (call.captured.map (·.bytes.length)).sum

def emitDataChunks (st : LkConnState) (call : SysCall) : LkConnState × List CapEv :=
  let trunc : Bool := call.budget < call.total
  let single (trunc : Bool) : LkConnState × List CapEv :=
    let (st, ev) := emitChunk st (call.ts 0) call.total 0 true [] trunc lkChunkSmall (call.fate 0)
    (st, ev.toList)
  if call.budget = 0 then single trunc
  else if !call.cursor then single (call.total ≠ 0 || trunc)
  else chunkLoop call.ts call.fate call.total trunc lkMaxChunks st 0 call.captured 0 call.budget

/-- The calls of a connection, each with the data events that reach the ring. -/
def captureRun : LkConnState → List SysCall → List (SysCall × List EvData)
  | _, [] => []
  | st, call :: calls =>
    let (st, evs) := emitDataChunks st call
    (call, evs.map CapEv.data) :: captureRun st calls

/-- One chunk behind the other from `pos` on; only the last one may be empty. -/
def Contiguous (total stop : Nat) : Nat → List EvData → Prop
  | _, [] => True
  | pos, ev :: evs => ev.totalLen = total ∧ ev.off = pos ∧ ev.stop ≤ stop ∧
    (evs = [] ∨ ev.off < ev.stop ∧ ev.stop < stop) ∧ Contiguous total stop ev.stop evs

theorem emitChunk_data (h : emitChunk st ts total off null src trunc chunkSz fate = (st', some ev)) :
    ev.data.totalLen = total ∧ ev.data.off = off ∧ ev.data.payload <+: src := by
  rw [emitChunk] at h
  split at h
  · cases h
  · cases h
    refine ⟨rfl, rfl, ?_⟩
    dsimp only
    split
    · exact List.nil_prefix
    · exact List.take_prefix ..

def segsFrom (soff : Nat) : List LkSeg → List Byte
  | [] => []
  | seg :: segs => seg.bytes.drop soff ++ segs.flatMap LkSeg.bytes

theorem segsFrom_zero (segs : List LkSeg) : segsFrom 0 segs = segs.flatMap LkSeg.bytes := by
  cases segs <;> rfl

theorem seekSeg_bytes (soff : Nat) (segs : List LkSeg) :
    segsFrom (seekSeg soff segs).1 (seekSeg soff segs).2 = segsFrom soff segs := by
  induction segs generalizing soff with
  | nil => rfl
  | cons seg segs ih =>
    rw [seekSeg]
    split
    · rfl
    · next hover => rw [ih, segsFrom_zero, segsFrom, List.drop_of_length_le (Nat.not_lt.mp hover), List.nil_append]

theorem chunkLoop_contiguous (ts : Nat → Nat) (fate : Nat → ChunkFate) (total : Nat) (trunc : Bool) (n : Nat) (st : LkConnState)
    (soff : Nat) (segs : List LkSeg) (pos budget : Nat) :
    Contiguous total (pos + budget) pos ((chunkLoop ts fate total trunc n st soff segs pos budget).2.map CapEv.data) ∧
      ((chunkLoop ts fate total trunc n st soff segs pos budget).2.map CapEv.data).flatMap EvData.payload <+:
        segsFrom soff segs := by
  induction n generalizing st soff segs pos budget with
  | zero => exact ⟨trivial, List.nil_prefix⟩
  | succ n ih =>
    rw [chunkLoop, ← seekSeg_bytes soff segs]
    split
    · exact ⟨trivial, List.nil_prefix⟩
    next hbudget =>
    generalize seekSeg soff segs = found
    obtain ⟨soff, _ | ⟨seg, segs⟩⟩ := found
    · exact ⟨trivial, List.nil_prefix⟩
    dsimp only
    split
    · exact ⟨trivial, List.nil_prefix⟩
    next st' ev hev =>
    obtain ⟨htotal, hoff, hsrc⟩ := emitChunk_data hev
    have hseg : ev.data.payload <+: seg.bytes.drop soff := hsrc.trans (List.take_prefix ..)
    have hlen : ev.data.payload.length ≤ budget := by
      have hle := hsrc.length_le
      rw [List.length_take] at hle
      omega
    have hstop : ev.data.stop = pos + ev.data.payload.length := by rw [EvData.stop, hoff]
    split
    · next hnone =>
      refine ⟨⟨htotal, hoff, by omega, .inl rfl, trivial⟩, ?_⟩
      rw [List.map_singleton, List.flatMap_singleton, List.length_eq_zero_iff.mp hnone]
      exact List.nil_prefix
    next hsome =>
    obtain ⟨hchain, hbytes⟩ := ih st' (soff + ev.data.payload.length) (seg :: segs) (pos + ev.data.payload.length)
      (budget - ev.data.payload.length)
    rw [show pos + ev.data.payload.length + (budget - ev.data.payload.length) = pos + budget by omega] at hchain
    rw [List.map_cons, List.flatMap_cons]
    refine ⟨⟨htotal, hoff, by omega, ?_, by rw [hstop]; exact hchain⟩, ?_⟩
    · by_cases hmore : budget - ev.data.payload.length = 0
      · left
        rw [hmore]
        cases n <;> rfl
      · right
        omega
    · obtain ⟨rest, hrest⟩ := hseg
      have hcut : seg.bytes.drop (soff + ev.data.payload.length) = rest := by
        rw [← List.drop_drop, ← hrest, List.drop_left]
      rw [segsFrom, ← hrest, List.append_assoc, List.prefix_append_right_inj]
      rwa [segsFrom, hcut] at hbytes

theorem emitDataChunks_contiguous (st : LkConnState) (call : SysCall) :
    (∃ stop ≤ call.total, Contiguous call.total stop 0 ((emitDataChunks st call).2.map CapEv.data)) ∧
      ((emitDataChunks st call).2.map CapEv.data).flatMap EvData.payload <+: call.segs.flatMap LkSeg.bytes := by
  have hsingle (trunc : Bool) :
      let evs := (emitChunk st (call.ts 0) call.total 0 true [] trunc lkChunkSmall (call.fate 0)).2.toList.map CapEv.data
      (∃ stop ≤ call.total, Contiguous call.total stop 0 evs) ∧ evs.flatMap EvData.payload <+: call.segs.flatMap LkSeg.bytes := by
    rcases hev : emitChunk st (call.ts 0) call.total 0 true [] trunc lkChunkSmall (call.fate 0) with ⟨st', _ | ev⟩
    · exact ⟨⟨0, Nat.zero_le _, trivial⟩, List.nil_prefix⟩
    · obtain ⟨htotal, hoff, hsrc⟩ := emitChunk_data hev
      have hnil := List.prefix_nil.mp hsrc
      have hstop : ev.data.stop = 0 := by rw [EvData.stop, hoff, hnil, List.length_nil]
      refine ⟨⟨0, Nat.zero_le _, htotal, hoff, Nat.le_of_eq hstop, .inl rfl, trivial⟩, ?_⟩
      simp [hnil]
  rw [emitDataChunks]
  dsimp only
  split
  · exact hsingle _
  split
  · exact hsingle _
  obtain ⟨hchain, hbytes⟩ := chunkLoop_contiguous call.ts call.fate call.total (call.budget < call.total) lkMaxChunks st
    0 call.captured 0 call.budget
  rw [Nat.zero_add] at hchain
  refine ⟨⟨_, ?_, hchain⟩, hbytes.trans ?_⟩
  · rw [SysCall.budget]
    omega
  · rw [segsFrom_zero, SysCall.captured]
    nth_rewrite 2 [← List.take_append_drop lkMaxSegs call.segs]
    rw [List.flatMap_append]
    exact List.prefix_append ..

theorem Contiguous.spread (h : Contiguous total stop pos evs) :
    (∀ ev ∈ evs, ev.totalLen = total ∧ ev.stop ≤ stop ∧ pos ≤ ev.off) ∧
      (evs.Pairwise fun a b => a.off < b.off ∧ a.stop ≤ b.off) ∧ ∀ ev ∈ evs.tail, ev.off < stop := by
  induction evs generalizing pos with
  | nil => exact ⟨by simp, List.Pairwise.nil, by simp⟩
  | cons ev evs ih =>
    obtain ⟨htotal, hoff, hstop, hmore, hrest⟩ := h
    obtain ⟨hall, hord, htail⟩ := ih hrest
    refine ⟨?_, List.pairwise_cons.mpr ⟨?_, hord⟩, ?_⟩
    · intro e he
      rcases List.mem_cons.mp he with rfl | he
      · exact ⟨htotal, hstop, Nat.le_of_eq hoff.symm⟩
      · obtain ⟨hsame, hin, hbehind⟩ := hall e he
        refine ⟨hsame, hin, ?_⟩
        rw [EvData.stop] at hbehind
        omega
    · intro e he
      have hbehind := (hall e he).2.2
      have hlt := (hmore.resolve_left (List.ne_nil_of_mem he)).1
      exact ⟨by omega, hbehind⟩
    · intro e he
      cases evs with
      | nil => cases he
      | cons next evs =>
        rcases List.mem_cons.mp he with rfl | he
        · rw [hrest.2.1]
          exact (hmore.resolve_left (List.cons_ne_nil _ _)).2
        · exact htail e he

theorem Contiguous.seen (h : Contiguous total stop pos evs) :
    (partsFrom total pos evs).flatMap Prim.seen = (evs.flatMap EvData.payload).map some ++
      List.replicate (total - pos - (evs.flatMap EvData.payload).length) none := by
  induction evs generalizing pos with
  | nil => exact gapPrims_seen pos total
  | cons ev evs ih =>
    obtain ⟨-, rfl, -, -, hrest⟩ := h
    rw [partsFrom, List.flatMap_append, List.flatMap_append, gapPrims_seen, dataPrims_seen, ih hrest, Nat.sub_self,
      List.flatMap_cons, List.map_append, List.length_append, EvData.stop, Nat.sub_sub, Nat.sub_sub, Nat.add_assoc]
    simp

/-- What the framer is to see of a call: the bytes that were captured, as they stand in the caller's memory, and a hole
for the rest; nothing of a call whose first chunk was lost. -/
def SysCall.cells (call : SysCall) (evs : List EvData) : List (Option Byte) :=
  let size := (evs.flatMap EvData.payload).length
  if evs = [] then []
  else ((call.segs.flatMap LkSeg.bytes).take size).map some ++ List.replicate (call.total - size) none

/-- Whatever budgets cut, pages lack and the ring refuses, the chunks of a call arrive as one interval of its size. -/
theorem capture_exact {env : Env φ} (hst : StreamsKeepCall env) (dir : Dir) (s : Reasm × FConn φ) (st : LkConnState)
    (calls : List SysCall) (hplain : PlainRun env dir s ((captureRun st calls).flatMap Prod.snd)) :
    ((lkReasmRun env dir s ((captureRun st calls).flatMap Prod.snd)).2 ++
        ((lkReasmRun env dir s ((captureRun st calls).flatMap Prod.snd)).1.2.frame dir).pending).flatMap Prim.seen =
      (s.2.frame dir).pending.flatMap Prim.seen ++ (captureRun st calls).flatMap fun c => c.1.cells c.2 := by
  induction calls generalizing s st with
  | nil => exact (List.append_nil _).symm
  | cons call calls ih =>
    rw [captureRun, List.flatMap_cons] at hplain ⊢
    obtain ⟨hp, hps⟩ := hplain.append
    obtain ⟨⟨stop, hle, hchain⟩, hbytes⟩ := emitDataChunks_contiguous st call
    dsimp only at hp hps ⊢
    generalize (emitDataChunks st call).2.map CapEv.data = evs at hp hps hchain hbytes ⊢
    have hrest := ih _ _ hps
    have hone : ((lkReasmRun env dir s evs).2 ++ ((lkReasmRun env dir s evs).1.2.frame dir).pending).flatMap Prim.seen =
        (s.2.frame dir).pending.flatMap Prim.seen ++ call.cells evs := by
      by_cases hnil : evs = []
      · rw [hnil, SysCall.cells, if_pos rfl, List.append_nil]
        rfl
      · obtain ⟨hall, hord, htail⟩ := hchain.spread
        have hstarts : evs.head?.map EvData.off = some 0 := by
          cases evs with
          | nil => exact absurd rfl hnil
          | cons ev evs => exact congrArg some hchain.2.1
        have hcall := lkReasmRun_call hst dir s
          ⟨call.total, evs, call.fits, fun ev hev => (hall ev hev).1, fun ev hev => (hall ev hev).2.1.trans hle, hord, hstarts⟩
          (fun ev hev => Nat.lt_of_lt_of_le (htail ev hev) hle) hp
        rw [hcall, List.flatMap_append, Call.parts, hchain.seen, SysCall.cells, if_neg hnil, Nat.sub_zero,
          List.prefix_iff_eq_take.mp hbytes]
        simp
    rw [lkReasmRun_append, List.append_assoc, List.flatMap_append, hrest, List.flatMap_cons, ← List.append_assoc,
      ← List.flatMap_append, hone, List.append_assoc]

/-- A call of two segments that the budget cuts, and one that the ring has no room for. -/
def twoSysCalls : List SysCall :=
  [{ total := 3, segs := [{ bytes := [1] }, { bytes := [2, 3] }], capBudget := 2, fits := by decide },
    { total := 5, segs := [{ bytes := [7] }], capBudget := 8, fate := fun _ => .lost, fits := by decide }]

theorem capture_exact_two :
    ((lkReasmRun passiveEnv .recv ({}, { cookie := 1, ops := some .mysql })
        ((captureRun {} twoSysCalls).flatMap Prod.snd)).2 ++
      ((lkReasmRun passiveEnv .recv ({}, { cookie := 1, ops := some .mysql })
        ((captureRun {} twoSysCalls).flatMap Prod.snd)).1.2.frame .recv).pending).flatMap Prim.seen =
      [some 1, some 2, none] := by
  have hevs : (captureRun {} twoSysCalls).flatMap Prod.snd = [⟨0, 3, 0, [1], false⟩, ⟨0, 3, 1, [2], false⟩] := by decide
  have hcells := capture_exact passiveEnv_keepsCall .recv ({}, { cookie := 1, ops := some .mysql }) {} twoSysCalls (by
    rw [hevs]
    exact ⟨by decide, by decide, trivial⟩)
  rw [hcells]
  decide

end Latkit
