import Latkit.MyGrammar

/-! Recordings of raw events, a magic and then every record behind its 32-bit size, and their replay. Writes to the
file and allocations succeed. -/

namespace Latkit

def lkRecordMagic : List Byte := "LKT1".toUTF8.toList

theorem le32_leBytes (hn : n < 2 ^ 32) (q : List Byte) : le32 (leBytes 4 n ++ q) = n := by
  simp only [leBytes, le32, le24, List.cons_append, List.getD_cons_zero, List.getD_cons_succ, UInt8.toNat_ofNat']
  omega

def lkRecorderOpen : List Byte := lkRecordMagic

def recordFrame (data : List Byte) : List Byte := leBytes 4 data.length ++ data

def lkRecorderWrite (file data : List Byte) : List Byte := file ++ recordFrame data

def replayLoop (fn : σ → List Byte → σ × Int) (ctx : σ) (p : List Byte) : σ × Int :=
  if p = [] then (ctx, 0)
  else if p.length < 4 then (ctx, -1)
  else if (p.drop 4).length < le32 p then (ctx, -1)
  else
    let res := fn ctx ((p.drop 4).take (le32 p))
    if res.2 ≠ 0 then res else replayLoop fn res.1 ((p.drop 4).drop (le32 p))
termination_by p.length
decreasing_by
  rw [List.length_drop, List.length_drop]
  omega

def lkReplayMem (fn : σ → List Byte → σ × Int) (ctx : σ) (buf : List Byte) : σ × Int :=
  if buf.length < lkRecordMagic.length ∨ buf.take lkRecordMagic.length ≠ lkRecordMagic then (ctx, -1)
  else replayLoop fn ctx (buf.drop lkRecordMagic.length)

def recording (records : List (List Byte)) : List Byte := records.foldl lkRecorderWrite lkRecorderOpen

def frames (records : List (List Byte)) : List Byte := records.flatMap recordFrame

theorem recording_eq (records : List (List Byte)) : recording records = lkRecordMagic ++ frames records := by
  have hall : ∀ file, records.foldl lkRecorderWrite file = file ++ frames records := by
    induction records with
    | nil => exact fun file => (List.append_nil file).symm
    | cons r records ih =>
      intro file
      rw [List.foldl_cons, ih, lkRecorderWrite, frames, frames, List.flatMap_cons, List.append_assoc]
  exact hall lkRecorderOpen

theorem recordFrame_length (r : List Byte) : (recordFrame r).length = 4 + r.length := by
  rw [recordFrame, List.length_append]
  rfl

section
variable {fn : σ → List Byte → σ × Int}

theorem replayLoop_frame (hfn : ∀ ctx r, (fn ctx r).2 = 0) (hr : r.length < 2 ^ 32) (ctx : σ) (p : List Byte) :
    replayLoop fn ctx (recordFrame r ++ p) = replayLoop fn (fn ctx r).1 p := by
  have hsize : le32 (recordFrame r ++ p) = r.length := by
    rw [recordFrame, List.append_assoc, le32_leBytes hr]
  have hbody : (recordFrame r ++ p).drop 4 = r ++ p := by
    rw [recordFrame, List.append_assoc]
    exact List.drop_left' rfl
  have hlen : (recordFrame r ++ p).length = 4 + r.length + p.length := by
    rw [List.length_append, recordFrame_length]
  have hne : recordFrame r ++ p ≠ [] := by
    intro hnil
    rw [hnil, List.length_nil] at hlen
    omega
  rw [replayLoop, if_neg hne, if_neg (by omega), hsize, hbody, List.length_append, if_neg (by omega), List.take_left,
    List.drop_left]
  exact if_neg (not_not.mpr (hfn ctx r))

theorem replayLoop_frames (hfn : ∀ ctx r, (fn ctx r).2 = 0) (hsize : ∀ r ∈ records, r.length < 2 ^ 32) (ctx : σ)
    (p : List Byte) :
    replayLoop fn ctx (frames records ++ p) = replayLoop fn (records.foldl (fun ctx r => (fn ctx r).1) ctx) p := by
  induction records generalizing ctx with
  | nil => rfl
  | cons r records ih =>
    rw [frames, List.flatMap_cons, List.append_assoc, replayLoop_frame hfn (hsize r List.mem_cons_self), List.foldl_cons]
    exact ih (fun r' hr' => hsize r' (List.mem_cons_of_mem r hr')) _

theorem replayLoop_torn (hr : r.length < 2 ^ 32) (htorn : p <+: recordFrame r) (hne : p ≠ [])
    (hshort : p.length < (recordFrame r).length) (ctx : σ) : replayLoop fn ctx p = (ctx, -1) := by
  rw [replayLoop, if_neg hne]
  rw [recordFrame_length] at hshort
  by_cases hfour : p.length < 4
  · rw [if_pos hfour]
  · have hcut : ∃ q, p = leBytes 4 r.length ++ q := by
      have hpre : leBytes 4 r.length <+: p :=
        List.prefix_of_prefix_length_le (List.prefix_append _ r) htorn (Nat.not_lt.mp hfour)
      obtain ⟨q, hq⟩ := hpre
      exact ⟨q, hq.symm⟩
    obtain ⟨q, rfl⟩ := hcut
    have hlen : (leBytes 4 r.length ++ q).length = 4 + q.length := List.length_append
    have hdrop : (leBytes 4 r.length ++ q).drop 4 = q := List.drop_left' rfl
    rw [if_neg hfour, le32_leBytes hr, hdrop, if_pos (by omega)]

theorem lkReplayMem_magic (ctx : σ) (p : List Byte) : lkReplayMem fn ctx (lkRecordMagic ++ p) = replayLoop fn ctx p := by
  have hok : ¬ ((lkRecordMagic ++ p).length < lkRecordMagic.length ∨
      (lkRecordMagic ++ p).take lkRecordMagic.length ≠ lkRecordMagic) := by
    rw [List.take_left, List.length_append]
    simp
  rw [lkReplayMem, if_neg hok, List.drop_left]

end

theorem frames_take (records : List (List Byte)) (hn : n < (frames records).length) :
    ∃ k r p, records[k]? = some r ∧ (frames records).take n = frames (records.take k) ++ p ∧
      p <+: recordFrame r ∧ p.length < (recordFrame r).length := by
  induction records generalizing n with
  | nil => exact absurd hn (Nat.not_lt_zero n)
  | cons r records ih =>
    have hcons : frames (r :: records) = recordFrame r ++ frames records := List.flatMap_cons
    rw [hcons, List.length_append] at hn
    by_cases hin : n < (recordFrame r).length
    · refine ⟨0, r, (recordFrame r).take n, rfl, ?_, List.take_prefix n _, ?_⟩
      · rw [hcons, List.take_append_of_le_length (Nat.le_of_lt hin)]
        rfl
      · rw [List.length_take]
        omega
    · obtain ⟨k, r', p, hget, htake, hpre, hshort⟩ := ih (n := n - (recordFrame r).length) (by omega)
      refine ⟨k + 1, r', p, hget, ?_, hpre, hshort⟩
      rw [hcons, List.take_append, List.take_of_length_le (Nat.not_lt.mp hin), htake, ← List.append_assoc]
      rfl

theorem frames_take_mono (records : List (List Byte)) (hjk : j ≤ k) :
    (frames (records.take j)).length ≤ (frames (records.take k)).length := by
  have hpre : records.take j <+: records.take k := List.take_prefix_take_left hjk
  obtain ⟨more, hmore⟩ := hpre
  rw [← hmore, frames, frames, List.flatMap_append, List.length_append]
  exact Nat.le_add_right _ _

theorem frames_take_succ {records : List (List Byte)} (hget : records[k]? = some r) :
    (frames (records.take (k + 1))).length = (frames (records.take k)).length + (recordFrame r).length := by
  rw [List.take_add_one, hget, frames, frames, List.flatMap_append, List.length_append]
  simp

/-- A recording replays to its records, and one cut elsewhere than behind a record to those that are whole. -/
theorem lkReplayMem_recording (fn : σ → List Byte → σ × Int) (hfn : ∀ ctx r, (fn ctx r).2 = 0)
    (records : List (List Byte)) (hsize : ∀ r ∈ records, r.length < 2 ^ 32) (ctx : σ) :
    lkReplayMem fn ctx (recording records) = (records.foldl (fun ctx r => (fn ctx r).1) ctx, 0) ∧
    ∀ n < (recording records).length, (∀ k ≤ records.length, n ≠ (recording (records.take k)).length) →
      ∃ k, (∀ j ≤ records.length, 0 < j → (j ≤ k ↔ (recording (records.take j)).length ≤ n)) ∧
        lkReplayMem fn ctx ((recording records).take n) =
          ((records.take k).foldl (fun ctx r => (fn ctx r).1) ctx, -1) := by
  constructor
  · rw [recording_eq, lkReplayMem_magic, ← List.append_nil (frames records), replayLoop_frames hfn hsize, replayLoop,
      if_pos rfl]
  · intro n hn hboundary
    simp only [recording_eq, List.length_append] at hn hboundary ⊢
    by_cases hmagic : n < lkRecordMagic.length
    · refine ⟨0, fun j _ hj => by omega, ?_⟩
      rw [lkReplayMem, if_pos (.inl (by rw [List.length_take]; omega))]
      rfl
    · have hrest : (lkRecordMagic ++ frames records).take n =
          lkRecordMagic ++ (frames records).take (n - lkRecordMagic.length) := by
        rw [List.take_append, List.take_of_length_le (Nat.not_lt.mp hmagic)]
      obtain ⟨k, r, p, hget, htake, hpre, hshort⟩ :=
        frames_take records (n := n - lkRecordMagic.length) (by omega)
      have hk : k < records.length := (List.getElem?_eq_some_iff.mp hget).1
      have hcut : n - lkRecordMagic.length = (frames (records.take k)).length + p.length := by
        have hlen := congrArg List.length htake
        rw [List.length_take, List.length_append] at hlen
        omega
      have hne : p ≠ [] := by
        rintro rfl
        have hno := hboundary k (Nat.le_of_lt hk)
        rw [List.length_nil] at hcut
        omega
      refine ⟨k, fun j hj _ => ?_, ?_⟩
      · constructor
        · intro hjk
          have hmono := frames_take_mono records hjk
          omega
        · intro hle
          by_contra hkj
          have hmono := frames_take_mono records (show k + 1 ≤ j by omega)
          rw [frames_take_succ hget] at hmono
          omega
      · have hwhole : ∀ r ∈ records.take k, r.length < 2 ^ 32 := fun r hr => hsize r (List.mem_of_mem_take hr)
        rw [hrest, lkReplayMem_magic, htake, replayLoop_frames hfn hwhole]
        exact replayLoop_torn (hsize r (List.mem_of_getElem? hget)) hpre hne hshort _

theorem lkReplayMem_recording_one :
    (∀ ctx r, ((fun ctx r => (ctx ++ [r], 0) : List (List Byte) → List Byte → List (List Byte) × Int) ctx r).2 = 0) ∧
      lkReplayMem (fun ctx r => (ctx ++ [r], 0)) [] (recording [[1, 2]]) = ([[1, 2]], 0) :=
  ⟨fun _ _ => rfl, (lkReplayMem_recording (fun ctx r => (ctx ++ [r], 0)) (fun _ _ => rfl) [[1, 2]] (by decide) []).1⟩

theorem leBytes_le32 (h : 4 ≤ p.length) : leBytes 4 (le32 p) = p.take 4 ∧ le32 p < 2 ^ 32 := by
  obtain ⟨a, b, c, d, q, rfl⟩ : ∃ a b c d q, p = a :: b :: c :: d :: q := by
    obtain _ | ⟨a, _ | ⟨b, _ | ⟨c, _ | ⟨d, q⟩⟩⟩⟩ := p <;> simp at h ⊢
  have ha := a.toNat_lt
  have hb := b.toNat_lt
  have hc := c.toNat_lt
  have hd := d.toNat_lt
  simp only [leBytes, le32, le24, List.getD_cons_zero, List.getD_cons_succ, List.take_succ_cons, List.take_zero,
    List.cons.injEq, and_true, ← UInt8.toNat_inj, UInt8.toNat_ofNat']
  omega

theorem replayLoop_accepts (fn : σ → List Byte → σ) (ctx : σ) (p : List Byte) :
    (∃ records, (∀ r ∈ records, r.length < 2 ^ 32) ∧ p = frames records) ∨
      (replayLoop (fun ctx r => (fn ctx r, 0)) ctx p).2 = -1 := by
  fun_induction replayLoop (fun ctx r => (fn ctx r, 0)) ctx p with
  | case1 => exact .inl ⟨[], by simp, rfl⟩
  | case2 => exact .inr rfl
  | case3 => exact .inr rfl
  | case4 _ _ _ _ _ _ hstop => exact absurd rfl hstop
  | case5 ctx p hne hfour hin res _ ih =>
    refine ih.imp_left ?_
    rintro ⟨records, hsize, hrest⟩
    obtain ⟨hsizeBytes, hlt⟩ := leBytes_le32 (Nat.not_lt.mp hfour)
    have hlen : ((p.drop 4).take (le32 p)).length = le32 p := List.length_take_of_le (Nat.not_lt.mp hin)
    refine ⟨(p.drop 4).take (le32 p) :: records, List.forall_mem_cons.mpr ⟨by rw [hlen]; exact hlt, hsize⟩, ?_⟩
    change p = recordFrame _ ++ frames records
    rw [recordFrame, hlen, hsizeBytes, ← hrest, List.append_assoc, List.take_append_drop, List.take_append_drop]

theorem lkReplayMem_whole (fn : σ → List Byte → σ) (ctx : σ) (hsize : ∀ r ∈ records, r.length < 2 ^ 32) :
    lkReplayMem (fun ctx r => (fn ctx r, 0)) ctx (recording records) = (records.foldl fn ctx, 0) := by
  rw [recording_eq, lkReplayMem_magic, ← List.append_nil (frames records), replayLoop_frames (fun _ _ => rfl) hsize,
    replayLoop, if_pos rfl]

/-- The replay accepts exactly what the recorder writes: any other buffer, torn or foreign, is refused. -/
theorem lkReplayMem_accepts (fn : σ → List Byte → σ) (ctx : σ) (buf : List Byte) :
    (∃ records, (∀ r ∈ records, r.length < 2 ^ 32) ∧ buf = recording records ∧
      lkReplayMem (fun ctx r => (fn ctx r, 0)) ctx buf = (records.foldl fn ctx, 0)) ∨
    (lkReplayMem (fun ctx r => (fn ctx r, 0)) ctx buf).2 = -1 ∧
      ∀ records, (∀ r ∈ records, r.length < 2 ^ 32) → buf ≠ recording records := by
  have hrefused : (lkReplayMem (fun ctx r => (fn ctx r, 0)) ctx buf).2 = -1 →
      ∀ records, (∀ r ∈ records, r.length < 2 ^ 32) → buf ≠ recording records := by
    rintro hrc records hsize rfl
    rw [lkReplayMem_whole fn ctx hsize] at hrc
    exact absurd hrc (show (0 : Int) ≠ -1 by decide)
  by_cases hmagic : buf.length < lkRecordMagic.length ∨ buf.take lkRecordMagic.length ≠ lkRecordMagic
  · have hrc : (lkReplayMem (fun ctx r => (fn ctx r, 0)) ctx buf).2 = -1 := by rw [lkReplayMem, if_pos hmagic]
    exact .inr ⟨hrc, hrefused hrc⟩
  · have hbuf : lkRecordMagic ++ buf.drop lkRecordMagic.length = buf := by
      conv_rhs => rw [← List.take_append_drop lkRecordMagic.length buf, not_not.mp (not_or.mp hmagic).2]
    rcases replayLoop_accepts fn ctx (buf.drop lkRecordMagic.length) with ⟨records, hsize, hframes⟩ | hrc
    · have hrec : buf = recording records := by rw [recording_eq, ← hframes, hbuf]
      exact .inl ⟨records, hsize, hrec, by rw [hrec, lkReplayMem_whole fn ctx hsize]⟩
    · rw [← lkReplayMem_magic, hbuf] at hrc
      exact .inr ⟨hrc, hrefused hrc⟩

end Latkit
