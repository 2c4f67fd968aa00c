import Latkit.Pipeline
import Latkit.Record

/-! The records of the ring, as the kernel lays them out and as `decode.c` reads them. -/

namespace Latkit

def lkEvDecode (buf : List Byte) : EvView :=
  let hdr : EvHdr := ⟨UInt64.ofNat (le64 buf), UInt32.ofNat (le32 (buf.drop 16)), le64 (buf.drop 8)⟩
  let type := buf.getD 20 0
  let dir := buf.getD 21 0
  let flags := le16 (buf.drop 22)
  if buf.length < 24 then .short
  else if type = 1 ∨ type = 2 then
    if buf.length < 80 then .short
    else if type = 2 then .connClose hdr
    else .connOpen hdr ⟨UInt16.ofNat (le16 (buf.drop 64))⟩ (flags.testBit 2)
  else if type = 0 then
    if buf.length < 40 then .short
    else if 1 < dir then .unknown
    else .data hdr (if dir = 0 then .send else .recv) (le32 (buf.drop 24)) (le32 (buf.drop 28))
      ((buf.drop 40).take (le32 (buf.drop 32))) (flags.testBit 3)
  else .unknown

def evHdrBytes (hdr : EvHdr) (type dir : Byte) (flags : UInt16) (rest : List Byte) : List Byte :=
  leBytes 8 hdr.connId.toNat ++ (leBytes 8 hdr.ts ++ (leBytes 4 hdr.seq.toNat ++ ([type, dir] ++
    (leBytes 2 flags.toNat ++ rest))))

def dirByte : Dir → Byte
  | .send => 0
  | .recv => 1

/-- A record as the kernel fills it. In a data record `body` is the payload with what lies behind it, or less if the
record was cut; in the others `addrs` and `tail` stand before and behind the local port. -/
inductive EvRecord where
  | data (hdr : EvHdr) (dir : Dir) (flags : UInt16) (total off cap : UInt32) (body : List Byte)
  | conn (hdr : EvHdr) (close : Bool) (flags : UInt16) (addrs : List Byte) (tuple : Tuple) (tail : List Byte)

namespace EvRecord

def bytes : EvRecord → List Byte
  | data hdr dir flags total off cap body => evHdrBytes hdr 0 (dirByte dir) flags
      (leBytes 4 total.toNat ++ (leBytes 4 off.toNat ++ (leBytes 4 cap.toNat ++ (leBytes 4 0 ++ body))))
  | conn hdr close flags addrs tuple tail => evHdrBytes hdr (if close then 2 else 1) 0 flags
      (addrs ++ (leBytes 2 tuple.sport.toNat ++ tail))

def view : EvRecord → EvView
  | data hdr dir flags total off cap body =>
    .data hdr dir total.toNat off.toNat (body.take cap.toNat) (flags.toNat.testBit 3)
  | conn hdr close flags _ tuple _ => if close then .connClose hdr else .connOpen hdr tuple (flags.toNat.testBit 2)

def Fits : EvRecord → Prop
  | data hdr _ _ _ _ _ body => hdr.ts < 2 ^ 64 ∧ body.length + 40 < 2 ^ 32
  | conn hdr _ _ addrs _ tail => hdr.ts < 2 ^ 64 ∧ addrs.length = 40 ∧ tail.length = 14

end EvRecord

theorem evHdrBytes_read (hdr : EvHdr) (hts : hdr.ts < 2 ^ 64) (type dir : Byte) (flags : UInt16) (rest : List Byte) :
    (⟨UInt64.ofNat (le64 (evHdrBytes hdr type dir flags rest)),
        UInt32.ofNat (le32 ((evHdrBytes hdr type dir flags rest).drop 16)),
        le64 ((evHdrBytes hdr type dir flags rest).drop 8)⟩ : EvHdr) = hdr ∧
      le16 ((evHdrBytes hdr type dir flags rest).drop 22) = flags.toNat ∧
      (evHdrBytes hdr type dir flags rest).length = rest.length + 24 := by
  have h8 : (evHdrBytes hdr type dir flags rest).drop 8 = leBytes 8 hdr.ts ++ _ := rfl
  have h16 : (evHdrBytes hdr type dir flags rest).drop 16 = leBytes 4 hdr.seq.toNat ++ _ := rfl
  have h22 : (evHdrBytes hdr type dir flags rest).drop 22 = leBytes 2 flags.toNat ++ _ := rfl
  rw [h8, h16, h22, evHdrBytes, le64_leBytes, le64_leBytes, le32_leBytes hdr.seq.toNat_lt, le16_leBytes,
    Nat.mod_eq_of_lt hdr.connId.toNat_lt, Nat.mod_eq_of_lt hts, Nat.mod_eq_of_lt flags.toNat_lt, UInt64.ofNat_toNat,
    UInt32.ofNat_toNat]
  exact ⟨rfl, rfl, rfl⟩

theorem EvRecord.decode (r : EvRecord) (hr : r.Fits) : lkEvDecode r.bytes = r.view ∧ r.bytes.length < 2 ^ 32 := by
  cases r with
  | data hdr dir flags total off cap body =>
    obtain ⟨hhdr, hflags, -⟩ := evHdrBytes_read hdr hr.1 0 (dirByte dir) flags (leBytes 4 total.toNat ++
      (leBytes 4 off.toNat ++ (leBytes 4 cap.toNat ++ (leBytes 4 0 ++ body))))
    refine ⟨?_, hr.2⟩
    change lkEvDecode (evHdrBytes ..) = .data hdr dir total.toNat off.toNat (body.take cap.toNat) _
    generalize hbuf : evHdrBytes hdr 0 (dirByte dir) flags _ = buf at hhdr hflags ⊢
    have hlength : buf.length = body.length + 40 := by rw [← hbuf]; rfl
    have htotal : le32 (buf.drop 24) = total.toNat := by rw [← hbuf]; exact le32_leBytes total.toNat_lt _
    have hoff : le32 (buf.drop 28) = off.toNat := by rw [← hbuf]; exact le32_leBytes off.toNat_lt _
    have hcap : le32 (buf.drop 32) = cap.toNat := by rw [← hbuf]; exact le32_leBytes cap.toNat_lt _
    have hbody : buf.drop 40 = body := by rw [← hbuf]; rfl
    have htype : buf.getD 20 0 = 0 := by rw [← hbuf]; rfl
    have hdir : buf.getD 21 0 = dirByte dir := by rw [← hbuf]; rfl
    simp only [lkEvDecode, hhdr, hflags, hlength, htotal, hoff, hcap, hbody, htype, hdir]
    rw [if_neg (by omega), if_neg (by decide), if_pos trivial, if_neg (by omega), if_neg (by cases dir <;> decide)]
    cases dir <;> rfl
  | conn hdr close flags addrs tuple tail =>
    obtain ⟨hts, haddrs, htail⟩ := hr
    obtain ⟨hhdr, hflags, hlength⟩ := evHdrBytes_read hdr hts (if close then 2 else 1) 0 flags
      (addrs ++ (leBytes 2 tuple.sport.toNat ++ tail))
    rw [List.length_append, List.length_append, haddrs, htail] at hlength
    have hport : (evHdrBytes hdr (if close then 2 else 1) 0 flags (addrs ++ (leBytes 2 tuple.sport.toNat ++ tail))).drop 64 =
        leBytes 2 tuple.sport.toNat ++ tail := List.drop_left' haddrs
    constructor
    · rw [bytes, lkEvDecode]
      simp only [hhdr, hflags, hlength, hport, le16_leBytes, Nat.mod_eq_of_lt tuple.sport.toNat_lt, UInt16.ofNat_toNat]
      cases close <;> rfl
    · rw [bytes, hlength]
      change 40 + (2 + 14) + 24 < _
      decide

/-- A recording is replayed into the state that its events led to when they were captured. -/
theorem replay_feeds (env : Env φ) (p : Pipeline φ) (recs : List { r : EvRecord // r.Fits }) :
    lkReplayMem (fun p buf => ((p.lkPipelineFeed env (lkEvDecode buf)).1, 0)) p (recording (recs.map (·.1.bytes))) =
      ((recs.map (·.1.view)).foldl (fun p v => (p.lkPipelineFeed env v).1) p, 0) := by
  have hsize : ∀ buf ∈ recs.map (·.1.bytes), buf.length < 2 ^ 32 := by
    intro buf hbuf
    obtain ⟨r, -, rfl⟩ := List.mem_map.mp hbuf
    exact (r.1.decode r.2).2
  have hviews : recs.map (·.1.view) = (recs.map (·.1.bytes)).map lkEvDecode := by
    rw [List.map_map]
    exact List.map_congr_left fun r _ => (r.1.decode r.2).1.symm
  rw [lkReplayMem_whole (fun p buf => (p.lkPipelineFeed env (lkEvDecode buf)).1) p hsize, hviews, List.foldl_map,
    List.foldl_map, List.foldl_map]

end Latkit
