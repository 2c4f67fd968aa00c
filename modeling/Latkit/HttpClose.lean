import Latkit.HttpLengths
import Latkit.HttpUnits

namespace Latkit

/-! Two readings of one response head: where the framer runs a body to the socket's end, and where the handler says so. -/

def chunkedLast (fs : List HttpField) : Bool :=
  (fs.filter HttpField.isTe).getLast?.any fun f => spanEqCi (httpListLast f.val) "chunked"

def LkHttpDialect.KeepsMethod (d : LkHttpDialect) : Prop := ∀ f r, (d.respField f r).2.methodId = r.2.methodId

theorem lkHttpDialectBase_keepsMethod (resolve : LkHttpCfg → HttpUnit → LkRouteOut) :
    (lkHttpDialectBase resolve).KeepsMethod := fun _ _ => rfl

theorem chunkedLast_snoc (fs : List HttpField) (f : HttpField) :
    chunkedLast (fs ++ [f]) = if f.isTe then spanEqCi (httpListLast f.val) "chunked" else chunkedLast fs := by
  rw [chunkedLast, List.filter_append, List.filter_singleton]
  cases f.isTe with
  | true => simp
  | false => simp [chunkedLast]

theorem framing_chunked (fs : List HttpField) : (fs.foldl httpFramingField {}).teChunked = chunkedLast fs := by
  induction fs using List.reverseRecOn with
  | nil => rfl
  | append_singleton fs f ih =>
    rw [List.foldl_append, List.foldl_cons, List.foldl_nil, chunkedLast_snoc, ← ih, httpFramingField]
    cases hte : f.isTe with
    | true =>
      have hcl := isTe_not_isCl hte
      rw [HttpField.isTe] at hte
      rw [HttpField.isCl] at hcl
      rw [hcl, if_neg (by decide), if_pos hte, if_pos rfl]
    | false =>
      rw [HttpField.isTe] at hte
      rw [hte]
      repeat' split
      all_goals first | rfl | contradiction

theorem httpRespField_lengths {d : LkHttpDialect} (hd : d.KeepsMethod) (r : HttpRespRead) (f : HttpField) :
    (httpRespField d r f).haveCl = (r.haveCl || f.isCl && (httpParseContentLength f.val).isSome) ∧
      (httpRespField d r f).tePresent = (r.tePresent || f.isTe) ∧
      (httpRespField d r f).u.methodId = r.u.methodId := by
  have hmethod := hd f (r.dr, r.u)
  rw [httpRespField]
  dsimp only
  by_cases hcl : spanEqCi f.name "content-length" = true
  · have hte : f.isTe = false := isCl_not_isTe hcl
    rw [if_pos hcl, HttpField.isCl, hcl, hte, Bool.or_false, Bool.true_and]
    exact ⟨rfl, rfl, hmethod⟩
  · rw [if_neg hcl, HttpField.isCl, Bool.eq_false_iff.mpr hcl, Bool.false_and, Bool.or_false, HttpField.isTe]
    by_cases hte : spanEqCi f.name "transfer-encoding" = true
    · rw [if_pos hte, hte, Bool.or_true]
      exact ⟨rfl, rfl, hmethod⟩
    · rw [if_neg hte, Bool.eq_false_iff.mpr hte, Bool.or_false]
      split
      · exact ⟨rfl, rfl, hmethod⟩
      · exact ⟨rfl, rfl, hmethod⟩

theorem respFields_lengths {d : LkHttpDialect} (hd : d.KeepsMethod) (fs : List HttpField) (r : HttpRespRead) :
    (fs.foldl (httpRespField d) r).haveCl =
        (r.haveCl || fs.any fun f => f.isCl && (httpParseContentLength f.val).isSome) ∧
      (fs.foldl (httpRespField d) r).tePresent = (r.tePresent || fs.any HttpField.isTe) ∧
      (fs.foldl (httpRespField d) r).u.methodId = r.u.methodId := by
  induction fs generalizing r with
  | nil => simp
  | cons f fs ih =>
    obtain ⟨hcl, hte, hmethod⟩ := ih (httpRespField d r f)
    obtain ⟨hcl', hte', hmethod'⟩ := httpRespField_lengths hd r f
    rw [List.foldl_cons, hcl, hte, hmethod, hcl', hte', hmethod', List.any_cons, List.any_cons, Bool.or_assoc,
      Bool.or_assoc]
    exact ⟨rfl, rfl, rfl⟩

theorem framing_parsed (fs : List HttpField) (h : (fs.foldl httpFramingField {}).badCl = false) :
    ∀ f ∈ fs, f.isCl = true → (httpParseContentLength f.val).isSome = true := by
  induction fs using List.reverseRecOn with
  | nil => exact nofun
  | append_singleton fs f ih =>
    rw [List.foldl_append, List.foldl_cons, List.foldl_nil, httpFramingField] at h
    generalize fs.foldl httpFramingField {} = fr at h ih
    have hkeep : fr.badCl = false ∧ (f.isCl = true → (httpParseContentLength f.val).isSome = true) := by
      rw [HttpField.isCl]
      split at h
      · next hcl =>
        split at h
        · cases h
        · next v hv =>
          split at h
          · cases h
          · exact ⟨h, fun _ => by rw [hv]; rfl⟩
      · next hcl =>
        refine ⟨?_, fun hf => absurd hf hcl⟩
        split at h
        · exact h
        · split at h
          · split at h
            · exact h
            · split at h
              · exact h
              · split at h <;> exact h
          · exact h
    intro g hg hcl
    rcases List.mem_append.mp hg with hg | hg
    · exact ih hkeep.1 g hg hcl
    · rw [List.mem_singleton.mp hg] at hcl ⊢
      exact hkeep.2 hcl

theorem PassedHead.haveCl (h : PassedHead dir head line fr) :
    ((headFields head).any fun f => f.isCl && (httpParseContentLength f.val).isSome) = fr.haveCl := by
  rw [(h.framing.cl h.badCl).1, Bool.eq_iff_iff, List.any_eq_true, List.any_eq_true]
  have hparsed := framing_parsed (headFields head) (h.fields ▸ h.badCl)
  constructor
  · rintro ⟨f, hf, hcl⟩
    exact ⟨f, hf, (Bool.and_eq_true_iff.mp hcl).1⟩
  · rintro ⟨f, hf, hcl⟩
    exact ⟨f, hf, Bool.and_eq_true_iff.mpr ⟨hcl, hparsed f hf hcl⟩⟩

def Tells (P : HttpEvent → Prop) (s s' : HttpFrame) : Prop := ∃ l, s'.out = s.out ++ l ∧ ∀ e ∈ l, P e

theorem Tells.nothing {s s' : HttpFrame} (h : s'.out = s.out) : Tells P s s' := ⟨[], by rw [h, List.append_nil], nofun⟩

theorem Tells.trans (h : Tells P s s₁) (h' : Tells P s₁ s') : Tells P s s' := by
  obtain ⟨l, hl, hp⟩ := h
  obtain ⟨l', hl', hp'⟩ := h'
  refine ⟨l ++ l', by rw [hl', hl, List.append_assoc], ?_⟩
  intro e he
  rcases List.mem_append.mp he with he | he
  · exact hp e he
  · exact hp' e he

theorem Tells.drop (h : Tells P s s') (he : e ∈ s'.out.drop s.out.length) : P e := by
  obtain ⟨l, hl, hp⟩ := h
  rw [hl, List.drop_left] at he
  exact hp e he

def HeadOf (head : List Byte) (code : Nat) (e : HttpEvent) : Prop :=
  ∀ m, e = .msg .send m → m.type = lkHttpMsgResp → m.body = head ∧ (code = 101 ∨ 200 ≤ code)

theorem tells_emit {head : List Byte} (h : m.type = lkHttpMsgResp → m.body = head ∧ (code = 101 ∨ 200 ≤ code))
    (s : HttpFrame) : Tells (HeadOf head code) s (httpEmit .send m s) := by
  refine ⟨_, rfl, ?_⟩
  intro e he m' heq htype
  rw [List.mem_singleton.mp he] at heq
  cases heq
  exact h htype

theorem tells_other (head : List Byte) (code : Nat) (h : m.type ≠ lkHttpMsgResp) (s : HttpFrame) :
    Tells (HeadOf head code) s (httpEmit .send m s) :=
  tells_emit (fun htype => absurd htype h) s

theorem tells_note (head : List Byte) (code : Nat) (n : LkHttpNote) (ts : Nat) (s : HttpFrame) :
    Tells (HeadOf head code) s (httpNote .send n ts s) :=
  tells_other head code (show lkHttpMsgNote ≠ lkHttpMsgResp by decide) s

theorem tells_bodyEnd (head : List Byte) (code ts : Nat) (s : HttpFrame) :
    Tells (HeadOf head code) s (httpBodyEnd .send ts s) :=
  (tells_other head code (show lkHttpMsgEnd ≠ lkHttpMsgResp by decide) s).trans (.nothing (HttpFrame.out_mapD ..))

theorem tells_noteLf (head : List Byte) (code : Nat) (lfOnly : Bool) (ts : Nat) (s : HttpFrame) :
    Tells (HeadOf head code) s (noteLf .send lfOnly ts s) := by
  rw [noteLf]
  split
  · exact (Tells.nothing rfl).trans (tells_note head code .lfOnly ts { s with lfNoted := true })
  · exact .nothing rfl

theorem pendPop_out (s : HttpFrame) : (pendPop s).1.out = s.out := by
  rw [pendPop]
  split <;> rfl

theorem tells_respBody (head : List Byte) (fr : HttpFraming) (rq : HttpRq) (code ts : Nat) (s : HttpFrame) :
    Tells (HeadOf head code) s (respBody fr rq code ts s) := by
  rw [respBody]
  split
  · exact (tells_bodyEnd head code ts s).trans (tells_note head code .blindConnect ts _)
  · split
    · exact tells_bodyEnd head code ts s
    · split
      · exact .nothing (HttpFrame.out_mapD ..)
      · split
        · exact .nothing (HttpFrame.out_mapD ..)
        · split
          · split
            · exact .nothing (HttpFrame.out_mapD ..)
            · exact tells_bodyEnd head code ts s
          · exact .nothing (HttpFrame.out_mapD ..)

theorem tells_respAccept (errBody : Bool) (head : List Byte) (code : Nat) (fr : HttpFraming) (lfOnly : Bool) (ts : Nat)
    (s : HttpFrame) : Tells (HeadOf head code) s (respAccept errBody head code fr lfOnly ts s) := by
  have hlf := tells_noteLf head code lfOnly ts s
  have hpop : Tells (HeadOf head code) s (pendPop (noteLf .send lfOnly ts s)).1 := hlf.trans (.nothing (pendPop_out _))
  rw [respAccept]
  split
  · next hcode =>
    refine hpop.trans ((tells_emit (fun _ => ?_) _).trans ((tells_bodyEnd head code ts _).trans (tells_note head code _ ts _)))
    exact ⟨rfl, .inl hcode⟩
  · split
    · exact hlf.trans ((tells_other head code (show lkHttpMsgInter ≠ lkHttpMsgResp by decide) _).trans
        (.nothing (HttpFrame.out_mapD ..)))
    · next hcode =>
      refine hpop.trans ((tells_emit (fun _ => ?_) _).trans
        (Tells.trans (.nothing (HttpFrame.out_mapD ..)) (tells_respBody head fr _ code ts _)))
      exact ⟨rfl, .inr (by omega)⟩

theorem noteLf_pop (lfOnly : Bool) (ts : Nat) (s : HttpFrame) :
    (pendPop (noteLf .send lfOnly ts s)).2 = (pendPop s).2 := by
  rw [noteLf]
  split
  · cases hp : s.pend <;> simp [pendPop, httpNote, httpEmit, HttpFrame.mapD, HttpFrame.setD, hp]
  · rfl

theorem respAccept_close (hcode : code = 101 ∨ 200 ≤ code) (hconnect : (pendPop s).2.connect = false) :
    ((respAccept errBody head code fr lfOnly ts s).d .send).st = .close ↔
      code ≠ 101 ∧ ¬ ((pendPop s).2.head = true ∨ code = 204 ∨ code = 304) ∧ fr.teChunked = false ∧
        (fr.tePresent = true ∨ fr.haveCl = false) := by
  rw [respAccept]
  by_cases h101 : code = 101
  · rw [if_pos h101, httpGoBlind_st, httpBodyEnd_st]
    simp [h101]
  · have hge : ¬ code < 200 := by omega
    rw [if_neg h101, if_neg hge]
    dsimp only
    rw [noteLf_pop, respBody, hconnect]
    simp only [Bool.false_eq_true, false_and, if_false]
    by_cases hnone : (pendPop s).2.head = true ∨ code = 204 ∨ code = 304
    · rw [if_pos hnone, httpBodyEnd_st]
      simp [hnone]
    · rw [if_neg hnone]
      cases hch : fr.teChunked with
      | true => simp [enterChunk]
      | false =>
        cases hte : fr.tePresent with
        | true => simp [h101, hnone]
        | false =>
          cases hcl : fr.haveCl with
          | true =>
            simp only [Bool.false_eq_true, if_false, if_true]
            split
            · simp
            · rw [httpBodyEnd_st]
              simp
          | false => simp [h101, hnone]

/-- The heads for which the two readings differ: a switch of protocols without a length, and a final status with a
transfer coding other than chunked. -/
def CloseDiffers (code : Nat) (fs : List HttpField) (method : HttpMethod) : Prop :=
  (code = 101 ∧ fs.any HttpField.isCl = false ∧ fs.any HttpField.isTe = false ∧ method ≠ .head) ∨
    (200 ≤ code ∧ code ≠ 204 ∧ code ≠ 304 ∧ method ≠ .head ∧ fs.any HttpField.isTe = true ∧ chunkedLast fs = false)

theorem httpRespUnit_toClose {d : LkHttpDialect} (hd : d.KeepsMethod) (m : Msg) (code minor : Nat) (u : HttpUnit)
    (h : PassedHead .send head line fr) :
    (httpRespUnit d m code minor (headFields head) u).2.toClose = true ↔
      fr.haveCl = false ∧ fr.tePresent = false ∧ code ≠ 204 ∧ code ≠ 304 ∧ u.methodId ≠ .head := by
  obtain ⟨hcl, hte, hmethod⟩ := respFields_lengths hd (headFields head) { u := u }
  rw [Bool.false_or, h.haveCl] at hcl
  rw [Bool.false_or, ← h.framing.te] at hte
  rw [httpRespUnit]
  simp only [hcl, hte, hmethod, Bool.and_eq_true, Bool.not_eq_true', decide_eq_true_eq, and_assoc, ne_eq]

theorem headFields_resp (h : httpHeadLine { rest := head } = some (line, hd)) (hs : httpParseStatusLine line = some st) :
    httpReadResp head = some (st, headFields head) := by
  rw [httpReadResp, h, headFields, h]
  simp [hs]

/-- For a final response head that the framer publishes, framer and handler agree on a body that runs to the socket's
end exactly when the head is not of the two kinds above. -/
theorem closeDelimited_agree {d : LkHttpDialect} (hd : d.KeepsMethod) (errBody : Bool) (head : List Byte) (ts : Nat)
    (s : HttpFrame) (u : HttpUnit) (m : Msg)
    (hm : HttpEvent.msg .send m ∈ (respComplete errBody head ts s).out.drop s.out.length)
    (hfinal : m.type = lkHttpMsgResp) (hconnect : (pendPop s).2.connect = false)
    (hpair : (pendPop s).2.head = true ↔ u.methodId = .head) :
    ∃ code minor fields, httpReadResp m.body = some ((code, minor), fields) ∧
      (((httpRespUnit d m code minor fields u).2.toClose = true ↔
          ((respComplete errBody head ts s).d .send).st = .close) ↔
        ¬ CloseDiffers code fields u.methodId) := by
  rcases respComplete_cases errBody head ts s with ⟨n, heq⟩ | ⟨line, code, minor, fr, lfOnly, hstatus, hpassed, heq⟩
  · obtain ⟨-, -, m', hout, htype⟩ := httpBadHead_spec .send n ts s
    rw [heq, hout, List.drop_left] at hm
    cases List.mem_singleton.mp hm
    rw [htype] at hfinal
    exact absurd hfinal (by decide)
  · rw [heq] at hm ⊢
    obtain ⟨hbody, hcode⟩ := (tells_respAccept errBody head code fr lfOnly ts s).drop hm m rfl hfinal
    obtain ⟨h, hline⟩ := hpassed.first
    have hcl := (hpassed.framing.cl hpassed.badCl).1
    have hte := hpassed.framing.te
    have hchunked : fr.teChunked = chunkedLast (headFields head) := by rw [hpassed.fields, framing_chunked]
    have hpresent : fr.teChunked = true → fr.tePresent = true := fun hc => (hpassed.framing.chunked hc).1
    refine ⟨code, minor, headFields head, ?_, ?_⟩
    · rw [hbody]
      exact headFields_resp hline hstatus
    rw [httpRespUnit_toClose hd m code minor u hpassed, respAccept_close hcode hconnect, CloseDiffers, ← hcl, ← hte,
      ← hchunked, hpair]
    have hboth := hpassed.both
    rcases hcode with rfl | hge
    · cases fr.haveCl <;> cases fr.tePresent <;> simp
    · have h101 : code ≠ 101 := by omega
      cases hc : fr.teChunked with
      | true => simp [hpresent hc]
      | false =>
        by_cases hnone : u.methodId = .head ∨ code = 204 ∨ code = 304
        · rcases hnone with hhead | rfl | rfl
          · simp [h101, hhead]
          · simp
          · simp
        · obtain ⟨hhead, h204, h304⟩ : u.methodId ≠ .head ∧ code ≠ 204 ∧ code ≠ 304 := by simpa using hnone
          cases fr.haveCl <;> cases fr.tePresent <;> simp [h101, hge, hhead, h204, h304]

def endlessHead : List Byte := "HTTP/1.1 200 OK\r\n\r\n".toUTF8.toList
def endlessMsg : Msg := { ts := 0, type := lkHttpMsgResp, len := 19, body := endlessHead }

theorem closeDelimited_agree_endless :
    ∃ code minor fields, httpReadResp endlessMsg.body = some ((code, minor), fields) ∧
      (((httpRespUnit (lkHttpDialectBase fun _ _ => {}) endlessMsg code minor fields
            { tsStart := 1, methodId := .get }).2.toClose = true ↔
          ((respComplete false endlessHead 7 { pend := [{}] }).d .send).st = .close) ↔
        ¬ CloseDiffers code fields .get) :=
  closeDelimited_agree (lkHttpDialectBase_keepsMethod fun _ _ => {}) false endlessHead 7 { pend := [{}] }
    { tsStart := 1, methodId := .get } endlessMsg (by decide +kernel) rfl (by decide) (by decide)

def codedHead : List Byte := "HTTP/1.1 200 OK\r\nTransfer-Encoding: gzip\r\n\r\n".toUTF8.toList
def codedMsg : Msg := { ts := 0, type := lkHttpMsgResp, len := 44, body := codedHead }

/-- The framer reads that body until the socket closes; the handler takes the close for a cut. -/
theorem codedHead_differs :
    HttpEvent.msg .send codedMsg ∈ (respComplete false codedHead 7 { pend := [{}] }).out ∧
      ((respComplete false codedHead 7 { pend := [{}] }).d .send).st = .close ∧
      ((httpReadResp codedMsg.body).map fun r =>
        (httpRespUnit (lkHttpDialectBase fun _ _ => {}) codedMsg r.1.1 r.1.2 r.2
          { tsStart := 1, methodId := .get }).2.toClose) = some false := by
  refine ⟨by decide +kernel, by decide +kernel, by decide +kernel⟩

end Latkit
