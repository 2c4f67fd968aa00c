import Latkit.HttpFrame

namespace Latkit

/-! The body length a head decides, from any number of fields in any order. -/

namespace HttpFrame

@[simp] theorem d_setD (s : HttpFrame) (dir : Dir) (hd : HttpDir) : (s.setD dir hd).d dir = hd := by
  cases dir <;> rfl

@[simp] theorem d_setD_other (s : HttpFrame) (dir : Dir) (hd : HttpDir) :
    (s.setD dir hd).d dir.other = s.d dir.other := by
  cases dir <;> rfl

@[simp] theorem d_mapD (s : HttpFrame) (dir : Dir) (g : HttpDir → HttpDir) : (s.mapD dir g).d dir = g (s.d dir) := by
  cases dir <;> rfl

@[simp] theorem out_setD (s : HttpFrame) (dir : Dir) (hd : HttpDir) : (s.setD dir hd).out = s.out := by
  cases dir <;> rfl

@[simp] theorem pend_setD (s : HttpFrame) (dir : Dir) (hd : HttpDir) : (s.setD dir hd).pend = s.pend := by
  cases dir <;> rfl

@[simp] theorem out_mapD (s : HttpFrame) (dir : Dir) (g : HttpDir → HttpDir) : (s.mapD dir g).out = s.out :=
  out_setD s dir _

@[simp] theorem pend_mapD (s : HttpFrame) (dir : Dir) (g : HttpDir → HttpDir) : (s.mapD dir g).pend = s.pend :=
  pend_setD s dir _

end HttpFrame

@[simp] theorem httpEmit_d (dir : Dir) (m : Msg) (s : HttpFrame) :
    (httpEmit dir m s).d dir = { s.d dir with afterResync := false } := by
  cases dir <;> rfl

@[simp] theorem httpEmit_pend (dir : Dir) (m : Msg) (s : HttpFrame) : (httpEmit dir m s).pend = s.pend := by
  cases dir <;> rfl

theorem httpBadHead_spec (dir : Dir) (n : LkHttpNote) (ts : Nat) (s : HttpFrame) :
    ((httpBadHead dir n ts s).d dir).st = .scan ∧ (httpBadHead dir n ts s).pend = s.pend ∧
      ∃ m : Msg, (httpBadHead dir n ts s).out = s.out ++ [.msg dir m] ∧ m.type = lkHttpMsgNote := by
  refine ⟨?_, ?_, ?_⟩
  · rw [httpBadHead, httpGoScan, HttpFrame.d_mapD]
  · rw [httpBadHead, httpGoScan, HttpFrame.pend_mapD, httpNote, httpEmit_pend]
  · rw [httpBadHead, httpGoScan, HttpFrame.out_mapD]
    exact ⟨_, rfl, rfl⟩

def HttpField.isCl (f : HttpField) : Bool := spanEqCi f.name "content-length"
def HttpField.isTe (f : HttpField) : Bool := spanEqCi f.name "transfer-encoding"

def headFields (head : List Byte) : List HttpField :=
  match httpHeadLine { rest := head } with
  | none => []
  | some (_, h) => (httpHeadFields h).1

/-- Every member of every `Content-Length` writes this number, and none of the fields is empty. -/
def AgreedLength (fs : List HttpField) (v : Nat) : Prop :=
  ∀ f ∈ fs, f.isCl = true → httpListMembers f.val ≠ [] ∧
    ∀ m ∈ httpListMembers f.val, Numeral.value 10 httpDigit 0 m = some v

def codings (fs : List HttpField) : List (List Byte) := (fs.filter HttpField.isTe).flatMap fun f => httpListMembers f.val

theorem httpParseU64_value (h : httpParseU64 m = some v) : Numeral.value 10 httpDigit 0 m = some v := by
  rw [httpParseU64] at h
  split at h
  · cases h
  · exact Numeral.value_of_read h

theorem httpParseContentLength_agreed (h : httpParseContentLength val = some v) :
    httpListMembers val ≠ [] ∧ ∀ m ∈ httpListMembers val, Numeral.value 10 httpDigit 0 m = some v := by
  rw [httpParseContentLength] at h
  cases hm : httpListMembers val with
  | nil => rw [hm] at h; cases h
  | cons m ms =>
    rw [hm, List.map_cons] at h
    dsimp only at h
    split at h
    · next hall =>
      refine ⟨List.cons_ne_nil m ms, ?_⟩
      intro m' hmem
      rcases List.mem_cons.mp hmem with rfl | hmem
      · exact httpParseU64_value h
      · have heq := List.all_eq_true.mp hall _ (List.mem_map_of_mem hmem)
        exact httpParseU64_value ((beq_iff_eq.mp heq).trans h)
    · cases h

theorem isTe_not_isCl (h : HttpField.isTe f = true) : f.isCl = false := by
  rw [HttpField.isTe, spanEqCi, keyIs, beq_iff_eq] at h
  rw [HttpField.isCl, spanEqCi, h]
  decide +kernel

theorem isCl_not_isTe (h : HttpField.isCl f = true) : f.isTe = false := by
  by_contra hte
  rw [isTe_not_isCl (by simpa using hte)] at h
  cases h

structure FramingOf (fs : List HttpField) (fr : HttpFraming) : Prop where
  te : fr.tePresent = fs.any HttpField.isTe
  cl : fr.badCl = false → fr.haveCl = fs.any HttpField.isCl ∧ (fr.haveCl = true → AgreedLength fs fr.clen)
  chunked : fr.teChunked = true → fr.tePresent = true ∧ ∃ c, (codings fs).getLast? = some c ∧ spanEqCi c "chunked" = true

theorem codings_snoc (fs : List HttpField) (f : HttpField) :
    codings (fs ++ [f]) = codings fs ++ if f.isTe then httpListMembers f.val else [] := by
  rw [codings, List.filter_append, List.flatMap_append, ← codings, List.filter_singleton]
  cases f.isTe with
  | true => rw [cond_true, List.flatMap_singleton, if_pos rfl]
  | false => rfl

theorem AgreedLength.snoc (h : AgreedLength fs v)
    (hf : f.isCl = true → httpListMembers f.val ≠ [] ∧ ∀ m ∈ httpListMembers f.val, Numeral.value 10 httpDigit 0 m = some v) :
    AgreedLength (fs ++ [f]) v := by
  intro g hg hcl
  rcases List.mem_append.mp hg with hg | hg
  · exact h g hg hcl
  · rw [List.mem_singleton.mp hg] at hcl ⊢
    exact hf hcl

theorem AgreedLength.of_none (h : fs.any HttpField.isCl = false) (v : Nat) : AgreedLength fs v := by
  intro f hf hcl
  exact absurd hcl (by simpa using List.any_eq_false.mp h f hf)

theorem httpListLast_eq (v : List Byte) (h : spanEqCi (httpListLast v) "chunked" = true) :
    ∃ c, (httpListMembers v).getLast? = some c ∧ spanEqCi c "chunked" = true := by
  rw [httpListLast, List.getLastD_eq_getLast?] at h
  cases hl : (httpListMembers v).getLast? with
  | none =>
    rw [hl] at h
    exact absurd h (by decide +kernel)
  | some c =>
    rw [hl] at h
    exact ⟨c, rfl, h⟩

theorem framingOf_cl (h : FramingOf fs fr) (hcl : f.isCl = true) : FramingOf (fs ++ [f]) (httpFramingField fr f) := by
  have hte := isCl_not_isTe hcl
  have hany : (fs ++ [f]).any HttpField.isTe = fs.any HttpField.isTe := by
    rw [List.any_append, List.any_cons, hte]
    simp
  have hcodings : codings (fs ++ [f]) = codings fs := by
    rw [codings_snoc, hte]
    exact List.append_nil _
  rw [HttpField.isCl] at hcl
  rw [httpFramingField, if_pos hcl]
  cases hp : httpParseContentLength f.val with
  | none => exact ⟨h.te.trans hany.symm, nofun, by rw [hcodings]; exact h.chunked⟩
  | some v =>
    dsimp only
    split
    · exact ⟨h.te.trans hany.symm, nofun, by rw [hcodings]; exact h.chunked⟩
    · next hne =>
      refine ⟨h.te.trans hany.symm, ?_, by rw [hcodings]; exact h.chunked⟩
      intro hbad
      obtain ⟨hhave, hagreed⟩ := h.cl hbad
      refine ⟨?_, fun _ => ?_⟩
      · rw [List.any_append, List.any_cons, HttpField.isCl, hcl]
        simp
      · refine AgreedLength.snoc ?_ fun _ => httpParseContentLength_agreed hp
        cases hold : fr.haveCl with
        | false => exact .of_none (hhave.symm.trans hold) v
        | true =>
          have heq : v = fr.clen := by
            by_contra hv
            exact hne ⟨hold, hv⟩
          rw [heq]
          exact hagreed hold

theorem framingOf_te (h : FramingOf fs fr) (hte : f.isTe = true) : FramingOf (fs ++ [f]) (httpFramingField fr f) := by
  have hcl := isTe_not_isCl hte
  have hany : (fs ++ [f]).any HttpField.isCl = fs.any HttpField.isCl := by
    rw [List.any_append, List.any_cons, hcl]
    simp
  have hte' := hte
  rw [HttpField.isCl] at hcl
  rw [HttpField.isTe] at hte
  rw [httpFramingField, hcl, if_neg nofun, if_pos hte]
  refine ⟨?_, ?_, ?_⟩
  · rw [List.any_append, List.any_cons, hte']
    simp
  · intro hbad
    obtain ⟨hhave, hagreed⟩ := h.cl hbad
    refine ⟨hhave.trans hany.symm, fun hold => (hagreed hold).snoc fun hcl' => ?_⟩
    rw [isTe_not_isCl hte'] at hcl'
    cases hcl'
  · intro hchunked
    obtain ⟨c, hlast, hc⟩ := httpListLast_eq f.val hchunked
    refine ⟨rfl, c, ?_, hc⟩
    rw [codings_snoc, hte', if_pos rfl, List.getLast?_append, hlast]
    rfl

theorem framingOf_other (h : FramingOf fs fr) (hcl : f.isCl = false) (hte : f.isTe = false) :
    FramingOf (fs ++ [f]) (httpFramingField fr f) := by
  have hany : (fs ++ [f]).any HttpField.isTe = fs.any HttpField.isTe := by
    rw [List.any_append, List.any_cons, hte]
    simp
  have hany' : (fs ++ [f]).any HttpField.isCl = fs.any HttpField.isCl := by
    rw [List.any_append, List.any_cons, hcl]
    simp
  have hcodings : codings (fs ++ [f]) = codings fs := by
    rw [codings_snoc, hte]
    exact List.append_nil _
  have hsame : ∃ rq, httpFramingField fr f = { fr with rq := rq } := by
    rw [HttpField.isCl] at hcl
    rw [HttpField.isTe] at hte
    rw [httpFramingField, hcl, if_neg nofun, hte, if_neg nofun]
    repeat' split
    all_goals exact ⟨_, rfl⟩
  obtain ⟨rq, heq⟩ := hsame
  rw [heq]
  refine ⟨h.te.trans hany.symm, ?_, by rw [hcodings]; exact h.chunked⟩
  intro hbad
  obtain ⟨hhave, hagreed⟩ := h.cl hbad
  refine ⟨hhave.trans hany'.symm, fun hold => (hagreed hold).snoc fun hcl' => ?_⟩
  rw [hcl] at hcl'
  cases hcl'

theorem framingOf_fields (fs : List HttpField) : FramingOf fs (fs.foldl httpFramingField {}) := by
  induction fs using List.reverseRecOn with
  | nil => exact ⟨rfl, fun _ => ⟨rfl, nofun⟩, nofun⟩
  | append_singleton fs f ih =>
    rw [List.foldl_append, List.foldl_cons, List.foldl_nil]
    cases hcl : f.isCl with
    | true => exact framingOf_cl ih hcl
    | false =>
      cases hte : f.isTe with
      | true => exact framingOf_te ih hte
      | false => exact framingOf_other ih hcl hte

/-- A length that two readers of the head could take differently. -/
def Ambiguous (dir : Dir) (fs : List HttpField) : Prop :=
  (fs.any HttpField.isCl = true ∧ ¬ ∃ v, AgreedLength fs v) ∨
    (fs.any HttpField.isCl = true ∧ fs.any HttpField.isTe = true) ∨
    (dir = .recv ∧ fs.any HttpField.isTe = true ∧
      ¬ ∃ c, (codings fs).getLast? = some c ∧ spanEqCi c "chunked" = true)

theorem FramingOf.clear (h : FramingOf fs fr) (hbad : fr.badCl = false) (hboth : ¬ (fr.tePresent = true ∧ fr.haveCl = true))
    (hreq : dir = .recv → ¬ (fr.tePresent = true ∧ ¬ fr.teChunked = true)) : ¬ Ambiguous dir fs := by
  obtain ⟨hhave, hagreed⟩ := h.cl hbad
  rintro (⟨hcl, hno⟩ | ⟨hcl, hte⟩ | ⟨hdir, hte, hno⟩)
  · exact hno ⟨fr.clen, hagreed (hhave.trans hcl)⟩
  · exact hboth ⟨h.te.trans hte, hhave.trans hcl⟩
  · apply hreq hdir
    refine ⟨h.te.trans hte, fun hchunked => hno (h.chunked hchunked).2⟩

structure PassedHead (dir : Dir) (head line : List Byte) (fr : HttpFraming) : Prop where
  first : ∃ h, httpHeadLine { rest := head } = some (line, h)
  fields : fr = (headFields head).foldl httpFramingField {}
  badCl : fr.badCl = false
  both : ¬ (fr.tePresent = true ∧ fr.haveCl = true)
  te : dir = .recv → ¬ (fr.tePresent = true ∧ ¬ fr.teChunked = true)

theorem PassedHead.framing (h : PassedHead dir head line fr) : FramingOf (headFields head) fr := by
  rw [h.fields]
  exact framingOf_fields _

theorem PassedHead.clear (h : PassedHead dir head line fr) : ¬ Ambiguous dir (headFields head) :=
  h.framing.clear h.badCl h.both h.te

/-- The framing of a head is what its fields say, one after the other. -/
theorem readFields_headFields (hline : httpHeadLine { rest := head } = some (line, h)) :
    (readFieldsHttp h).1 = (headFields head).foldl httpFramingField {} := by
  rw [headFields, hline]
  rfl

theorem reqComplete_cases (head : List Byte) (ts : Nat) (s : HttpFrame) :
    (∃ n, reqComplete head ts s = httpBadHead .recv n ts s) ∨
      (keyIs (head.take 14) "PRI * HTTP/2.0" = true ∧ reqComplete head ts s = httpGoBlind .recv .blindH2 ts s) ∨
      ∃ line rl fr lfOnly, httpParseReqLine line = some rl ∧ PassedHead .recv head line fr ∧
        reqComplete head ts s = reqAccept head rl.method fr lfOnly ts s := by
  generalize hres : reqComplete head ts s = s'
  rw [reqComplete] at hres
  cases hline : httpHeadLine { rest := head } with
  | none =>
    rw [hline] at hres
    exact .inl ⟨_, hres.symm⟩
  | some lh =>
    obtain ⟨line, h⟩ := lh
    have hfr := readFields_headFields hline
    simp only [hline] at hres
    generalize readFieldsHttp h = read at hres hfr
    obtain ⟨fr, h'⟩ := read
    dsimp only at hres hfr
    split at hres
    · next hpre => exact .inr (.inl ⟨hpre, hres.symm⟩)
    · split at hres
      · exact .inl ⟨_, hres.symm⟩
      · next rl hrl =>
        split at hres
        · exact .inl ⟨_, hres.symm⟩
        · split at hres
          · exact .inl ⟨_, hres.symm⟩
          · next hbad =>
            split at hres
            · exact .inl ⟨_, hres.symm⟩
            · next hboth =>
              split at hres
              · exact .inl ⟨_, hres.symm⟩
              · next hte =>
                exact .inr (.inr ⟨line, rl, _, _, hrl,
                  ⟨⟨h, hline⟩, hfr, by simpa using hbad, hboth, fun _ => hte⟩, hres.symm⟩)

theorem respComplete_cases (errBody : Bool) (head : List Byte) (ts : Nat) (s : HttpFrame) :
    (∃ n, respComplete errBody head ts s = httpBadHead .send n ts s) ∨
      ∃ line code minor fr lfOnly, httpParseStatusLine line = some (code, minor) ∧ PassedHead .send head line fr ∧
        respComplete errBody head ts s = respAccept errBody head code fr lfOnly ts s := by
  generalize hres : respComplete errBody head ts s = s'
  rw [respComplete] at hres
  cases hline : httpHeadLine { rest := head } with
  | none =>
    rw [hline] at hres
    exact .inl ⟨_, hres.symm⟩
  | some lh =>
    obtain ⟨line, h⟩ := lh
    have hfr := readFields_headFields hline
    simp only [hline] at hres
    generalize readFieldsHttp h = read at hres hfr
    obtain ⟨fr, h'⟩ := read
    dsimp only at hres hfr
    split at hres
    · exact .inl ⟨_, hres.symm⟩
    · next code minor hstatus =>
      split at hres
      · exact .inl ⟨_, hres.symm⟩
      · split at hres
        · exact .inl ⟨_, hres.symm⟩
        · next hbad =>
          split at hres
          · exact .inl ⟨_, hres.symm⟩
          · next hboth =>
            exact .inr ⟨line, code, minor, _, _, hstatus,
              ⟨⟨h, hline⟩, hfr, by simpa using hbad, hboth, nofun⟩, hres.symm⟩

theorem headComplete_refuses (hpre : dir = .recv → keyIs (head.take 14) "PRI * HTTP/2.0" = false)
    (h : Ambiguous dir (headFields head)) (errBody : Bool) (ts : Nat) (s : HttpFrame) :
    ∃ n, headComplete dir errBody head ts s = httpBadHead dir n ts s := by
  cases dir with
  | recv =>
    rcases reqComplete_cases head ts s with hbad | ⟨hblind, -⟩ | ⟨line, rl, fr, lfOnly, -, hpassed, -⟩
    · exact hbad
    · rw [hpre rfl] at hblind
      cases hblind
    · exact absurd h hpassed.clear
  | send =>
    rcases respComplete_cases errBody head ts s with hbad | ⟨line, code, minor, fr, lfOnly, -, hpassed, -⟩
    · exact hbad
    · exact absurd h hpassed.clear

theorem httpBodyEnd_st (dir : Dir) (ts : Nat) (s : HttpFrame) : ((httpBodyEnd dir ts s).d dir).st = .head := by
  rw [httpBodyEnd, HttpFrame.d_mapD]

theorem reqAccept_body (h : ((reqAccept head method fr lfOnly ts s).d .recv).st = .body) :
    fr.teChunked = false ∧ fr.haveCl = true ∧ fr.clen ≠ 0 ∧
      ((reqAccept head method fr lfOnly ts s).d .recv).bodyLeft = fr.clen := by
  revert h
  rw [reqAccept]
  split
  · rw [HttpFrame.d_mapD]
    exact nofun
  · next hte =>
    split
    · next hcl =>
      intro _
      rw [HttpFrame.d_mapD]
      exact ⟨by simpa using hte, hcl.1, hcl.2, rfl⟩
    · rw [httpBodyEnd_st]
      exact nofun

theorem httpGoBlind_st (dir : Dir) (n : LkHttpNote) (ts : Nat) (s : HttpFrame) :
    ((httpGoBlind dir n ts s).d dir).st = (s.d dir).st := by
  cases dir <;> rfl

theorem noteLf_st (dir : Dir) (lfOnly : Bool) (ts : Nat) (s : HttpFrame) :
    ((noteLf dir lfOnly ts s).d dir).st = (s.d dir).st := by
  rw [noteLf]
  split
  · cases dir <;> rfl
  · rfl

theorem respBody_body (h : ((respBody fr rq code ts s).d .send).st = .body) :
    fr.tePresent = false ∧ fr.teChunked = false ∧ fr.haveCl = true ∧ fr.clen ≠ 0 ∧
      ((respBody fr rq code ts s).d .send).bodyLeft = fr.clen := by
  revert h
  rw [respBody]
  split
  · rw [httpGoBlind_st, httpBodyEnd_st]
    exact nofun
  · split
    · rw [httpBodyEnd_st]
      exact nofun
    · split
      · rw [HttpFrame.d_mapD]
        exact nofun
      · next hch =>
        split
        · rw [HttpFrame.d_mapD]
          exact nofun
        · next hte =>
          split
          · next hcl =>
            split
            · next hlen =>
              intro _
              rw [HttpFrame.d_mapD]
              exact ⟨by simpa using hte, by simpa using hch, hcl, hlen, rfl⟩
            · rw [httpBodyEnd_st]
              exact nofun
          · rw [HttpFrame.d_mapD]
            exact nofun

theorem respAccept_body (h : ((respAccept errBody head code fr lfOnly ts s).d .send).st = .body)
    (hst : (s.d .send).st = .head) :
    fr.tePresent = false ∧ fr.teChunked = false ∧ fr.haveCl = true ∧ fr.clen ≠ 0 ∧
      ((respAccept errBody head code fr lfOnly ts s).d .send).bodyLeft = fr.clen := by
  revert h
  rw [respAccept]
  split
  · rw [httpGoBlind_st, httpBodyEnd_st]
    exact nofun
  · split
    · rw [HttpFrame.d_mapD, httpEmit_d]
      dsimp only
      rw [noteLf_st, hst]
      exact nofun
    · exact respBody_body

theorem PassedHead.agreed (h : PassedHead dir head line fr) (hte : fr.tePresent = false) (hcl : fr.haveCl = true) :
    (headFields head).any HttpField.isTe = false ∧ (headFields head).any HttpField.isCl = true ∧
      AgreedLength (headFields head) fr.clen := by
  obtain ⟨hhave, hagreed⟩ := h.framing.cl h.badCl
  exact ⟨h.framing.te.symm.trans hte, hhave.symm.trans hcl, hagreed hcl⟩

theorem headComplete_body (hst : (s.d dir).st = .head) (h : ((headComplete dir errBody head ts s).d dir).st = .body) :
    (headFields head).any HttpField.isTe = false ∧ (headFields head).any HttpField.isCl = true ∧
      AgreedLength (headFields head) ((headComplete dir errBody head ts s).d dir).bodyLeft := by
  cases dir with
  | recv =>
    simp only [headComplete] at h ⊢
    rcases reqComplete_cases head ts s with ⟨n, heq⟩ | ⟨-, heq⟩ | ⟨line, rl, fr, lfOnly, -, hpassed, heq⟩
    · rw [heq, (httpBadHead_spec .recv n ts s).1] at h
      cases h
    · rw [heq, httpGoBlind_st, hst] at h
      cases h
    · rw [heq] at h ⊢
      obtain ⟨hchunked, hcl, -, hleft⟩ := reqAccept_body h
      have hte : fr.tePresent = false := by
        have := hpassed.te rfl
        rw [hchunked] at this
        simpa using this
      rw [hleft]
      exact hpassed.agreed hte hcl
  | send =>
    simp only [headComplete] at h ⊢
    rcases respComplete_cases errBody head ts s with ⟨n, heq⟩ | ⟨line, code, minor, fr, lfOnly, -, hpassed, heq⟩
    · rw [heq, (httpBadHead_spec .send n ts s).1] at h
      cases h
    · rw [heq] at h ⊢
      obtain ⟨hte, -, hcl, -, hleft⟩ := respAccept_body h hst
      rw [hleft]
      exact hpassed.agreed hte hcl

/-- A body is read by its `Content-Length` only where the head has no `Transfer-Encoding` and every member of every
`Content-Length` writes that length; a head whose length could be taken differently is not published, joins no queue and
leaves the direction scanning. -/
theorem headComplete_length (dir : Dir) (errBody : Bool) (head : List Byte) (ts : Nat) (s : HttpFrame)
    (hst : (s.d dir).st = .head) :
    let s' := headComplete dir errBody head ts s
    ((s'.d dir).st = .body →
      (headFields head).any HttpField.isTe = false ∧ (headFields head).any HttpField.isCl = true ∧
        AgreedLength (headFields head) (s'.d dir).bodyLeft) ∧
      ((dir = .recv → keyIs (head.take 14) "PRI * HTTP/2.0" = false) → Ambiguous dir (headFields head) →
        (s'.d dir).st = .scan ∧ s'.pend = s.pend ∧
          ∃ m : Msg, s'.out = s.out ++ [.msg dir m] ∧ m.type = lkHttpMsgNote) := by
  refine ⟨headComplete_body hst, ?_⟩
  · intro hpre h
    obtain ⟨n, hbad⟩ := headComplete_refuses hpre h errBody ts s
    rw [hbad]
    exact httpBadHead_spec dir n ts s

def smugglingHead : List Byte :=
  "GET / HTTP/1.1\r\nContent-Length: 5\r\nTransfer-Encoding: chunked\r\n\r\n".toUTF8.toList

theorem headComplete_length_smuggling :
    ((headComplete .recv false smugglingHead 1 {}).d .recv).st = .scan ∧
      (headComplete .recv false smugglingHead 1 {}).pend = [] := by
  have h := (headComplete_length .recv false smugglingHead 1 {} rfl).2 (fun _ => by decide +kernel)
    (.inr (.inl (by decide +kernel)))
  exact ⟨h.1, h.2.1⟩

end Latkit
