import Latkit.S3Auth
import Latkit.S3Presigned

namespace Latkit

/-! Who an S3 request says it comes from, and who its label says. -/

def s3KeptQuery (t : HttpTarget) : List Byte :=
  if t.path = [] then [] else t.query.take (lkHttpTargetMax - (t.path.length + 1))

def s3Source (cfg : LkHttpCfg) (rl : HttpReqLine) (fields : List HttpField) : Option (List Byte) :=
  match (lastAuth fields).bind (authLabel cfg) with
  | some _ => (lastAuth fields).bind credentialKey
  | none => queryCredential (httpTargetSplit rl.target).query

def TornKey (k : List Byte) : Prop :=
  k.length < lkHttpUserMax ∧ k.takeWhile s3LabelByte ≠ [] ∧ ¬ k.all s3LabelByte

instance : DecidablePred TornKey := fun _ => inferInstanceAs (Decidable (_ ∧ _ ∧ _))

/-- A Basic name stands for the access key, or a query has a key that is refused midway. -/
def S3Torn (cfg : LkHttpCfg) (rl : HttpReqLine) (fields : List HttpField) : Prop :=
  match (lastAuth fields).bind (authLabel cfg) with
  | some _ => basicOn cfg = true
  | none => ∃ k, queryCredential (s3KeptQuery (httpTargetSplit rl.target)) = some k ∧ TornKey k

section
variable {buf k v : List Byte} {cfg : LkHttpCfg} (xxh3 : List Byte → UInt64)
  (given : List Byte → List Byte → LkRouteOut)

theorem httpTargetSplit_path (t : List Byte) : '?'.toUInt8 ∉ (httpTargetSplit t).path := by
  have hpath : ∀ x : List Byte, '?'.toUInt8 ∉ x.takeWhile (· != '?'.toUInt8) := by
    intro x hmem
    have hne := List.mem_takeWhile_imp hmem
    exact absurd hne (by decide)
  rw [httpTargetSplit]
  dsimp only
  split
  · exact hpath _
  · split
    · exact List.not_mem_nil
    · exact hpath _

theorem httpTargetSplit_query (t : List Byte) : (httpTargetSplit t).query ⊆ t := by
  have hquery : ∀ x : List Byte, (x.dropWhile (· != '?'.toUInt8)).tail ⊆ x :=
    fun x => ((List.tail_sublist _).trans (List.dropWhile_sublist _)).subset
  rw [httpTargetSplit]
  dsimp only
  split
  · exact List.Subset.trans (hquery _) ((List.dropWhile_sublist _).trans (List.drop_sublist _ _)).subset
  · split
    · exact List.nil_subset _
    · exact hquery _

theorem keptQuery_eq (t : HttpTarget) (hpath : '?'.toUInt8 ∉ t.path) :
    ((if t.path = [] then [] else (httpRawTarget t).take lkHttpTargetMax).dropWhile (· != '?'.toUInt8)).tail =
      s3KeptQuery t := by
  have hkeep : ∀ n, ∀ b ∈ t.path.take n, (b != '?'.toUInt8) = true := by
    intro n b hb
    rw [bne_iff_ne]
    rintro rfl
    exact hpath (List.mem_of_mem_take hb)
  rw [s3KeptQuery]
  split
  · rfl
  · rw [httpRawTarget]
    split
    · next hnil =>
      rw [List.append_nil, List.dropWhile_eq_nil_iff.mpr (hkeep _), hnil, List.take_nil, List.tail_nil]
    · rw [List.take_append, List.dropWhile_append_of_pos (hkeep _)]
      cases hroom : lkHttpTargetMax - t.path.length with
      | zero =>
        rw [List.take_zero, Nat.sub_add_eq, hroom]
        rfl
      | succ n =>
        rw [List.take_succ_cons, List.dropWhile_cons_of_neg (by decide), List.tail_cons, Nat.sub_add_eq, hroom]
        rfl

theorem foldl_httpReqField (huser : cfg.s3.noUser = false) (fields : List HttpField) (r : HttpReqRead) :
    (fields.foldl (httpReqField (lkHttpDialectS3 xxh3 given) cfg) r).u.user =
        fields.foldl (userField cfg) r.u.user ∧
      (fields.foldl (httpReqField (lkHttpDialectS3 xxh3 given) cfg) r).u.target = r.u.target := by
  induction fields generalizing r with
  | nil => exact ⟨rfl, rfl⟩
  | cons f fields ih =>
    obtain ⟨hbuf, htarget⟩ := httpReqField_user xxh3 given huser r f
    obtain ⟨hbuf', htarget'⟩ := ih (httpReqField (lkHttpDialectS3 xxh3 given) cfg r f)
    rw [List.foldl_cons, List.foldl_cons, hbuf', htarget', hbuf, htarget]
    exact ⟨rfl, rfl⟩

theorem s3ReqHead_user (huser : cfg.s3.noUser = false) (rq : LkHttpReq) (u : HttpUnit) :
    (s3ReqHead cfg rq u).user =
      if cstr u.user = [] then (s3QueryAccessKey (rq.target.dropWhile (· != '?'.toUInt8)).tail u.user).2
      else u.user := by
  rw [s3ReqHead]
  dsimp only
  rw [huser]
  by_cases hquery : (rq.target.dropWhile (· != '?'.toUInt8)).tail = []
  · rw [hquery, s3QueryAccessKey_nil]
    simp
  · simp [hquery]

theorem httpReqUnit_user (huser : cfg.s3.noUser = false) (m : Msg) (rl : HttpReqLine) (fields : List HttpField) :
    (httpReqUnit (lkHttpDialectS3 xxh3 given) cfg m rl fields).1.user =
      let buf := fields.foldl (userField cfg) (List.replicate lkHttpUserMax 0)
      if cstr buf = [] then (s3QueryAccessKey (s3KeptQuery (httpTargetSplit rl.target)) buf).2 else buf := by
  rw [← keptQuery_eq _ (httpTargetSplit_path rl.target), httpReqUnit]
  have hdialect : (lkHttpDialectS3 xxh3 given).reqHead = s3ReqHead := rfl
  dsimp only
  rw [hdialect, s3ReqHead_user huser]
  dsimp only [HttpUnit.req]
  rw [(foldl_httpReqField xxh3 given huser fields _).1, (foldl_httpReqField xxh3 given huser fields _).2]

theorem authLabel_ne_nil (h : authLabel cfg v = some k) : k ≠ [] := by
  rw [authLabel] at h
  split at h
  · exact (of_decide_eq_true (Option.filter_eq_some_iff.mp h).2).1
  · exact (of_decide_eq_true (Option.filter_eq_some_iff.mp h).2).1

theorem credentialKey_basic (h : basicCredential v = some k) : credentialKey v = none := by
  rw [basicCredential] at h
  split at h
  · cases h
  · next hbasic =>
    rw [not_or, not_or, not_not] at hbasic
    have hhead := congrArg List.head? (beq_iff_eq.mp hbasic.2.1)
    cases v with
    | nil => exact absurd hbasic.1 (by decide)
    | cons b v =>
      have hb : asciiLower b = 'b'.toUInt8 := by
        have hlit : "basic".toUTF8.toList.head? = some 'b'.toUInt8 := by decide +kernel
        rw [hlit] at hhead
        exact Option.some.inj hhead
      have hnew : ¬ spanEqCi ((b :: v).take 16) "aws4-hmac-sha256" = true := by
        intro hscheme
        have hhead' := congrArg List.head? (beq_iff_eq.mp hscheme)
        have hlit : "aws4-hmac-sha256".toUTF8.toList.head? = some 'a'.toUInt8 := by decide +kernel
        rw [hlit] at hhead'
        have hb' : asciiLower b = 'a'.toUInt8 := Option.some.inj hhead'
        rw [hb] at hb'
        exact absurd hb' (by decide)
      have hold : ¬ keyIs ((b :: v).take 4) "AWS " = true := by
        intro hscheme
        have hhead' := congrArg List.head? (beq_iff_eq.mp hscheme)
        have hlit : "AWS ".toUTF8.toList.head? = some 'A'.toUInt8 := by decide +kernel
        rw [hlit] at hhead'
        have hb' : b = 'A'.toUInt8 := Option.some.inj hhead'
        rw [hb'] at hb
        exact absurd hb (by decide)
      rw [credentialKey, if_neg fun hand => hold hand.2, if_pos hnew]

theorem s3CopyLabel_label (h : LabelBuf buf) (hempty : cstr buf = []) (hlow : ∀ b ∈ k, httpIsCtl b = false) :
    (TornKey k ∧ cstr (s3CopyLabel buf k).2 ≠ [] ∧ cstr (s3CopyLabel buf k).2 ≠ k) ∨
      (¬ TornKey k ∧ (cstr (s3CopyLabel buf k).2 = [] ∨ cstr (s3CopyLabel buf k).2 = k)) := by
  have hlen := h.length
  by_cases hfit : k = [] ∨ buf.length ≤ k.length
  · have hrefuse : ¬ TornKey k := by
      rintro ⟨hlt, hne, -⟩
      rcases hfit with hnil | hle
      · exact hne (by rw [hnil]; rfl)
      · omega
    rw [s3CopyLabel, if_pos hfit]
    exact .inr ⟨hrefuse, .inl hempty⟩
  · have hfit' := hfit
    rw [not_or, Nat.not_le, hlen] at hfit'
    by_cases hall : k.all s3LabelByte = true
    · rw [s3CopyLabel, if_neg hfit, takeWhile_all hall, if_pos rfl]
      exact .inr ⟨fun htorn => htorn.2.2 hall, .inr (cstr_string (label_ne_zero hall) _)⟩
    · obtain ⟨b, hb, hbad⟩ : ∃ b ∈ k, ¬ s3LabelByte b = true := by
        simpa using hall
      have hbuf := (h.copyLabel k).low
      rw [s3CopyLabel, if_neg hfit, if_neg (takeWhile_short hall)] at hbuf ⊢
      by_cases hgood : k.takeWhile s3LabelByte = []
      · rw [hgood]
        exact .inr ⟨fun htorn => htorn.2.1 hgood, .inl hempty⟩
      · refine .inl ⟨⟨hfit'.2, hgood, hall⟩, ?_, ?_⟩
        · obtain ⟨c, good, hcons⟩ := List.exists_cons_of_ne_nil hgood
          have hc : s3LabelByte c = true := List.mem_takeWhile_imp (hcons ▸ List.mem_cons_self ..)
          have hne : (c != 0) = true := by
            rw [bne_iff_ne]
            rintro rfl
            exact absurd hc (by decide)
          rw [hcons, List.cons_append, cstr, List.takeWhile_cons, if_pos hne]
          exact List.cons_ne_nil _ _
        · -- the byte that was refused is above the printable ones, and no byte of the buffer is
          intro heq
          have hmem := hb
          rw [← heq] at hmem
          exact hbad (label_of_low (hbuf b ((List.takeWhile_sublist _).subset hmem)) (hlow b hb))

theorem s3KeptQuery_subset (t : HttpTarget) : s3KeptQuery t ⊆ t.query := by
  rw [s3KeptQuery]
  split
  · exact List.nil_subset _
  · exact (List.take_sublist _ _).subset

theorem queryCredential_kept {t : HttpTarget} (h : queryCredential (s3KeptQuery t) = some k) :
    queryCredential t.query = some k := by
  rw [s3KeptQuery] at h
  split at h
  · exact queryCredential_append h t.query
  · have happend := queryCredential_append h (t.query.drop (lkHttpTargetMax - (t.path.length + 1)))
    rwa [List.take_append_drop] at happend

theorem httpReadReq_target (h : httpReadReq body = some (rl, fields)) : ∀ b ∈ rl.target, httpIsCtl b = false := by
  simp only [httpReadReq, Option.bind_eq_bind, Option.bind_eq_some_iff] at h
  obtain ⟨⟨line, hd⟩, -, rl', hline, heq⟩ := h
  cases heq
  rw [httpParseReqLine] at hline
  dsimp only at hline
  split at hline
  · cases hline
  · split at hline
    · cases hline
    · next htarget =>
      obtain ⟨minor, -, rfl⟩ := Option.map_eq_some_iff.mp hline
      simp only [Bool.or_eq_true, not_or, Bool.not_eq_true, List.any_eq_false] at htarget
      exact fun b hb => by simpa using htarget.1.1 b hb

/-- The user label of a request is empty or the whole access key of its credential, unless the query's
key is refused midway or the base protocol has written the name of a Basic credential. -/
theorem s3_identity_whole (cfg : LkHttpCfg) (m : Msg) (huser : cfg.s3.noUser = false)
    (hread : httpReadReq m.body = some (rl, fields)) :
    (cstr (httpReqUnit (lkHttpDialectS3 xxh3 given) cfg m rl fields).1.user = [] ∨
        s3Source cfg rl fields = some (cstr (httpReqUnit (lkHttpDialectS3 xxh3 given) cfg m rl fields).1.user)) ↔
      ¬ S3Torn cfg rl fields := by
  obtain ⟨hbuf, hlabel⟩ := foldl_userField LabelBuf.zero (by decide) cfg fields
  rw [httpReqUnit_user xxh3 given huser, s3Source, S3Torn]
  dsimp only
  generalize fields.foldl (userField cfg) (List.replicate lkHttpUserMax 0) = buf at hbuf hlabel ⊢
  cases hauth : (lastAuth fields).bind (authLabel cfg) with
  | some l =>
    rw [hauth, Option.getD_some] at hlabel
    obtain ⟨v, hlast, hv⟩ := Option.bind_eq_some_iff.mp hauth
    have hne := authLabel_ne_nil hv
    rw [hlabel, if_neg hne, hlabel, hlast, Option.bind_some]
    rw [authLabel] at hv
    split at hv
    · next hbasic =>
      have hname := (Option.filter_eq_some_iff.mp hv).1
      simp [credentialKey_basic hname, hne, hbasic]
    · next hbasic =>
      have hkey := (Option.filter_eq_some_iff.mp hv).1
      simp [hkey, hbasic]
  | none =>
    rw [hauth, Option.getD_none] at hlabel
    rw [hlabel, if_pos rfl, s3QueryAccessKey_eq]
    cases hkept : queryCredential (s3KeptQuery (httpTargetSplit rl.target)) with
    | none => simp [hlabel]
    | some k =>
      have hlow : ∀ b ∈ k, httpIsCtl b = false := fun b hb =>
        httpReadReq_target hread b (httpTargetSplit_query _ (s3KeptQuery_subset _ (queryCredential_mem hkept hb)))
      rw [queryCredential_kept hkept, Option.elim_some]
      rcases s3CopyLabel_label hbuf hlabel hlow with ⟨htorn, hne, hwrong⟩ | ⟨hwhole, hnil | heq⟩
      · simp [htorn, hne, Ne.symm hwrong]
      · simp [hwhole, hnil]
      · simp [hwhole, heq]

end

def s3Get (target lines : List Byte) : Msg where
  ts := 0
  body := "GET ".toUTF8.toList ++ target ++ " HTTP/1.1\r\n".toUTF8.toList ++ lines ++ "\r\n".toUTF8.toList

def s3Identity (m : Msg) : Option (List Byte × Option (List Byte)) :=
  (httpReadReq m.body).map fun (rl, fields) =>
    (cstr (httpReqUnit (lkHttpDialectS3 (fun _ => 0) fun _ _ => {}) {} m rl fields).1.user, s3Source {} rl fields)

/-- A presigned request whose key is whole. -/
theorem s3_identity_whole_presigned :
    let m := s3Get "/b?X-Amz-Credential=AKIA%2F2026".toUTF8.toList []
    s3Identity m = some ("AKIA".toUTF8.toList, some "AKIA".toUTF8.toList) ∧
      ∀ rl fields, httpReadReq m.body = some (rl, fields) →
        (cstr (httpReqUnit (lkHttpDialectS3 (fun _ => 0) fun _ _ => {}) {} m rl fields).1.user = [] ∨
          s3Source {} rl fields =
            some (cstr (httpReqUnit (lkHttpDialectS3 (fun _ => 0) fun _ _ => {}) {} m rl fields).1.user)) := by
  intro m
  constructor
  · decide +kernel
  · intro rl fields hread
    apply (s3_identity_whole (fun _ => 0) (fun _ _ => {}) {} m rfl hread).mpr
    have hline : httpReadReq m.body =
        some (⟨"GET".toUTF8.toList, "/b?X-Amz-Credential=AKIA%2F2026".toUTF8.toList, 1⟩, []) := by decide +kernel
    rw [hline] at hread
    cases hread
    rintro ⟨k, hk, htorn⟩
    have hkey : queryCredential (s3KeptQuery (httpTargetSplit "/b?X-Amz-Credential=AKIA%2F2026".toUTF8.toList)) =
        some "AKIA".toUTF8.toList := by decide +kernel
    rw [hkey] at hk
    cases hk
    exact absurd htorn (by decide +kernel)

/-- A byte that no label may hold cuts the key of a query, and what an earlier field has left follows it. -/
theorem s3_identity_torn :
    s3Identity (s3Get ("/b?X-Amz-Credential=AK".toUTF8.toList ++ 0xff :: "X%2F2026".toUTF8.toList) []) =
        some ("AK".toUTF8.toList, some ("AK".toUTF8.toList ++ 0xff :: "X".toUTF8.toList)) ∧
      s3Identity (s3Get ("/b?X-Amz-Credential=A".toUTF8.toList ++ 0xff :: "%2F2026".toUTF8.toList)
          ("Authorization: AWS BBCC".toUTF8.toList ++ 0xff :: ":c2ln\r\n".toUTF8.toList)) =
        some ("ABCC".toUTF8.toList, some ("A".toUTF8.toList ++ [0xff])) := by
  decide +kernel

end Latkit
