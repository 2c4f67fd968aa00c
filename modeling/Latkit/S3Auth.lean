import Latkit.S3Dialect

namespace Latkit

/-! What `Authorization` leaves in the label of a user. -/

/-- The access key of an `Authorization` value: up to the colon in the old scheme, and up to the scope of
the credential in the new one. -/
def credentialKey (v : List Byte) : Option (List Byte) :=
  if 4 < v.length ∧ keyIs (v.take 4) "AWS " then
    let k := (v.drop 4).takeWhile (· != ':'.toUInt8)
    if k.length = (v.drop 4).length then none else some k
  else if ¬ spanEqCi (v.take 16) "aws4-hmac-sha256" then none
  else
    (s3FindCi v "credential=").bind fun t =>
      let k := (t.drop 11).takeWhile (· != '/'.toUInt8)
      if k.length = (t.drop 11).length then none else some k
def basicName : List Byte → (acc bits : Nat) → Option (List Byte)
  | [], _, _ => none
  | b :: v, acc, bits =>
    if b = '='.toUInt8 then none
    else
      match httpB64Val b with
      | none => none
      | some d =>
        let acc := (acc * 64 + d) % 2 ^ 32
        if bits + 6 < 8 then basicName v acc (bits + 6)
        else
          let c := UInt8.ofNat (acc / 2 ^ (bits + 6 - 8))
          if c = ':'.toUInt8 then some []
          else if c < 0x20 ∨ 0x7f ≤ c then none
          else (basicName v acc (bits + 6 - 8)).map (c :: ·)

def basicCredential (v : List Byte) : Option (List Byte) :=
  if v.length < 6 ∨ ¬ spanEqCi (v.take 5) "basic" ∨ v[5]? ≠ some ' '.toUInt8 then none
  else basicName ((v.drop 6).dropWhile httpIsOws) 0 0

def KeyFits (k : List Byte) : Prop := k ≠ [] ∧ k.length < lkHttpUserMax ∧ k.all s3LabelByte ∧ '/'.toUInt8 ∉ k

instance : DecidablePred KeyFits := fun _ => inferInstanceAs (Decidable (_ ∧ _ ∧ _ ∧ _))

def NameFits (k : List Byte) : Prop := k ≠ [] ∧ k.length < lkHttpUserMax

instance : DecidablePred NameFits := fun _ => inferInstanceAs (Decidable (_ ∧ _))

def basicOn (cfg : LkHttpCfg) : Bool := cfg.userBasic && !keyIs "authorization".toUTF8.toList cfg.routeHeader

def authLabel (cfg : LkHttpCfg) (v : List Byte) : Option (List Byte) :=
  if basicOn cfg then (basicCredential v).filter (NameFits ·) else (credentialKey v).filter (KeyFits ·)

def lastAuth (fields : List HttpField) : Option (List Byte) :=
  ((fields.filter (spanEqCi ·.name "authorization")).getLast?).map (·.val)

section
variable {buf p k v q rest : List Byte} {cfg : LkHttpCfg}

theorem cstr_string (hp : ∀ b ∈ p, b ≠ 0) (rest : List Byte) : cstr (p ++ 0 :: rest) = p := by
  have hkeep : ∀ b ∈ p, (b != 0) = true := fun b hb => by simpa using hp b hb
  rw [cstr, List.takeWhile_append_of_pos hkeep, List.takeWhile_cons_of_neg (by decide), List.append_nil]

theorem cstr_set_zero (buf : List Byte) : cstr (buf.set 0 0) = [] := by
  cases buf with
  | nil => rfl
  | cons b buf => exact List.takeWhile_cons_of_neg (by decide)

theorem label_ne_zero (hp : p.all s3LabelByte = true) : ∀ b ∈ p, b ≠ 0 := by
  rintro b hb rfl
  have hlabel := List.all_eq_true.mp hp 0 hb
  exact absurd hlabel (by decide)

structure LabelBuf (buf : List Byte) : Prop where
  length : buf.length = lkHttpUserMax
  low : ∀ b ∈ buf, b < 0x7f

theorem LabelBuf.zero : LabelBuf (List.replicate lkHttpUserMax 0) := by
  constructor
  · exact List.length_replicate
  · intro b hb
    rw [List.eq_of_mem_replicate hb]
    decide

theorem LabelBuf.set (h : LabelBuf buf) (n : Nat) (hb : b < 0x7f) : LabelBuf (buf.set n b) := by
  constructor
  · rw [List.length_set, h.length]
  · intro c hc
    rcases List.mem_or_eq_of_mem_set hc with hold | rfl
    · exact h.low c hold
    · exact hb

def settle (r : Bool × List Byte) : List Byte := if r.1 then r.2 else r.2.set 0 0

theorem LabelBuf.settle (h : LabelBuf r.2) : LabelBuf (settle r) := by
  rw [Latkit.settle]
  split
  · exact h
  · exact h.set 0 (by decide)

theorem label_low (hb : s3LabelByte b = true) : b < 0x7f := by
  rw [s3LabelByte, Bool.and_eq_true, decide_eq_true_eq, decide_eq_true_eq] at hb
  exact hb.2

theorem label_of_low (hb : b < 0x7f) (hctl : httpIsCtl b = false) : s3LabelByte b = true := by
  rw [httpIsCtl, Bool.or_eq_false_iff, decide_eq_false_iff_not, UInt8.not_le] at hctl
  rw [s3LabelByte, Bool.and_eq_true, decide_eq_true_eq, decide_eq_true_eq]
  exact ⟨hctl.1, hb⟩

theorem LabelBuf.copyLabel (h : LabelBuf buf) (p : List Byte) : LabelBuf (s3CopyLabel buf p).2 := by
  have hdrop : ∀ n, ∀ b ∈ buf.drop n, b < 0x7f := fun n b hb => h.low b (List.mem_of_mem_drop hb)
  have hgood : ∀ b ∈ p.takeWhile s3LabelByte, b < 0x7f := fun b hb => label_low (List.mem_takeWhile_imp hb)
  have hlen := h.length
  have hle := (List.takeWhile_sublist s3LabelByte (l := p)).length_le
  rw [s3CopyLabel]
  split
  · exact h
  · next hfit =>
    rw [not_or, Nat.not_le] at hfit
    split
    · next hall =>
      have hp : p.takeWhile s3LabelByte = p := (List.takeWhile_sublist s3LabelByte).eq_of_length hall
      constructor
      · simp only [List.length_append, List.length_cons, List.length_drop]
        omega
      · intro b hb
        rcases List.mem_append.mp hb with hb | hb
        · exact hgood b (hp.symm ▸ hb)
        · rcases List.mem_cons.mp hb with rfl | hb
          · decide
          · exact hdrop _ b hb
    · constructor
      · simp only [List.length_append, List.length_drop]
        omega
      · intro b hb
        rcases List.mem_append.mp hb with hb | hb
        · exact hgood b hb
        · exact hdrop _ b hb

theorem takeWhile_all (h : p.all s3LabelByte = true) : p.takeWhile s3LabelByte = p :=
  List.takeWhile_eq_self_iff.mpr (List.all_eq_true.mp h)

theorem takeWhile_short (h : ¬ p.all s3LabelByte = true) : (p.takeWhile s3LabelByte).length ≠ p.length := by
  intro heq
  apply h
  rw [← (List.takeWhile_sublist s3LabelByte).eq_of_length heq]
  exact List.all_eq_true.mpr fun b hb => List.mem_takeWhile_imp hb

theorem settle_copyLabel (h : LabelBuf buf) (p : List Byte) :
    cstr (settle (s3CopyLabel buf p)) =
      if p ≠ [] ∧ p.length < lkHttpUserMax ∧ p.all s3LabelByte then p else [] := by
  have hlen := h.length
  by_cases hfit : p = [] ∨ buf.length ≤ p.length
  · have hrefuse : ¬ (p ≠ [] ∧ p.length < lkHttpUserMax ∧ p.all s3LabelByte = true) := by
      rintro ⟨hne, hlt, -⟩
      rcases hfit with hnil | hle
      · exact hne hnil
      · omega
    rw [s3CopyLabel, if_pos hfit, if_neg hrefuse]
    exact cstr_set_zero buf
  · have hfit' := hfit
    rw [not_or, Nat.not_le, hlen] at hfit'
    rw [s3CopyLabel, if_neg hfit]
    by_cases hall : p.all s3LabelByte = true
    · rw [takeWhile_all hall, if_pos rfl, if_pos ⟨hfit'.1, hfit'.2, hall⟩]
      exact cstr_string (label_ne_zero hall) _
    · rw [if_neg (takeWhile_short hall), if_neg fun hand => hall hand.2.2]
      exact cstr_set_zero _

theorem s3AuthAccessKey_cases (v buf : List Byte) :
    (s3AuthAccessKey v buf = (false, buf) ∧ ∀ k, credentialKey v = some k → '/'.toUInt8 ∈ k) ∨
      ∃ k, credentialKey v = some k ∧ '/'.toUInt8 ∉ k ∧ s3AuthAccessKey v buf = s3CopyLabel buf k := by
  rw [s3AuthAccessKey, credentialKey]
  split
  · dsimp only
    by_cases hend : ((v.drop 4).takeWhile (· != ':'.toUInt8)).length = (v.drop 4).length
    · rw [if_pos (.inr hend), if_pos hend]
      exact .inl ⟨rfl, nofun⟩
    · rw [if_neg hend]
      by_cases hslash : '/'.toUInt8 ∈ (v.drop 4).takeWhile (· != ':'.toUInt8)
      · rw [if_pos (.inl hslash)]
        refine .inl ⟨rfl, ?_⟩
        rintro k ⟨⟩
        exact hslash
      · rw [if_neg (not_or.mpr ⟨hslash, hend⟩)]
        exact .inr ⟨_, rfl, hslash, rfl⟩
  · split
    · exact .inl ⟨rfl, nofun⟩
    · cases s3FindCi v "credential=" with
      | none => exact .inl ⟨rfl, nofun⟩
      | some t =>
        have hslash : '/'.toUInt8 ∉ (t.drop 11).takeWhile (· != '/'.toUInt8) := by
          intro hmem
          have hne := List.mem_takeWhile_imp hmem
          exact absurd hne (by decide)
        dsimp only
        rw [Option.bind_some]
        split
        · exact .inl ⟨rfl, nofun⟩
        · exact .inr ⟨_, rfl, hslash, rfl⟩

theorem settle_authAccessKey (h : LabelBuf buf) (v : List Byte) :
    LabelBuf (settle (s3AuthAccessKey v buf)) ∧
      cstr (settle (s3AuthAccessKey v buf)) = ((credentialKey v).filter (KeyFits ·)).getD [] := by
  rcases s3AuthAccessKey_cases v buf with ⟨heq, hslash⟩ | ⟨k, hkey, hslash, heq⟩
  · have hnone : (credentialKey v).filter (KeyFits ·) = none := by
      rw [Option.filter_eq_none_iff]
      intro k hk hfits
      exact (of_decide_eq_true hfits).2.2.2 (hslash k hk)
    rw [heq, hnone]
    exact ⟨h.set 0 (by decide), cstr_set_zero buf⟩
  · have hfits : KeyFits k ↔ k ≠ [] ∧ k.length < lkHttpUserMax ∧ k.all s3LabelByte = true :=
      ⟨fun hk => ⟨hk.1, hk.2.1, hk.2.2.1⟩, fun hk => ⟨hk.1, hk.2.1, hk.2.2, hslash⟩⟩
    rw [heq, hkey, settle_copyLabel h, Option.filter_some]
    refine ⟨(h.copyLabel k).settle, ?_⟩
    by_cases hk : KeyFits k
    · rw [if_pos (hfits.mp hk), if_pos (decide_eq_true hk), Option.getD_some]
    · rw [if_neg fun hand => hk (hfits.mpr hand), if_neg (by simpa using hk), Option.getD_none]

theorem httpBasicLoop_low (h : LabelBuf buf) (v : List Byte) (acc bits n : Nat) :
    LabelBuf (httpBasicLoop v acc bits n buf).2 := by
  induction v generalizing acc bits n buf with
  | nil => exact h
  | cons b v ih =>
    rw [httpBasicLoop]
    split
    · exact h
    · split
      · exact h
      · dsimp only
        split
        · exact ih h _ _ _
        · split
          · exact h.set n (by decide)
          · split
            · exact h
            · split
              · exact h
              · next hlow =>
                rw [not_or, UInt8.not_le] at hlow
                exact ih (h.set n hlow.2) _ _ _

theorem settle_basicLoop (v : List Byte) (acc bits : Nat) (name rest : List Byte) (b₀ : Byte)
    (hname : ∀ b ∈ name, b ≠ 0) :
    cstr (settle (httpBasicLoop v acc bits name.length (name ++ b₀ :: rest))) =
      (((basicName v acc bits).map (name ++ ·)).filter (·.length < (name ++ b₀ :: rest).length)).getD [] := by
  induction v generalizing acc bits name rest b₀ with
  | nil => exact cstr_set_zero _
  | cons b v ih =>
    rw [httpBasicLoop, basicName]
    split
    · exact cstr_set_zero _
    · cases httpB64Val b with
      | none => exact cstr_set_zero _
      | some d =>
        dsimp only
        split
        · exact ih _ _ name rest b₀ hname
        · generalize UInt8.ofNat ((acc * 64 + d) % 2 ^ 32 / 2 ^ (bits + 6 - 8)) = c
          have hset : ∀ a : Byte, (name ++ b₀ :: rest).set name.length a = name ++ a :: rest := by
            intro a
            rw [List.set_append_right name.length a le_rfl, Nat.sub_self, List.set_cons_zero]
          split
          · have hfits : (name ++ []).length < (name ++ b₀ :: rest).length := by simp
            rw [hset, Option.map_some, Option.filter_some, if_pos (decide_eq_true hfits), List.append_nil, settle]
            split
            · exact cstr_string hname rest
            · next hnil =>
              have hnil' : name = [] := List.length_eq_zero_iff.mp (by simpa using hnil)
              rw [hnil']
              exact cstr_set_zero _
          · split
            · next hfull =>
              have hnone : (((if c < 0x20 ∨ 0x7f ≤ c then none
                  else (basicName v ((acc * 64 + d) % 2 ^ 32) (bits + 6 - 8)).map (c :: ·)).map (name ++ ·)).filter
                    (·.length < (name ++ b₀ :: rest).length)) = none := by
                rw [Option.filter_eq_none_iff]
                intro k hk hlt
                split at hk
                · cases hk
                · rw [Option.map_map, Option.map_eq_some_iff] at hk
                  obtain ⟨more, -, rfl⟩ := hk
                  have hlt' := of_decide_eq_true hlt
                  rw [Function.comp, List.length_append, List.length_cons] at hlt'
                  omega
              rw [hnone]
              exact cstr_set_zero _
            · next hfull =>
              split
              · exact cstr_set_zero _
              · next hlow =>
                cases rest with
                | nil =>
                  rw [List.length_append, List.length_singleton] at hfull
                  exact absurd le_rfl hfull
                | cons b₁ rest =>
                  have hc : c ≠ 0 := by
                    rintro rfl
                    exact hlow (.inl (by decide))
                  have hname' : ∀ b ∈ name ++ [c], b ≠ 0 := by
                    intro b hb
                    rcases List.mem_append.mp hb with hb | hb
                    · exact hname b hb
                    · rw [List.mem_singleton.mp hb]
                      exact hc
                  have hih := ih ((acc * 64 + d) % 2 ^ 32) (bits + 6 - 8) (name ++ [c]) rest b₁ hname'
                  simp only [List.append_assoc, List.singleton_append, List.length_append, List.length_singleton]
                    at hih
                  rw [hset, hih, Option.map_map]
                  simp only [List.length_append, List.length_cons]
                  rfl

theorem settle_basicUser (h : LabelBuf buf) (v : List Byte) :
    LabelBuf (settle (httpBasicUser v buf)) ∧
      cstr (settle (httpBasicUser v buf)) = ((basicCredential v).filter (NameFits ·)).getD [] := by
  rw [httpBasicUser, basicCredential]
  split
  · exact ⟨h.set 0 (by decide), cstr_set_zero buf⟩
  · refine ⟨(httpBasicLoop_low h _ 0 0 0).settle, ?_⟩
    have hlen := h.length
    cases buf with
    | nil => cases hlen
    | cons b₀ rest =>
      have hloop := settle_basicLoop ((v.drop 6).dropWhile httpIsOws) 0 0 [] rest b₀ nofun
      simp only [List.length_nil, List.nil_append, Option.map_id', hlen] at hloop
      rw [hloop]
      cases basicName ((v.drop 6).dropWhile httpIsOws) 0 0 with
      | none => rfl
      | some name =>
        rw [Option.filter_some, Option.filter_some]
        cases name with
        | nil => rfl
        | cons c name => simp [NameFits]

def userField (cfg : LkHttpCfg) (buf : List Byte) (f : HttpField) : List Byte :=
  if spanEqCi f.name "authorization" then
    let buf := settle (s3AuthAccessKey f.val buf)
    if basicOn cfg then settle (httpBasicUser f.val buf) else buf
  else buf

theorem settle_userField (h : LabelBuf buf) (cfg : LkHttpCfg) (hauth : spanEqCi f.name "authorization" = true) :
    LabelBuf (userField cfg buf f) ∧ cstr (userField cfg buf f) = (authLabel cfg f.val).getD [] := by
  have hkey := settle_authAccessKey h f.val
  rw [userField, if_pos hauth, authLabel]
  dsimp only
  split
  · exact settle_basicUser hkey.1 f.val
  · exact hkey

theorem foldl_userField (h : LabelBuf buf) (hempty : cstr buf = []) (cfg : LkHttpCfg) (fields : List HttpField) :
    LabelBuf (fields.foldl (userField cfg) buf) ∧
      cstr (fields.foldl (userField cfg) buf) = ((lastAuth fields).bind (authLabel cfg)).getD [] := by
  induction fields using List.reverseRecOn with
  | nil => exact ⟨h, hempty⟩
  | append_singleton fields f ih =>
    rw [List.foldl_append, List.foldl_cons, List.foldl_nil, lastAuth, List.filter_append]
    by_cases hauth : spanEqCi f.name "authorization" = true
    · have hfilter : [f].filter (spanEqCi ·.name "authorization") = [f] := by simp [hauth]
      rw [hfilter, List.getLast?_concat]
      exact settle_userField ih.1 cfg hauth
    · have hfilter : [f].filter (spanEqCi ·.name "authorization") = [] := by simp [hauth]
      rw [hfilter, List.append_nil, userField, if_neg hauth]
      exact ih

theorem spanEqCi_inj (h : spanEqCi p lit = true) (lit' : String) :
    spanEqCi p lit' = keyIs lit.toUTF8.toList lit' := by
  rw [spanEqCi, keyIs, beq_iff_eq] at h
  rw [spanEqCi, h]

variable {d : LkHttpDialect} (xxh3 : List Byte → UInt64) (given : List Byte → List Byte → LkRouteOut)

theorem s3ReqField_user (huser : cfg.s3.noUser = false) (f : HttpField) (u : HttpUnit) :
    (s3ReqField cfg f u).user =
        (if spanEqCi f.name "authorization" then settle (s3AuthAccessKey f.val u.user) else u.user) ∧
      (s3ReqField cfg f u).target = u.target := by
  rw [s3ReqField]
  split
  · rw [if_neg (by rw [huser]; decide)]
    exact ⟨rfl, rfl⟩
  · split
    · exact ⟨rfl, rfl⟩
    · split <;> exact ⟨rfl, rfl⟩

theorem httpReqField_user (huser : cfg.s3.noUser = false) (r : HttpReqRead) (f : HttpField) :
    (httpReqField (lkHttpDialectS3 xxh3 given) cfg r f).u.user = userField cfg r.u.user f ∧
      (httpReqField (lkHttpDialectS3 xxh3 given) cfg r f).u.target = r.u.target := by
  obtain ⟨hkey, htarget⟩ := s3ReqField_user huser f r.u
  have hdialect : (lkHttpDialectS3 xxh3 given).reqField = s3ReqField := rfl
  rw [httpReqField, userField, hdialect]
  dsimp only
  by_cases hauth : spanEqCi f.name "authorization" = true
  · have hother : ∀ lit : String, keyIs "authorization".toUTF8.toList lit = false →
        ¬ spanEqCi f.name lit = true := by
      intro lit hlit
      rw [spanEqCi_inj hauth, hlit]
      decide
    rw [if_pos hauth] at hkey ⊢
    rw [if_neg (hother "host" (by decide +kernel)), if_neg (hother "user-agent" (by decide +kernel)),
      if_neg (hother "expect" (by decide +kernel)), if_neg (hother "traceparent" (by decide +kernel)),
      if_neg (hother "tracestate" (by decide +kernel)), spanEqCi_inj hauth "x-request-id",
      spanEqCi_inj hauth "x-amzn-trace-id", if_neg (by decide +kernel), spanEqCi_inj hauth cfg.routeHeader, hauth]
    by_cases hroute : keyIs "authorization".toUTF8.toList cfg.routeHeader = true
    · have hne : cfg.routeHeader ≠ "" := by
        intro hnil
        rw [hnil] at hroute
        exact absurd hroute (by decide +kernel)
      have hoff : basicOn cfg = false := by rw [basicOn, hroute, Bool.not_true, Bool.and_false]
      rw [hroute, Bool.and_true, if_pos (decide_eq_true hne), hoff, if_neg Bool.false_ne_true]
      exact ⟨hkey, htarget⟩
    · rw [Bool.not_eq_true] at hroute
      have hon : basicOn cfg = cfg.userBasic := by rw [basicOn, hroute, Bool.not_false, Bool.and_true]
      rw [hroute, Bool.and_false, if_neg Bool.false_ne_true, Bool.and_true, hon]
      split
      · rw [← hkey]
        exact ⟨rfl, htarget⟩
      · exact ⟨hkey, htarget⟩
  · rw [if_neg hauth] at hkey ⊢
    rw [Bool.not_eq_true] at hauth
    rw [hauth, Bool.and_false, if_neg Bool.false_ne_true]
    repeat' split
    all_goals exact ⟨hkey, htarget⟩

end

end Latkit
