import Latkit.NormS3
import Latkit.UrlRedaction

namespace Latkit
open Delimited (IsField ends_nil ends_cons key behind key_eq_self scan_plain scan_valued)

/-! What an operation name depends on. -/

def firstSubresource (q : List Byte) : Option (S3Key × List Byte) :=
  (q.splitOnP isAmp).findSome? fun f => (s3KeyOf (key isEq f)).map (·, (behind isEq f).tail)

theorem s3Subresource_nil : s3Subresource [] = (.none, []) := by rw [s3Subresource, if_pos rfl]

theorem s3Subresource_field (hf : IsField isAmp f) (hrest : Delimited.Ends isAmp rest) (hne : f ++ rest ≠ []) :
    s3Subresource (f ++ rest) =
      ((s3KeyOf (key isEq f)).map (·, (behind isEq f).tail)).getD (s3Subresource rest.tail) := by
  rw [s3Subresource, if_neg hne]
  dsimp only
  rcases isEq_cases f with hnil | ⟨v, hv⟩
  · obtain ⟨htake, hdrop⟩ := scan_plain hf hrest hnil
    rw [htake, hdrop, if_neg (hrest.head_ne (by decide)), key_eq_self hnil, hnil]
    cases s3KeyOf f <;> rfl
  · obtain ⟨htake, hdrop, hvalue, htail⟩ := scan_valued hf hrest hv
    rw [htake, hdrop, List.head?_cons, if_pos rfl, List.tail_cons, hvalue, htail, hv]
    cases s3KeyOf (key isEq f) <;> rfl

theorem s3Subresource_eq (q : List Byte) : s3Subresource q = (firstSubresource q).getD (.none, []) := by
  induction q using Delimited.induct isAmp with
  | last f hf =>
    rw [firstSubresource, List.splitOnP_eq_singleton hf]
    by_cases hnil : f = []
    · rw [hnil, s3Subresource_nil]
      decide +kernel
    · have hfield := s3Subresource_field hf ends_nil (by simpa using hnil)
      rw [List.append_nil, List.tail_nil, s3Subresource_nil] at hfield
      rw [hfield, List.findSome?_singleton]
  | more f s rest hf hs ih =>
    rw [s3Subresource_field hf (ends_cons hs rest) (by simp), List.tail_cons, ih, firstSubresource,
      firstSubresource, List.splitOnP_append_cons_of_forall_mem hf s hs, List.findSome?_cons]
    cases s3KeyOf (key isEq f) <;> rfl

structure S3Request where
  method : List Byte
  vhost : Bool
  path : List Byte
  query : List Byte
  copySrc : Bool
  deriving DecidableEq, Repr

def S3Request.addr (r : S3Request) : LkS3Addr := lkS3Split r.vhost r.path

def S3Request.route (xxh3 : List Byte → UInt64) (r : S3Request) : LkRouteOut :=
  lkNormS3 xxh3 r.method r.query r.addr r.copySrc

/-- Two requests that differ in the bytes of bucket, key and query only. -/
structure S3Request.Alike (r r' : S3Request) : Prop where
  method : r.method = r'.method
  vhost : r.vhost = r'.vhost
  bucket : r.addr.bucket = [] ↔ r'.addr.bucket = []
  key : r.addr.key = [] ↔ r'.addr.key = []
  internal : r.addr.internal = r'.addr.internal
  sub : (firstSubresource r.query).map Prod.fst = (firstSubresource r'.query).map Prod.fst
  listType : (firstSubresource r.query).map Prod.fst = some .listType →
    ((firstSubresource r.query).map Prod.snd = some ['2'.toUInt8] ↔
      (firstSubresource r'.query).map Prod.snd = some ['2'.toUInt8])
  copySrc : r.copySrc = r'.copySrc

theorem lkS3Split_vhost (vhost : Bool) (path : List Byte) : (lkS3Split vhost path).vhost = vhost := by
  rw [lkS3Split]
  split
  · rfl
  · dsimp only
    split <;> rfl

def rowKey (sub : S3Key × List Byte) : S3Key := if sub.1 = .listType ∧ ¬ keyIs sub.2 "2" then .none else sub.1

theorem lkS3Op_eq (method query : List Byte) (a : LkS3Addr) (copySrc : Bool) :
    lkS3Op method query a copySrc =
      if a.internal then s3OpInternal
      else if s3Method method = .none then s3OpOther
      else (s3Level a).elim s3OpOther fun lvl =>
        s3Find (rowKey (s3Subresource query)) lvl (s3Method method) (if copySrc then .yes else .no) := by
  rw [lkS3Op]
  dsimp only
  cases s3Level a <;> rfl

theorem S3Request.Alike.level {r r' : S3Request} (h : r.Alike r') : s3Level r.addr = s3Level r'.addr := by
  have hvhost : r.addr.vhost = r'.addr.vhost := by
    rw [S3Request.addr, S3Request.addr, lkS3Split_vhost, lkS3Split_vhost, h.vhost]
  simp only [s3Level, hvhost, ne_eq, h.bucket, h.key]

theorem S3Request.Alike.rowKey {r r' : S3Request} (h : r.Alike r') :
    rowKey (s3Subresource r.query) = rowKey (s3Subresource r'.query) := by
  have hsub := h.sub
  have hlist := h.listType
  rw [s3Subresource_eq, s3Subresource_eq]
  cases hfirst : firstSubresource r.query with
  | none =>
    rw [hfirst] at hsub
    rw [Option.map_eq_none_iff.mp hsub.symm]
  | some kv =>
    obtain ⟨k, v⟩ := kv
    rw [hfirst, Option.map_some] at hsub hlist
    obtain ⟨⟨k', v'⟩, hfirst', hk⟩ := Option.map_eq_some_iff.mp hsub.symm
    obtain rfl : k' = k := hk
    rw [hfirst'] at hlist ⊢
    simp only [Latkit.rowKey, Option.getD_some]
    by_cases htype : k' = .listType
    · have htwo : "2".toUTF8.toList = ['2'.toUInt8] := by decide +kernel
      have hvalue := hlist (congrArg some htype)
      simp only [Option.map_some, Option.some.injEq] at hvalue
      simp only [keyIs, htwo, beq_iff_eq, hvalue]
    · rw [if_neg fun hand => htype hand.1, if_neg fun hand => htype hand.1]

theorem S3Request.Alike.op {r r' : S3Request} (h : r.Alike r') :
    lkS3Op r.method r.query r.addr r.copySrc = lkS3Op r'.method r'.query r'.addr r'.copySrc := by
  rw [lkS3Op_eq, lkS3Op_eq, h.level, h.rowKey, h.internal, h.method, h.copySrc]

theorem s3Find_mem (key : S3Key) (lvl : S3Lvl) (m : S3M) (copy : S3Copy) : s3Find key lvl m copy ∈ s3Ops := by
  rw [s3Find]
  cases hrow : s3Rows.find? fun r => r.key = key ∧ r.lvl = lvl ∧ r.method = m ∧ (r.copy = .any ∨ r.copy = copy) with
  | none => exact List.mem_append_right _ (List.mem_cons_of_mem _ (List.mem_singleton_self _))
  | some row => exact List.mem_append_left _ (List.mem_map_of_mem (List.mem_of_find?_eq_some hrow))

theorem lkS3Op_mem (method query : List Byte) (a : LkS3Addr) (copySrc : Bool) :
    lkS3Op method query a copySrc ∈ s3Ops := by
  have hother : s3OpOther ∈ s3Ops := List.mem_append_right _ (List.mem_cons_of_mem _ (List.mem_singleton_self _))
  rw [lkS3Op_eq]
  split
  · exact List.mem_append_right _ (List.mem_cons_self ..)
  · split
    · exact hother
    · cases s3Level a with
      | none => exact hother
      | some lvl => exact s3Find_mem _ lvl _ _

/-- The route of a request is a name of the table, and no byte of a bucket, a key or a query value has a
part in it. -/
theorem s3_classification (xxh3 : List Byte → UInt64) :
    (∀ r r' : S3Request, r.Alike r' → r.route xxh3 = r'.route xxh3) ∧
      ∀ r : S3Request, ∃ op ∈ s3Ops, (r.route xxh3).text = op.toUTF8.toList := by
  constructor
  · intro r r' h
    rw [S3Request.route, S3Request.route, lkNormS3, lkNormS3]
    rw [h.op, h.method]
  · intro r
    exact ⟨_, lkS3Op_mem r.method r.query r.addr r.copySrc, rfl⟩

/-- Two listings of different buckets. -/
theorem s3_classification_listing :
    (S3Request.mk "GET".toUTF8.toList false "/photos".toUTF8.toList "prefix=cats&list-type=2".toUTF8.toList false).route
        (fun _ => 0) =
      (S3Request.mk "GET".toUTF8.toList false "/docs/".toUTF8.toList "list-type=2&prefix=x".toUTF8.toList false).route
        (fun _ => 0) := by
  apply (s3_classification fun _ => 0).1
  refine ⟨rfl, rfl, ?_, ?_, ?_, ?_, ?_, rfl⟩
  all_goals decide +kernel

end Latkit
