import Latkit.S3Dialect
import Latkit.S3Classify

namespace Latkit
open Delimited (IsField ends_nil ends_cons key behind key_append key_eq_self scan_plain scan_valued)

/-! The credential of a presigned query. -/

def queryCredential (q : List Byte) : Option (List Byte) :=
  ((q.splitOnP isAmp).find? fun f => spanEqCi (key isEq f) "x-amz-credential").bind fun f =>
    s3Scope (behind isEq f).tail

section
variable {buf k v q rest : List Byte}

theorem s3QueryAccessKey_nil (buf : List Byte) : s3QueryAccessKey [] buf = (false, buf) := by
  rw [s3QueryAccessKey, if_pos rfl]

theorem s3QueryAccessKey_field (buf : List Byte) (hf : IsField isAmp g) (hrest : Delimited.Ends isAmp rest) (hne : g ++ rest ≠ []) :
    s3QueryAccessKey (g ++ rest) buf =
      if spanEqCi (key isEq g) "x-amz-credential" then
        (s3Scope (behind isEq g).tail).elim (false, buf) (s3CopyLabel buf)
      else s3QueryAccessKey rest.tail buf := by
  rw [s3QueryAccessKey, if_neg hne]
  dsimp only
  rcases isEq_cases g with hnil | ⟨v, hv⟩
  · obtain ⟨htake, hdrop⟩ := scan_plain hf hrest hnil
    rw [htake, hdrop, if_neg (hrest.head_ne (by decide)), if_neg (hrest.head_ne (by decide)), key_eq_self hnil, hnil]
    rfl
  · obtain ⟨htake, hdrop, hvalue, htail⟩ := scan_valued hf hrest hv
    rw [htake, hdrop, List.head?_cons, if_pos rfl, if_pos rfl, List.tail_cons, hvalue, htail, hv, List.tail_cons]
    cases s3Scope v <;> rfl

theorem queryCredential_last (hf : IsField isAmp g) :
    queryCredential g =
      if spanEqCi (key isEq g) "x-amz-credential" then s3Scope (behind isEq g).tail else none := by
  rw [queryCredential, List.splitOnP_eq_singleton hf, List.find?_singleton]
  split <;> rfl

theorem queryCredential_more (hf : IsField isAmp g) (hs : isAmp s = true) (rest : List Byte) :
    queryCredential (g ++ s :: rest) =
      if spanEqCi (key isEq g) "x-amz-credential" then s3Scope (behind isEq g).tail else queryCredential rest := by
  rw [queryCredential, List.splitOnP_append_cons_of_forall_mem hf s hs, List.find?_cons]
  split
  · next h => rw [if_pos h, Option.bind_some]
  · next h => rw [if_neg (by rw [h]; decide), queryCredential]

theorem s3QueryAccessKey_eq (q buf : List Byte) :
    s3QueryAccessKey q buf = (queryCredential q).elim (false, buf) (s3CopyLabel buf) := by
  induction q using Delimited.induct isAmp with
  | last g hf =>
    by_cases hnil : g = []
    · have hnone : queryCredential [] = none := by decide +kernel
      rw [hnil, s3QueryAccessKey_nil, hnone, Option.elim_none]
    · have hfield := s3QueryAccessKey_field buf hf ends_nil (by simpa using hnil)
      rw [List.append_nil, List.tail_nil, s3QueryAccessKey_nil] at hfield
      rw [hfield, queryCredential_last hf]
      split <;> rfl
  | more g s rest hf hs ih =>
    rw [s3QueryAccessKey_field buf hf (ends_cons hs rest) (by simp), List.tail_cons, ih, queryCredential_more hf hs]
    split <;> rfl

theorem s3Scope_append (h : s3Scope v = some k) (more : List Byte) : s3Scope (v ++ more) = some k := by
  induction v generalizing k with
  | nil => cases h
  | cons b v ih =>
    rw [s3Scope] at h
    rw [List.cons_append, s3Scope]
    split at h
    · next hslash => rwa [if_pos hslash]
    · next hslash =>
      rw [if_neg hslash]
      split at h
      · next hcode =>
        match v, hcode with
        | [], ⟨_, htwo, _⟩ => cases htwo
        | [_], ⟨_, _, hf⟩ => cases hf
        | c :: c' :: v, hcode => rwa [if_pos (by simpa using hcode)]
      · next hcode =>
        obtain ⟨k', hk', rfl⟩ := Option.map_eq_some_iff.mp h
        rw [ih hk', Option.map_some]
        apply if_neg
        match v, hk', hcode with
        | [c], hk', _ =>
          -- a scope that ends here is a slash, which is no digit
          rintro ⟨-, htwo, -⟩
          rw [List.cons_append, List.getElem?_cons_zero, Option.some.injEq] at htwo
          rw [htwo] at hk'
          have hnone : s3Scope ['2'.toUInt8] = none := by decide
          rw [hnone] at hk'
          cases hk'
        | c :: c' :: v, _, hcode => simpa using hcode

theorem s3Scope_mem (h : s3Scope v = some k) : k ⊆ v := by
  induction v generalizing k with
  | nil => cases h
  | cons b v ih =>
    rw [s3Scope] at h
    split at h
    · cases h
      exact List.nil_subset _
    · split at h
      · cases h
        exact List.nil_subset _
      · obtain ⟨k', hk', rfl⟩ := Option.map_eq_some_iff.mp h
        exact List.cons_subset_cons b (ih hk')

theorem queryCredential_open (hf : IsField isAmp g) (hkey : spanEqCi (key isEq g) "x-amz-credential" = true)
    (hv : behind isEq g = '='.toUInt8 :: v) (hk : s3Scope v = some k) (more : List Byte) :
    queryCredential (g ++ more) = some k := by
  have hopen : ∀ m₀, key isEq (g ++ m₀) = key isEq g ∧ behind isEq (g ++ m₀) = '='.toUInt8 :: (v ++ m₀) := by
    intro m₀
    have happend := key_append (by rw [hv]; exact List.cons_ne_nil _ _) m₀
    rwa [hv, List.cons_append] at happend
  have hfield : ∀ m₀, IsField isAmp m₀ → IsField isAmp (g ++ m₀) := by
    intro m₀ hm₀ b hb
    rcases List.mem_append.mp hb with hb | hb
    · exact hf b hb
    · exact hm₀ b hb
  induction more using Delimited.induct isAmp with
  | last m₀ hm₀ =>
    rw [queryCredential_last (hfield m₀ hm₀), (hopen m₀).1, if_pos hkey, (hopen m₀).2]
    exact s3Scope_append hk m₀
  | more m₀ s rest hm₀ hs ih =>
    rw [← List.append_assoc, queryCredential_more (hfield m₀ hm₀) hs, (hopen m₀).1, if_pos hkey, (hopen m₀).2]
    exact s3Scope_append hk m₀

theorem queryCredential_append (h : queryCredential q = some k) (more : List Byte) :
    queryCredential (q ++ more) = some k := by
  induction q using Delimited.induct isAmp with
  | last g hf =>
    rw [queryCredential_last hf] at h
    split at h
    · next hkey =>
      rcases isEq_cases g with hnil | ⟨v, hv⟩
      · rw [hnil] at h
        cases h
      · rw [hv, List.tail_cons] at h
        exact queryCredential_open hf hkey hv h more
    · cases h
  | more g s rest hf hs ih =>
    rw [queryCredential_more hf hs] at h
    rw [List.append_assoc, List.cons_append, queryCredential_more hf hs]
    split at h
    · next hkey => rwa [if_pos hkey]
    · next hkey =>
      rw [if_neg hkey]
      exact ih h

theorem queryCredential_mem (h : queryCredential q = some k) : k ⊆ q := by
  induction q using Delimited.induct isAmp with
  | last g hf =>
    rw [queryCredential_last hf] at h
    split at h
    · exact List.Subset.trans (s3Scope_mem h) ((List.tail_sublist _).trans (List.dropWhile_sublist _)).subset
    · cases h
  | more g s rest hf hs ih =>
    rw [queryCredential_more hf hs] at h
    split at h
    · have hfield : k ⊆ g :=
        List.Subset.trans (s3Scope_mem h) ((List.tail_sublist _).trans (List.dropWhile_sublist _)).subset
      exact List.subset_append_of_subset_left _ hfield
    · exact List.subset_append_of_subset_right _ (List.subset_cons_of_subset s (ih h))

end

end Latkit
