import Latkit.NormRoute

/-! The template of a target before it is clipped. -/

namespace Latkit.Route

/-- The text is what was emitted as far as there is room, and the flag says if that is not all. -/
structure RouteCtx.Clips (rx : RouteCtx) (full : List Byte) : Prop where
  fed : rx.fed = full
  text : rx.text = full.take (lkRouteTextMax - 1)
  trunc : rx.flags.trunc = decide (lkRouteTextMax - 1 < full.length)

theorem emit_clips {rx : RouteCtx} (h : rx.Clips full) (s : List Byte) : (emit rx s).Clips (full ++ s) := by
  have hlen : rx.text.length = min 255 full.length := by
    rw [h.text, List.length_take]
    rfl
  refine ⟨congrArg (· ++ s) h.fed, ?_, ?_⟩
  · change rx.text ++ s.take (255 - rx.text.length) = (full ++ s).take 255
    rw [List.take_append, hlen, h.text]
    refine congrArg (full.take 255 ++ ·) ?_
    by_cases hroom : full.length ≤ 255
    · rw [Nat.min_eq_right hroom]
    · rw [show 255 - min 255 full.length = 0 by omega, show 255 - full.length = 0 by omega]
  · have htrunc : rx.flags.trunc = decide (255 < full.length) := h.trunc
    change (if 255 - rx.text.length < s.length then { rx.flags with trunc := true } else rx.flags).trunc =
      decide (255 < (full ++ s).length)
    rw [hlen, List.length_append]
    split
    · exact (decide_eq_true (by omega)).symm
    · rw [htrunc, decide_eq_decide]
      omega

theorem emit_flags (rx : RouteCtx) (s : List Byte) : (emit rx s).flags.query = rx.flags.query := by
  rw [emit]
  dsimp only
  split <;> rfl

theorem emits_clips {rx : RouteCtx} (h : rx.Clips full) (pieces : List (List Byte)) :
    (pieces.foldl emit rx).Clips (full ++ pieces.flatten) := by
  induction pieces generalizing rx full with
  | nil => simpa using h
  | cons s pieces ih =>
    rw [List.foldl_cons, List.flatten_cons, ← List.append_assoc]
    exact ih (emit_clips h s)

theorem emits_flags (rx : RouteCtx) (pieces : List (List Byte)) :
    (pieces.foldl emit rx).flags.query = rx.flags.query := by
  induction pieces generalizing rx with
  | nil => rfl
  | cons s pieces ih => rw [List.foldl_cons, ih, emit_flags]

def segText (p : List Byte) : List Byte := (putSegment p).1.flatten

theorem putSegmentTo_clips {rx : RouteCtx} (h : rx.Clips full) (p : List Byte) :
    (putSegmentTo rx p).Clips (full ++ segText p) ∧ (putSegmentTo rx p).flags.query = rx.flags.query := by
  have hclips := emits_clips h (putSegment p).1
  have hflags := emits_flags rx (putSegment p).1
  rw [putSegmentTo]
  dsimp only
  split
  · exact ⟨⟨hclips.fed, hclips.text, hclips.trunc⟩, hflags⟩
  · exact ⟨hclips, hflags⟩

def walkText : Nat → List Byte → List Byte
  | _, [] => []
  | 0, _ :: _ => bytesOf "/..."
  | left + 1, c :: p =>
    (if c = slash then [slash] else []) ++ segText (nextSegment (c :: p)).1 ++ walkText left (nextSegment (c :: p)).2

theorem routeWalk_clips {rx : RouteCtx} (h : rx.Clips full) (left : Nat) (p : List Byte) :
    (routeWalk rx left p).Clips (full ++ walkText left p) ∧ (routeWalk rx left p).flags.query = rx.flags.query := by
  induction left generalizing rx full p with
  | zero =>
    cases p with
    | nil => exact ⟨by simpa [routeWalk, walkText] using h, rfl⟩
    | cons c p =>
      have hclips := emit_clips h (bytesOf "/...")
      exact ⟨⟨hclips.fed, hclips.text, hclips.trunc⟩, emit_flags rx _⟩
  | succ left ih =>
    cases p with
    | nil => exact ⟨by simpa [routeWalk, walkText] using h, rfl⟩
    | cons c p =>
      rw [routeWalk, walkText]
      by_cases hc : c = slash
      · simp only [hc, if_true]
        obtain ⟨hseg, hflag⟩ := putSegmentTo_clips (emit_clips h [slash]) (nextSegment (slash :: p)).1
        obtain ⟨hwalk, hflag'⟩ := ih hseg (nextSegment (slash :: p)).2
        exact ⟨by simpa using hwalk, hflag'.trans (hflag.trans (emit_flags rx _))⟩
      · simp only [hc, if_false]
        obtain ⟨hseg, hflag⟩ := putSegmentTo_clips h (nextSegment (c :: p)).1
        obtain ⟨hwalk, hflag'⟩ := ih hseg (nextSegment (c :: p)).2
        exact ⟨by simpa using hwalk, hflag'.trans hflag⟩

def pathText (cfg : RouteCfg) (method path : List Byte) : List Byte :=
  match mapFind cfg method path with
  | some pat => pat.text
  | none => if path = [star] then [star] else walkText (routeDepth cfg) path

theorem start_clips : ({} : RouteCtx).Clips [] := ⟨rfl, rfl, rfl⟩

theorem routePath_clips (cfg : RouteCfg) (method path : List Byte) :
    (routePath cfg method path).Clips (pathText cfg method path) ∧ (routePath cfg method path).flags.query = false := by
  rw [routePath, pathText]
  cases mapFind cfg method path with
  | some pat =>
    have hclips := emit_clips start_clips pat.text
    exact ⟨⟨hclips.fed, hclips.text, hclips.trunc⟩, emit_flags {} pat.text⟩
  | none =>
    dsimp only
    split
    · exact ⟨emit_clips start_clips [star], emit_flags {} [star]⟩
    · exact routeWalk_clips start_clips _ _

def queryPairs (query : List Byte) (keys : List (List Byte)) : List (List Byte × List Byte) :=
  keys.filterMap fun key => if key = [] then none else (queryFind query key).map fun val => (key, queryShown val)

def pairText (pair : List Byte × List Byte) : List Byte := pair.1 ++ eqs :: pair.2

def pairsText (seen : Bool) : List (List Byte × List Byte) → List Byte
  | [] => []
  | pair :: pairs => (if seen then amp else mark) :: pairText pair ++ pairsText true pairs

theorem queryKeys_clips {rx : RouteCtx} (h : rx.Clips full) (query : List Byte) (keys : List (List Byte)) :
    (keys.foldl (queryKeysTo query) rx).Clips (full ++ pairsText rx.flags.query (queryPairs query keys)) := by
  induction keys generalizing rx full with
  | nil => simpa [queryPairs, pairsText] using h
  | cons key keys ih =>
    rw [List.foldl_cons, queryPairs, List.filterMap_cons, queryKeysTo]
    by_cases hkey : key = []
    · rw [if_pos hkey, if_pos hkey]
      exact ih h
    · rw [if_neg hkey, if_neg hkey]
      cases hfind : queryFind query key with
      | none => exact ih h
      | some val =>
        have hclips := emits_clips h [[if rx.flags.query then amp else mark], key, [eqs], queryShown val]
        dsimp only
        generalize [[if rx.flags.query then amp else mark], key, [eqs], queryShown val].foldl emit rx = rx' at hclips ⊢
        have hmarked : ({ rx' with flags := { rx'.flags with query := true } } : RouteCtx).Clips _ :=
          ⟨hclips.fed, hclips.text, hclips.trunc⟩
        simpa [pairsText, pairText, queryPairs] using ih hmarked

def routeText (cfg : RouteCfg) (method target : List Byte) : List Byte :=
  pathText cfg method (pathOf target) ++ pairsText false (queryPairs (queryOf target) cfg.queryKeys)

theorem queryFind_nil (hkey : key ≠ []) : queryFind [] key = none := by
  simp [queryFind, Ne.symm hkey]

theorem queryPairs_nil (keys : List (List Byte)) : queryPairs [] keys = [] := by
  rw [queryPairs, List.filterMap_eq_nil_iff]
  intro key _
  split
  · rfl
  · next hkey => rw [queryFind_nil hkey]; rfl

/-- The text is the template as far as there is room, and the fingerprint that of the whole. -/
theorem lkNormRoute_eq (xxh3 : List Byte → UInt64) (method target : List Byte) (cfg : RouteCfg) :
    (lkNormRoute xxh3 method target cfg).text = (routeText cfg method target).take (lkRouteTextMax - 1) ∧
      (lkNormRoute xxh3 method target cfg).fp = xxh3 (method ++ 0 :: routeText cfg method target) ∧
      (lkNormRoute xxh3 method target cfg).flags.trunc =
        decide (lkRouteTextMax - 1 < (routeText cfg method target).length) := by
  obtain ⟨hpath, hflag⟩ := routePath_clips cfg method (pathOf target)
  rw [lkNormRoute, routeText]
  split
  · next hq =>
    rw [hq, queryPairs_nil, pairsText, List.append_nil]
    exact ⟨hpath.text, congrArg (fun fed => xxh3 (method ++ 0 :: fed)) hpath.fed, hpath.trunc⟩
  · have hclips := queryKeys_clips hpath (queryOf target) cfg.queryKeys
    rw [hflag] at hclips
    exact ⟨hclips.text, congrArg (fun fed => xxh3 (method ++ 0 :: fed)) hclips.fed, hclips.trunc⟩

end Latkit.Route
