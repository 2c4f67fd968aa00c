import Latkit.HttpHandler
import Latkit.RouteIdem
import Latkit.SqlUtf8

/-! Whether the label of a query is in UTF-8. -/

namespace Latkit
open Utf8

namespace Route

theorem high_ne {b x : Byte} (h : (b != x) = false) (hx : x < 0x80) : b < 0x80 := by
  have hb : b = x := by simpa using h
  rw [hb]
  exact hx

theorem nextSegment_text (h : Text p) : Text (nextSegment p).1 ∧ Text (nextSegment p).2 := by
  have hbody : Text (if p.head? = some slash then p.tail else p) := by
    split
    · next hslash => exact h.tail_eq hslash (by decide)
    · exact h
  exact hbody.span fun b hb => high_ne hb (by decide)

theorem segText_text (h : Text p) : Text (segText p) := by
  have hlow : ∀ c, isAlnum c = true → c < 0x80 := by
    have hall : ∀ c : Fin 256, isAlnum (UInt8.ofFin c) = true → UInt8.ofFin c < 0x80 := by decide +kernel
    exact fun c hc => hall c.toFin hc
  have hshown := segText_shown p
  generalize segText p = shown at hshown
  cases hshown with
  | file hshape =>
    refine Text.append (Text.low (by decide +kernel)) (Text.low ?_)
    exact List.all_eq_true.mpr fun c hc => decide_eq_true (hlow c (List.all_eq_true.mp hshape.alnum c hc))
  | id _ => exact Text.low (by decide +kernel)
  | literal => exact h

theorem walkText_text (left : Nat) (h : Text p) : Text (walkText left p) := by
  induction left generalizing p with
  | zero =>
    cases p with
    | nil => exact Text.nil
    | cons c p =>
      have hdots : Text (bytesOf "/...") := Text.low (by decide +kernel)
      exact hdots
  | succ left ih =>
    cases p with
    | nil => exact Text.nil
    | cons c p =>
      obtain ⟨hseg, hrest⟩ := nextSegment_text h
      rw [walkText]
      refine Text.append (Text.append ?_ (segText_text hseg)) (ih hrest)
      split
      · exact Text.low (by decide)
      · exact Text.nil

theorem queryFind_text (hfind : queryFind query key = some val) (h : Text query) : Text val := by
  obtain ⟨pair, hpair, hval⟩ := List.exists_of_findSome?_eq_some hfind
  have htext : Text pair := Text.pieces (by rw [List.intercalate_splitOn]; exact h) (by decide) pair hpair
  split at hval
  · cases hval
    refine (htext.span fun b hb => high_ne hb (by decide)).2.tail fun b hb => ?_
    have hstop := List.head?_dropWhile_not (· != eqs) pair
    rw [Option.mem_def.mp hb] at hstop
    exact high_ne (x := eqs) (by simpa using hstop) (by decide)
  · cases hval

theorem pairsText_text (h : ∀ pair ∈ pairs, Text pair.1 ∧ Text pair.2) (seen : Bool) : Text (pairsText seen pairs) := by
  induction pairs generalizing seen with
  | nil => exact Text.nil
  | cons pair pairs ih =>
    obtain ⟨⟨hkey, hval⟩, hpairs⟩ := List.forall_mem_cons.mp h
    have hmark : (if seen then amp else mark) < 0x80 := by
      cases seen <;> decide
    exact (Text.cons hmark (hkey.append (Text.cons (by decide) hval))).append (ih hpairs true)

structure TextTarget (cfg : RouteCfg) (target : List Byte) : Prop where
  map : ∀ pat ∈ cfg.map, Text pat.text
  keys : ∀ key ∈ cfg.queryKeys, Text key
  target : Text target

theorem routeText_text (h : TextTarget cfg target) (method : List Byte) : Text (routeText cfg method target) := by
  have hspan := h.target.span fun b hb => high_ne (x := mark) hb (by decide)
  refine Text.append ?_ (pairsText_text ?_ false)
  · rw [pathText]
    cases hfind : mapFind cfg method (pathOf target) with
    | some pat =>
      rw [mapFind] at hfind
      split at hfind
      · cases hfind
      · exact h.map pat (List.mem_of_find?_eq_some hfind)
    | none =>
      dsimp only
      split
      · exact Text.low (by decide)
      · exact walkText_text _ hspan.1
  · intro pair hpair
    obtain ⟨key, hkey, hsome⟩ := List.mem_filterMap.mp hpair
    have hquery : Text (queryOf target) := by
      refine hspan.2.tail fun b hb => ?_
      have hstop := List.head?_dropWhile_not (· != mark) target
      rw [Option.mem_def.mp hb] at hstop
      exact high_ne (x := mark) (by simpa using hstop) (by decide)
    split at hsome
    · cases hsome
    · obtain ⟨val, hval, rfl⟩ := Option.map_eq_some_iff.mp hsome
      refine ⟨h.keys key hkey, ?_⟩
      change Text (queryShown val)
      rw [queryShown]
      split
      · exact Text.low (by decide +kernel)
      · exact queryFind_text hval hquery

end Route

open Route

inductive LabelSource where
  | sql (my : Bool) (sql : List Byte)
  | route (cfg : RouteCfg) (method target : List Byte)
  | given (method route : List Byte)

namespace LabelSource

def Valid : LabelSource → Prop
  | sql _ s => Text s
  | route cfg _ target => TextTarget cfg target
  | given _ r => Text r

def text (xxh3 : List Byte → UInt64) : LabelSource → List Byte
  | sql my s => (lkNormSql xxh3 my s).text
  | route cfg method target => (lkNormRoute xxh3 method target cfg).text
  | given method r => (lkNormRouteGiven xxh3 method r).text

def full : LabelSource → List Byte
  | sql my s => sqlJoin (sqlPrinted my s)
  | route cfg method target => routeText cfg method target
  | given _ r => r.filter (!isCtl ·)

def cap : LabelSource → Nat
  | sql .. => lkNormTextMax - 1
  | route .. => lkRouteTextMax - 1
  | given .. => lkRouteTextMax - 1

theorem text_eq (xxh3 : List Byte → UInt64) (src : LabelSource) : src.text xxh3 = src.full.take src.cap := by
  cases src with
  | sql my s => exact (lkNormSql_eq xxh3 my s).1
  | route cfg method target => exact (lkNormRoute_eq xxh3 method target cfg).1
  | given method r =>
    have hclips := (emits_clips start_clips (r.splitOnP isCtl)).text
    rw [flatten_splitOnP] at hclips
    exact hclips

theorem Valid.full {src : LabelSource} (h : src.Valid) : Text src.full := by
  cases src with
  | sql my s => exact sqlJoin_utf8 (sqlPrinted_utf8 h my)
  | route cfg method target => exact routeText_text h method
  | given _ r =>
    refine Text.filter h fun b hb => ?_
    have hall : ∀ b : Fin 256, (!isCtl (UInt8.ofFin b)) = false → UInt8.ofFin b < 0x80 := by decide +kernel
    exact hall b.toFin hb

end LabelSource

theorem utf8Back_spec (src : List Byte) (n : Nat) : utf8Back src n ≤ n ∧
    (utf8Back src n = 0 ∨ ∀ b ∈ src[utf8Back src n]?, isCont b = false) := by
  induction n with
  | zero => exact ⟨Nat.le_refl 0, .inl rfl⟩
  | succ n ih =>
    rw [utf8Back]
    split
    · exact ⟨Nat.le_succ_of_le ih.1, ih.2⟩
    · next hcont =>
      refine ⟨Nat.le_refl _, .inr fun b hb => ?_⟩
      rw [List.getD_eq_getElem?_getD, Option.mem_def.mp hb] at hcont
      exact decide_eq_false hcont

theorem take_text (h : Text w) (n : Nat) : Text (w.take n) ↔ ∀ b ∈ w[n]?, isCont b = false := by
  rw [← List.head?_drop]
  have hw : Text (w.take n ++ w.drop n) := by rwa [List.take_append_drop]
  refine ⟨fun htake b hb => ?_, fun hb => (hw.split hb).1⟩
  have hdrop := htake.cancel hw
  obtain ⟨rest, hrest⟩ := List.head?_eq_some_iff.mp hb
  rw [hrest] at hdrop
  exact hdrop.head

/-- The label is cut a second time, with care, unless the first cut left just what there is room for. -/
theorem utf8Trunc_clipped (h : Text w) (hn : n ≤ cap) : utf8Trunc (w.take cap) n <+: w ∧
    (Text (utf8Trunc (w.take cap) n) ↔ ¬ (n = cap ∧ ∃ b ∈ w[cap]?, isCont b = true)) := by
  refine ⟨(List.take_prefix _ _).trans (List.take_prefix _ _), ?_⟩
  rw [utf8Trunc, List.length_take]
  by_cases hw : w.length ≤ n
  · rw [if_neg (by omega), List.take_take, List.take_of_length_le (by omega), List.getElem?_eq_none (by omega)]
    simp [h]
  · by_cases hcap : n = cap
    · rw [if_neg (by omega), List.take_take, show min (min (min cap w.length) n) cap = cap by omega, take_text h]
      simp [hcap]
    · obtain ⟨hle, hback⟩ := utf8Back_spec (w.take cap) n
      rw [if_pos (by omega), List.take_take, show min (min cap w.length) n = n by omega, Nat.min_eq_left (by omega)]
      refine iff_of_true ?_ fun hclip => hcap hclip.1
      rcases hback with hzero | hback
      · rw [hzero]
        exact Text.nil
      · rw [List.getElem?_take_of_lt (by omega)] at hback
        exact (take_text h _).mpr hback

theorem lkRegNew_labelLen (cfg : LkMetricsCfg) : (lkRegNew cfg).labelLen < lkQueryLabelMax := by
  rw [lkRegNew]
  dsimp only
  split
  · decide
  · next hlen => exact Nat.lt_of_not_le fun hle => hlen (.inr hle)

/-- The label of a text in UTF-8 is a start of it, and is in UTF-8 unless the normaliser cut the text inside a character
just where the label ends. -/
theorem admitQuery_label (xxh3 : List Byte → UInt64) (src : LabelSource) (hsrc : src.Valid) (cfg : LkMetricsCfg)
    (r : LkRegistry) (hr : r.labelLen = (lkRegNew cfg).labelLen) (hfree : r.free = s :: free) (fp : UInt64) (op : List Byte) :
    ((admitQuery r fp (cstr (src.text xxh3)) op).2.entries s).label <+: src.full ∧
      (Text ((admitQuery r fp (cstr (src.text xxh3)) op).2.entries s).label ↔
        ¬ (r.labelLen = src.cap ∧ ∃ b ∈ (cstr src.full)[src.cap]?, isCont b = true)) := by
  have hlabel : ((admitQuery r fp (cstr (src.text xxh3)) op).2.entries s).label =
      utf8Trunc ((cstr src.full).take src.cap) r.labelLen := by
    rw [admitQuery, hfree, src.text_eq, cstr, cstr, List.take_takeWhile]
    exact congrArg QEntry.label (Function.update_self (f := r.entries) ..)
  have htext : Text (cstr src.full) := (hsrc.full.span fun b hb => high_ne hb (by decide)).1
  have hlen : r.labelLen ≤ src.cap := by
    have hlt := lkRegNew_labelLen cfg
    rw [← hr, lkQueryLabelMax] at hlt
    refine Nat.le_trans (Nat.le_of_lt_succ hlt) ?_
    cases src with
    | sql => exact (by decide : 255 ≤ lkNormTextMax - 1)
    | route => exact Nat.le_refl 255
    | given => exact Nat.le_refl 255
  obtain ⟨hstart, hiff⟩ := utf8Trunc_clipped htext hlen
  rw [hlabel]
  exact ⟨hstart.trans (List.takeWhile_prefix _), hiff⟩

theorem admitQuery_label_select : (lkRegNew { topQueries := 1 }).free = [0] ∧
    Text ((admitQuery (lkRegNew { topQueries := 1 }) 1
      (cstr ((LabelSource.sql false (bytesOf "SELECT 1")).text fun _ => 0)) []).2.entries 0).label := by
  have hsql : Text (bytesOf "SELECT 1") := Text.low (by decide +kernel)
  refine ⟨rfl, (admitQuery_label (fun _ => 0) (.sql false (bytesOf "SELECT 1")) hsql { topQueries := 1 } _ rfl rfl 1 []).2.mpr ?_⟩
  exact fun hclip => absurd hclip.1 (by decide)

def longPath : List Byte :=
  (List.replicate 10 (slash :: List.replicate 23 'z'.toUInt8)).flatten ++ (slash :: List.replicate 13 'z'.toUInt8) ++
    [0xc3, 0xa9]

theorem admitQuery_label_cut : (LabelSource.route { depth := 32 } (bytesOf "GET") longPath).Valid ∧
    ¬ Text ((admitQuery (lkRegNew { topQueries := 1 }) 1
      (cstr ((LabelSource.route { depth := 32 } (bytesOf "GET") longPath).text fun _ => 0)) []).2.entries 0).label := by
  have hpath : Text longPath := (Text.low (by decide +kernel)).append (Text.char 'é')
  have hlabel : ((admitQuery (lkRegNew { topQueries := 1 }) 1
      (cstr ((LabelSource.route { depth := 32 } (bytesOf "GET") longPath).text fun _ => 0)) []).2.entries 0).label ++ [0xa9] =
        longPath := by decide +kernel
  rw [← hlabel] at hpath
  refine ⟨⟨fun pat hpat => ?_, fun key hkey => ?_, ?_⟩, hpath.cut (by decide)⟩
  · cases hpat
  · cases hkey
  · rw [hlabel] at hpath
    exact hpath

end Latkit
