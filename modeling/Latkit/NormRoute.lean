import Latkit.Registry

/-! The HTTP route templater of `norm_route.c`. -/

namespace Latkit.Route

def lkRouteTextMax : Nat := 256
def lkRouteDepthDef : Nat := 8
def lkRouteDepthMax : Nat := 32
def lkRouteQueryValMax : Nat := 32
def lkRouteMapMax : Nat := 512
def lkRouteSegMax : Nat := 16

def slash : Byte := '/'.toUInt8
def dot : Byte := '.'.toUInt8
def mark : Byte := '?'.toUInt8
def amp : Byte := '&'.toUInt8
def eqs : Byte := '='.toUInt8
def dash : Byte := '-'.toUInt8
def star : Byte := '*'.toUInt8

def isDigit (c : Byte) : Bool := '0'.toUInt8 ≤ c && c ≤ '9'.toUInt8

def isLower (c : Byte) : Bool := 'a'.toUInt8 ≤ c && c ≤ 'z'.toUInt8

def isUpper (c : Byte) : Bool := 'A'.toUInt8 ≤ c && c ≤ 'Z'.toUInt8

def isHex (c : Byte) : Bool :=
  isDigit c || ('a'.toUInt8 ≤ c && c ≤ 'f'.toUInt8) || ('A'.toUInt8 ≤ c && c ≤ 'F'.toUInt8)

def isAlpha (c : Byte) : Bool := isLower c || isUpper c

def isAlnum (c : Byte) : Bool := isAlpha c || isDigit c

def isCtl (c : Byte) : Bool := c < 0x20 || c == 0x7f

def uuidGroups : List Nat → List Byte → Bool
  | [], _ => true
  | [g], p => (p.take g).all isHex
  | g :: gs, p => (p.take g).all isHex && p[g]? == some dash && uuidGroups gs (p.drop (g + 1))

def looksUuid (p : List Byte) : Bool := p.length == 36 && uuidGroups [8, 4, 4, 4, 12] p

def isCrockford (c : Byte) : Bool :=
  isDigit c || (isAlpha c && !(bytesOf "ILOU").contains (if isLower c then c - 32 else c))

def looksUlid (p : List Byte) : Bool := p.length == 26 && p.all isCrockford

def looksDate (p : List Byte) : Bool :=
  p.length == 10 && p[4]? == some dash && p[7]? == some dash &&
    p.zipIdx.all fun c => c.2 == 4 || c.2 == 7 || isDigit c.1

def looksB64 (p : List Byte) : Bool :=
  16 ≤ p.length && p.all (fun c => isUpper c || isLower c || isDigit c || (bytesOf "+/=-_").contains c) &&
    p.any isUpper && p.any isLower && p.any isDigit

def looksDigitHeavy (p : List Byte) : Bool := 6 ≤ p.length && p.length * 4 < p.countP isDigit * 10

def segOpaque (p : List Byte) : Bool :=
  if p = [] then false
  else if p.any isCtl then true
  else if p.all isDigit then true
  else if 24 < p.length then true
  else if p.all isHex && 8 ≤ p.length then true
  else looksUuid p || looksUlid p || looksDate p || looksB64 p || looksDigitHeavy p

def stemOpaque (p : List Byte) : Bool := (p.splitOn dot).any segOpaque

def splitExt (p : List Byte) : Option (List Byte × List Byte) :=
  let ext := p.rtakeWhile (· != dot)
  let front := p.rdropWhile (· != dot)
  if front.length ≤ 1 || ext.isEmpty || 8 < ext.length then none
  else if ext.all isAlnum && ext.any isAlpha then some (front.dropLast, ext)
  else none

def putSegment (p : List Byte) : List (List Byte) × Bool :=
  match splitExt p with
  | some (stem, ext) => if stemOpaque stem then ([bytesOf "\x7bfile\x7d.", ext], true) else ([p], false)
  | none => if segOpaque p then ([bytesOf "\x7bid\x7d"], true) else ([p], false)

structure RoutePat where
  method : Option (List Byte)
  text : List Byte
  segs : List (List Byte)
  deriving DecidableEq, Repr

abbrev RouteMap := List RoutePat

def nextSegment (p : List Byte) : List Byte × List Byte :=
  let p := if p.head? = some slash then p.tail else p
  (p.takeWhile (· != slash), p.dropWhile (· != slash))

def segmentsOf : Nat → List Byte → List (List Byte)
  | 0, _ => []
  | _ + 1, [] => []
  | n + 1, c :: p => (nextSegment (c :: p)).1 :: segmentsOf n (nextSegment (c :: p)).2

def pathSegments (p : List Byte) : List (List Byte) := segmentsOf p.length p

def isVar (seg : List Byte) : Bool :=
  2 ≤ seg.length && seg.head? == some '\x7b'.toUInt8 && seg.getLast? == some '\x7d'.toUInt8

def segMatches (pat seg : List Byte) : Bool :=
  isVar pat || (pat.length % 2 ^ 16 == seg.length % 2 ^ 16 && pat.take (seg.length % 2 ^ 16) == seg.take (seg.length % 2 ^ 16))

def patMatches (pat : RoutePat) (method : List Byte) (segs : List (List Byte)) : Bool :=
  pat.segs.length == segs.length && pat.method.all (· == method) && (pat.segs.zip segs).all fun s => segMatches s.1 s.2

def isBlank (c : Byte) : Bool := c == ' '.toUInt8 || c == '\t'.toUInt8

def trimLine (line : List Byte) : List Byte :=
  let line := if line.getLast? = some '\r'.toUInt8 then line.dropLast else line
  (line.dropWhile isBlank).rdropWhile isBlank

def parsePat (line : List Byte) : Option RoutePat :=
  let method := line.takeWhile (!isBlank ·)
  let text := (line.dropWhile (!isBlank ·)).dropWhile isBlank
  if method.isEmpty || text.head? != some slash then none
  else if line.any (fun c => isCtl c || c == mark || c == '#'.toUInt8) || lkRouteTextMax ≤ text.length then none
  else if lkRouteSegMax < (pathSegments text).length then none
  else some ⟨if method = [star] then none else some method, text, pathSegments text⟩

def parseLine (slots : Nat) (acc : RouteMap × Nat) (line : List Byte) : RouteMap × Nat :=
  if (trimLine line).isEmpty || (trimLine line).head? == some '#'.toUInt8 then acc
  else
    match parsePat (trimLine line) with
    | some pat => if acc.1.length < slots then (acc.1 ++ [pat], acc.2) else (acc.1, acc.2 + 1)
    | none => (acc.1, acc.2 + 1)

def lkRouteMapParse (text : List Byte) : RouteMap × Nat :=
  let lines := text.splitOn '\n'.toUInt8
  lines.foldl (parseLine (min lines.length lkRouteMapMax)) ([], 0)

def queryFind (q key : List Byte) : Option (List Byte) :=
  (q.splitOn amp).findSome? fun pair =>
    if pair.takeWhile (· != eqs) = key then some (pair.dropWhile (· != eqs)).tail else none

structure RouteCfg where
  map : RouteMap := []
  queryKeys : List (List Byte) := []
  depth : UInt8 := 0

structure RouteFlags where
  templated : Bool := false
  depthClip : Bool := false
  fromMap : Bool := false
  given : Bool := false
  query : Bool := false
  trunc : Bool := false
  deriving DecidableEq, Repr

structure RouteCtx where
  text : List Byte := []
  fed : List Byte := []
  flags : RouteFlags := {}

def emit (rx : RouteCtx) (s : List Byte) : RouteCtx :=
  let room := lkRouteTextMax - 1 - rx.text.length
  { text := rx.text ++ s.take room
    fed := rx.fed ++ s
    flags := if room < s.length then { rx.flags with trunc := true } else rx.flags }

structure RouteOut where
  text : List Byte
  fp : UInt64
  flags : RouteFlags
  deriving DecidableEq, Repr

def putSegmentTo (rx : RouteCtx) (p : List Byte) : RouteCtx :=
  let rx' := (putSegment p).1.foldl emit rx
  if (putSegment p).2 then { rx' with flags := { rx'.flags with templated := true } } else rx'

def routeWalk (rx : RouteCtx) : Nat → List Byte → RouteCtx
  | _, [] => rx
  | 0, _ :: _ =>
    let rx := emit rx (bytesOf "/...")
    { rx with flags := { rx.flags with depthClip := true, templated := true } }
  | left + 1, c :: p =>
    let rx := if c = slash then emit rx [slash] else rx
    routeWalk (putSegmentTo rx (nextSegment (c :: p)).1) left (nextSegment (c :: p)).2

def queryShown (val : List Byte) : List Byte :=
  if lkRouteQueryValMax < val.length || segOpaque val then bytesOf "\x7bid\x7d" else val

def queryKeysTo (query : List Byte) (rx : RouteCtx) (key : List Byte) : RouteCtx :=
  if key = [] then rx
  else
    match queryFind query key with
    | none => rx
    | some val =>
      let rx := [[if rx.flags.query then amp else mark], key, [eqs], queryShown val].foldl emit rx
      { rx with flags := { rx.flags with query := true } }

def pathOf (target : List Byte) : List Byte := target.takeWhile (· != mark)

def queryOf (target : List Byte) : List Byte := (target.dropWhile (· != mark)).tail

def routeDepth (cfg : RouteCfg) : Nat :=
  min (if cfg.depth = 0 then lkRouteDepthDef else cfg.depth.toNat) lkRouteDepthMax

def mapFind (cfg : RouteCfg) (method path : List Byte) : Option RoutePat :=
  if path = [] || lkRouteSegMax < (pathSegments path).length then none
  else cfg.map.find? fun pat => patMatches pat method (pathSegments path)

def routePath (cfg : RouteCfg) (method path : List Byte) : RouteCtx :=
  match mapFind cfg method path with
  | some pat =>
    let rx := emit {} pat.text
    { rx with flags := { rx.flags with fromMap := true, templated := true } }
  | none => if path = [star] then emit {} [star] else routeWalk {} (routeDepth cfg) path

def routeFinish (xxh3 : List Byte → UInt64) (method : List Byte) (rx : RouteCtx) : RouteOut :=
  ⟨rx.text, xxh3 (method ++ 0 :: rx.fed), rx.flags⟩

def lkNormRoute (xxh3 : List Byte → UInt64) (method target : List Byte) (cfg : RouteCfg) : RouteOut :=
  let rx := routePath cfg method (pathOf target)
  routeFinish xxh3 method
    (if queryOf target = [] then rx else cfg.queryKeys.foldl (queryKeysTo (queryOf target)) rx)

def lkNormRouteGiven (xxh3 : List Byte → UInt64) (method route : List Byte) : RouteOut :=
  let rx := (route.splitOnP isCtl).foldl emit {}
  routeFinish xxh3 method { rx with flags := { rx.flags with given := true } }

end Latkit.Route
