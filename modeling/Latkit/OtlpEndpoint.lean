import Latkit.HttpWire

namespace Latkit
open Delimited (IsField scan_field ends_nil ends_cons)

def otlpDefaultPort : List Byte := "4318".toUTF8.toList

structure Endpoint where
  host : List Byte
  port : List Byte
  base : List Byte
  deriving DecidableEq, Repr

inductive EndpointFault where
  | https
  | scheme
  | malformed
  deriving DecidableEq, Repr

def EndpointFault.message (ep : List Byte) : EndpointFault → List Byte
  | .https => "otlp: https endpoints are not supported in v1 (use http:// to a sidecar Collector); '".toUTF8.toList
      ++ ep ++ "'\n".toUTF8.toList
  | .scheme => "otlp: endpoint must start with http:// ('".toUTF8.toList ++ ep ++ "')\n".toUTF8.toList
  | .malformed => []

def endsHost (c : Byte) : Bool := c == ':'.toUInt8 || c == '/'.toUInt8
def isRb (c : Byte) : Bool := c == ']'.toUInt8
def isPathSlash (c : Byte) : Bool := c == '/'.toUInt8

/-- The host, and the text from `he` on, where the cursor is put back whichever form it had. -/
def endpointHost (p : List Byte) : Option (List Byte × List Byte) :=
  if p.head? = some '['.toUInt8 then
    if p.any isRb then some (p.tail.takeWhile (!isRb ·), p.tail.dropWhile (!isRb ·)) else none
  else some (p.takeWhile (!endsHost ·), p.dropWhile (!endsHost ·))

def endpointPort (p : List Byte) : List Byte × List Byte :=
  if p.head? = some ':'.toUInt8 then (p.tail.takeWhile (!isPathSlash ·), p.tail.dropWhile (!isPathSlash ·)) else ([], p)

def trimmedLen (path : List Byte) : Nat → Nat
  | n + 2 => if path[n + 1]? = some '/'.toUInt8 then trimmedLen path (n + 1) else n + 2
  | n => n

def endpointBase (path : List Byte) : List Byte :=
  let n := trimmedLen path path.length
  if n = 1 ∧ path.head? = some '/'.toUInt8 then [] else path.take n

def parseEndpoint (ep : List Byte) (hostsz portsz basesz : Nat) : Except EndpointFault Endpoint :=
  if spanEqCi (ep.take 7) "http://" then
    match endpointHost (ep.drop 7) with
    | none => .error .malformed
    | some (host, rest) =>
      if host = [] ∨ hostsz ≤ host.length then .error .malformed
      else
        let (given, path) := endpointPort rest
        if given ≠ [] ∧ portsz ≤ given.length then .error .malformed
        else
          let port := if given = [] then otlpDefaultPort.take (portsz - 1) else given
          if path.head? = some '/'.toUInt8 then
            if basesz ≤ (endpointBase path).length then .error .malformed else .ok ⟨host, port, endpointBase path⟩
          else .ok ⟨host, port, []⟩
  else if spanEqCi (ep.take 8) "https://" then .error .https
  else .error .scheme

theorem trimmedLen_le (path : List Byte) (n : Nat) : trimmedLen path n ≤ n := by
  fun_induction trimmedLen path n with
  | case1 n h ih => exact Nat.le_succ_of_le ih
  | case2 n h => exact Nat.le_refl _
  | case3 n h => exact Nat.le_refl _

theorem trimmedLen_append (h : n ≤ path.length) (more : List Byte) : trimmedLen (path ++ more) n = trimmedLen path n := by
  fun_induction trimmedLen path n with
  | case1 n hn ih =>
    rw [trimmedLen, List.getElem?_append_left h, if_pos hn]
    exact ih (Nat.le_of_succ_le h)
  | case2 n hn => rw [trimmedLen, List.getElem?_append_left h, if_neg hn]
  | case3 n hn => rw [trimmedLen]; exact hn

theorem endpointBase_eq (h : path.head? = some '/'.toUInt8) : endpointBase path = path.rdropWhile isPathSlash := by
  induction path using List.reverseRecOn with
  | nil => cases h
  | append_singleton path c ih =>
    cases path with
    | nil =>
      cases h
      rfl
    | cons a path =>
      have hlen : (a :: path ++ [c]).length = path.length + 2 := by simp
      have hlast : (a :: path ++ [c])[path.length + 1]? = some c := by simp
      have hle := trimmedLen_le (a :: path) (path.length + 1)
      have hshort := trimmedLen_append (show path.length + 1 ≤ (a :: path).length from Nat.le_refl _) [c]
      rw [endpointBase, hlen, trimmedLen, hlast]
      by_cases hc : c = '/'.toUInt8
      · have hprev := ih h
        rw [endpointBase] at hprev
        rw [List.rdropWhile_concat_pos _ _ _ (by rw [hc]; rfl), ← hprev, if_pos (congrArg some hc), hshort,
          List.take_append_of_le_length hle]
        rfl
      · have hkeep : ¬ isPathSlash c = true := by simpa [isPathSlash] using hc
        rw [List.rdropWhile_concat_neg _ _ _ hkeep, if_neg (fun he => hc (Option.some.inj he)),
          if_neg (fun he => by omega), ← hlen, List.take_length]

/-- An endpoint that is well formed: a host, in brackets or plain, a port and a path if there are any. -/
structure EndpointForm where
  bracketed : Bool
  host : List Byte
  port : Option (List Byte)
  path : Option (List Byte)
  host_ne : host ≠ []
  host_ok : if bracketed then IsField isRb host else IsField endsHost host ∧ '['.toUInt8 ∉ host
  port_ok : ∀ p ∈ port, p ≠ [] ∧ p.all httpIsDigit = true
  path_ok : ∀ p ∈ path, p.head? = some '/'.toUInt8

namespace EndpointForm

def hostText (e : EndpointForm) : List Byte := if e.bracketed then '['.toUInt8 :: e.host ++ [']'.toUInt8] else e.host
def portText (e : EndpointForm) : List Byte := e.port.elim [] (':'.toUInt8 :: ·)
def text (e : EndpointForm) : List Byte := "http://".toUTF8.toList ++ (e.hostText ++ (e.portText ++ e.path.getD []))

def means (e : EndpointForm) : Endpoint :=
  ⟨e.host, e.port.getD otlpDefaultPort, (e.path.getD []).rdropWhile isPathSlash⟩

structure Fits (e : EndpointForm) (hostsz portsz basesz : Nat) : Prop where
  host : e.means.host.length < hostsz
  port : e.means.port.length < portsz
  default : otlpDefaultPort.length < portsz
  base : e.means.base.length < basesz

end EndpointForm

theorem EndpointForm.path_ends (e : EndpointForm) : Delimited.Ends isPathSlash (e.path.getD []) := by
  cases hpath : e.path with
  | none => exact ends_nil
  | some path =>
    have hhead := e.path_ok path hpath
    cases path with
    | nil => cases hhead
    | cons c path =>
      cases hhead
      exact ends_cons rfl path

theorem EndpointForm.host_ends (e : EndpointForm) : Delimited.Ends endsHost (e.portText ++ e.path.getD []) := by
  cases hport : e.port with
  | none =>
    rw [EndpointForm.portText, hport]
    intro c hc
    have hslash : c = '/'.toUInt8 := by simpa [isPathSlash] using e.path_ends c hc
    rw [hslash]
    rfl
  | some port =>
    rw [EndpointForm.portText, hport]
    exact ends_cons rfl _

theorem endpointHost_plain (e : EndpointForm) (hplain : e.bracketed = false) :
    endpointHost (e.hostText ++ (e.portText ++ e.path.getD [])) = some (e.host, e.portText ++ e.path.getD []) := by
  have hok := e.host_ok
  rw [hplain] at hok
  have hhead : (e.host ++ (e.portText ++ e.path.getD [])).head? ≠ some '['.toUInt8 := by
    obtain ⟨c, host, hhost⟩ := List.exists_cons_of_ne_nil e.host_ne
    rw [hhost]
    intro hc
    cases hc
    exact hok.2 (hhost ▸ List.mem_cons_self ..)
  have hscan := scan_field hok.1 e.host_ends
  rw [EndpointForm.hostText, hplain, if_neg Bool.false_ne_true, endpointHost, if_neg hhead, hscan.1, hscan.2]

theorem endpointHost_bracketed (e : EndpointForm) (hb : e.bracketed = true) (rest : List Byte) :
    endpointHost (e.hostText ++ rest) = some (e.host, ']'.toUInt8 :: rest) := by
  have hok := e.host_ok
  rw [hb, if_pos rfl] at hok
  have hscan := scan_field hok (ends_cons (s := ']'.toUInt8) rfl rest)
  have htext : e.hostText ++ rest = '['.toUInt8 :: (e.host ++ ']'.toUInt8 :: rest) := by
    rw [EndpointForm.hostText, hb, if_pos rfl]
    simp
  have hany : ('['.toUInt8 :: (e.host ++ ']'.toUInt8 :: rest)).any isRb = true := by
    simp [isRb]
  rw [htext, endpointHost, List.head?_cons, if_pos rfl, if_pos hany, List.tail_cons, hscan.1, hscan.2]

theorem digits_field (h : port.all httpIsDigit = true) : IsField isPathSlash port := by
  intro c hc
  have hdigit := List.all_eq_true.mp h c hc
  rw [isPathSlash, beq_eq_false_iff_ne]
  rintro rfl
  exact absurd hdigit (by decide)

theorem endpointPort_form (e : EndpointForm) :
    endpointPort (e.portText ++ e.path.getD []) = (e.port.getD [], e.path.getD []) := by
  cases hport : e.port with
  | none =>
    have hhead : (e.path.getD []).head? ≠ some ':'.toUInt8 := by
      intro hc
      exact absurd (e.path_ends _ hc) (by decide)
    rw [EndpointForm.portText, hport]
    exact if_neg hhead
  | some port =>
    have hscan := scan_field (digits_field (e.port_ok port hport).2) e.path_ends
    rw [EndpointForm.portText, hport, endpointPort]
    simp [hscan.1, hscan.2]

theorem parseEndpoint_http (hhost : endpointHost p = some (host, rest)) (hne : host ≠ []) (hfits : host.length < hostsz)
    (hport : endpointPort rest = (given, path)) (hroom : given.length < portsz) :
    parseEndpoint ("http://".toUTF8.toList ++ p) hostsz portsz basesz =
      if path.head? = some '/'.toUInt8 then
        if basesz ≤ (endpointBase path).length then .error .malformed
        else .ok ⟨host, if given = [] then otlpDefaultPort.take (portsz - 1) else given, endpointBase path⟩
      else .ok ⟨host, if given = [] then otlpDefaultPort.take (portsz - 1) else given, []⟩ := by
  have hlen : "http://".toUTF8.toList.length = 7 := by decide +kernel
  have hscheme : spanEqCi (("http://".toUTF8.toList ++ p).take 7) "http://" = true := by
    rw [← hlen, List.take_left]
    decide +kernel
  have hdrop : ("http://".toUTF8.toList ++ p).drop 7 = p := by rw [← hlen, List.drop_left]
  have hhostOk : ¬ (host = [] ∨ hostsz ≤ host.length) := not_or.mpr ⟨hne, Nat.not_le.mpr hfits⟩
  have hportOk : ¬ (given ≠ [] ∧ portsz ≤ given.length) := fun h => Nat.not_le.mpr hroom h.2
  rw [parseEndpoint, if_pos hscheme, hdrop, hhost]
  dsimp only
  rw [if_neg hhostOk, hport]
  dsimp only
  rw [if_neg hportOk]

theorem EndpointForm.Fits.default_whole (h : EndpointForm.Fits e hostsz portsz basesz) :
    otlpDefaultPort.take (portsz - 1) = otlpDefaultPort :=
  List.take_of_length_le (Nat.le_sub_one_of_lt h.default)

theorem EndpointForm.port_written (e : EndpointForm) (h : e.Fits hostsz portsz basesz) :
    (if e.port.getD [] = [] then otlpDefaultPort.take (portsz - 1) else e.port.getD []) = e.means.port := by
  cases hport : e.port with
  | none => simp [EndpointForm.means, hport, h.default_whole]
  | some port => simp [EndpointForm.means, hport, (e.port_ok port hport).1]

theorem parseEndpoint_plain (e : EndpointForm) (hplain : e.bracketed = false) (h : e.Fits hostsz portsz basesz) :
    parseEndpoint e.text hostsz portsz basesz = .ok e.means := by
  have hroom : (e.port.getD []).length < portsz := by
    cases hport : e.port with
    | none => exact Nat.zero_lt_of_lt h.default
    | some port => simpa [EndpointForm.means, hport] using h.port
  have hbase := h.base
  rw [EndpointForm.text, parseEndpoint_http (endpointHost_plain e hplain) e.host_ne h.host (endpointPort_form e) hroom,
    e.port_written h]
  cases hpath : e.path with
  | none => simp [EndpointForm.means, hpath]
  | some path =>
    have hhead := e.path_ok path hpath
    simp only [EndpointForm.means, hpath, Option.getD_some] at hbase
    rw [Option.getD_some, if_pos hhead, endpointBase_eq hhead, if_neg (Nat.not_le.mpr hbase)]
    simp [EndpointForm.means, hpath]

theorem parseEndpoint_bracketed (e : EndpointForm) (hb : e.bracketed = true) (h : e.Fits hostsz portsz basesz) :
    parseEndpoint e.text hostsz portsz basesz = .ok ⟨e.host, otlpDefaultPort, []⟩ := by
  have hport (rest : List Byte) : endpointPort (']'.toUInt8 :: rest) = ([], ']'.toUInt8 :: rest) :=
    if_neg (by rw [List.head?_cons]; decide)
  rw [EndpointForm.text, parseEndpoint_http (endpointHost_bracketed e hb _) e.host_ne h.host (hport _)
    (Nat.zero_lt_of_lt h.default), if_neg (by rw [List.head?_cons]; decide), if_pos rfl, h.default_whole]

/-- An endpoint is read as it is meant exactly when its host is plain, or nothing but defaults follows it. -/
theorem parseEndpoint_means_iff (e : EndpointForm) (h : e.Fits hostsz portsz basesz) :
    parseEndpoint e.text hostsz portsz basesz = .ok e.means ↔
      (e.bracketed = true → e.port.getD otlpDefaultPort = otlpDefaultPort ∧
        (e.path.getD []).rdropWhile isPathSlash = []) := by
  cases hb : e.bracketed with
  | false => simp [parseEndpoint_plain e hb h]
  | true =>
    rw [parseEndpoint_bracketed e hb h, EndpointForm.means, Except.ok.injEq, Endpoint.mk.injEq]
    constructor
    · intro hmeans _
      exact ⟨hmeans.2.1.symm, hmeans.2.2.symm⟩
    · intro hdefaults
      exact ⟨rfl, (hdefaults rfl).1.symm, (hdefaults rfl).2.symm⟩

def loopbackForm : EndpointForm where
  bracketed := true
  host := "::1".toUTF8.toList
  port := some "4317".toUTF8.toList
  path := none
  host_ne := by decide +kernel
  host_ok := by
    rw [if_pos rfl, Delimited.IsField]
    decide +kernel
  port_ok := by
    intro p hp
    cases hp
    decide +kernel
  path_ok := nofun

theorem loopbackForm_fits : loopbackForm.Fits 256 16 256 := by
  constructor <;> decide +kernel

theorem parseEndpoint_means_iff_loopback :
    loopbackForm.Fits 256 16 256 ∧ (parseEndpoint loopbackForm.text 256 16 256 = .ok loopbackForm.means ↔
      (loopbackForm.bracketed = true → loopbackForm.port.getD otlpDefaultPort = otlpDefaultPort ∧
        (loopbackForm.path.getD []).rdropWhile isPathSlash = [])) :=
  ⟨loopbackForm_fits, parseEndpoint_means_iff loopbackForm loopbackForm_fits⟩

theorem parseEndpoint_drops_port :
    loopbackForm.text = "http://[::1]:4317".toUTF8.toList ∧ loopbackForm.means.port = "4317".toUTF8.toList ∧
      parseEndpoint "http://[::1]:4317".toUTF8.toList 256 16 256 = .ok ⟨"::1".toUTF8.toList, "4318".toUTF8.toList, []⟩ := by
  decide +kernel

end Latkit
