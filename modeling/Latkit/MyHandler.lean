import Latkit.MyQuery

namespace Latkit

def myCopyField (size : Nat) (src : List Byte) : List Byte := (copyField size src).takeWhile (· != 0)

def attrPairs : Nat → List Byte → Bool → List Byte → List Byte
  | 0, _, _, app => app
  | n + 1, w, haveProgram, app =>
    if w.isEmpty then app
    else
      match myWireGetLenencStr w with
      | none => app
      | some (key, w) =>
        match myWireGetLenencStr w with
        | none => app
        | some (val, w) =>
          if keyIs key "program_name" then attrPairs n w true (myCopyField 64 val)
          else if keyIs key "_client_name" && !haveProgram && app.isEmpty then
            attrPairs n w haveProgram (myCopyField 64 val)
          else attrPairs n w haveProgram app

def parseAttrs (w app : List Byte) : List Byte :=
  match myWireGetLenenc w with
  | none => app
  | some (_, w) => attrPairs w.length w false app

/-- What follows the authentication response, which is skipped and never read. Its length is narrowed
to 32 bits. -/
def skipAuth (caps : Nat) (w : List Byte) : Option (List Byte) :=
  if myCapPluginAuthLenenc caps then
    match myWireGetLenenc w with
    | none => none
    | some (alen, w) => myWireSkip w (alen % 2 ^ 32)
  else
    match w with
    | [] => none
    | al :: w => myWireSkip w al.toNat

def responseTail (caps : Nat) (w : List Byte) (se : Session) : Session :=
  let (haveDb, db, w) := if myCapConnectWithDb caps then myWireCstring w else (true, [], w)
  let se := if myCapConnectWithDb caps then { se with database := myCopyField 64 db } else se
  if !haveDb then se
  else
    let (havePlugin, _, w) := if myCapPluginAuth caps then myWireCstring w else (true, [], w)
    if !havePlugin then se
    else if myCapConnectAttrs caps then { se with app := parseAttrs w se.app }
    else se

def responseLabels (pc : MyConn) (cut : Bool) (w : List Byte) : MyConn :=
  let (haveUser, user, w) := myWireCstring w
  let session := { pc.session with complete := !cut, user := myCopyField 64 user }
  let pc := { pc with sess := .auth, session }
  if !haveUser then pc
  else
    match skipAuth pc.caps w with
    | none => pc
    | some w => { pc with session := responseTail pc.caps w session }

/-- HandshakeResponse41. A packet that ends with its fixed header is the SSLRequest, unless it is cut.
A word that cannot be read is left 0. -/
def handshakeResponse (pc : MyConn) (m : Msg) : MyConn :=
  let cut := m.flags.bodyTrunc
  match myWireGetU32 m.body with
  | none => { pc with caps := 0 }
  | some (caps, w) =>
    let pc := { pc with caps, capsKnown := true }
    match myWireGetU32 (w.drop 24) with
    | none =>
      { pc with
        mcaps := if w.length < 24 then pc.mcaps else 0
        sess := if cut then .auth else pc.sess }
    | some (mcaps, w) =>
      let pc := { pc with mcaps := if myCapMysql caps then 0 else mcaps }
      if w.isEmpty then { pc with sess := if cut then .auth else pc.sess }
      else responseLabels pc cut w

/-- COM_CHANGE_USER stages its labels for the OK of the authentication it starts. -/
def mySessionChangeUser (pc : MyConn) (m : Msg) : MyConn :=
  let pc := { myPrepDropAll pc with phase := .handshake, sess := .auth }
  if m.body.isEmpty then pc
  else
    let (haveUser, user, w) := myWireCstring (m.body.drop 1)
    if !haveUser then
      { pc with pendingUser := if user.isEmpty then none else some (myCopyField 64 user) }
    else
      let pc := { pc with pendingUser := some (myCopyField 64 user) }
      match w with
      | [] => pc
      | alen :: w =>
        match myWireSkip w alen.toNat with
        | none => pc
        | some w =>
          let (haveDb, db, _) := myWireCstring w
          if haveDb then { pc with pendingDb := some (myCopyField 64 db) } else pc

end Latkit
