import Latkit.PgBatch

namespace Latkit
open Inflight (UnitRing)

def Interleaves (client server : List Msg) (es : List (Dir × Msg)) : Prop :=
  fromClient es = client ∧ fromServer es = server

def endsBatch (m : Msg) : Bool :=
  feKind m.type == .sync || feKind m.type == .query || feKind m.type == .function

def answers (m : Msg) : Bool :=
  match beKind m.type with
  | .dataRow => true
  | .complete => true
  | .empty => true
  | .suspended => true
  | .funcResponse => true
  | _ => false

/-- The units that wait for an answer behind a reply; a unit is marked when it waits until the Z. -/
def answered (m : Msg) : List Bool → List Bool
  | [] => []
  | z :: zs =>
    match beKind m.type with
    | .complete => if z then z :: zs else zs
    | .empty => if z then z :: zs else zs
    | .suspended => zs
    | .error => if z then z :: zs else []
    | _ => z :: zs

/-- What an onlooker knows of an exchange: the batches that the client has ended and whose Z is still
to come, the units since the last Z, those of them without an answer, and whether the batch has
failed or gone over to COPY. -/
structure Exchange where
  sent : Nat := 0
  count : Nat := 0
  waiting : List Bool := []
  shut : Bool := false
  deriving DecidableEq, Repr

instance (m : Msg) : Decidable (Reply m) :=
  decidable_of_iff (beKind m.type ≠ .ready ∧ beKind m.type ≠ .copyBoth ∧
    (beKind m.type = .complete → (pgWireCstring m.body).1 = true ∨ m.flags.bodyTrunc = true))
    ⟨fun h => ⟨h.1, h.2.1, h.2.2⟩, fun h => ⟨h.1, h.2, h.3⟩⟩

/-- A unit is opened only while its own batch is being answered, before that batch fails and as long
as a slot is left; a reply comes after what it answers, and a Z after the batch it ends. -/
def Exchange.next (x : Exchange) : Dir × Msg → Option Exchange
  | (.recv, m) =>
    if m.flags.startup then none
    else if opens m then
      if x.sent = 0 ∧ x.shut = false ∧ x.count < lkPgMaxInflight then
        some { x with
          sent := (endsBatch m).toNat
          count := x.count + 1
          waiting := x.waiting ++ [untilReady m] }
      else none
    else some { x with sent := x.sent + (endsBatch m).toNat }
  | (.send, m) =>
    if beKind m.type = .ready then
      if 0 < x.sent then some { sent := x.sent - 1 } else none
    else if Reply m ∧ (answers m = true → x.waiting ≠ []) then
      some { x with waiting := answered m x.waiting, shut := x.shut || shuts m }
    else none

def orderly : Exchange → List (Dir × Msg) → Bool
  | _, [] => true
  | x, e :: es =>
    match x.next e with
    | some x' => orderly x' es
    | none => false

/-- The units of the batch that the client is sending, and those of its later batches. -/
def batchUnits : Option PgPrepCache → List Msg → List PgUnit × List (List PgUnit)
  | _, [] => ([], [])
  | prep, m :: ms =>
    let (us, later) := batchUnits (fePrep prep m) ms
    if endsBatch m then (if opens m then [feUnit prep m] else [], us :: later)
    else if opens m then (feUnit prep m :: us, later)
    else (us, later)

/-- The units still to come for the batch that the server answers and for those behind it, when the
client is `sent` batches ahead. -/
def pending : Nat → List PgUnit × List (List PgUnit) → List PgUnit × List (List PgUnit)
  | 0, b => b
  | n + 1, b => ([], List.replicate n [] ++ b.1 :: b.2)

def report : List (List PgUnit) → UnitRing PgUnit → List Msg → List QueryObs
  | _, _, [] => []
  | later, r, m :: ms =>
    if beKind m.type = .ready then
      (readyUnits r m.ts).map (PgUnit.reported m) ++ report later.tail ⟨[], later.headD []⟩ ms
    else report later (ringReply m r) ms

structure Follows (x : Exchange) (s : PgState) : Prop where
  live : s.pc.Live
  phase : x.shut = false → s.pc.phase = .ready
  count : s.pc.view.count = x.count
  waiting : s.pc.view.opened.map PgUnit.zClosed = x.waiting

section
variable {x x' : Exchange} {s : PgState} {m : Msg}

theorem next_recv (h : x.next (.recv, m) = some x') :
    m.flags.startup = false ∧
      (opens m = true ∧ (x.sent = 0 ∧ x.shut = false ∧ x.count < lkPgMaxInflight) ∧
          x' = { x with
            sent := (endsBatch m).toNat
            count := x.count + 1
            waiting := x.waiting ++ [untilReady m] } ∨
        opens m = false ∧ x' = { x with sent := x.sent + (endsBatch m).toNat }) := by
  simp only [Exchange.next] at h
  split at h
  · cases h
  · next hs =>
    refine ⟨by simpa using hs, ?_⟩
    split at h
    · next ho =>
      split at h
      · next hc => exact .inl ⟨ho, hc, (Option.some.inj h).symm⟩
      · cases h
    · next ho => exact .inr ⟨by simpa using ho, (Option.some.inj h).symm⟩

theorem next_send (h : x.next (.send, m) = some x') :
    beKind m.type = .ready ∧ 0 < x.sent ∧ x' = { sent := x.sent - 1 } ∨
      beKind m.type ≠ .ready ∧ Reply m ∧ (answers m = true → x.waiting ≠ []) ∧
        x' = { x with waiting := answered m x.waiting, shut := x.shut || shuts m } := by
  simp only [Exchange.next] at h
  split at h
  · next hk =>
    split at h
    · next hsent => exact .inl ⟨hk, hsent, (Option.some.inj h).symm⟩
    · cases h
  · next hk =>
    split at h
    · next hm => exact .inr ⟨hk, hm.1, hm.2, (Option.some.inj h).symm⟩
    · cases h

theorem closeReply_pushAll (g : PgUnit → PgUnit) {r : UnitRing PgUnit} (h : r.opened ≠ []) (us : List PgUnit) :
    closeReply g (r.pushAll us) = (closeReply g r).pushAll us := by
  rw [closeReply, closeReply, UnitRing.current_pushAll h]
  split
  · exact UnitRing.modify_pushAll g h us
  · exact UnitRing.close_pushAll g h us

theorem ringReply_pushAll (hm : shuts m = false) {r : UnitRing PgUnit} (h : answers m = true → r.opened ≠ [])
    (us : List PgUnit) : ringReply m (r.pushAll us) = (ringReply m r).pushAll us := by
  cases hk : beKind m.type with
  | dataRow =>
    simp only [ringReply, hk]
    exact UnitRing.modify_pushAll _ (h (by simp [answers, hk])) us
  | complete =>
    simp only [ringReply, hk]
    exact closeReply_pushAll _ (h (by simp [answers, hk])) us
  | empty =>
    simp only [ringReply, hk]
    exact closeReply_pushAll _ (h (by simp [answers, hk])) us
  | suspended =>
    simp only [ringReply, hk]
    exact UnitRing.close_pushAll _ (h (by simp [answers, hk])) us
  | funcResponse =>
    simp only [ringReply, hk]
    exact UnitRing.modify_pushAll _ (h (by simp [answers, hk])) us
  | error => simp [shuts, hk] at hm
  | copyIn => simp [shuts, hk] at hm
  | copyOut => simp [shuts, hk] at hm
  | _ => simp only [ringReply, hk]

theorem ringReply_nil (m : Msg) (cl : List PgUnit) : ringReply m ⟨cl, []⟩ = ⟨cl, []⟩ := by
  cases hk : beKind m.type <;>
    simp [ringReply, hk, closeReply, errorReply, UnitRing.current, UnitRing.modify, UnitRing.close, UnitRing.abort]

theorem PgUnit.dataRow_zClosed (ts : Nat) (u : PgUnit) : (u.dataRow ts).zClosed = u.zClosed := by
  rw [PgUnit.dataRow]
  split <;> rfl

theorem closeReply_answered {g : PgUnit → PgUnit} (hg : ∀ u, (g u).zClosed = u.zClosed)
    (cl us : List PgUnit) (u : PgUnit) :
    (closeReply g ⟨cl, u :: us⟩).count = cl.length + (us.length + 1) ∧
      (closeReply g ⟨cl, u :: us⟩).opened.map PgUnit.zClosed =
        if u.zClosed then u.zClosed :: us.map PgUnit.zClosed else us.map PgUnit.zClosed := by
  cases hz : u.zClosed with
  | true => simp [closeReply, UnitRing.current, hz, UnitRing.modify, UnitRing.count, hg]
  | false =>
    have hshift : cl.length + 1 + us.length = cl.length + (us.length + 1) := by omega
    simp [closeReply, UnitRing.current, hz, UnitRing.close, UnitRing.count, hshift]

theorem errorReply_answered {g : PgUnit → PgUnit} (hg : ∀ u, (g u).zClosed = u.zClosed)
    (cl us : List PgUnit) (u : PgUnit) :
    (errorReply g ⟨cl, u :: us⟩).count = cl.length + (us.length + 1) ∧
      (errorReply g ⟨cl, u :: us⟩).opened.map PgUnit.zClosed =
        if u.zClosed then u.zClosed :: us.map PgUnit.zClosed else [] := by
  cases hz : u.zClosed with
  | true => simp [errorReply, UnitRing.current, hz, UnitRing.modify, UnitRing.count, hg]
  | false => simp [errorReply, UnitRing.current, hz, UnitRing.abort, UnitRing.count]

theorem ringReply_answered (m : Msg) (r : UnitRing PgUnit) :
    (ringReply m r).count = r.count ∧
      (ringReply m r).opened.map PgUnit.zClosed = answered m (r.opened.map PgUnit.zClosed) := by
  obtain ⟨cl, _ | ⟨u, us⟩⟩ := r
  · rw [ringReply_nil]
    exact ⟨rfl, rfl⟩
  · cases hk : beKind m.type with
    | dataRow => simp [ringReply, answered, hk, UnitRing.modify, UnitRing.count, PgUnit.dataRow_zClosed]
    | complete =>
      simp only [ringReply, answered, hk]
      exact closeReply_answered (g := PgUnit.complete _ _) (fun _ => rfl) cl us u
    | empty =>
      simp only [ringReply, answered, hk]
      exact closeReply_answered (g := PgUnit.empty _) (fun _ => rfl) cl us u
    | suspended =>
      have hshift : cl.length + 1 + us.length = cl.length + (us.length + 1) := by omega
      simp [ringReply, answered, hk, UnitRing.close, UnitRing.count, hshift]
    | error =>
      simp only [ringReply, answered, hk]
      exact errorReply_answered (g := PgUnit.error _ _) (fun _ => rfl) cl us u
    | _ =>
      constructor <;> simp only [ringReply, answered, hk] <;> rfl

theorem pending_shut {es : List (Dir × Msg)} (h : orderly x es = true) (hshut : x.shut = true)
    (prep : Option PgPrepCache) : (pending x.sent (batchUnits prep (fromClient es))).1 = [] := by
  cases hsent : x.sent with
  | succ n => rfl
  | zero =>
    rw [pending]
    induction es generalizing x prep with
    | nil => rfl
    | cons e es ih =>
      obtain ⟨dir, m⟩ := e
      rw [orderly] at h
      cases hx : x.next (dir, m) with
      | none => simp [hx] at h
      | some x' =>
        simp only [hx] at h
        cases dir with
        | recv =>
          obtain ⟨_, ⟨_, ⟨_, hopen, _⟩, _⟩ | ⟨hquiet, rfl⟩⟩ := next_recv hx
          · rw [hshut] at hopen
            cases hopen
          · change (batchUnits prep (m :: fromClient es)).1 = []
            cases hend : endsBatch m with
            | true => simp [batchUnits, hend, hquiet]
            | false =>
              simp only [batchUnits, hend, hquiet, Bool.false_eq_true, if_false]
              exact ih h hshut _ (by simp [hsent, hend])
        | send =>
          obtain ⟨_, hpos, _⟩ | ⟨_, _, _, rfl⟩ := next_send hx
          · omega
          · exact ih h (by simp [hshut]) prep hsent

theorem feUnit_zClosed (prep : Option PgPrepCache) (hm : opens m = true) :
    (feUnit prep m).zClosed = untilReady m := by
  cases hk : feKind m.type with
  | bind =>
    simp only [feUnit, untilReady, hk, boundUnit]
    repeat' split
    all_goals rfl
  | query => simp [feUnit, untilReady, hk, PgUnit.zClosed]
  | function => simp [feUnit, untilReady, hk, PgUnit.zClosed]
  | _ => simp [opens, hk] at hm

theorem Follows.opened (h : Follows x s) (hs : m.flags.startup = false) (hm : opens m = true)
    (hshut : x.shut = false) (hfit : x.count < lkPgMaxInflight) :
    Stepped s (pgStep s (.recv, m)) (fePrep s.pc.prep m) (s.pc.view.push (feUnit s.pc.prep m)) false ∧
      Follows { x with
        sent := (endsBatch m).toNat
        count := x.count + 1
        waiting := x.waiting ++ [untilReady m] } (pgStep s (.recv, m)) := by
  have hstep := pgStep_open h.live (h.phase hshut) hs hm (by rw [h.count]; exact hfit)
  refine ⟨hstep, hstep.live, fun _ => (hstep.phase rfl).trans (h.phase hshut), ?_, ?_⟩
  · rw [hstep.view, UnitRing.count_push, h.count]
  · rw [hstep.view, UnitRing.push, List.map_append, h.waiting, List.map_singleton, feUnit_zClosed _ hm]

theorem Follows.quiet (h : Follows x s) (hs : m.flags.startup = false) (hm : opens m = false) (n : Nat) :
    Stepped s (pgStep s (.recv, m)) (fePrep s.pc.prep m) s.pc.view false ∧
      Follows { x with sent := n } (pgStep s (.recv, m)) := by
  have hstep := pgStep_quiet h.live hs hm
  refine ⟨hstep, hstep.live, fun hshut => (hstep.phase rfl).trans (h.phase hshut), ?_, ?_⟩
  · rw [hstep.view, h.count]
  · rw [hstep.view, h.waiting]

theorem Follows.replied (h : Follows x s) (hm : Reply m) :
    Stepped s (pgStep s (.send, m)) s.pc.prep (ringReply m s.pc.view) (shuts m) ∧
      Follows { x with waiting := answered m x.waiting, shut := x.shut || shuts m }
        (pgStep s (.send, m)) := by
  have hstep := pgStep_reply h.live hm
  obtain ⟨hcount, hopened⟩ := ringReply_answered m s.pc.view
  refine ⟨hstep, hstep.live, ?_, ?_, ?_⟩
  · intro hshut
    rw [Bool.or_eq_false_iff] at hshut
    exact (hstep.phase hshut.2).trans (h.phase hshut.1)
  · rw [hstep.view, hcount, h.count]
  · rw [hstep.view, hopened, h.waiting]

theorem Follows.settled (hidle : s.pc.Idle) (n : Nat) : Follows { sent := n } s := by
  refine ⟨hidle.live, fun _ => hidle.phase, ?_, ?_⟩
  · rw [hidle.view]
    rfl
  · rw [hidle.view]
    rfl

theorem pgEmits_report {es : List (Dir × Msg)} (h : Follows x s) (ho : orderly x es = true) :
    (pgEmits s es).flatten.map QueryObs.view =
      report (pending x.sent (batchUnits s.pc.prep (fromClient es))).2
        (s.pc.view.pushAll (pending x.sent (batchUnits s.pc.prep (fromClient es))).1) (fromServer es) := by
  induction es generalizing x s with
  | nil => simp [pgEmits, fromServer, report]
  | cons e es ih =>
    obtain ⟨dir, m⟩ := e
    rw [orderly] at ho
    cases hx : x.next (dir, m) with
    | none => simp [hx] at ho
    | some x' =>
      simp only [hx] at ho
      rw [pgEmits, List.flatten_cons, List.map_append]
      cases dir with
      | recv =>
        have hclient : fromClient ((.recv, m) :: es) = m :: fromClient es := rfl
        have hserver : fromServer ((.recv, m) :: es) = fromServer es := rfl
        rw [hclient, hserver]
        obtain ⟨hs, ⟨hm, ⟨hsent, hshut, hfit⟩, rfl⟩ | ⟨hm, rfl⟩⟩ := next_recv hx
        · obtain ⟨hstep, hfollows⟩ := h.opened hs hm hshut hfit
          rw [hstep.newQueries, ih hfollows ho, hstep.prep, hstep.view, hsent]
          cases hend : endsBatch m <;> simp [batchUnits, hend, hm, pending]
        · obtain ⟨hstep, hfollows⟩ := h.quiet hs hm (x.sent + (endsBatch m).toNat)
          rw [hstep.newQueries, ih hfollows ho, hstep.prep, hstep.view]
          cases hend : endsBatch m with
          | false => simp [batchUnits, hend, hm]
          | true =>
            cases hsent : x.sent with
            | zero => simp [batchUnits, hend, hm, pending]
            | succ n => simp [batchUnits, hend, hm, pending, List.replicate_succ']
      | send =>
        have hclient : fromClient ((.send, m) :: es) = fromClient es := rfl
        have hserver : fromServer ((.send, m) :: es) = m :: fromServer es := rfl
        rw [hclient, hserver, report]
        obtain ⟨hk, hpos, rfl⟩ | ⟨hk, hm, hanswers, rfl⟩ := next_send hx
        · obtain ⟨hidle, hprep, hnew⟩ := pgStep_ready h.live hk
          rw [hnew, ih (.settled hidle _) ho, hprep, hidle.view, if_pos hk]
          obtain ⟨n, hn⟩ := Nat.exists_eq_add_one_of_ne_zero (Nat.ne_of_gt hpos)
          rw [hn]
          cases n with
          | zero => simp [pending, UnitRing.pushAll]
          | succ n => simp [pending, UnitRing.pushAll, List.replicate_succ]
        · obtain ⟨hstep, hfollows⟩ := h.replied hm
          rw [hstep.newQueries, ih hfollows ho, hstep.prep, hstep.view, if_neg hk]
          cases hshuts : shuts m with
          | true =>
            have hnone := pending_shut ho (by simp [hshuts]) s.pc.prep
            simp only at hnone
            rw [hnone]
            simp
          | false =>
            have hopened : answers m = true → s.pc.view.opened ≠ [] := by
              intro ha hnil
              apply hanswers ha
              rw [← h.waiting, hnil]
              rfl
            rw [ringReply_pushAll hshuts hopened]
            rfl

end

/-- Two orders of the same exchange report the same units, as long as in both a unit is opened only
after the Z of every earlier batch and before its own batch fails or goes over to COPY. -/
theorem pg_interleaving_invariant (s : PgState) (hidle : s.pc.Idle) (client server : List Msg)
    (es es' : List (Dir × Msg)) (h : Interleaves client server es) (h' : Interleaves client server es')
    (ho : orderly {} es = true) (ho' : orderly {} es' = true) :
    (pgEmits s es).flatten.map QueryObs.view = (pgEmits s es').flatten.map QueryObs.view := by
  rw [pgEmits_report (.settled hidle 0) ho, pgEmits_report (.settled hidle 0) ho', h.1, h.2, h'.1, h'.2]

def twoBinds : List Msg :=
  [{ ts := 1, type := 'B'.toUInt8 }, { ts := 1, type := 'E'.toUInt8 }, { ts := 2, type := 'B'.toUInt8 },
    { ts := 2, type := 'E'.toUInt8 }, { ts := 2, type := 'S'.toUInt8 }]

def twoCompletes : List Msg :=
  [{ ts := 3, type := 'C'.toUInt8, body := "BEGIN".toUTF8.toList ++ [0] },
    { ts := 4, type := 'C'.toUInt8, body := "SELECT 1".toUTF8.toList ++ [0] },
    { ts := 5, type := 'Z'.toUInt8, body := "T".toUTF8.toList }]

/-- The replies may come after both requests or one by one. -/
theorem pg_interleaving_invariant_pair :
    (pgEmits { p := {}, flags := {}, pc := { phase := .ready } }
        (twoBinds.map (fun m => (.recv, m)) ++ twoCompletes.map fun m => (.send, m))).flatten.map
        QueryObs.view =
      (pgEmits { p := {}, flags := {}, pc := { phase := .ready } }
        ((twoBinds.take 2).map (fun m => (.recv, m)) ++ (twoCompletes.take 1).map (fun m => (.send, m)) ++
          (twoBinds.drop 2).map (fun m => (.recv, m)) ++
          (twoCompletes.drop 1).map fun m => (.send, m))).flatten.map QueryObs.view :=
  pg_interleaving_invariant { p := {}, flags := {}, pc := { phase := .ready } } ⟨rfl, rfl, rfl, rfl⟩
    twoBinds twoCompletes _ _ ⟨rfl, rfl⟩ ⟨rfl, rfl⟩ (by decide +kernel) (by decide +kernel)

def errorReplies : List Msg :=
  [{ ts := 3, type := 'E'.toUInt8, body := "C22012".toUTF8.toList ++ [0, 0] },
    { ts := 5, type := 'Z'.toUInt8, body := "I".toUTF8.toList }]

/-- The second Bind is reported as aborted if it is seen before the error, and ignored behind it. -/
theorem pg_interleaving_skipped_bind :
    Interleaves twoBinds errorReplies
        (twoBinds.map (fun m => (.recv, m)) ++ errorReplies.map fun m => (.send, m)) ∧
      Interleaves twoBinds errorReplies
        ((twoBinds.take 2).map (fun m => (.recv, m)) ++ (errorReplies.take 1).map (fun m => (.send, m)) ++
          (twoBinds.drop 2).map (fun m => (.recv, m)) ++
          (errorReplies.drop 1).map fun m => (.send, m)) ∧
      ((pgEmits { p := {}, flags := {}, pc := { phase := .ready } }
        (twoBinds.map (fun m => (.recv, m)) ++ errorReplies.map fun m => (.send, m))).flatten.map
          fun o => (o.tsStart, o.flags.aborted)) = [(1, false), (2, true)] ∧
      ((pgEmits { p := {}, flags := {}, pc := { phase := .ready } }
        ((twoBinds.take 2).map (fun m => (.recv, m)) ++ (errorReplies.take 1).map (fun m => (.send, m)) ++
          (twoBinds.drop 2).map (fun m => (.recv, m)) ++
          (errorReplies.drop 1).map fun m => (.send, m))).flatten.map
          fun o => (o.tsStart, o.flags.aborted)) = [(1, false)] :=
  ⟨⟨rfl, rfl⟩, ⟨rfl, rfl⟩, by decide +kernel, by decide +kernel⟩

end Latkit
