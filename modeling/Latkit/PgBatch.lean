import Latkit.PgRun

namespace Latkit

structure Outcome where
  tsStart : Nat
  tsFirstRow : Nat := 0
  tsComplete : Nat := 0
  tsReady : Nat := 0
  rows : UInt64 := 0
  sqlstate : List Byte := []
  error : Bool := false
  aborted : Bool := false
  deriving DecidableEq, Repr

def QueryObs.outcome (o : QueryObs) : Outcome where
  tsStart := o.tsStart
  tsFirstRow := o.tsFirstRow
  tsComplete := o.tsComplete
  tsReady := o.tsReady
  rows := o.rows
  sqlstate := o.sqlstate
  error := o.flags.error
  aborted := o.flags.aborted

/-- What the server sends for one unit; `last` is its terminator or its error. -/
structure Answer where
  body : List Msg
  last : Msg

def Answer.msgs (a : Answer) : List Msg := a.body ++ [a.last]

/-- One Query, one FunctionCall or the messages up to a Sync, and what the server sends for them: the
answers to the units in order, the failure of the next one if there is one, and the Z. -/
structure Batch where
  requests : List Msg
  answers : List Answer
  failure : Option Answer := none
  ready : Msg

def replyMsgs (as : List Answer) (f : Option Answer) : List Msg :=
  as.flatMap Answer.msgs ++ (f.map Answer.msgs).getD []

namespace Batch

def units (b : Batch) : List Msg := b.requests.filter opens

def replies (b : Batch) : List Msg := replyMsgs b.answers b.failure

def exchange (b : Batch) : List (Dir × Msg) :=
  b.requests.map (fun m => (.recv, m)) ++ b.replies.map fun m => (.send, m)

def messages (b : Batch) : List (Dir × Msg) := b.exchange ++ [(.send, b.ready)]

end Batch

def untilReady (m : Msg) : Bool := feKind m.type != .bind

/-- The messages that leave a unit open: rows and the ones that are no query's reply, and for a unit
that waits for the Z also the ends of its statements. -/
def BeKind.stays (z : Bool) : BeKind → Bool
  | .dataRow => true
  | .auth => true
  | .paramStatus => true
  | .neutral => true
  | .unknown => true
  | .complete => z
  | .empty => z
  | .funcResponse => z
  | _ => false

/-- CommandComplete, EmptyQueryResponse or PortalSuspended, and the answer to a FunctionCall. -/
def BeKind.finishes (z : Bool) : BeKind → Bool
  | .complete => true
  | .empty => true
  | .suspended => true
  | .funcResponse => z
  | _ => false

/-- A timestamp of 0 stands for none, and a CommandComplete that the capture did not cut has its tag. -/
structure Sound (m : Msg) : Prop where
  stamped : 0 < m.ts
  readable : beKind m.type = .complete → (pgWireCstring m.body).1 = true ∨ m.flags.bodyTrunc = true

instance (m : Msg) : Decidable (Sound m) :=
  decidable_of_iff (0 < m.ts ∧
    (beKind m.type = .complete → (pgWireCstring m.body).1 = true ∨ m.flags.bodyTrunc = true))
    ⟨fun h => ⟨h.1, h.2⟩, fun h => ⟨h.1, h.2⟩⟩

structure Answer.Finishes (z : Bool) (a : Answer) : Prop where
  body : ∀ m ∈ a.body, (beKind m.type).stays z = true
  last : (beKind a.last.type).finishes z = true
  sound : ∀ m ∈ a.msgs, Sound m

structure Answer.Fails (z : Bool) (a : Answer) : Prop where
  body : ∀ m ∈ a.body, (beKind m.type).stays z = true
  last : beKind a.last.type = .error
  sound : ∀ m ∈ a.msgs, Sound m

inductive Answered : List Msg → List Answer → Option Answer → Prop where
  | done : Answered [] [] none
  | finished {u us a as f} (h : a.Finishes (untilReady u)) (hrest : Answered us as f) :
      Answered (u :: us) (a :: as) f
  | failed {u us a} (h : a.Fails (untilReady u)) : Answered (u :: us) [] (some a)

inductive Requests : List Msg → Prop where
  | query (h : feKind m.type = .query) : Requests [m]
  | function (h : feKind m.type = .function) : Requests [m]
  | extended (h : ∀ m ∈ ms, feKind m.type ∈ [.parse, .bind, .close, .neutral])
      (hbinds : ms.countP (fun m => feKind m.type == .bind) ≤ 64) (hsync : feKind sync.type = .sync) :
      Requests (ms ++ [sync])

structure Batch.Conforms (b : Batch) : Prop where
  requests : Requests b.requests
  begun : ∀ m ∈ b.requests, m.flags.startup = false
  answered : Answered b.units b.answers b.failure
  ready : beKind b.ready.type = .ready

def firstRow (ms : List Msg) : Nat :=
  match ms.find? fun m => beKind m.type == .dataRow with
  | some m => m.ts
  | none => 0

def rowCount (ms : List Msg) : UInt64 :=
  ((ms.filter fun m => beKind m.type == .complete).map tagCount).sum

def finished (z u : Msg) (a : Answer) : Outcome where
  tsStart := u.ts
  tsFirstRow := firstRow a.msgs
  tsComplete := a.last.ts
  tsReady := z.ts
  rows := rowCount a.msgs

def failed (z u : Msg) (a : Answer) : Outcome where
  tsStart := u.ts
  tsFirstRow := firstRow a.msgs
  tsComplete := a.last.ts
  tsReady := z.ts
  rows := rowCount a.msgs
  sqlstate := errorState a.last []
  error := true

def givenUp (u : Msg) : Outcome where
  tsStart := u.ts
  aborted := true

def outcomes (z : Msg) : List Msg → List Answer → Option Answer → List Outcome
  | u :: us, a :: as, f => finished z u a :: outcomes z us as f
  | u :: us, [], some a => failed z u a :: us.map givenUp
  | _, _, _ => []

def Batch.outcomes (b : Batch) : List Outcome := Latkit.outcomes b.ready b.units b.answers b.failure

theorem Requests.extended_opens (h : ∀ m ∈ ms, feKind m.type ∈ [.parse, .bind, .close, .neutral])
    (hsync : feKind sync.type = .sync) (m : Msg) (hm : m ∈ ms ++ [sync]) :
    opens m = (feKind m.type == .bind) := by
  rw [List.mem_append, List.mem_singleton] at hm
  obtain hm | rfl := hm
  · have hk := h m hm
    simp only [List.mem_cons, List.not_mem_nil, or_false] at hk
    rcases hk with hk | hk | hk | hk <;> rw [opens, hk] <;> rfl
  · rw [opens, hsync]
    rfl

/-- A batch fits the ring: it has one unit that waits for the Z, or at most 64 that do not. -/
theorem Requests.units (h : Requests ms) :
    ms.countP opens ≤ lkPgMaxInflight ∧
      ((∃ m, ms.filter opens = [m] ∧ untilReady m = true) ∨ ∀ m ∈ ms.filter opens, untilReady m = false) := by
  cases h with
  | @query m h =>
    have hm : opens m = true := by simp [opens, h]
    exact ⟨by simp [hm, lkPgMaxInflight], .inl ⟨m, by simp [hm], by simp [untilReady, h]⟩⟩
  | @function m h =>
    have hm : opens m = true := by simp [opens, h]
    exact ⟨by simp [hm, lkPgMaxInflight], .inl ⟨m, by simp [hm], by simp [untilReady, h]⟩⟩
  | @extended ms sync h hbinds hsync =>
    have hopens := Requests.extended_opens h hsync
    refine ⟨?_, .inr ?_⟩
    · rw [List.countP_congr fun m hm => by rw [hopens m hm]]
      simpa [hsync, lkPgMaxInflight] using hbinds
    · intro m hm
      rw [List.mem_filter] at hm
      have hbind := hopens m hm.1
      rw [hm.2] at hbind
      simp [untilReady, beq_iff_eq.mp hbind.symm]

theorem BeKind.stays_reply (h : BeKind.stays z k = true) : k ≠ .ready ∧ k ≠ .copyBoth := by
  constructor <;> rintro rfl <;> cases h

theorem BeKind.finishes_reply (h : BeKind.finishes z k = true) : k ≠ .ready ∧ k ≠ .copyBoth := by
  constructor <;> rintro rfl <;> cases h

theorem Answer.msgs_reply {a : Answer} (hbody : ∀ m ∈ a.body, (beKind m.type).stays z = true)
    (hlast : beKind a.last.type ≠ .ready ∧ beKind a.last.type ≠ .copyBoth)
    (hs : ∀ m ∈ a.msgs, Sound m) : ∀ m ∈ a.msgs, Reply m := by
  intro m hm
  have hk : beKind m.type ≠ .ready ∧ beKind m.type ≠ .copyBoth := by
    rw [Answer.msgs, List.mem_append, List.mem_singleton] at hm
    obtain hm | rfl := hm
    · exact BeKind.stays_reply (hbody m hm)
    · exact hlast
  exact ⟨hk.1, hk.2, (hs m hm).readable⟩

theorem Answered.reply (h : Answered ms as f) : ∀ m ∈ replyMsgs as f, Reply m := by
  induction h with
  | done =>
    intro m hm
    cases hm
  | @finished _ _ a as f ha _ ih =>
    have hmsgs : replyMsgs (a :: as) f = a.msgs ++ replyMsgs as f := by simp [replyMsgs]
    rw [hmsgs, List.forall_mem_append]
    exact ⟨Answer.msgs_reply ha.body (BeKind.finishes_reply ha.last) ha.sound, ih⟩
  | @failed _ _ a ha =>
    have hmsgs : replyMsgs [] (some a) = a.msgs := by simp [replyMsgs]
    rw [hmsgs]
    exact Answer.msgs_reply ha.body (by simp [ha.last]) ha.sound

theorem outcomes_length (h : Answered ms as f) (z : Msg) : (outcomes z ms as f).length = ms.length := by
  induction h with
  | done => rfl
  | finished _ _ ih => rw [outcomes, List.length_cons, ih, List.length_cons]
  | failed _ => simp [outcomes]

end Latkit
