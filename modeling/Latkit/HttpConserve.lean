import Latkit.HttpUnits

namespace Latkit

/-! Conservation of the units over a whole connection. -/

section
variable (d : LkHttpDialect) (cfg : LkHttpCfg)

def movesFrom (s : HttpHs) : List HttpEvent → List (FateQueue.Move HttpFate)
  | [] => []
  | e :: es => unitMove d cfg s e :: movesFrom (httpStep d cfg s e) es

def unitMoves (es : List HttpEvent) : List (FateQueue.Move HttpFate) := movesFrom d cfg {} es

/-- The end of a response that the oldest unit never had the head of. -/
def EndsUnanswered (hc : HttpConn) (m : Msg) : Prop :=
  m.type = lkHttpMsgEnd ∧ hc.respOrphan = false ∧ ∃ u us, hc.units = u :: us ∧ u.haveResp = false

variable {d cfg}

theorem httpRun_snoc (es : List HttpEvent) (e : HttpEvent) :
    httpRun d cfg (es ++ [e]) = httpStep d cfg (httpRun d cfg es) e := by
  rw [httpRun, List.foldl_append]
  rfl

theorem movesFrom_append (s : HttpHs) (es es' : List HttpEvent) :
    movesFrom d cfg s (es ++ es') = movesFrom d cfg s es ++ movesFrom d cfg (es.foldl (httpStep d cfg) s) es' := by
  induction es generalizing s with
  | nil => rfl
  | cons e es ih => rw [List.cons_append, movesFrom, ih, movesFrom, List.cons_append, List.foldl_cons]

theorem unitMoves_snoc (es : List HttpEvent) (e : HttpEvent) :
    unitMoves d cfg (es ++ [e]) = unitMoves d cfg es ++ [unitMove d cfg (httpRun d cfg es) e] :=
  movesFrom_append {} es [e]

theorem unitMoves_at (h : pre ++ [mv] <+: unitMoves d cfg es) :
    ∃ es₁ e, es₁ ++ [e] <+: es ∧ pre = unitMoves d cfg es₁ ∧ mv = unitMove d cfg (httpRun d cfg es₁) e := by
  induction es using List.reverseRecOn with
  | nil => exact absurd (List.prefix_nil.mp h) (by simp)
  | append_singleton es e ih =>
    rw [unitMoves_snoc] at h
    rcases List.prefix_concat_iff.mp h with heq | hle
    · obtain ⟨rfl, hlast⟩ := List.append_inj' heq rfl
      cases hlast
      exact ⟨es, e, List.prefix_rfl, rfl, rfl⟩
    · obtain ⟨es₁, e₁, hpre, hms, hmv⟩ := ih hle
      exact ⟨es₁, e₁, hpre.trans (List.prefix_append es [e]), hms, hmv⟩

structure RunBooks (ms : List (FateQueue.Move HttpFate)) (s : HttpHs) : Prop where
  queue : s.hc.queue = FateQueue.run ms
  reported : s.reported = (FateQueue.fates ms).filterMap HttpFate.obs?
  queries : s.st.queries = ((FateQueue.fates ms).filterMap HttpFate.obs?).length
  resync : s.st.unitsDroppedResync = (FateQueue.fates ms).count .resync
  close : s.st.unitsDroppedClose = (FateQueue.fates ms).count .close

theorem RunBooks.snoc (h : RunBooks ms s) (h' : Books s mv s') : RunBooks (ms ++ [mv]) s' := by
  refine ⟨?_, ?_, ?_, ?_, ?_⟩
  · rw [FateQueue.run_snoc, h'.queue, h.queue]
  · rw [FateQueue.fates_snoc, List.filterMap_append, h'.reported, h.reported]
  · rw [FateQueue.fates_snoc, List.filterMap_append, List.length_append, h'.queries, h.queries]
  · rw [FateQueue.fates_snoc, List.count_append, h'.resync, h.resync]
  · rw [FateQueue.fates_snoc, List.count_append, h'.close, h.close]

theorem httpRun_books (hd : d.AsksOnly) (es : List HttpEvent) :
    RunBooks (unitMoves d cfg es) (httpRun d cfg es) := by
  induction es using List.reverseRecOn with
  | nil => exact ⟨rfl, rfl, rfl, rfl, rfl⟩
  | append_singleton es e ih =>
    rw [unitMoves_snoc, httpRun_snoc]
    exact ih.snoc (httpStep_books hd _ e)

theorem unitMove_cases (s : HttpHs) (e : HttpEvent) :
    (unitMove d cfg s e).fates = [] ∨
      (∃ u us o, s.hc.units = u :: us ∧ u.haveResp = true ∧ unitMove d cfg s e = .leave [.emitted o]) ∨
      (∃ m, e = .msg .send m ∧ EndsUnanswered s.hc m ∧ unitMove d cfg s e = .leave [.lost]) ∨
      ∃ k, k ≤ s.hc.units.length ∧ unitMove d cfg s e = .leave (List.replicate k .resync) := by
  cases e with
  | msg dir m =>
    cases dir with
    | recv =>
      rw [unitMove, msgMove]
      split <;> exact .inl rfl
    | send =>
      rw [unitMove, msgMove]
      split
      · exact .inl rfl
      · split
        · next hend =>
          rw [endMove]
          split
          · exact .inl rfl
          · next horphan =>
            cases hus : s.hc.units with
            | nil => exact .inl rfl
            | cons u us =>
              by_cases hresp : u.haveResp = true
              · simp only [hresp, if_true]
                exact .inr (.inl ⟨u, us, _, rfl, hresp, rfl⟩)
              · simp only [hresp, Bool.false_eq_true, if_false]
                exact .inr (.inr (.inl ⟨m, rfl, ⟨hend, by simpa using horphan, u, us, hus, by simpa using hresp⟩, trivial⟩))
        · exact .inl rfl
  | resync dir =>
    cases dir with
    | recv =>
      rw [unitMove, List.map_const']
      exact .inr (.inr (.inr ⟨_, Nat.le_refl _, rfl⟩))
    | send =>
      rw [unitMove, List.map_const']
      exact .inr (.inr (.inr ⟨_, (List.takeWhile_sublist _).length_le, rfl⟩))

theorem unitMove_unanswered (h : EndsUnanswered s.hc m) : unitMove d cfg s (.msg .send m) = .leave [.lost] := by
  obtain ⟨hend, horphan, u, us, hus, hresp⟩ := h
  rw [unitMove, msgMove, if_neg (by rw [hend]; rintro ⟨h, -⟩; exact absurd h (by decide)), if_pos hend, endMove, horphan,
    hus]
  simp only [hresp, Bool.false_eq_true, if_false]

theorem lost_mem_move (s : HttpHs) (e : HttpEvent) :
    .lost ∈ (unitMove d cfg s e).fates ↔ ∃ m, e = .msg .send m ∧ EndsUnanswered s.hc m := by
  constructor
  · intro h
    rcases @unitMove_cases d cfg s e with hnil | ⟨_, _, _, _, _, hmove⟩ | ⟨m, he, hends, -⟩ | ⟨k, _, hmove⟩
    · rw [hnil] at h
      cases h
    · rw [hmove] at h
      cases List.mem_singleton.mp h
    · exact ⟨m, he, hends⟩
    · rw [hmove] at h
      cases List.eq_of_mem_replicate h
  · rintro ⟨m, rfl, hends⟩
    rw [unitMove_unanswered hends]
    exact List.mem_singleton_self _

theorem unitMove_allowed (s : HttpHs) (e : HttpEvent) : s.hc.queue.Allows (unitMove d cfg s e) := by
  rw [FateQueue.State.Allows, HttpConn.queue, List.length_map]
  rcases @unitMove_cases d cfg s e with hnil | ⟨u, us, _, hus, _, hmove⟩ | ⟨m, _, ⟨_, _, u, us, hus, _⟩, hmove⟩ | ⟨k, hk, hmove⟩
  · rw [hnil]
    exact Nat.zero_le _
  · rw [hmove, hus]
    exact Nat.le_add_left 1 _
  · rw [hmove, hus]
    exact Nat.le_add_left 1 _
  · rw [hmove, FateQueue.Move.fates, List.length_replicate]
    exact hk

theorem unitMove_emitted {k : Nat} (h : (unitMove d cfg s e).fates[k]? = some (.emitted o)) :
    s.hc.queue.marks[k]? = some true := by
  rcases @unitMove_cases d cfg s e with hnil | ⟨u, us, _, hus, hresp, hmove⟩ | ⟨m, _, _, hmove⟩ | ⟨n, _, hmove⟩
  · rw [hnil] at h
    cases h
  · rw [hmove] at h
    cases k with
    | zero => rw [HttpConn.queue, hus, List.map_cons, List.getElem?_cons_zero, hresp]
    | succ k => cases h
  · rw [hmove] at h
    cases List.mem_singleton.mp (List.mem_of_getElem? h)
  · rw [hmove] at h
    cases List.eq_of_mem_replicate (List.mem_of_getElem? h)

theorem closeMove_emitted {k : Nat} (h : (closeMove d cfg lastActivity hc).fates[k]? = some (.emitted o)) :
    hc.queue.marks[k]? = some true := by
  rw [closeMove, FateQueue.Move.fates, closeFront] at h
  rw [HttpConn.queue]
  cases hus : hc.units with
  | nil =>
    rw [hus] at h
    cases h
  | cons u us =>
    simp only [hus] at h
    by_cases hresp : u.haveResp = true
    · rw [if_pos hresp] at h
      cases k with
      | zero => rw [List.map_cons, List.getElem?_cons_zero, hresp]
      | succ k => cases List.eq_of_mem_replicate (List.mem_of_getElem? h)
    · rw [if_neg hresp] at h
      cases List.eq_of_mem_replicate (List.mem_of_getElem? h)

theorem unitMoves_allowed (hd : d.AsksOnly) (es : List HttpEvent) : FateQueue.Allowed (unitMoves d cfg es) := by
  intro pre mv hpre
  obtain ⟨es₁, e, -, rfl, rfl⟩ := unitMoves_at hpre
  rw [← (httpRun_books hd es₁).queue]
  exact unitMove_allowed _ e

def AnsweredBy (d : LkHttpDialect) (cfg : LkHttpCfg) (es : List HttpEvent) (seq : Nat) : Prop :=
  ∃ pre m, pre ++ [.msg .send m] <+: es ∧ m.type = lkHttpMsgResp ∧ (httpReadResp m.body).isSome ∧
    (httpRun d cfg pre).hc.headSeq = seq ∧ (httpRun d cfg pre).hc.units ≠ []

theorem unitMove_mark (h : unitMove d cfg s e = .mark) :
    ∃ m, e = .msg .send m ∧ m.type = lkHttpMsgResp ∧ (httpReadResp m.body).isSome := by
  cases e with
  | msg dir m =>
    cases dir with
    | recv =>
      rw [unitMove, msgMove] at h
      split at h <;> cases h
    | send =>
      rw [unitMove, msgMove] at h
      split at h
      · next hresp => exact ⟨m, rfl, hresp⟩
      · split at h
        · rw [endMove] at h
          split at h
          · cases h
          · split at h
            · cases h
            · split at h <;> cases h
        · cases h
  | resync dir => cases dir <;> cases h

/-- The fates of the units of a connection that is closed, in the order of their requests. -/
def unitFates (d : LkHttpDialect) (cfg : LkHttpCfg) (es : List HttpEvent) (lastActivity : Nat) : List HttpFate :=
  FateQueue.fates (unitMoves d cfg es ++ [closeMove d cfg lastActivity (httpRun d cfg es).hc])

def unitsOpened (d : LkHttpDialect) (cfg : LkHttpCfg) (es : List HttpEvent) : Nat :=
  FateQueue.entered (unitMoves d cfg es)

theorem closeMove_length (lastActivity : Nat) (hc : HttpConn) :
    (closeMove d cfg lastActivity hc).fates.length = hc.units.length := by
  have hle : (closeFront d cfg lastActivity hc).length ≤ hc.units.length := by
    rw [closeFront]
    split
    · exact Nat.zero_le _
    · next heq =>
      rw [heq]
      split
      · exact Nat.le_add_left 1 _
      · exact Nat.zero_le _
  rw [closeMove, FateQueue.Move.fates, List.length_append, List.length_replicate]
  omega

theorem unitFates_length (hd : d.AsksOnly) (es : List HttpEvent) (lastActivity : Nat) :
    (unitFates d cfg es lastActivity).length = unitsOpened d cfg es := by
  have hqueue := (@httpRun_books d cfg hd es).queue
  have hlen : (httpRun d cfg es).hc.units.length = (FateQueue.run (unitMoves d cfg es)).marks.length := by
    rw [← hqueue, HttpConn.queue, List.length_map]
  rw [unitFates, FateQueue.fates_snoc, List.length_append, closeMove_length, ← FateQueue.run_head, hlen, unitsOpened,
    (unitMoves_allowed hd es).entered_eq]

theorem unitFates_emitted (hd : d.AsksOnly) {i : Nat} (h : (unitFates d cfg es lastActivity)[i]? = some (.emitted o)) :
    AnsweredBy d cfg es i := by
  obtain ⟨pre, hpre, hhead, hne⟩ := FateQueue.fates_marked _ h (by
    intro pre mv k hpre hk
    rcases List.prefix_concat_iff.mp hpre with heq | hle
    · obtain ⟨rfl, hlast⟩ := List.append_inj' heq rfl
      cases hlast
      rw [← (httpRun_books hd es).queue]
      exact closeMove_emitted hk
    · obtain ⟨es₁, e, -, rfl, rfl⟩ := unitMoves_at hle
      rw [← (httpRun_books hd es₁).queue]
      exact unitMove_emitted hk)
  rcases List.prefix_concat_iff.mp hpre with heq | hle
  · cases (List.append_inj' heq rfl).2
  · obtain ⟨es₁, e, hes, rfl, hmark⟩ := unitMoves_at hle
    obtain ⟨m, rfl, htype, hread⟩ := unitMove_mark hmark.symm
    rw [← (httpRun_books hd es₁).queue] at hhead hne
    exact ⟨es₁, m, hes, htype, hread, hhead, fun hnil => hne (by rw [HttpConn.queue, hnil]; rfl)⟩

theorem unitMove_mem (h : pre ++ [e] <+: es) : unitMove d cfg (httpRun d cfg pre) e ∈ unitMoves d cfg es := by
  obtain ⟨post, rfl⟩ := h
  rw [List.append_assoc, unitMoves, movesFrom_append]
  exact List.mem_append_right _ List.mem_cons_self

theorem lost_mem_unitFates (es : List HttpEvent) (lastActivity : Nat) :
    .lost ∈ unitFates d cfg es lastActivity ↔
      ∃ pre m, pre ++ [.msg .send m] <+: es ∧ EndsUnanswered (httpRun d cfg pre).hc m := by
  have hclose : .lost ∉ (closeMove d cfg lastActivity (httpRun d cfg es).hc).fates := by
    rw [closeMove, FateQueue.Move.fates, closeFront]
    intro hmem
    rcases List.mem_append.mp hmem with hfront | hrest
    · split at hfront
      · cases hfront
      · split at hfront
        · cases List.mem_singleton.mp hfront
        · cases hfront
    · cases List.eq_of_mem_replicate hrest
  rw [unitFates, FateQueue.fates_snoc, List.mem_append, or_iff_left hclose, FateQueue.fates, List.mem_flatMap]
  constructor
  · rintro ⟨mv, hmem, hlost⟩
    obtain ⟨before, after, hsplit⟩ := List.append_of_mem hmem
    have hpre : before ++ [mv] <+: unitMoves d cfg es := ⟨after, by rw [hsplit, List.append_assoc]; rfl⟩
    obtain ⟨pre, e, hes, -, rfl⟩ := unitMoves_at hpre
    obtain ⟨m, rfl, hends⟩ := (lost_mem_move _ _).mp hlost
    exact ⟨pre, m, hes, hends⟩
  · rintro ⟨pre, m, hes, hends⟩
    exact ⟨_, unitMove_mem hes, (lost_mem_move _ _).mpr ⟨m, rfl, hends⟩⟩

theorem fates_tally (fs : List HttpFate) :
    (fs.filterMap HttpFate.obs?).length + fs.count .resync + fs.count .close + fs.count .lost = fs.length := by
  induction fs with
  | nil => rfl
  | cons f fs ih =>
    rw [List.filterMap_cons, List.count_cons, List.count_cons, List.count_cons, List.length_cons]
    cases f <;> simp [HttpFate.obs?] <;> omega

end

/-- Every unit that a request opened has one fate, by its number: it is emitted once, after a response head was read for
it, or counted once as dropped, or lost; and none is lost exactly when no response ends for a unit without its head. -/
theorem httpUnits_conserved {d : LkHttpDialect} (hd : d.AsksOnly) (cfg : LkHttpCfg) (es : List HttpEvent)
    (lastActivity : Nat) :
    let s := httpOnConnClose d cfg lastActivity (httpRun d cfg es)
    let fates := unitFates d cfg es lastActivity
    fates.length = unitsOpened d cfg es ∧
      s.reported = fates.filterMap HttpFate.obs? ∧
      (∀ (i : Nat) o, fates[i]? = some (.emitted o) → AnsweredBy d cfg es i) ∧
      s.st.unitsDroppedResync = fates.count .resync ∧
      s.st.unitsDroppedClose = fates.count .close ∧
      (.lost ∉ fates ↔
        ∀ pre m, pre ++ [.msg .send m] <+: es → ¬ EndsUnanswered (httpRun d cfg pre).hc m) ∧
      (s.st.queries + s.st.unitsDroppedResync + s.st.unitsDroppedClose = unitsOpened d cfg es ↔
        ∀ pre m, pre ++ [.msg .send m] <+: es → ¬ EndsUnanswered (httpRun d cfg pre).hc m) := by
  intro s fates
  have hbooks : RunBooks _ s := (httpRun_books hd es).snoc (httpOnConnClose_books lastActivity _)
  have hlen : fates.length = unitsOpened d cfg es := unitFates_length hd es lastActivity
  have hlost : .lost ∉ fates ↔ ∀ pre m, pre ++ [.msg .send m] <+: es → ¬ EndsUnanswered (httpRun d cfg pre).hc m := by
    rw [lost_mem_unitFates]
    push Not
    rfl
  refine ⟨hlen, hbooks.reported, fun i o h => unitFates_emitted hd h, hbooks.resync, hbooks.close, hlost, ?_⟩
  have htally := fates_tally fates
  have hqueries : s.st.queries = (fates.filterMap HttpFate.obs?).length := hbooks.queries
  have hresync : s.st.unitsDroppedResync = fates.count .resync := hbooks.resync
  have hclose : s.st.unitsDroppedClose = fates.count .close := hbooks.close
  rw [← hlost, ← List.count_eq_zero, hqueries, hresync, hclose, ← hlen]
  exact ⟨fun h => by omega, fun h => by omega⟩

def plainRequest : Msg :=
  { ts := 1, type := lkHttpMsgReq, body := [71, 69, 84, 32, 47, 32, 72, 84, 84, 80, 47, 49, 46, 49, 13, 10, 13, 10] }
def plainResponse : Msg :=
  { ts := 2, type := lkHttpMsgResp,
    body := [72, 84, 84, 80, 47, 49, 46, 49, 32, 50, 48, 48, 32, 79, 75, 13, 10, 13, 10] }
def plainEnd : Msg := { ts := 3, type := lkHttpMsgEnd }

theorem httpUnits_conserved_exchange :
    (unitFates (lkHttpDialectBase fun _ _ => {}) {}
        [.msg .recv plainRequest, .msg .send plainResponse, .msg .send plainEnd] 4).length = 1 ∧
      ((unitFates (lkHttpDialectBase fun _ _ => {}) {}
        [.msg .recv plainRequest, .msg .send plainResponse, .msg .send plainEnd] 4).filterMap HttpFate.obs?).map
          HttpQueryObs.errCode = [200] := by
  have h := httpUnits_conserved (lkHttpDialectBase_asksOnly fun _ _ => {}) {}
    [.msg .recv plainRequest, .msg .send plainResponse, .msg .send plainEnd] 4
  exact ⟨h.1.trans (by decide +kernel), by rw [← h.2.1]; decide +kernel⟩

/-- A response that began before the connection was seen ends behind the next request: the request's unit is gone, and no
counter says so. -/
theorem httpUnits_lost :
    let es := [HttpEvent.msg .send plainResponse, .msg .recv plainRequest, .msg .send plainEnd]
    let s := httpOnConnClose (lkHttpDialectBase fun _ _ => {}) {} 4 (httpRun (lkHttpDialectBase fun _ _ => {}) {} es)
    unitsOpened (lkHttpDialectBase fun _ _ => {}) {} es = 1 ∧ s.reported = [] ∧
      s.st.unitsDroppedResync = 0 ∧ s.st.unitsDroppedClose = 0 := by
  decide +kernel

end Latkit
