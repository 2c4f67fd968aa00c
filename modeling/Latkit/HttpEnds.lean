import Latkit.HttpLoop

/-! The loops over a call's bytes end, from any state: a turn that reads nothing moves towards the scan, and a scan
always reads. -/

namespace Latkit
open Chunked (Turn)

def HttpDir.Promised (hd : HttpDir) : Prop := hd.st = .body → 0 < hd.bodyLeft

section
variable (dir : Dir) (errBody : Bool)

theorem headComplete_promised (head : List Byte) (ts : Nat) (hst : (s.d dir).st = .head) :
    ((headComplete dir errBody head ts s).d dir).Promised := by
  intro h
  cases dir with
  | recv =>
    simp only [headComplete] at h ⊢
    rcases reqComplete_cases head ts s with ⟨n, heq⟩ | ⟨-, heq⟩ | ⟨line, rl, fr, lfOnly, -, -, heq⟩
    · rw [heq, (httpBadHead_spec .recv n ts s).1] at h
      cases h
    · rw [heq, httpGoBlind_st, hst] at h
      cases h
    · rw [heq] at h ⊢
      obtain ⟨-, -, hne, hleft⟩ := reqAccept_body h
      rw [hleft]
      exact Nat.pos_of_ne_zero hne
  | send =>
    simp only [headComplete] at h ⊢
    rcases respComplete_cases errBody head ts s with ⟨n, heq⟩ | ⟨line, code, minor, fr, lfOnly, -, -, heq⟩
    · rw [heq, (httpBadHead_spec .send n ts s).1] at h
      cases h
    · rw [heq] at h ⊢
      obtain ⟨-, -, -, hne, hleft⟩ := respAccept_body h hst
      rw [hleft]
      exact Nat.pos_of_ne_zero hne

theorem headBegun_st (p : List Byte) (ts : Nat) (s : HttpFrame) : ((headBegun dir p ts s).d dir).st = (s.d dir).st := by
  rw [headBegun, HttpFrame.d_setD, headStart]
  split <;> rfl

theorem headFeed_promised (p : List Byte) (ts : Nat) (hst : (s.d dir).st = .head) :
    ((headFeed dir errBody p ts s).1.d dir).Promised := by
  rcases headFeed_cases dir errBody p ts s with ⟨-, heq⟩ | ⟨-, n, heq⟩ | ⟨-, -, heq⟩ | ⟨-, -, heq⟩
  all_goals rw [heq]
  · intro h
    rw [hst] at h
    cases h
  · intro h
    rw [(httpBadHead_spec dir n ts _).1] at h
    cases h
  · have hc := headComplete_promised dir errBody ((s.d dir).buf ++ headBytes dir p ts s) ts
      ((headBegun_st dir p ts s).trans hst)
    rw [HttpFrame.d_mapD]
    exact hc
  · intro h
    rw [HttpFrame.d_mapD] at h
    dsimp only at h
    rw [headBegun_st, hst] at h
    cases h

theorem scanFeed_promised (ts : Nat) (p : List Byte) (hst : (s.d dir).st = .scan) :
    ((scanFeed dir errBody ts p s).1.d dir).Promised := by
  induction p generalizing s with
  | nil =>
    intro h
    rw [scanFeed, hst] at h
    cases h
  | cons b p ih =>
    rw [scanFeed]
    dsimp only
    split
    · apply headFeed_promised
      cases dir <;> rfl
    · apply ih
      rw [HttpFrame.d_mapD]
      exact hst

theorem scanFeed_reads (ts : Nat) (s : HttpFrame) (hp : p ≠ []) : (scanFeed dir errBody ts p s).2.length < p.length := by
  have hle : ∀ (q : List Byte) (s : HttpFrame), (scanFeed dir errBody ts q s).2.length ≤ q.length := by
    intro q
    induction q with
    | nil => exact fun s => Nat.le_refl 0
    | cons b q ih =>
      intro s
      rw [scanFeed]
      dsimp only
      split
      · exact Nat.le_succ _
      · exact Nat.le_succ_of_le (ih _)
  cases p with
  | nil => exact absurd rfl hp
  | cons b p =>
    rw [scanFeed]
    dsimp only
    split
    · exact Nat.lt_succ_self _
    · exact Nat.lt_succ_of_le (hle p _)

/-- A turn over a chunked body from any state: it reads on, gives the chunks up, or leaves a chunk that has no bytes. -/
structure ChunkTurns (p : List Byte) (s : HttpFrame) (r : HttpFrame × Nat) : Prop where
  noBody : (r.1.d dir).st ≠ .body
  used : r.2 ≤ p.length
  moves : 0 < r.2 ∨ (r.1.d dir).st = .scan ∨ (s.d dir).chunkSt = .data ∧ (r.1.d dir).chunkSt ≠ .data ∧ (r.1.d dir).st = .chunk

theorem ChunkTurns.bad (p : List Byte) (ts : Nat) (s : HttpFrame) :
    ChunkTurns dir p s (httpBadHead dir .chunkBad ts s, 0) := by
  have hst := (httpBadHead_spec dir .chunkBad ts s).1
  exact ⟨by rw [hst]; exact nofun, Nat.zero_le _, .inr (.inl hst)⟩

theorem ChunkTurns.one {hd : HttpDir} (b : Byte) (p : List Byte) (s : HttpFrame) (h : hd.st ≠ .body) :
    ChunkTurns dir (b :: p) s (s.setD dir hd, 1) :=
  ⟨by rw [HttpFrame.d_setD]; exact h, Nat.succ_le_succ (Nat.zero_le _), .inl Nat.one_pos⟩

theorem chunkSizeDone_st (hd : HttpDir) : (chunkSizeDone hd).st = hd.st := by
  rw [chunkSizeDone]
  split <;> rfl

theorem chunkTurn_turns (b : Byte) (p : List Byte) (ts : Nat) (hst : (s.d dir).st = .chunk) :
    ChunkTurns dir (b :: p) s (chunkTurn dir b p ts s) := by
  have hno : (s.d dir).st ≠ .body := by
    rw [hst]
    rintro ⟨⟩
  have hdone : (chunkSizeDone (s.d dir)).st ≠ .body := by
    rw [chunkSizeDone_st]
    exact hno
  have hstay : ChunkTurns dir (b :: p) s (s, 1) := ⟨hno, Nat.succ_le_succ (Nat.zero_le _), .inl Nat.one_pos⟩
  cases hch : (s.d dir).chunkSt with
  | size =>
    rw [chunkTurn]
    dsimp only
    rw [hch]
    dsimp only
    repeat' split
    all_goals first
      | exact .bad ..
      | exact .one dir b p s hdone
      | exact .one dir b p s hno
  | ext =>
    rw [chunkTurn]
    dsimp only
    rw [hch]
    dsimp only
    repeat' split
    · exact .one dir b p s hno
    · exact .one dir b p s hdone
    · exact hstay
  | sizeLf =>
    rw [chunkTurn]
    dsimp only
    rw [hch]
    dsimp only
    split
    · exact .bad ..
    · exact .one dir b p s hdone
  | data =>
    obtain ⟨e, n, r, hadd⟩ := httpBodyAdd_d dir (some (b :: p)) (min (s.d dir).chunkLeft (b :: p).length) ts s
    rw [chunkTurn]
    dsimp only
    rw [hch]
    dsimp only
    refine ⟨?_, Nat.min_le_right _ _, ?_⟩
    · rw [HttpFrame.d_mapD, hadd]
      exact hno
    · by_cases hleft : (s.d dir).chunkLeft = 0
      · right
        right
        rw [HttpFrame.d_mapD, hadd]
        dsimp only
        rw [hleft, Nat.zero_min, if_pos rfl]
        exact ⟨hch, by rintro ⟨⟩, hst⟩
      · left
        dsimp only
        rw [List.length_cons]
        omega
  | dataEol =>
    rw [chunkTurn]
    dsimp only
    rw [hch]
    dsimp only
    repeat' split
    · exact hstay
    · exact .one dir b p s hno
    · exact .bad ..
  | trailer =>
    have hpos := scanBlock_pos (List.cons_ne_nil b p) (s.d dir).atline
    have hle := scanBlock_le (b :: p) (s.d dir).atline
    rw [chunkTurn]
    dsimp only
    rw [hch]
    dsimp only
    refine ⟨?_, hle, .inl hpos⟩
    split
    · rw [httpBodyEnd_st]
      rintro ⟨⟩
    · rw [HttpFrame.d_setD]
      exact hno

def chunkRank (s : HttpFrame) : Nat := if (s.d dir).chunkSt = .data then 1 else 0

theorem ChunkTurns.ranks (h : ChunkTurns dir (b :: p) s r) (hst : (r.1.d dir).st = .chunk) :
    2 * ((b :: p).drop r.2).length + chunkRank dir r.1 < 2 * (b :: p).length + chunkRank dir s := by
  have hrank : chunkRank dir r.1 ≤ 1 := by
    rw [chunkRank]
    split <;> decide
  have hused := h.used
  rw [List.length_drop]
  rcases h.moves with hpos | hscan | ⟨hdata, hno, -⟩
  · omega
  · rw [hst] at hscan
    cases hscan
  · rw [chunkRank, chunkRank, if_pos hdata, if_neg hno]
    omega

theorem chunkFeed_left (n : Nat) (p : List Byte) (ts : Nat) (hst : (s.d dir).st ≠ .chunk) :
    chunkFeed dir ts n p s = (s, p) := by
  cases n with
  | zero => rfl
  | succ n =>
    cases p with
    | nil => rfl
    | cons b p => rw [chunkFeed, if_pos hst]

theorem chunkFeed_fuel (ts : Nat) (hn : 2 * p.length + chunkRank dir s ≤ n) (hm : 2 * p.length + chunkRank dir s ≤ m) :
    chunkFeed dir ts n p s = chunkFeed dir ts m p s := by
  induction n generalizing p s m with
  | zero =>
    have hp : p = [] := List.length_eq_zero_iff.mp (by omega)
    rw [hp]
    cases m <;> rfl
  | succ n ih =>
    cases p with
    | nil => cases m <;> rfl
    | cons b p =>
      obtain ⟨m, rfl⟩ : ∃ k, m = k + 1 := ⟨m - 1, by rw [List.length_cons] at hm; omega⟩
      rw [chunkFeed, chunkFeed]
      by_cases hst : (s.d dir).st = .chunk
      · have hturns := chunkTurn_turns dir b p ts hst
        rw [if_neg (not_not_intro hst), if_neg (not_not_intro hst)]
        dsimp only
        by_cases hst' : ((chunkTurn dir b p ts s).1.d dir).st = .chunk
        · have hranks := hturns.ranks dir hst'
          exact ih (by omega) (by omega)
        · rw [chunkFeed_left dir n _ ts hst', chunkFeed_left dir m _ ts hst']
      · rw [if_pos hst, if_pos hst]

theorem chunkFeed_noBody (ts n : Nat) (p : List Byte) (hst : (s.d dir).st ≠ .body) :
    ((chunkFeed dir ts n p s).1.d dir).st ≠ .body ∧ (chunkFeed dir ts n p s).2.length ≤ p.length := by
  induction n generalizing p s with
  | zero => exact ⟨hst, Nat.le_refl _⟩
  | succ n ih =>
    cases p with
    | nil => exact ⟨hst, Nat.le_refl _⟩
    | cons b p =>
      rw [chunkFeed]
      by_cases hch : (s.d dir).st = .chunk
      · obtain ⟨hno, hle⟩ := ih ((b :: p).drop (chunkTurn dir b p ts s).2) (chunkTurn_turns dir b p ts hch).noBody
        rw [if_neg (not_not_intro hch)]
        rw [List.length_drop] at hle
        exact ⟨hno, Nat.le_trans hle (Nat.sub_le _ _)⟩
      · rw [if_pos hch]
        exact ⟨hst, Nat.le_refl _⟩

theorem chunkFeed_reads (ts : Nat) (b : Byte) (p : List Byte) (hn : 2 ≤ n) (hst : (s.d dir).st = .chunk) :
    (chunkFeed dir ts n (b :: p) s).2.length < (b :: p).length ∨ ((chunkFeed dir ts n (b :: p) s).1.d dir).st = .scan := by
  obtain ⟨n, rfl⟩ : ∃ k, n = k + 1 := ⟨n - 1, by omega⟩
  have hturns := chunkTurn_turns dir b p ts hst
  have hrest := (chunkFeed_noBody dir ts n ((b :: p).drop (chunkTurn dir b p ts s).2) hturns.noBody).2
  rw [chunkFeed, if_neg (not_not_intro hst)]
  dsimp only
  rcases hturns.moves with hpos | hscan | ⟨-, hno, hst'⟩
  · left
    rw [List.length_drop, List.length_cons] at hrest
    rw [List.length_cons]
    omega
  · right
    rw [chunkFeed_left dir n _ ts (by rw [hscan]; rintro ⟨⟩)]
    exact hscan
  · by_cases hused : (chunkTurn dir b p ts s).2 = 0
    · -- a chunk without bytes: the next turn reads, or gives the chunks up
      obtain ⟨n, rfl⟩ : ∃ k, n = k + 1 := ⟨n - 1, by omega⟩
      have hturns' := chunkTurn_turns dir b p ts hst'
      have hrest' := (chunkFeed_noBody dir ts n
        ((b :: p).drop (chunkTurn dir b p ts (chunkTurn dir b p ts s).1).2) hturns'.noBody).2
      rw [hused, List.drop_zero, chunkFeed, if_neg (not_not_intro hst')]
      dsimp only
      rcases hturns'.moves with hpos | hscan | ⟨hdata, -⟩
      · left
        rw [List.length_drop, List.length_cons] at hrest'
        rw [List.length_cons]
        omega
      · right
        rw [chunkFeed_left dir n _ ts (by rw [hscan]; rintro ⟨⟩)]
        exact hscan
      · exact absurd hdata hno
    · left
      rw [List.length_drop, List.length_cons] at hrest
      rw [List.length_cons]
      omega

def TurnMoves (p : List Byte) (s s' : HttpFrame) (rest : List Byte) : Prop :=
  rest.length < p.length ∨
    rest.length = p.length ∧ ((s.d dir).st ≠ .scan ∧ (s'.d dir).st = .scan ∨
      (s.d dir).st = .body ∧ (s.d dir).bodyLeft = 0 ∧ (s'.d dir).st = .head)

theorem httpTurn_moves (ts : Nat) (s : HttpFrame) (hp : p ≠ []) :
    ∃ s' rest, httpTurn dir errBody ts s p = httpGoOn dir p (s.d dir).st s' rest ∧ (s'.d dir).Promised ∧
      TurnMoves dir p s s' rest := by
  have hlen := List.length_pos_iff.mpr hp
  cases hst : (s.d dir).st with
  | head =>
    refine ⟨_, _, by rw [httpTurn, hst], headFeed_promised dir errBody p ts hst, ?_⟩
    by_cases hzero : (headFeed dir errBody p ts s).2 = 0
    · have hscan := (headFeed_moves dir errBody ts s hp).resolve_left (by omega)
      rw [hzero, List.drop_zero]
      exact .inr ⟨rfl, .inl ⟨by rw [hst]; rintro ⟨⟩, hscan⟩⟩
    · left
      rw [List.length_drop]
      omega
  | body =>
    obtain ⟨e, n, r, hadd⟩ := httpBodyAdd_d dir (some p) (min (s.d dir).bodyLeft p.length) ts s
    have hd : ((httpBodyAdd dir (some p) (min (s.d dir).bodyLeft p.length) ts s).mapD dir
        fun hd => { hd with bodyLeft := hd.bodyLeft - min (s.d dir).bodyLeft p.length }).d dir =
        { s.d dir with
          errWant := e, bodySeen := n, afterResync := r
          bodyLeft := (s.d dir).bodyLeft - min (s.d dir).bodyLeft p.length } := by
      rw [HttpFrame.d_mapD, hadd]
    refine ⟨bodyTake dir (some p) (min (s.d dir).bodyLeft p.length) ts s, p.drop (min (s.d dir).bodyLeft p.length),
      by rw [httpTurn, hst]; rfl, ?_, ?_⟩
    · rw [bodyTake]
      split
      · intro h
        rw [httpBodyEnd_st] at h
        cases h
      · next hne => exact fun _ => Nat.pos_of_ne_zero hne
    · by_cases hleft : (s.d dir).bodyLeft = 0
      · right
        refine ⟨by rw [hleft, Nat.zero_min, List.drop_zero], .inr ⟨hst, hleft, ?_⟩⟩
        rw [bodyTake, if_pos (by rw [hd]; exact Nat.sub_eq_zero_of_le (by omega)), httpBodyEnd_st]
      · left
        rw [List.length_drop]
        omega
  | chunk =>
    have hno : (s.d dir).st ≠ .body := by
      rw [hst]
      rintro ⟨⟩
    obtain ⟨hbody, hle⟩ := chunkFeed_noBody dir ts (2 * p.length + 1) p hno
    refine ⟨_, _, by rw [httpTurn, hst], fun h => absurd h hbody, ?_⟩
    obtain ⟨b, q, rfl⟩ := List.exists_cons_of_ne_nil hp
    have hreads := chunkFeed_reads dir ts b q (n := 2 * (b :: q).length + 1) (by rw [List.length_cons]; omega) hst
    rcases Nat.lt_or_eq_of_le hle with hlt | heq
    · exact .inl hlt
    · exact .inr ⟨heq, .inl ⟨by rw [hst]; rintro ⟨⟩, hreads.resolve_left (by omega)⟩⟩
  | close =>
    refine ⟨_, [], by rw [httpTurn, hst], ?_, .inl hlen⟩
    obtain ⟨e, n, r, hadd⟩ := httpBodyAdd_d dir (some p) p.length ts s
    intro h
    rw [hadd] at h
    dsimp only at h
    rw [hst] at h
    cases h
  | scan =>
    refine ⟨_, _, by rw [httpTurn, hst], scanFeed_promised dir errBody ts p hst, .inl ?_⟩
    exact scanFeed_reads dir errBody ts s hp

def httpRank (s : HttpFrame) : Nat :=
  if (s.d dir).st = .scan then 0 else if (s.d dir).st = .body ∧ (s.d dir).bodyLeft = 0 then 2 else 1

theorem httpTurn_ranks (ts : Nat) (s : HttpFrame) (p : List Byte) (s' : HttpFrame) (rest : List Byte) (hp : p ≠ [])
    (ht : httpTurn dir errBody ts s p = .next s' rest) :
    2 * rest.length + httpRank dir s' < 2 * p.length + httpRank dir s := by
  obtain ⟨s₁, rest₁, heq, hprom, hmoves⟩ := httpTurn_moves dir errBody ts s hp
  rw [heq] at ht
  obtain ⟨rfl, rfl, -⟩ := httpGoOn_next ht
  have hrank : httpRank dir s' ≤ 1 := by
    rw [httpRank]
    split
    · exact Nat.zero_le 1
    · rw [if_neg (fun h => Nat.ne_of_gt (hprom h.1) h.2)]
  rcases hmoves with hlt | ⟨hsame, ⟨hno, hscan⟩ | ⟨hbody, hleft, hhead⟩⟩
  · omega
  · have hpos : 0 < httpRank dir s := by
      rw [httpRank, if_neg hno]
      split <;> decide
    rw [httpRank, if_pos hscan, hsame]
    omega
  · rw [hsame, httpRank, httpRank, hhead, hbody, if_neg nofun, if_neg nofun, if_neg nofun, if_pos ⟨rfl, hleft⟩]
    omega

theorem httpTurn_left (ts : Nat) (s : HttpFrame) (p : List Byte) (s' : HttpFrame) (hp : p ≠ [])
    (ht : httpTurn dir errBody ts s p = .ret s') : s'.ignore = true := by
  obtain ⟨s₁, rest, heq, -, hmoves⟩ := httpTurn_moves dir errBody ts s hp
  rw [heq, httpGoOn] at ht
  split at ht
  · next hig =>
    cases ht
    exact hig
  · split at ht
    · next hpark =>
      exfalso
      rcases hmoves with hlt | ⟨-, ⟨hno, hscan⟩ | ⟨hbody, -, hhead⟩⟩
      · omega
      · rw [hpark.2] at hscan
        exact hno hscan
      · rw [hpark.2, hbody] at hhead
        cases hhead
    · cases ht

end

/-- A call's loop ends from every state after at most two turns per byte and one, with all bytes read or the connection
marked, and the loop over a chunked body inside it ends as well. -/
theorem httpStreamBytes_ends (dir : Dir) (errBody : Bool) (p : List Byte) (ts : Nat) (s : HttpFrame) :
    (tlsRecordHead dir ((called dir p.length ts s).d dir) p = true ∧ (httpStreamBytes dir errBody p ts s).tls = true ∨
      ∃ k ≤ 2 * p.length + 1, ∃ rest,
        Chunked.Ends (httpTurn dir errBody ts) k (callOpened dir p ts s) p (httpStreamBytes dir errBody p ts s) rest ∧
          (rest = [] ∨ (httpStreamBytes dir errBody p ts s).ignore = true)) ∧
    ∀ q m, chunkFeed dir ts (2 * q.length + 1 + m) q s = chunkFeed dir ts (2 * q.length + 1) q s := by
  have hrank : ∀ s, httpRank dir s ≤ 2 := by
    intro s
    rw [httpRank]
    repeat' split
    all_goals decide
  constructor
  · rw [httpStreamBytes_eq]
    by_cases htls : tlsRecordHead dir ((called dir p.length ts s).d dir) p = true
    · left
      rw [if_pos htls]
      exact ⟨htls, rfl⟩
    · right
      rw [if_neg htls]
      obtain ⟨k, s', rest, hk, hends⟩ := Chunked.ends_of_rank (httpTurn_ranks dir errBody ts) (callOpened dir p ts s) p
      have hle := hrank (callOpened dir p ts s)
      have hrun : Chunked.run (httpTurn dir errBody ts) (callOpened dir p ts s) p = s' := hends.drive_eq (by omega)
      rw [hrun]
      exact ⟨k, by omega, rest, hends, hends.left_or (Q := fun s' => s'.ignore = true) (httpTurn_left dir errBody ts)⟩
  · intro q m
    have hle : chunkRank dir s ≤ 1 := by
      rw [chunkRank]
      split <;> decide
    exact chunkFeed_fuel dir ts (by omega) (by omega)

end Latkit
